import MapPlan.Mapping.Registry
import MapPlan.Proofs.Mapping.Diagnostic
import MapPlan.Proofs.Mapping.Entry

/-!
# The order of registration

Of the entries added for one key a registry keeps the least, and it reports all others once. Neither
depends on the order in which they came, and a snapshot is made from no more than that.
-/

namespace MapPlan

open scoped List

namespace Entry

/-- The report on an entry that is not kept. -/
def report (e : Entry) : Diagnostic :=
  .duplicate e.key e.label

end Entry

namespace Registry

variable {r r' : Registry} {e : Entry} {added : List Entry}

/-! ## Adding an entry -/

/-- An entry is new, or takes the place of another, or is reported. -/
theorem add_cases (r : Registry) (e : Entry) :
    (r.entries.find? e.key = none ∧ (r.add e).2 = { r with entries := r.entries.insert e }) ∨
    (∃ held, r.entries.find? e.key = some held ∧ e.precedence held = .lt ∧
      (r.add e).2 = ⟨r.entries.insert e, held.report :: r.duplicates⟩) ∨
    ∃ held, r.entries.find? e.key = some held ∧ e.precedence held ≠ .lt ∧
      (r.add e).2 = { r with duplicates := e.report :: r.duplicates } := by
  rw [add]
  cases hfind : r.entries.find? e.key with
  | none => exact .inl ⟨rfl, rfl⟩
  | some held =>
    have hkey := (KeyedMap.find?_eq_some.1 hfind).2
    by_cases hlt : e.precedence held = .lt
    · refine .inr (.inl ⟨held, rfl, hlt, ?_⟩)
      simp only [hlt, if_true, Entry.report, hkey]
    · refine .inr (.inr ⟨held, rfl, hlt, ?_⟩)
      simp only [hlt, if_false, Entry.report]

/-- What a registry holds after some entries were added: one entry for each of their keys, none of
which another one precedes, and a report for every other entry. -/
structure Holds (r : Registry) (added : List Entry) : Prop where
  mem_added : ∀ x ∈ r.entries.items, x ∈ added
  least : ∀ e ∈ added, ∃ x ∈ r.entries.items, x.key = e.key ∧ (x.precedence e).isLE
  reported : (r.duplicates ++ r.entries.items.map Entry.report).Perm (added.map Entry.report)

theorem holds_empty : Holds {} [] where
  mem_added := nofun
  least := nofun
  reported := .refl _

theorem Holds.of_perm (h : Holds r added) {added' : List Entry} (hperm : added.Perm added') :
    Holds r added' where
  mem_added x hx := hperm.subset (h.mem_added x hx)
  least e he := h.least e (hperm.symm.subset he)
  reported := h.reported.trans (hperm.map _)

theorem Holds.accept (h : Holds r added) (hfind : r.entries.find? e.key = none) :
    Holds { r with entries := r.entries.insert e } (e :: added) where
  mem_added x hx := by
    rcases KeyedMap.mem_insert.1 hx with rfl | ⟨hx, _⟩
    · exact List.mem_cons_self
    · exact List.mem_cons_of_mem _ (h.mem_added x hx)
  least e' he' := by
    rcases List.mem_cons.1 he' with rfl | he'
    · exact ⟨_, KeyedMap.mem_insert.2 (.inl rfl), rfl, Entry.precedence_self _⟩
    · obtain ⟨x, hx, hkey, hle⟩ := h.least e' he'
      exact ⟨x, KeyedMap.mem_insert.2 (.inr ⟨hx, KeyedMap.find?_eq_none.1 hfind x hx⟩), hkey, hle⟩
  reported := by
    have hitems := (KeyedMap.perm_items_insert (m := r.entries) (v := e)).map Entry.report
    rw [KeyedMap.others_of_find? hfind] at hitems
    exact (hitems.append_left _).trans (List.perm_middle.trans (h.reported.cons _))

/-- An entry that precedes the one held takes its place, and the one held is reported. -/
theorem Holds.displace (h : Holds r added) {held : Entry}
    (hfind : r.entries.find? e.key = some held) (hlt : e.precedence held = .lt) :
    Holds ⟨r.entries.insert e, held.report :: r.duplicates⟩ (e :: added) where
  mem_added x hx := by
    rcases KeyedMap.mem_insert.1 hx with rfl | ⟨hx, _⟩
    · exact List.mem_cons_self
    · exact List.mem_cons_of_mem _ (h.mem_added x hx)
  least e' he' := by
    have hinserted : e ∈ (r.entries.insert e).items := KeyedMap.mem_insert.2 (.inl rfl)
    rcases List.mem_cons.1 he' with rfl | he'
    · exact ⟨_, hinserted, rfl, Entry.precedence_self _⟩
    · obtain ⟨x, hx, hkey, hle⟩ := h.least e' he'
      by_cases heq : x.key = e.key
      · have hx' := KeyedMap.find?_eq_some.2 ⟨hx, heq⟩
        obtain rfl : x = held := Option.some.inj (hx'.symm.trans hfind)
        have hbefore : (e.precedence x).isLE := by
          rw [hlt]
          rfl
        exact ⟨e, hinserted, heq.symm.trans hkey, Entry.precedence_trans hbefore hle⟩
      · exact ⟨x, KeyedMap.mem_insert.2 (.inr ⟨hx, heq⟩), hkey, hle⟩
  reported := by
    have hinsert := (KeyedMap.perm_items_insert (m := r.entries) (v := e)).map Entry.report
    have hheld := (KeyedMap.perm_items_of_find? hfind).map Entry.report
    have hreported := (hheld.append_left r.duplicates).symm.trans h.reported
    calc
      _ ~ held.report :: r.duplicates ++ e.report :: (r.entries.others e.key).map Entry.report :=
        hinsert.append_left _
      _ ~ e.report :: held.report :: (r.duplicates ++ (r.entries.others e.key).map Entry.report) :=
        List.perm_middle
      _ ~ e.report :: (r.duplicates ++ held.report :: (r.entries.others e.key).map Entry.report) :=
        List.perm_middle.symm.cons _
      _ ~ e.report :: added.map Entry.report := hreported.cons _

theorem Holds.reject (h : Holds r added) {held : Entry}
    (hfind : r.entries.find? e.key = some held) (hge : e.precedence held ≠ .lt) :
    Holds { r with duplicates := e.report :: r.duplicates } (e :: added) where
  mem_added x hx := List.mem_cons_of_mem _ (h.mem_added x hx)
  least e' he' := by
    rcases List.mem_cons.1 he' with rfl | he'
    · obtain ⟨hheld, hkey⟩ := KeyedMap.find?_eq_some.1 hfind
      exact ⟨held, hheld, hkey, Entry.precedence_of_ne_lt hge⟩
    · exact h.least e' he'
  reported := h.reported.cons _

theorem Holds.add (h : Holds r added) (e : Entry) : Holds (r.add e).2 (e :: added) := by
  rcases add_cases r e with ⟨hfind, hadd⟩ | ⟨held, hfind, hlt, hadd⟩ | ⟨held, hfind, hge, hadd⟩
  · rw [hadd]
    exact h.accept hfind
  · rw [hadd]
    exact h.displace hfind hlt
  · rw [hadd]
    exact h.reject hfind hge

theorem Holds.addAll (h : Holds r added) (l : List Entry) :
    Holds (r.addAll l) (l.reverse ++ added) := by
  induction l generalizing r added with
  | nil => exact h
  | cons e rest ih =>
    rw [List.reverse_cons, List.append_assoc]
    exact ih (h.add e)

theorem holds_addAll (l : List Entry) : Holds (addAll {} l) l := by
  have h := holds_empty.addAll l
  rw [List.append_nil] at h
  exact h.of_perm l.reverse_perm

/-! ## Adding to any registry -/

/-- Adding does not look at what was reported before. -/
theorem add_append (m : KeyedMap Entry.key) (d d' : List Diagnostic) (e : Entry) :
    (add ⟨m, d ++ d'⟩ e).2 = ⟨(add ⟨m, d⟩ e).2.entries, (add ⟨m, d⟩ e).2.duplicates ++ d'⟩ := by
  rw [add, add]
  cases m.find? e.key with
  | none => rfl
  | some held => by_cases hlt : e.precedence held = .lt <;> simp [hlt]

theorem addAll_append (m : KeyedMap Entry.key) (d d' : List Diagnostic) (l : List Entry) :
    addAll ⟨m, d ++ d'⟩ l = ⟨(addAll ⟨m, d⟩ l).entries, (addAll ⟨m, d⟩ l).duplicates ++ d'⟩ := by
  induction l generalizing m d with
  | nil => rfl
  | cons e rest ih =>
    rw [addAll, List.foldl_cons, add_append]
    exact ih _ _

theorem holds_items (m : KeyedMap Entry.key) : Holds ⟨m, []⟩ m.items where
  mem_added _ hx := hx
  least e he := ⟨e, he, rfl, Entry.precedence_self e⟩
  reported := .refl _

/-- Of the entries that are there and those that are added, the least of each key is kept, and every
other one is reported in front of what was reported before. -/
theorem exists_holds_addAll (r : Registry) (l : List Entry) :
    ∃ reports, (r.addAll l).duplicates = reports ++ r.duplicates ∧
      Holds ⟨(r.addAll l).entries, reports⟩ (r.entries.items ++ l) := by
  have happend := addAll_append r.entries [] r.duplicates l
  rw [List.nil_append] at happend
  have hperm : l.reverse ++ r.entries.items ~ r.entries.items ++ l :=
    (l.reverse_perm.append_right _).trans List.perm_append_comm
  refine ⟨(addAll ⟨r.entries, []⟩ l).duplicates, congrArg duplicates happend, ?_⟩
  rw [happend]
  exact ((holds_items r.entries).addAll l).of_perm hperm

/-! ## Permutations -/

/-- The entries held are determined by those added, as a set. -/
theorem Holds.entries_eq (h : Holds r added) (h' : Holds r' added) (hbuilt : ∀ e ∈ added, e.Built) :
    r.entries = r'.entries := by
  have hsub : ∀ {r r' : Registry}, Holds r added → Holds r' added →
      ∀ x ∈ r.entries.items, x ∈ r'.entries.items := by
    intro r r' h h' x hx
    obtain ⟨y, hy, hyx, hle⟩ := h'.least x (h.mem_added x hx)
    obtain ⟨z, hz, hzy, hle'⟩ := h.least y (h'.mem_added y hy)
    -- The entry that `r` holds for the key of `x` is `x`, so `x` and `y` do not precede each other.
    obtain rfl := KeyedMap.eq_of_key_eq hz hx (hzy.trans hyx)
    have heq := Entry.precedence_antisymm hle' hle
    rw [(hbuilt z (h.mem_added z hz)).eq_of_precedence (hbuilt y (h'.mem_added y hy)) hzy heq]
    exact hy
  exact KeyedMap.ext_mem fun x => ⟨hsub h h' x, hsub h' h x⟩

theorem Holds.duplicates_perm (h : Holds r added) (h' : Holds r' added)
    (hentries : r.entries = r'.entries) : r.duplicates ~ r'.duplicates := by
  have hreported := h'.reported
  rw [← hentries] at hreported
  exact (List.perm_append_right_iff _).1 (h.reported.trans hreported.symm)

/-! ## Snapshots -/

/-- Deriving a reverse looks at the entries only. -/
theorem derive_append (m : KeyedMap Entry.key) (d d' : List Diagnostic) (forward : Entry) :
    Snapshot.derive ⟨m, d ++ d'⟩ forward =
      ⟨(Snapshot.derive ⟨m, d⟩ forward).entries,
        (Snapshot.derive ⟨m, d⟩ forward).diagnostics ++ d'⟩ := by
  rw [Snapshot.derive, Snapshot.derive]
  cases m.contains forward.key.inverse <;> rfl

theorem foldl_derive_append (forwards : List Entry) (m : KeyedMap Entry.key)
    (d d' : List Diagnostic) :
    forwards.foldl Snapshot.derive ⟨m, d ++ d'⟩ =
      ⟨(forwards.foldl Snapshot.derive ⟨m, d⟩).entries,
        (forwards.foldl Snapshot.derive ⟨m, d⟩).diagnostics ++ d'⟩ := by
  induction forwards generalizing m d with
  | nil => rfl
  | cons forward rest ih =>
    rw [List.foldl_cons, List.foldl_cons, derive_append]
    exact ih _ _

/-- A snapshot of a registry, with the conflicts among its entries apart from its reports. -/
theorem snapshot_eq (r : Registry) :
    r.snapshot =
      ⟨(r.forwards.foldl Snapshot.derive ⟨r.entries, []⟩).entries,
        Diagnostic.sort
          ((r.forwards.foldl Snapshot.derive ⟨r.entries, []⟩).diagnostics ++ r.duplicates)⟩ := by
  have hfold := foldl_derive_append r.forwards r.entries [] r.duplicates
  rw [List.nil_append] at hfold
  rw [snapshot, hfold]

theorem snapshot_congr (hentries : r.entries = r'.entries)
    (hduplicates : r.duplicates ~ r'.duplicates) : r.snapshot = r'.snapshot := by
  rw [snapshot_eq, snapshot_eq, forwards, forwards, ← hentries,
    Diagnostic.sort_eq_of_perm (hduplicates.append_left _)]

/-- The order in which entries are added does not show in a snapshot. -/
theorem snapshot_addAll_of_perm {l l' : List Entry} (hbuilt : ∀ e ∈ l, e.Built) (hperm : l ~ l') :
    (addAll {} l).snapshot = (addAll {} l').snapshot := by
  have h := holds_addAll l
  have h' := (holds_addAll l').of_perm hperm.symm
  have hentries := h.entries_eq h' hbuilt
  exact snapshot_congr hentries (h.duplicates_perm h' hentries)

/-- Two configurations of one key and provenance, an entry in the way of a reverse, and that
reverse itself. -/
def sampleEntries : List Entry :=
  [.explicit ⟨"A", "B"⟩ { reverse := true } ⟨"o", 0⟩,
   .explicit ⟨"A", "B"⟩ { ignoreUnmatched := true } ⟨"o", 0⟩,
   .explicit ⟨"B", "A"⟩ {} ⟨"o", 1⟩,
   .reverseOf (.explicit ⟨"A", "B"⟩ {} ⟨"o", 2⟩)]

theorem built_sample : ∀ e ∈ sampleEntries, e.Built := by
  simp only [sampleEntries, List.forall_mem_cons]
  exact ⟨.explicit .., .explicit .., .explicit .., .reverseOf (.explicit ..), nofun⟩

theorem snapshot_sample :
    (∀ e ∈ sampleEntries, e.Built) ∧ sampleEntries ~ sampleEntries.reverse ∧
    (addAll {} sampleEntries).snapshot = (addAll {} sampleEntries.reverse).snapshot :=
  ⟨built_sample, sampleEntries.reverse_perm.symm,
    snapshot_addAll_of_perm built_sample sampleEntries.reverse_perm.symm⟩

end Registry
end MapPlan
