import MapPlan.Proofs.Manifest.Registration
import MapPlan.Proofs.Mapping.Snapshot

/-!
# The first declaration wins

Two manifests are registered together. Of the mappings that they declare for one key, the first one
of a single manifest is kept: of the manifest with the smaller origin, if both declare the key.
Every other one is reported, once and by its own origin and position. In which order the manifests
are registered does not matter.

That a report is of one mapping only rests on what it says of the mapping: an origin and a position
can be read off their text, since no position has a number sign in it.
-/

namespace MapPlan

open scoped List

/-! ## Reports name their entries -/

namespace Provenance

theorem toList_text (p : Provenance) :
    p.text.toList = p.origin.toList ++ '#' :: Nat.toDigits 10 p.ordinal := by
  simp [text, Json.decimal]

theorem text_injective {p q : Provenance} (h : p.text = q.text) : p = q := by
  obtain ⟨origin, n⟩ := p
  obtain ⟨origin', n'⟩ := q
  have hchars := congrArg String.toList h
  rw [toList_text, toList_text] at hchars
  -- The position is what digits there are at the end.
  have hposition : ∀ (n : Nat) (s : List Char),
      (s ++ '#' :: Nat.toDigits 10 n).reverse.takeWhile Char.isDigit =
        (Nat.toDigits 10 n).reverse := by
    intro n s
    have hdigits : ∀ c ∈ (Nat.toDigits 10 n).reverse, c.isDigit := fun c hc =>
      Nat.isDigit_of_mem_toDigits (by decide) (by decide) (List.mem_reverse.1 hc)
    rw [List.reverse_append, List.reverse_cons, List.append_assoc,
      List.takeWhile_append_of_pos hdigits]
    simp
  have hdigits := congrArg (fun s => s.reverse.takeWhile Char.isDigit) hchars
  simp only [hposition, List.reverse_inj] at hdigits
  rw [hdigits] at hchars
  have horigin : origin = origin' := String.toList_inj.1 (List.append_cancel_right hchars)
  have hnumber := congrArg (Nat.ofDigitChars 10 · 0) hdigits
  simp only [Nat.ofDigitChars_ten_toDigits] at hnumber
  rw [horigin, hnumber]

end Provenance

namespace Entry

variable {e e' : Entry}

theorem report_injective (he : e.isExplicit) (he' : e'.isExplicit) (h : e.report = e'.report) :
    e.provenance? = e'.provenance? := by
  obtain ⟨key, config, p, rfl⟩ := eq_explicit_of_isExplicit he
  obtain ⟨key', config', q, rfl⟩ := eq_explicit_of_isExplicit he'
  obtain rfl : key = key' := congrArg Diagnostic.key h
  have hmessage := congrArg Diagnostic.message h
  simp only [report, Diagnostic.duplicate, explicit, String.append_left_inj,
    String.append_right_inj] at hmessage
  exact congrArg some (Provenance.text_injective hmessage)

end Entry

namespace Registry

variable {r : Registry} {added : List Entry} {e : Entry}

/-- If the reports tell the entries apart, there is one on each entry that is not held. -/
theorem Holds.count_report (h : Holds r added) (hreports : (added.map Entry.report).Nodup)
    (he : e ∈ added) :
    r.snapshot.diagnostics.count e.report = if e ∈ r.entries.items then 0 else 1 := by
  have hconflicts : ∀ l : List Entry, (l.map Entry.conflict).count e.report = 0 := by
    intro l
    rw [List.count_eq_zero, List.mem_map]
    rintro ⟨x, _, hx⟩
    cases congrArg Diagnostic.kind hx
  have hsum := h.reported.count_eq e.report
  rw [List.count_append, List.count_eq_one_of_mem hreports (List.mem_map_of_mem he)] at hsum
  rw [h.diagnostics_snapshot.count_eq, List.count_append, hconflicts, Nat.add_zero]
  split
  · rename_i hheld
    have hpos : 0 < (r.entries.items.map Entry.report).count e.report :=
      List.count_pos_iff.2 (List.mem_map_of_mem hheld)
    omega
  · rename_i hheld
    have hzero : (r.entries.items.map Entry.report).count e.report = 0 := by
      rw [List.count_eq_zero, List.mem_map]
      rintro ⟨x, hx, hreport⟩
      rw [List.inj_on_of_nodup_map hreports (h.mem_added x hx) he hreport] at hx
      exact hheld hx
    omega

end Registry

/-! ## Entries of two manifests -/

namespace Manifest

variable {m m' o w : Manifest} {k : Key} {i j : Nat} {d d' : MappingDecl} {e : Entry}

theorem mem_entries : e ∈ m.entries ↔ ∃ i d, m.mappings[i]? = some d ∧ e = m.entry i d := by
  rw [entries, entriesFrom, List.mem_mapIdx]
  simp only [Nat.zero_add]
  constructor
  · rintro ⟨i, hi, rfl⟩
    exact ⟨i, _, List.getElem?_eq_getElem hi, rfl⟩
  · rintro ⟨i, d, hd, rfl⟩
    obtain ⟨hi, rfl⟩ := List.getElem?_eq_some_iff.1 hd
    exact ⟨i, hi, rfl⟩

theorem map_provenance_entriesFrom (m : Manifest) (ordinal : Nat) (decls : List MappingDecl) :
    (m.entriesFrom ordinal decls).map Entry.provenance? =
      (List.range' ordinal decls.length).map fun i => some ⟨m.originName, i⟩ := by
  induction decls generalizing ordinal with
  | nil => rfl
  | cons d decls ih =>
    rw [entriesFrom_cons, List.map_cons, ih, List.length_cons, List.range'_succ, List.map_cons]
    rfl

/-- No two mappings have the same provenance. -/
theorem nodup_provenances (horigin : m.originName ≠ m'.originName) :
    ((m.entries ++ m'.entries).map Entry.provenance?).Nodup := by
  have hnodup : ∀ m : Manifest, (m.entries.map Entry.provenance?).Nodup := by
    intro m
    rw [entries, map_provenance_entriesFrom]
    refine List.Nodup.map (fun i j h => ?_) (List.nodup_range' 1)
    cases h
    rfl
  rw [List.map_append, List.nodup_append']
  refine ⟨hnodup m, hnodup m', fun p hp hp' => ?_⟩
  rw [entries, map_provenance_entriesFrom, List.mem_map] at hp hp'
  obtain ⟨i, -, rfl⟩ := hp
  obtain ⟨j, -, h⟩ := hp'
  exact horigin (congrArg Provenance.origin (Option.some.inj h)).symm

theorem isExplicit_of_mem_entries (he : e ∈ m.entries) : e.isExplicit := by
  obtain ⟨i, d, -, rfl⟩ := mem_entries.1 he
  rfl

theorem isExplicit_of_mem_append (he : e ∈ m.entries ++ m'.entries) : e.isExplicit :=
  (List.mem_append.1 he).elim isExplicit_of_mem_entries isExplicit_of_mem_entries

theorem nodup_reports (horigin : m.originName ≠ m'.originName) :
    ((m.entries ++ m'.entries).map Entry.report).Nodup := by
  have hprovenances := nodup_provenances horigin
  refine List.Nodup.map_on (fun e he e' he' h => ?_) (.of_map _ hprovenances)
  exact List.inj_on_of_nodup_map hprovenances he he'
    (Entry.report_injective (isExplicit_of_mem_append he) (isExplicit_of_mem_append he') h)

/-! ## The mapping that is kept -/

/-- The mapping that decides a key: the first of those that one manifest declares for it, and no
other manifest with a smaller origin declares any. -/
structure Leads (m m' : Manifest) (k : Key) (w : Manifest) (i : Nat) (d : MappingDecl) : Prop where
  mem : w = m ∨ w = m'
  get : w.mappings[i]? = some d
  key : d.key = k
  first : ∀ j d', w.mappings[j]? = some d' → d'.key = k → i ≤ j
  smallest : ∀ o, o = m ∨ o = m' → (∃ d' ∈ o.mappings, d'.key = k) → w.originName ≤ o.originName

theorem le_of_isLE_compare {s t : String} (h : (compare s t).isLE) : s ≤ t :=
  (isLE_compareOfLessAndEq String.le_antisymm String.not_le (String.le_total ·)).1 h

/-- Of two mappings of one key, the one with the smaller origin precedes, and of one origin the
earlier one. -/
theorem le_of_precedence (h : ((w.entry i d).precedence (o.entry j d')).isLE) :
    w.originName ≤ o.originName ∧ (w.originName = o.originName → i ≤ j) := by
  have hprovenance : (compare (⟨w.originName, i⟩ : Provenance) ⟨o.originName, j⟩).isLE :=
    (Ordering.isLE_then_iff_and.1 h).1
  obtain ⟨horigin, hordinal⟩ := Ordering.isLE_then_iff_and.1 hprovenance
  refine ⟨le_of_isLE_compare horigin, fun heq => ?_⟩
  rcases hordinal with hlt | hle
  · exact absurd heq (KeyedMap.ne_of_compare_lt hlt)
  · exact Std.isLE_compare.1 hle

theorem mem_entries_append : e ∈ m.entries ++ m'.entries ↔
    ∃ o, (o = m ∨ o = m') ∧ ∃ j d, o.mappings[j]? = some d ∧ e = o.entry j d := by
  rw [List.mem_append, mem_entries, mem_entries]
  simp only [or_and_right, exists_or, exists_eq_left]

theorem exists_entry_of_mem (hd : d ∈ m.mappings ++ m'.mappings) :
    ∃ e ∈ m.entries ++ m'.entries, e.key = d.key := by
  rcases List.mem_append.1 hd with hd | hd
  · obtain ⟨j, hj⟩ := List.getElem?_of_mem hd
    exact ⟨_, mem_entries_append.2 ⟨m, .inl rfl, j, d, hj, rfl⟩, rfl⟩
  · obtain ⟨j, hj⟩ := List.getElem?_of_mem hd
    exact ⟨_, mem_entries_append.2 ⟨m', .inr rfl, j, d, hj, rfl⟩, rfl⟩

/-- The entry that is kept for a key is that of the mapping which decides the key. -/
theorem exists_leads_of_isKept (hkept : e.IsKept (m.entries ++ m'.entries)) :
    ∃ w i d, Leads m m' e.key w i d ∧ e = w.entry i d := by
  obtain ⟨w, hw, i, d, hget, rfl⟩ := mem_entries_append.1 hkept.mem
  have hleast : ∀ o, o = m ∨ o = m' → ∀ j d', o.mappings[j]? = some d' → d'.key = d.key →
      w.originName ≤ o.originName ∧ (w.originName = o.originName → i ≤ j) :=
    fun o ho j d' hj hkey =>
      le_of_precedence (hkept.least _ (mem_entries_append.2 ⟨o, ho, j, d', hj, rfl⟩) hkey)
  refine ⟨w, i, d, ⟨hw, hget, rfl, fun j d' hj hkey => (hleast w hw j d' hj hkey).2 rfl, ?_⟩, rfl⟩
  rintro o ho ⟨d', hd', hkey⟩
  obtain ⟨j, hj⟩ := List.getElem?_of_mem hd'
  exact (hleast o ho j d' hj hkey).1

/-- An entry of two manifests is the one held for its key if it has the provenance of that one. -/
theorem mem_held_iff {r : Registry} (h : r.Holds (m.entries ++ m'.entries))
    (horigin : m.originName ≠ m'.originName) (hheld : w.entry i d ∈ r.entries.items)
    (he : o.entry j d' ∈ m.entries ++ m'.entries) (hkey : d'.key = d.key) :
    o.entry j d' ∈ r.entries.items ↔ o.originName = w.originName ∧ j = i := by
  constructor
  · intro hmem
    have heq : o.entry j d' = w.entry i d := KeyedMap.eq_of_key_eq hmem hheld hkey
    have hprovenance := congrArg Entry.provenance? heq
    simpa [entry, Entry.explicit, Entry.provenance?] using hprovenance
  · rintro ⟨hname, rfl⟩
    have hprovenance : (o.entry j d').provenance? = (w.entry j d).provenance? := by
      simp [entry, Entry.explicit, Entry.provenance?, hname]
    rw [List.inj_on_of_nodup_map (nodup_provenances horigin) he (h.mem_added _ hheld) hprovenance]
    exact hheld

/-- Two manifests that are registered together, in either order: each key that one of them declares
has the configuration of the mapping which decides it, and every other mapping of the key is
reported once, by its origin and position. -/
theorem register_both (horigin : m.originName ≠ m'.originName)
    (hm : (m.register {}).2 = .ok ()) (hm' : (m'.register {}).2 = .ok ()) :
    ∃ both both' : Registry,
      m'.register (m.register {}).1 = (both, .ok ()) ∧
      m.register (m'.register {}).1 = (both', .ok ()) ∧
      both.snapshot = both'.snapshot ∧
      ∀ k, (∃ d ∈ m.mappings ++ m'.mappings, d.key = k) →
        ∃ w i d e, Leads m m' k w i d ∧ w.Declares i d e ∧ both.snapshot.get? k = some e ∧
          ∀ o, o = m ∨ o = m' → ∀ (j : Nat) d', o.mappings[j]? = some d' → d'.key = k →
            both.snapshot.diagnostics.count
                (.duplicate k (o.originName ++ "#" ++ String.ofList (Json.decimal j))) =
              if o.originName = w.originName ∧ j = i then 0 else 1 := by
  have haddAll : ∀ m m' : Manifest, (m.register {}).2 = .ok () → (m'.register {}).2 = .ok () →
      m'.register (m.register {}).1 = (.addAll {} (m.entries ++ m'.entries), .ok ()) := by
    intro m m' hm hm'
    rw [register_of_ok hm, register_of_ok hm', Registry.addAll, Registry.addAll, Registry.addAll,
      List.foldl_append]
  have hsound : ∀ w : Manifest, w = m ∨ w = m' → ∀ d ∈ w.mappings, ¬ w.Faulty d := by
    rintro w (rfl | rfl) d hd
    · exact fault?_eq_none.1 (registerFrom_snd_eq_ok.1 hm d hd)
    · exact fault?_eq_none.1 (registerFrom_snd_eq_ok.1 hm' d hd)
  have hbuilt : ∀ e ∈ m.entries ++ m'.entries, e.Built := fun e he =>
    .of_isExplicit (isExplicit_of_mem_append he)
  refine ⟨_, _, haddAll m m' hm hm', haddAll m' m hm' hm,
    Registry.snapshot_addAll_of_perm hbuilt List.perm_append_comm, ?_⟩
  have h := Registry.holds_addAll (m.entries ++ m'.entries)
  rintro k ⟨d₀, hd₀, rfl⟩
  obtain ⟨e₀, he₀, hkey₀⟩ := exists_entry_of_mem hd₀
  obtain ⟨kept, hkept, hkey, hget⟩ := h.exists_kept hbuilt he₀
  obtain ⟨w, i, d, hleads, rfl⟩ := exists_leads_of_isKept hkept
  rw [hkey, hkey₀] at hleads
  rw [hkey₀] at hget
  have hsound := hsound w hleads.mem d (List.mem_of_getElem? hleads.get)
  refine ⟨w, i, d, _, hleads, declares_entry hsound, hget, fun o ho j d' hj hkey' => ?_⟩
  have he' := mem_entries_append.2 ⟨o, ho, j, d', hj, rfl⟩
  have hheld := (h.mem_items_iff hbuilt).2 hkept
  have hcount := h.count_report (nodup_reports horigin) he'
  rw [if_congr (mem_held_iff h horigin hheld he' (hkey'.trans hleads.key.symm)) rfl rfl] at hcount
  rw [← hcount, ← hkey']
  rfl

/-- Two mappings of one key, before and behind another one. -/
def sampleLater : Manifest where
  origin := some "b.yaml"
  shapes := .ofList [("A", []), ("B", [])]
  mappings :=
    [{ source := "A", destination := "B", ignore := ["Id"] },
     { source := "B", destination := "A", reverse := true },
     { source := "A", destination := "B" }]

/-- Two more mappings of that key, in a manifest with a smaller origin. -/
def sampleEarlier : Manifest where
  origin := some "a.yaml"
  shapes := .ofList [("A", []), ("B", [])]
  mappings :=
    [{ source := "A", destination := "B", ignore := ["Name"] },
     { source := "A", destination := "B", reverse := true }]

theorem register_both_sample :
    sampleLater.originName ≠ sampleEarlier.originName ∧
    (sampleLater.register {}).2 = .ok () ∧ (sampleEarlier.register {}).2 = .ok () ∧
    ∃ both both' : Registry,
      sampleEarlier.register (sampleLater.register {}).1 = (both, .ok ()) ∧
      sampleLater.register (sampleEarlier.register {}).1 = (both', .ok ()) ∧
      both.snapshot = both'.snapshot ∧
      (∃ e, both.snapshot.get? ⟨"A", "B"⟩ = some e ∧ e.config.ignored ~ ["Name"]) ∧
      both.snapshot.diagnostics.count (.duplicate ⟨"A", "B"⟩ "a.yaml#0") = 0 ∧
      both.snapshot.diagnostics.count (.duplicate ⟨"A", "B"⟩ "a.yaml#1") = 1 ∧
      both.snapshot.diagnostics.count (.duplicate ⟨"A", "B"⟩ "b.yaml#0") = 1 ∧
      both.snapshot.diagnostics.count (.duplicate ⟨"A", "B"⟩ "b.yaml#2") = 1 := by
  have horigin : sampleLater.originName ≠ sampleEarlier.originName := by decide
  have hlater : (sampleLater.register {}).2 = .ok () := by decide
  have hearlier : (sampleEarlier.register {}).2 = .ok () := by decide
  obtain ⟨both, both', hboth, hboth', hsnapshot, hkeys⟩ := register_both horigin hlater hearlier
  obtain ⟨w, i, d, e, hleads, hdeclares, hget, hcount⟩ := hkeys ⟨"A", "B"⟩ ⟨_, .head _, rfl⟩
  obtain rfl : w = sampleEarlier := by
    refine hleads.mem.resolve_left ?_
    rintro rfl
    exact absurd (hleads.smallest sampleEarlier (.inr rfl) ⟨_, .head _, rfl⟩) (by decide)
  obtain rfl : i = 0 := Nat.le_zero.1 (hleads.first 0 _ rfl rfl)
  cases hleads.get
  refine ⟨horigin, hlater, hearlier, both, both', hboth, hboth', hsnapshot,
    ⟨e, hget, hdeclares.config.ignored⟩, ?_⟩
  exact ⟨hcount sampleEarlier (.inr rfl) 0 _ rfl rfl, hcount sampleEarlier (.inr rfl) 1 _ rfl rfl,
    hcount sampleLater (.inl rfl) 0 _ rfl rfl, hcount sampleLater (.inl rfl) 2 _ rfl rfl⟩

end Manifest
end MapPlan
