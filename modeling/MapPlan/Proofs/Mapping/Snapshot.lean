import Mathlib.Data.List.Perm.Subperm
import MapPlan.Proofs.Mapping.Registry

/-!
# What a snapshot holds

A snapshot of explicit entries in terms of the entries alone. For each key that was added it holds
the entry that precedes the others of that key, and for the inverse of such an entry's key, if it
was not added too, the reverse that the entry asks for. Each entry that is not kept is reported
once, and each reverse that is asked for in vain.

No derived entry is in the way of another one, since entries with different keys have different
inverse keys. So what a snapshot derives depends on the kept entries and not on their order.
-/

namespace MapPlan

open scoped List

theorem Key.inverse_injective {k l : Key} (h : k.inverse = l.inverse) : k = l :=
  congrArg Key.inverse h

namespace Entry

variable {added : List Entry} {e e' : Entry}

/-- The entry was added, and no entry that was added for its key goes before it. -/
structure IsKept (added : List Entry) (e : Entry) : Prop where
  mem : e ∈ added
  least : ∀ e' ∈ added, e'.key = e.key → (e.precedence e').isLE

/-- Does the entry ask for a reverse that can be derived? -/
def asksReverse (e : Entry) : Bool :=
  e.config.reverse && !e.key.isSelf

/-- The report on an entry whose reverse has the key of another one. -/
def conflict (e : Entry) : Diagnostic :=
  .reverseConflict e.key.inverse e.key

theorem eq_explicit_of_isExplicit (h : e.isExplicit) :
    ∃ key config provenance, e = .explicit key config provenance := by
  obtain ⟨key, config, origin⟩ := e
  cases origin with
  | explicit p => exact ⟨key, config, p, rfl⟩
  | synthesized k => cases h

theorem Built.of_isExplicit (h : e.isExplicit) : e.Built := by
  obtain ⟨key, config, provenance, rfl⟩ := eq_explicit_of_isExplicit h
  exact .explicit key config provenance

theorem label_of_isExplicit (h : e.isExplicit) :
    ∃ p, e.provenance? = some p ∧
      e.label = p.origin ++ "#" ++ String.ofList (Json.decimal p.ordinal) := by
  obtain ⟨key, config, provenance, rfl⟩ := eq_explicit_of_isExplicit h
  exact ⟨provenance, rfl, rfl⟩

/-- One entry is kept for a key. -/
theorem IsKept.unique (h : IsKept added e) (h' : IsKept added e') (hbuilt : ∀ e ∈ added, e.Built)
    (hkey : e.key = e'.key) : e = e' := by
  have heq := precedence_antisymm (h.least e' h'.mem hkey.symm) (h'.least e h.mem hkey)
  exact (hbuilt e h.mem).eq_of_precedence (hbuilt e' h'.mem) hkey heq

end Entry

/-! ## Deriving reverses -/

namespace Snapshot

variable {m : KeyedMap Entry.key} {d : List Diagnostic} {forward : Entry} {forwards : List Entry}

theorem derive_of_contains (h : m.contains forward.key.inverse = true) :
    derive ⟨m, d⟩ forward = ⟨m, forward.conflict :: d⟩ :=
  if_pos h

theorem derive_of_not_contains (h : m.contains forward.key.inverse = false) :
    derive ⟨m, d⟩ forward = ⟨m.insert forward.reverseOf, d⟩ :=
  if_neg (Bool.eq_false_iff.1 h)

/-- The reverse of one entry does not take the key for the reverse of another one. -/
theorem contains_insert_reverseOf {e : Entry} (h : forward.key ≠ e.key) :
    (m.insert forward.reverseOf).contains e.key.inverse = m.contains e.key.inverse := by
  have hne : forward.reverseOf.key ≠ e.key.inverse := mt Key.inverse_injective h
  rw [KeyedMap.contains, KeyedMap.contains, KeyedMap.find?_insert_of_ne hne]

theorem mem_insert_reverseOf (h : m.contains forward.key.inverse = false) {x : Entry} :
    x ∈ (m.insert forward.reverseOf).items ↔ x ∈ m.items ∨ x = forward.reverseOf := by
  have hfree := KeyedMap.find?_eq_none.1 (Option.not_isSome_iff_eq_none.1 (Bool.eq_false_iff.1 h))
  rw [KeyedMap.mem_insert, or_comm]
  exact or_congr_left (and_iff_left_of_imp fun hx => hfree x hx)

/-- Entries with different keys: a reverse is derived from each whose inverse key is free at first,
and the others are reported. -/
theorem foldl_derive_spec (hkeys : forwards.Pairwise fun e e' => e.key ≠ e'.key) :
    (∀ x, x ∈ (forwards.foldl derive ⟨m, d⟩).entries.items ↔
      x ∈ m.items ∨ ∃ e ∈ forwards, m.contains e.key.inverse = false ∧ x = e.reverseOf) ∧
    (forwards.foldl derive ⟨m, d⟩).diagnostics ~
      (forwards.filter fun e => m.contains e.key.inverse).map Entry.conflict ++ d := by
  induction forwards generalizing m d with
  | nil => exact ⟨fun x => by simp, .refl _⟩
  | cons forward rest ih =>
    obtain ⟨hfirst, hrest⟩ := List.pairwise_cons.1 hkeys
    rw [List.foldl_cons]
    cases hcontains : m.contains forward.key.inverse with
    | true =>
      obtain ⟨hitems, hdiagnostics⟩ := @ih m (forward.conflict :: d) hrest
      rw [derive_of_contains hcontains, List.filter_cons, if_pos hcontains]
      refine ⟨fun x => ?_, hdiagnostics.trans List.perm_middle⟩
      simp [hitems, hcontains]
    | false =>
      obtain ⟨hitems, hdiagnostics⟩ := @ih (m.insert forward.reverseOf) d hrest
      have hsame : ∀ e ∈ rest, (m.insert forward.reverseOf).contains e.key.inverse =
          m.contains e.key.inverse := fun e he => contains_insert_reverseOf (hfirst e he)
      rw [derive_of_not_contains hcontains, List.filter_cons,
        if_neg (Bool.eq_false_iff.1 hcontains)]
      refine ⟨fun x => ?_, ?_⟩
      · rw [hitems, mem_insert_reverseOf hcontains, or_assoc, List.exists_mem_cons_iff]
        refine or_congr_right (or_congr (by simp [hcontains]) ?_)
        exact exists_congr fun e => and_congr_right fun he => by rw [hsame e he]
      · rwa [List.filter_congr hsame] at hdiagnostics

/-- What a snapshot says of the explicit entries that were added. -/
structure Describes (added : List Entry) (s : Snapshot) : Prop where
  /-- The keys are those added, and the inverse keys of the kept entries that ask for a reverse. -/
  mem_keys : ∀ k, k ∈ s.keys ↔ (∃ e ∈ added, e.key = k) ∨
    ∃ e : Entry, e.IsKept added ∧ e.config.reverse ∧ e.key.source ≠ e.key.destination ∧
      e.key.inverse = k
  /-- A key that was added holds the entry that is kept for it. -/
  held : ∀ e ∈ added, ∃ kept : Entry, kept.IsKept added ∧ kept.key = e.key ∧
    s.get? e.key = some kept
  /-- Any other key holds the reverse of the entry that is kept for its inverse. -/
  derived : ∀ k ∈ s.keys, (∀ e ∈ added, e.key ≠ k) →
    ∃ kept : Entry, kept.IsKept added ∧ kept.key = k.inverse ∧
      s.get? k = some ⟨k, { reverse := false, ignoreUnmatched := false, directives := .empty },
        .synthesized kept.key⟩
  /-- Entries that are not kept are reported, and so are the reverses whose keys were added. -/
  reported : ∃ kept discarded, added ~ kept ++ discarded ∧ kept.Nodup ∧
    (∀ e, e ∈ kept ↔ e.IsKept added) ∧
    s.diagnostics ~ discarded.map (fun e => .duplicate e.key e.label) ++
      (kept.filter fun e => e.config.reverse && !e.key.isSelf &&
        added.any (·.key = e.key.inverse)).map fun e => .reverseConflict e.key.inverse e.key
  /-- A report names an entry by its provenance. -/
  named : ∀ e ∈ added, ∃ p, e.provenance? = some p ∧
    e.label = p.origin ++ "#" ++ String.ofList (Json.decimal p.ordinal)

end Snapshot

namespace Registry

variable {r : Registry} {added : List Entry} {e : Entry}

theorem mem_forwards : e ∈ r.forwards ↔ e ∈ r.entries.items ∧ e.asksReverse :=
  List.mem_filter

theorem pairwise_forwards (r : Registry) : r.forwards.Pairwise fun e e' => e.key ≠ e'.key :=
  (r.entries.sorted.imp KeyedMap.ne_of_compare_lt).filter _

theorem Holds.isKept (h : Holds r added) (he : e ∈ r.entries.items) : e.IsKept added := by
  refine ⟨h.mem_added e he, fun e' he' hkey => ?_⟩
  obtain ⟨x, hx, hxkey, hle⟩ := h.least e' he'
  rwa [KeyedMap.eq_of_key_eq hx he (hxkey.trans hkey)] at hle

/-- The entries held are the kept ones. -/
theorem Holds.mem_items_iff (h : Holds r added) (hbuilt : ∀ e ∈ added, e.Built) :
    e ∈ r.entries.items ↔ e.IsKept added := by
  constructor
  · exact h.isKept
  · intro he
    obtain ⟨x, hx, hkey, hle⟩ := h.least e he.mem
    have hkept : x.IsKept added := by
      refine ⟨h.mem_added x hx, fun e' he' hkey' => ?_⟩
      exact Entry.precedence_trans hle (he.least e' he' (hkey'.trans hkey))
    rwa [← hkept.unique he hbuilt hkey]

theorem Holds.contains_iff (h : Holds r added) {k : Key} :
    r.entries.contains k ↔ ∃ e ∈ added, e.key = k := by
  rw [KeyedMap.contains_iff, KeyedMap.keys, List.mem_map]
  constructor
  · rintro ⟨x, hx, rfl⟩
    exact ⟨x, h.mem_added x hx, rfl⟩
  · rintro ⟨e, he, rfl⟩
    obtain ⟨x, hx, hkey, _⟩ := h.least e he
    exact ⟨x, hx, hkey⟩

/-- The entries that were added are those held and others, and the others are reported. -/
theorem Holds.exists_discarded (h : Holds r added) :
    ∃ discarded, added ~ r.entries.items ++ discarded ∧
      r.duplicates ~ discarded.map Entry.report := by
  obtain ⟨items, hitems, hsublist⟩ := List.subperm_of_subset r.entries.nodup_items h.mem_added
  obtain ⟨discarded, hdiscarded⟩ := hsublist.exists_perm_append
  have hperm := hdiscarded.trans (hitems.append_right discarded)
  refine ⟨discarded, hperm, ?_⟩
  have hreported := h.reported.trans (hperm.map Entry.report)
  rw [List.map_append] at hreported
  exact (List.perm_append_left_iff _).1 (List.perm_append_comm.trans hreported)

/-! ## Snapshots of explicit entries -/

theorem asksReverse_iff : e.asksReverse ↔ e.config.reverse ∧ e.key.source ≠ e.key.destination := by
  simp [Entry.asksReverse, Key.isSelf]

theorem Holds.contains_eq (h : Holds r added) (k : Key) :
    r.entries.contains k = added.any (·.key = k) := by
  rw [Bool.eq_iff_iff, h.contains_iff]
  simp

theorem Holds.not_contains_iff (h : Holds r added) {k : Key} :
    r.entries.contains k = false ↔ ∀ e ∈ added, e.key ≠ k := by
  rw [← Bool.not_eq_true, h.contains_iff]
  simp

/-- A snapshot holds the kept entries and the reverses they ask for, if their keys are free. -/
theorem Holds.mem_snapshot (h : Holds r added) (hbuilt : ∀ e ∈ added, e.Built) {x : Entry} :
    x ∈ r.snapshot.entries.items ↔ x.IsKept added ∨ ∃ e : Entry, e.IsKept added ∧ e.asksReverse ∧
      (∀ e' ∈ added, e'.key ≠ e.key.inverse) ∧ x = e.reverseOf := by
  rw [snapshot_eq, (Snapshot.foldl_derive_spec (pairwise_forwards r)).1, h.mem_items_iff hbuilt]
  refine or_congr_right (exists_congr fun e => ?_)
  rw [mem_forwards, h.mem_items_iff hbuilt, h.not_contains_iff, and_assoc]

theorem Holds.diagnostics_snapshot (h : Holds r added) :
    r.snapshot.diagnostics ~ r.duplicates ++
      (r.entries.items.filter fun e => e.config.reverse && !e.key.isSelf &&
        added.any (·.key = e.key.inverse)).map Entry.conflict := by
  have hderived := (Snapshot.foldl_derive_spec (m := r.entries) (d := []) (pairwise_forwards r)).2
  have hfilter : r.forwards.filter (fun e => r.entries.contains e.key.inverse) =
      r.entries.items.filter fun e => e.config.reverse && !e.key.isSelf &&
        added.any (·.key = e.key.inverse) := by
    rw [forwards, List.filter_filter]
    refine List.filter_congr fun e _ => ?_
    rw [h.contains_eq, Bool.and_comm]
  rw [hfilter, List.append_nil] at hderived
  rw [snapshot_eq]
  calc
    _ ~ _ := List.mergeSort_perm _ _
    _ ~ _ := hderived.append_right _
    _ ~ _ := List.perm_append_comm

theorem get?_snapshot {k : Key} {x : Entry} :
    r.snapshot.get? k = some x ↔ x ∈ r.snapshot.entries.items ∧ x.key = k :=
  KeyedMap.find?_eq_some

theorem mem_keys_snapshot {k : Key} :
    k ∈ r.snapshot.keys ↔ ∃ x ∈ r.snapshot.entries.items, x.key = k :=
  List.mem_map

theorem Holds.exists_kept (h : Holds r added) (hbuilt : ∀ e ∈ added, e.Built) (he : e ∈ added) :
    ∃ kept : Entry, kept.IsKept added ∧ kept.key = e.key ∧
      r.snapshot.get? e.key = some kept := by
  obtain ⟨kept, hheld, hkey, _⟩ := h.least e he
  have hkept := (h.mem_items_iff hbuilt).1 hheld
  exact ⟨kept, hkept, hkey, get?_snapshot.2 ⟨(h.mem_snapshot hbuilt).2 (.inl hkept), hkey⟩⟩

theorem Holds.key_mem_keys (h : Holds r added) (hbuilt : ∀ e ∈ added, e.Built) (he : e ∈ added) :
    e.key ∈ r.snapshot.keys := by
  obtain ⟨kept, _, _, hget⟩ := h.exists_kept hbuilt he
  obtain ⟨hmem, hkey⟩ := get?_snapshot.1 hget
  exact mem_keys_snapshot.2 ⟨kept, hmem, hkey⟩

theorem Holds.mem_keys_iff (h : Holds r added) (hbuilt : ∀ e ∈ added, e.Built) {k : Key} :
    k ∈ r.snapshot.keys ↔ (∃ e ∈ added, e.key = k) ∨
      ∃ e : Entry, e.IsKept added ∧ e.config.reverse ∧ e.key.source ≠ e.key.destination ∧
        e.key.inverse = k := by
  constructor
  · intro hk
    obtain ⟨x, hx, rfl⟩ := mem_keys_snapshot.1 hk
    rcases (h.mem_snapshot hbuilt).1 hx with hx | ⟨e, he, hasks, _, rfl⟩
    · exact .inl ⟨x, hx.mem, rfl⟩
    · obtain ⟨hreverse, hself⟩ := asksReverse_iff.1 hasks
      exact .inr ⟨e, he, hreverse, hself, rfl⟩
  · rintro (⟨e, he, rfl⟩ | ⟨e, he, hreverse, hself, rfl⟩)
    · exact h.key_mem_keys hbuilt he
    · by_cases hfree : ∀ e' ∈ added, e'.key ≠ e.key.inverse
      · have hasks := asksReverse_iff.2 ⟨hreverse, hself⟩
        exact mem_keys_snapshot.2
          ⟨e.reverseOf, (h.mem_snapshot hbuilt).2 (.inr ⟨e, he, hasks, hfree, rfl⟩), rfl⟩
      · simp only [not_forall, not_not] at hfree
        obtain ⟨e', he', hkey⟩ := hfree
        rw [← hkey]
        exact h.key_mem_keys hbuilt he'

theorem Holds.describes (h : Holds r added) (hexplicit : ∀ e ∈ added, e.isExplicit) :
    r.snapshot.Describes added := by
  have hbuilt : ∀ e ∈ added, e.Built := fun e he => .of_isExplicit (hexplicit e he)
  constructor
  case mem_keys => exact fun k => h.mem_keys_iff hbuilt
  case held => exact fun e he => h.exists_kept hbuilt he
  case derived =>
    intro k hk hfree
    obtain ⟨x, hx, rfl⟩ := mem_keys_snapshot.1 hk
    rcases (h.mem_snapshot hbuilt).1 hx with hkept | ⟨e, he, _, _, rfl⟩
    · exact absurd rfl (hfree x hkept.mem)
    · exact ⟨e, he, rfl, get?_snapshot.2 ⟨hx, rfl⟩⟩
  case reported =>
    obtain ⟨discarded, hperm, hduplicates⟩ := h.exists_discarded
    refine ⟨r.entries.items, discarded, hperm, r.entries.nodup_items,
      fun e => h.mem_items_iff hbuilt, ?_⟩
    exact h.diagnostics_snapshot.trans (hduplicates.append_right _)
  case named => exact fun e he => Entry.label_of_isExplicit (hexplicit e he)

/-- A key whose kept entry asks for no reverse gets none, whatever was asked by the others. -/
theorem Holds.get?_inverse (h : Holds r added) (hbuilt : ∀ e ∈ added, e.Built)
    (he : e.IsKept added) (hreverse : e.config.reverse = false)
    (hfree : ∀ e' ∈ added, e'.key ≠ e.key.inverse) : r.snapshot.get? e.key.inverse = none := by
  rw [Option.eq_none_iff_forall_ne_some]
  intro x hx
  obtain ⟨hmem, hkey⟩ := get?_snapshot.1 hx
  rcases (h.mem_snapshot hbuilt).1 hmem with hkept | ⟨e', he', hasks, _, rfl⟩
  · exact hfree x hkept.mem hkey
  · have hasked := (asksReverse_iff.1 hasks).1
    rw [he'.unique he hbuilt (Key.inverse_injective hkey), hreverse] at hasked
    cases hasked

/-- Each addition is an entry held or a report. -/
theorem Holds.length_added (h : Holds r added) :
    added.length = r.size + r.snapshot.diagnostics.countP (·.kind = .duplicateMapping) := by
  obtain ⟨discarded, hperm, hduplicates⟩ := h.exists_discarded
  have hconflicts : ∀ l : List Entry,
      (l.map Entry.conflict).countP (·.kind = .duplicateMapping) = 0 := by
    intro l
    simp [List.countP_eq_zero, Entry.conflict, Diagnostic.reverseConflict]
  have hreports : (discarded.map Entry.report).countP (·.kind = .duplicateMapping) =
      discarded.length := by
    rw [List.countP_map]
    exact List.countP_eq_length.2 fun _ _ => rfl
  rw [h.diagnostics_snapshot.countP_eq, List.countP_append, hconflicts, hduplicates.countP_eq,
    hreports, hperm.length_eq, List.length_append]
  rfl

/-- What a snapshot of explicit entries holds and reports. An entry that is not kept leaves no
reverse, and there are as many reports of duplicates as entries that are not kept. -/
theorem snapshot_addAll_describes (hexplicit : ∀ e ∈ added, e.isExplicit) :
    (addAll {} added).snapshot.Describes added ∧
    (∀ e : Entry, e.IsKept added → e.config.reverse = false →
      (∀ e' ∈ added, e'.key ≠ e.key.inverse) →
      (addAll {} added).snapshot.get? e.key.inverse = none) ∧
    added.length = (addAll {} added).size +
      (addAll {} added).snapshot.diagnostics.countP (·.kind = .duplicateMapping) := by
  have h := holds_addAll added
  have hbuilt : ∀ e ∈ added, e.Built := fun e he => .of_isExplicit (hexplicit e he)
  exact ⟨h.describes hexplicit, fun e he hreverse hfree => h.get?_inverse hbuilt he hreverse hfree,
    h.length_added⟩

/-- A reverse that is derived, one that is not asked for by the entry kept, one whose key is taken,
and a mapping of a shape to itself. -/
def sampleExplicit : List Entry :=
  [.explicit ⟨"A", "B"⟩ { reverse := true } ⟨"o", 0⟩,
   .explicit ⟨"C", "D"⟩ { reverse := true } ⟨"o", 2⟩,
   .explicit ⟨"C", "D"⟩ {} ⟨"o", 1⟩,
   .explicit ⟨"E", "F"⟩ { reverse := true } ⟨"o", 3⟩,
   .explicit ⟨"F", "E"⟩ {} ⟨"p", 0⟩,
   .explicit ⟨"S", "S"⟩ { reverse := true } ⟨"p", 1⟩]

theorem describes_sample :
    (∀ e ∈ sampleExplicit, e.isExplicit) ∧
    (addAll {} sampleExplicit).snapshot.Describes sampleExplicit ∧
    (∀ e : Entry, e.IsKept sampleExplicit → e.config.reverse = false →
      (∀ e' ∈ sampleExplicit, e'.key ≠ e.key.inverse) →
      (addAll {} sampleExplicit).snapshot.get? e.key.inverse = none) ∧
    sampleExplicit.length = (addAll {} sampleExplicit).size +
      (addAll {} sampleExplicit).snapshot.diagnostics.countP (·.kind = .duplicateMapping) :=
  ⟨by decide, snapshot_addAll_describes (by decide)⟩

end Registry
end MapPlan
