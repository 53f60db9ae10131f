import MapPlan.Proofs.Mapping.Snapshot

/-!
# Reverse conflicts

A reverse whose key is taken is reported, with the words that an explicit entry is kept. The key is
always one that was added, and the entry held for it is explicit if any entry that was added for the
key is. It need not be: a reverse can be added like any other entry, and where no explicit entry
stands against it, it is kept, and is what the report calls explicit.
-/

namespace MapPlan

theorem Entry.isExplicit_of_precedence {e e' : Entry} (hle : (e.precedence e').isLE)
    (he' : e'.isExplicit) : e.isExplicit := by
  obtain ⟨key, config, origin⟩ := e
  obtain ⟨key', config', provenance', rfl⟩ := eq_explicit_of_isExplicit he'
  cases origin with
  | explicit p => rfl
  | synthesized k => cases hle

namespace Registry

variable {r : Registry} {added : List Entry} {e : Entry} {d : Diagnostic}

/-- Deriving reverses takes away no entry. -/
theorem mem_snapshot_of_mem (he : e ∈ r.entries.items) : e ∈ r.snapshot.entries.items := by
  rw [snapshot_eq, (Snapshot.foldl_derive_spec (pairwise_forwards r)).1]
  exact .inl he

theorem Holds.kind_of_mem_duplicates (h : Holds r added) (hd : d ∈ r.duplicates) :
    d.kind = .duplicateMapping := by
  obtain ⟨x, _, rfl⟩ := List.mem_map.1 (h.reported.subset (List.mem_append_left _ hd))
  rfl

/-- A conflict is reported of an entry that is kept and asks for a reverse. -/
theorem Holds.exists_forward (h : Holds r added) (hd : d ∈ r.snapshot.diagnostics)
    (hkind : d.kind = .reverseConflict) : ∃ forward ∈ r.entries.items,
      forward.config.reverse ∧ d = forward.conflict ∧ ∃ x ∈ added, x.key = d.key := by
  rcases List.mem_append.1 (h.diagnostics_snapshot.subset hd) with hduplicate | hconflict
  · rw [h.kind_of_mem_duplicates hduplicate] at hkind
    cases hkind
  · obtain ⟨forward, hforward, rfl⟩ := List.mem_map.1 hconflict
    obtain ⟨hmem, hasks⟩ := List.mem_filter.1 hforward
    simp only [Bool.and_eq_true, List.any_eq_true, decide_eq_true_eq] at hasks
    exact ⟨forward, hmem, hasks.1.1, rfl, hasks.2⟩

/-- The entry held is explicit if an explicit one was added for its key. -/
theorem Holds.isExplicit_iff (h : Holds r added) (he : e ∈ r.entries.items) :
    e.isExplicit ↔ ∃ x ∈ added, x.key = e.key ∧ x.isExplicit := by
  have hkept := h.isKept he
  constructor
  · intro hexplicit
    exact ⟨e, hkept.mem, rfl, hexplicit⟩
  · rintro ⟨x, hx, hkey, hexplicit⟩
    exact Entry.isExplicit_of_precedence (hkept.least x hx hkey) hexplicit

/-- The report of a conflict names the key of an entry that was added and is held. It is explicit as
the report says, unless all entries that were added for the key are reverses. -/
theorem held_of_reverseConflict (added : List Entry)
    (hd : d ∈ (addAll {} added).snapshot.diagnostics) (hkind : d.kind = .reverseConflict) :
    ∃ forward held : Entry, forward.IsKept added ∧ forward.config.reverse ∧
      d = .reverseConflict held.key forward.key ∧ held.key = forward.key.inverse ∧
      held.IsKept added ∧ (addAll {} added).snapshot.get? d.key = some held ∧
      (held.isExplicit ↔ ∃ e ∈ added, e.key = d.key ∧ e.isExplicit) := by
  have h := holds_addAll added
  obtain ⟨forward, hforward, hreverse, rfl, x, hx, hkey⟩ := h.exists_forward hd hkind
  obtain ⟨held, hheld, hheldkey, _⟩ := h.least x hx
  have hinverse : held.key = forward.key.inverse := hheldkey.trans hkey
  have hexplicit := h.isExplicit_iff hheld
  rw [hinverse] at hexplicit
  refine ⟨forward, held, h.isKept hforward, hreverse, ?_, hinverse, h.isKept hheld,
    get?_snapshot.2 ⟨mem_snapshot_of_mem hheld, hinverse⟩, hexplicit⟩
  rw [hinverse]
  rfl

/-- A reverse and an explicit entry in the way of another reverse. -/
def sampleTaken : List Entry :=
  [.reverseOf (.explicit ⟨"A", "B"⟩ {} ⟨"t", 0⟩),
   .explicit ⟨"A", "B"⟩ { reverse := true } ⟨"t", 1⟩,
   .explicit ⟨"B", "A"⟩ {} ⟨"t", 2⟩]

theorem held_sample :
    Diagnostic.reverseConflict ⟨"B", "A"⟩ ⟨"A", "B"⟩ ∈
      (addAll {} sampleTaken).snapshot.diagnostics ∧
    ∃ held, (addAll {} sampleTaken).snapshot.get? ⟨"B", "A"⟩ = some held ∧ held.isExplicit := by
  have hd : Diagnostic.reverseConflict ⟨"B", "A"⟩ ⟨"A", "B"⟩ ∈
      (addAll {} sampleTaken).snapshot.diagnostics := List.mem_mergeSort.2 (by decide)
  obtain ⟨_, held, _, _, _, _, _, hget, hexplicit⟩ := held_of_reverseConflict sampleTaken hd rfl
  exact ⟨hd, held, hget, hexplicit.2 (by decide)⟩

/-- A reverse that was added and stands alone. -/
def sampleReverse : List Entry :=
  [.reverseOf (.explicit ⟨"A", "B"⟩ {} ⟨"t", 0⟩),
   .explicit ⟨"A", "B"⟩ { reverse := true } ⟨"t", 0⟩]

/-- A reverse that was added and no explicit entry is what a report calls explicit. -/
theorem snapshot_reverse_kept :
    (addAll {} sampleReverse).snapshot.diagnostics =
      [.reverseConflict ⟨"B", "A"⟩ ⟨"A", "B"⟩] ∧
    (addAll {} sampleReverse).snapshot.get? ⟨"B", "A"⟩ =
      some (.reverseOf (.explicit ⟨"A", "B"⟩ {} ⟨"t", 0⟩)) ∧
    ¬ ∀ added : List Entry, (∀ e ∈ added, e.Built) →
      ∀ d ∈ (addAll {} added).snapshot.diagnostics, d.kind = .reverseConflict →
        ∃ held, (addAll {} added).snapshot.get? d.key = some held ∧ held.isExplicit := by
  have hdiagnostics : (addAll {} sampleReverse).snapshot.diagnostics =
      [.reverseConflict ⟨"B", "A"⟩ ⟨"A", "B"⟩] := List.mergeSort_singleton _
  have hget : (addAll {} sampleReverse).snapshot.get? ⟨"B", "A"⟩ =
      some (.reverseOf (.explicit ⟨"A", "B"⟩ {} ⟨"t", 0⟩)) := by decide
  have hbuilt : ∀ e ∈ sampleReverse, e.Built := by
    simp only [sampleReverse, List.forall_mem_cons]
    exact ⟨.reverseOf (.explicit ..), .explicit .., nofun⟩
  refine ⟨hdiagnostics, hget, fun h => ?_⟩
  obtain ⟨held, hheld, hexplicit⟩ := h sampleReverse hbuilt
    (.reverseConflict ⟨"B", "A"⟩ ⟨"A", "B"⟩) (hdiagnostics ▸ List.mem_singleton_self _) rfl
  obtain rfl := Option.some.inj (hget.symm.trans hheld)
  cases hexplicit

end Registry
end MapPlan
