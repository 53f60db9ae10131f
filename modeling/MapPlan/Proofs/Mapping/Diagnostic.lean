import MapPlan.Mapping.Diagnostic

/-!
# The order of diagnostics

The order tells any two diagnostics apart, so what is sorted by it depends only on which diagnostics
there are and how often.
-/

namespace MapPlan

/-! ## Sorting by a total order -/

section Sorting

variable {α : Type} {cmp : α → α → Ordering} [Std.TransCmp cmp] {l l' : List α}

theorem pairwise_mergeSort (cmp : α → α → Ordering) [Std.TransCmp cmp] (l : List α) :
    (l.mergeSort fun a b => (cmp a b).isLE).Pairwise fun a b => (cmp a b).isLE := by
  have htrans : ∀ a b c, (cmp a b).isLE → (cmp b c).isLE → (cmp a c).isLE :=
    fun _ _ _ => Std.TransCmp.isLE_trans
  have htotal : ∀ a b, ((cmp a b).isLE || (cmp b a).isLE) = true := by
    intro a b
    have hswap : (cmp b a).isLE = (cmp a b).isGE := Std.OrientedCmp.isGE_eq_isLE.symm
    rw [hswap]
    cases cmp a b <;> rfl
  exact List.pairwise_mergeSort htrans htotal l

/-- Sorting forgets the order of a list, if it tells the items of the list apart. -/
theorem mergeSort_eq_of_perm (h : l.Perm l')
    (heq : ∀ a ∈ l, ∀ b ∈ l, cmp a b = .eq → a = b) :
    (l.mergeSort fun a b => (cmp a b).isLE) = l'.mergeSort fun a b => (cmp a b).isLE := by
  have hl := List.mergeSort_perm l fun a b => (cmp a b).isLE
  have hl' := List.mergeSort_perm l' fun a b => (cmp a b).isLE
  refine ((hl.trans h).trans hl'.symm).eq_of_pairwise (fun a b ha hb hab hba => ?_)
    (pairwise_mergeSort cmp l) (pairwise_mergeSort cmp l')
  exact heq a (hl.subset ha) b (h.symm.subset (hl'.subset hb))
    (Std.OrientedCmp.isLE_antisymm hab hba)

theorem compare_eq_lt_of_isLE_of_ne {α : Type} [Ord α] [Std.LawfulEqOrd α] {a b : α}
    (hle : (compare a b).isLE) (hne : a ≠ b) : compare a b = .lt := by
  cases hcompare : compare a b with
  | lt => rfl
  | eq => exact absurd (Std.LawfulEqOrd.eq_of_compare hcompare) hne
  | gt => rw [hcompare] at hle; cases hle

end Sorting

/-! ## Diagnostics -/

theorem DiagnosticKind.rank_injective {k l : DiagnosticKind} (h : k.rank = l.rank) : k = l := by
  cases k <;> cases l <;> first | rfl | exact absurd h (by decide)

theorem Severity.rank_injective {s t : Severity} (h : s.rank = t.rank) : s = t := by
  cases s <;> cases t <;> first | rfl | exact absurd h (by decide)

namespace Diagnostic

instance : Std.TransOrd Diagnostic :=
  inferInstanceAs (Std.TransCmp (compareLex (compareOn key)
    (compareLex (compareOn field)
      (compareLex (compareOn fun d => d.kind.rank)
        (compareLex (compareOn fun d => d.severity.rank) (compareOn message))))))

instance : Std.LawfulEqOrd Diagnostic where
  eq_of_compare {d e} h := by
    obtain ⟨hkey, h⟩ := Ordering.then_eq_eq.1 h
    obtain ⟨hfield, h⟩ := Ordering.then_eq_eq.1 h
    obtain ⟨hkind, h⟩ := Ordering.then_eq_eq.1 h
    obtain ⟨hseverity, hmessage⟩ := Ordering.then_eq_eq.1 h
    have hkey : d.key = e.key := Std.LawfulEqOrd.eq_of_compare hkey
    have hfield : d.field = e.field := Std.LawfulEqOrd.eq_of_compare hfield
    have hkind := DiagnosticKind.rank_injective (Std.LawfulEqOrd.eq_of_compare hkind)
    have hseverity := Severity.rank_injective (Std.LawfulEqOrd.eq_of_compare hseverity)
    have hmessage : d.message = e.message := Std.LawfulEqOrd.eq_of_compare hmessage
    cases d
    cases e
    simp only [mk.injEq]
    exact ⟨hkind, hseverity, hkey, hfield, hmessage⟩

theorem sort_eq_of_perm {l l' : List Diagnostic} (h : l.Perm l') : sort l = sort l' :=
  mergeSort_eq_of_perm h fun _ _ _ _ heq => Std.LawfulEqOrd.eq_of_compare heq

end Diagnostic
end MapPlan
