import Mathlib.Data.List.Basic
import Mathlib.Data.String.Basic
import MapPlan.Report

/-!
# The order of emission

Sorting by rank keeps the order of the fields of one rank, so the fields of a plan that get a value
come rank by rank, each rank in the order of the destination.
-/

namespace MapPlan

open scoped List

/-! ## Sorting by rank -/

section Ranks

variable {α κ : Type} [DecidableEq κ] {le : κ → κ → Bool} {f : α → κ} {l l' : List α}

/-- Sorting leaves the items of one rank as they are. -/
theorem filter_mergeSort (htrans : ∀ a b c, le a b → le b c → le a c)
    (htotal : ∀ a b, (le a b || le b a) = true) (l : List α) (k : κ) :
    (l.mergeSort fun a b => le (f a) (f b)).filter (f · = k) = l.filter (f · = k) := by
  have hself : le k k := by simpa using htotal k k
  have hsorted : (l.filter (f · = k)).Pairwise fun a b => le (f a) (f b) := by
    refine List.pairwise_of_forall_mem_list fun a ha b hb => ?_
    rw [of_decide_eq_true (List.mem_filter.1 ha).2, of_decide_eq_true (List.mem_filter.1 hb).2]
    exact hself
  have hsub := List.sublist_mergeSort (fun a b c => htrans (f a) (f b) (f c))
    (fun a b => htotal (f a) (f b)) hsorted List.filter_sublist
  have hsub := hsub.filter (f · = k)
  rw [List.filter_filter, funext fun a => Bool.and_self _] at hsub
  exact (hsub.eq_of_length ((List.mergeSort_perm l _).filter _).length_eq.symm).symm

/-- In a list in order of rank, the items of the least rank come first. -/
theorem filter_append_filter (hantisymm : ∀ a b, le a b → le b a → a = b)
    (hl : l.Pairwise fun a b => le (f a) (f b)) {k : κ} (hk : ∀ x ∈ l, le k (f x)) :
    l.filter (f · = k) ++ l.filter (f · ≠ k) = l := by
  induction l with
  | nil => rfl
  | cons x rest ih =>
    obtain ⟨hx, hrest⟩ := List.pairwise_cons.1 hl
    obtain ⟨hkx, hkrest⟩ := List.forall_mem_cons.1 hk
    by_cases heq : f x = k
    · simpa [heq] using ih hrest hkrest
    · have hlater : ∀ y ∈ x :: rest, f y ≠ k := by
        refine List.forall_mem_cons.2 ⟨heq, fun y hy hyk => heq ?_⟩
        exact hantisymm _ _ (hyk ▸ hx y hy) hkx
      rw [List.filter_eq_nil_iff.2 fun y hy => by simpa using hlater y hy,
        List.filter_eq_self.2 fun y hy => by simpa using hlater y hy, List.nil_append]

/-- A list in order of rank has its items rank by rank. -/
theorem flatMap_filter_eq (hantisymm : ∀ a b, le a b → le b a → a = b)
    (hself : ∀ a, le a a) {ranks : List κ} (hranks : ranks.Pairwise fun a b => le a b ∧ a ≠ b)
    (hl : l.Pairwise fun a b => le (f a) (f b)) (hmem : ∀ x ∈ l, f x ∈ ranks) :
    ranks.flatMap (fun k => l.filter (f · = k)) = l := by
  induction ranks generalizing l with
  | nil => exact (List.eq_nil_iff_forall_not_mem.2 fun x hx => nomatch hmem x hx).symm
  | cons k rest ih =>
    obtain ⟨hk, hrest⟩ := List.pairwise_cons.1 hranks
    have hleast : ∀ x ∈ l, le k (f x) := by
      intro x hx
      rcases List.mem_cons.1 (hmem x hx) with heq | hx
      · exact heq ▸ hself _
      · exact (hk _ hx).1
    have hothers : ∀ x ∈ l.filter (f · ≠ k), f x ∈ rest := by
      intro x hx
      obtain ⟨hx, hne⟩ := List.mem_filter.1 hx
      exact (List.mem_cons.1 (hmem x hx)).resolve_left (of_decide_eq_true hne)
    have hfilter : rest.flatMap (fun k' => l.filter (f · = k')) =
        rest.flatMap fun k' => (l.filter (f · ≠ k)).filter (f · = k') := by
      refine List.flatMap_congr fun k' hk' => ?_
      rw [List.filter_filter]
      refine List.filter_congr fun x _ => ?_
      by_cases heq : f x = k'
      · simp [heq, (hk k' hk').2.symm]
      · simp [heq]
    calc
      _ = l.filter (f · = k) ++ rest.flatMap (fun k' => l.filter (f · = k')) := List.flatMap_cons
      _ = l.filter (f · = k) ++ l.filter (f · ≠ k) := by
        rw [hfilter, ih hrest (hl.filter _) hothers]
      _ = l := filter_append_filter hantisymm hl hleast

end Ranks

/-! ## Ranks of fields -/

namespace Plan

variable {p : Plan} {f : PlannedField}

theorem rankLE_iff {a b : Nat × Nat} : rankLE a b ↔ a.1 < b.1 ∨ a.1 = b.1 ∧ a.2 ≤ b.2 := by
  simp [rankLE]

theorem rankLE_trans (a b c : Nat × Nat) (hab : rankLE a b) (hbc : rankLE b c) : rankLE a c := by
  rw [rankLE_iff] at *
  omega

theorem rankLE_total (a b : Nat × Nat) : (rankLE a b || rankLE b a) = true := by
  rw [Bool.or_eq_true, rankLE_iff, rankLE_iff]
  omega

theorem rankLE_antisymm (a b : Nat × Nat) (hab : rankLE a b) (hba : rankLE b a) : a = b := by
  rw [rankLE_iff] at *
  exact Prod.ext (by omega) (by omega)

/-- The ranks there are, in order. -/
def ranks : List (Nat × Nat) :=
  Width.all.map (fun w => (0, w.rank)) ++ [(1, 0), (2, 0), (3, 0), (4, 0), (5, 0)]

theorem pairwise_ranks : ranks.Pairwise fun a b => rankLE a b ∧ a ≠ b := by
  decide

theorem mem_ranks {k : Nat × Nat} (h : f.rank? = some k) : k ∈ ranks := by
  rw [PlannedField.rank?] at h
  split at h
  · split at h
    · rename_i width _
      cases h
      cases width <;> decide
    · cases h
      decide
  all_goals cases h <;> decide

theorem map_snd_filter_ranked (fields : List PlannedField) (k : Nat × Nat) :
    ((fields.filterMap fun f => f.rank?.map (·, f)).filter (·.1 = k)).map Prod.snd =
      fields.filter (·.rank? = some k) := by
  induction fields with
  | nil => rfl
  | cons f rest ih =>
    cases hrank : f.rank? with
    | none => simpa [hrank] using ih
    | some k' => by_cases heq : k' = k <;> simpa [hrank, heq] using ih

/-- The fields that get a value come rank by rank. -/
theorem emissionOrder_eq (p : Plan) :
    p.emissionOrder = ranks.flatMap fun k => p.fields.filter (·.rank? = some k) := by
  let ranked := p.fields.filterMap fun f => f.rank?.map (·, f)
  let sorted := ranked.mergeSort fun a b => rankLE a.1 b.1
  have hpairwise : sorted.Pairwise fun a b => rankLE a.1 b.1 :=
    List.pairwise_mergeSort (fun a b c => rankLE_trans a.1 b.1 c.1)
      (fun a b => rankLE_total a.1 b.1) ranked
  have hmem : ∀ x ∈ sorted, x.1 ∈ ranks := by
    intro x hx
    obtain ⟨f, _, heq⟩ := List.mem_filterMap.1 (List.mem_mergeSort.1 hx)
    obtain ⟨k, hrank, rfl⟩ := Option.map_eq_some_iff.1 heq
    exact mem_ranks hrank
  have hself : ∀ a, rankLE a a := fun a => by simpa using rankLE_total a a
  have hsorted := flatMap_filter_eq rankLE_antisymm hself pairwise_ranks hpairwise hmem
  calc
    p.emissionOrder = (ranks.flatMap fun k => sorted.filter (·.1 = k)).map Prod.snd := by
      rw [hsorted]
      rfl
    _ = ranks.flatMap fun k => p.fields.filter (·.rank? = some k) := by
      rw [List.map_flatMap]
      refine List.flatMap_congr fun k _ => ?_
      rw [filter_mergeSort rankLE_trans rankLE_total, map_snd_filter_ranked]

end Plan

/-! ## Groups of fields -/

/-- How a field gets its value, without the particulars. -/
inductive Form where
  | direct
  | nested
  | constant
  | expression
  | collection
  | ignored
  | unresolved
deriving DecidableEq, Repr

def Resolution.form : Resolution → Form
  | .direct _ => .direct
  | .nested .. => .nested
  | .constant _ => .constant
  | .expression _ => .expression
  | .collection .. => .collection
  | .ignored => .ignored
  | .unresolved => .unresolved

namespace PlannedField

variable {f : PlannedField}

/-- The field is copied as it is, and held in the given way. -/
def isCopy (storage : StorageClass) (f : PlannedField) : Bool :=
  f.resolution.form = .direct && f.field.storage.toClass = storage

def isCopyOfWidth (width : Option Width) (f : PlannedField) : Bool :=
  f.isCopy .value && f.field.storage.width? = width

theorem isCopyOfWidth_none (f : PlannedField) : f.isCopyOfWidth none = false := by
  cases hstorage : f.field.storage <;>
    simp [isCopyOfWidth, isCopy, Storage.toClass, Storage.width?, hstorage]

theorem rank?_eq_iff_isCopyOfWidth {width : Width} :
    f.rank? = some (0, width.rank) ↔ f.isCopyOfWidth (some width) := by
  have hrank : ∀ v w : Width, v.rank = w.rank ↔ v = w := by
    intro v w
    cases v <;> cases w <;> decide
  cases hresolution : f.resolution <;> cases hstorage : f.field.storage <;>
    simp [rank?, isCopyOfWidth, isCopy, Resolution.form, Storage.toClass, Storage.width?,
      hresolution, hstorage, hrank]

/-- The ranks of the other groups. -/
theorem rank?_eq_iff (f : PlannedField) :
    (f.rank? = some (1, 0) ↔ f.resolution.form = .constant) ∧
    (f.rank? = some (2, 0) ↔ f.resolution.form = .expression) ∧
    (f.rank? = some (3, 0) ↔ f.isCopy .reference) ∧
    (f.rank? = some (4, 0) ↔ f.resolution.form = .nested) ∧
    (f.rank? = some (5, 0) ↔ f.resolution.form = .collection) := by
  cases hresolution : f.resolution <;> cases hstorage : f.field.storage <;>
    simp [rank?, isCopy, Resolution.form, Storage.toClass, hresolution, hstorage]

/-- A field has a rank exactly if it gets a value. -/
theorem isSome_rank?_iff : f.rank?.isSome ↔ f.resolution.isEmitted := by
  cases hresolution : f.resolution <;> cases hstorage : f.field.storage <;>
    simp [rank?, Resolution.isEmitted, hresolution, hstorage]

end PlannedField

namespace Plan

/-- The order of emission, group by group. -/
theorem emissionOrder_groups (p : Plan) :
    p.emissionOrder =
      (Width.all.map some ++ [none]).flatMap (fun width => p.fields.filter (·.isCopyOfWidth width))
        ++ p.fields.filter (·.resolution.form = .constant)
        ++ p.fields.filter (·.resolution.form = .expression)
        ++ p.fields.filter (·.isCopy .reference)
        ++ p.fields.filter (·.resolution.form = .nested)
        ++ p.fields.filter (·.resolution.form = .collection) := by
  have hwidths : (Width.all.map fun width => (0, width.rank)).flatMap
      (fun k => p.fields.filter (·.rank? = some k)) =
      (Width.all.map some ++ [none]).flatMap
        (fun width => p.fields.filter (·.isCopyOfWidth width)) := by
    rw [List.flatMap_append, List.flatMap_map, List.flatMap_map, List.flatMap_singleton,
      List.filter_eq_nil_iff.2 fun f _ => by simp [f.isCopyOfWidth_none], List.append_nil]
    refine List.flatMap_congr fun width _ => List.filter_congr fun f _ => ?_
    rw [Bool.eq_iff_iff, decide_eq_true_iff, PlannedField.rank?_eq_iff_isCopyOfWidth]
  have hconstant : p.fields.filter (·.rank? = some (1, 0)) =
      p.fields.filter (·.resolution.form = .constant) :=
    List.filter_congr fun f _ => decide_eq_decide.2 f.rank?_eq_iff.1
  have hexpression : p.fields.filter (·.rank? = some (2, 0)) =
      p.fields.filter (·.resolution.form = .expression) :=
    List.filter_congr fun f _ => decide_eq_decide.2 f.rank?_eq_iff.2.1
  have hcopy : p.fields.filter (·.rank? = some (3, 0)) = p.fields.filter (·.isCopy .reference) := by
    refine List.filter_congr fun f _ => ?_
    rw [Bool.eq_iff_iff, decide_eq_true_iff, f.rank?_eq_iff.2.2.1]
  have hnested : p.fields.filter (·.rank? = some (4, 0)) =
      p.fields.filter (·.resolution.form = .nested) :=
    List.filter_congr fun f _ => decide_eq_decide.2 f.rank?_eq_iff.2.2.2.1
  have hcollection : p.fields.filter (·.rank? = some (5, 0)) =
      p.fields.filter (·.resolution.form = .collection) :=
    List.filter_congr fun f _ => decide_eq_decide.2 f.rank?_eq_iff.2.2.2.2
  rw [emissionOrder_eq, ranks, List.flatMap_append, hwidths]
  simp only [List.flatMap_cons, List.flatMap_nil, List.append_nil, List.append_assoc, hconstant,
    hexpression, hcopy, hnested, hcollection]

/-- Exactly the fields that get a value are emitted, each as often as the plan has it. -/
theorem perm_emissionOrder (p : Plan) :
    p.emissionOrder ~ p.fields.filter (·.resolution.isEmitted) := by
  have hranked : (p.fields.filterMap fun f => f.rank?.map (·, f)).map Prod.snd =
      p.fields.filter (·.resolution.isEmitted) := by
    rw [List.map_filterMap, ← List.filterMap_eq_filter]
    refine List.filterMap_congr fun f _ => ?_
    have hrank := f.isSome_rank?_iff
    cases hf : f.rank? <;> cases hemitted : f.resolution.isEmitted <;>
      simp_all [Option.guard]
  have hsorted := (List.mergeSort_perm (p.fields.filterMap fun f => f.rank?.map (·, f))
    fun a b => rankLE a.1 b.1).map Prod.snd
  rwa [hranked] at hsorted

theorem perm_reported (p : Plan) : p.reported ~ p.fields :=
  (p.perm_emissionOrder.append_right _).trans (List.filter_append_perm _ _)

end Plan

/-! ## The text of a plan -/

namespace Text

theorem length_le_utf8ByteSize (s : String) : s.length ≤ s.utf8ByteSize := by
  have hchars : ∀ l : List Char, l.length ≤ String.utf8Len l := by
    intro l
    induction l with
    | nil => exact Nat.zero_le _
    | cons c rest ih =>
      have hsize := c.utf8Size_pos
      rw [List.length_cons, String.utf8Len_cons]
      omega
  have hs := hchars s.toList
  rwa [← String.utf8ByteSize_ofList, String.ofList_toList, String.length_toList] at hs

end Text

theorem le_foldl_max {l : List Nat} {a b : Nat} (h : b ≤ a ∨ b ∈ l) : b ≤ l.foldl max a := by
  induction l generalizing a with
  | nil => exact h.resolve_right List.not_mem_nil
  | cons c rest ih =>
    rw [List.foldl_cons]
    refine ih ?_
    rcases h with h | h
    · exact .inl (Nat.le_trans h (Nat.le_max_left a c))
    · rcases List.mem_cons.1 h with rfl | h
      · exact .inl (Nat.le_max_right a b)
      · exact .inr h

namespace Plan

variable {p : Plan} {f : PlannedField}

/-- There is room for each name, in characters as in bytes. -/
theorem length_name_le_nameWidth (hf : f ∈ p.fields) : f.name.length ≤ p.nameWidth := by
  refine Nat.le_trans (Text.length_le_utf8ByteSize f.name) (le_foldl_max (.inr ?_))
  exact List.mem_map.2 ⟨f, hf, rfl⟩

/-- The fields that get a value come group by group, copied values from the narrowest on, and the
fields of one group in the order of the destination. The text of a plan has a line for each field,
those that get a value first, and every description starts in the same column. -/
theorem emission_listed (p : Plan) :
    p.emissionOrder =
      (Width.all.map some ++ [none]).flatMap (fun width => p.fields.filter (·.isCopyOfWidth width))
        ++ p.fields.filter (·.resolution.form = .constant)
        ++ p.fields.filter (·.resolution.form = .expression)
        ++ p.fields.filter (·.isCopy .reference)
        ++ p.fields.filter (·.resolution.form = .nested)
        ++ p.fields.filter (·.resolution.form = .collection) ∧
    p.emissionOrder ~ p.fields.filter (·.resolution.isEmitted) ∧
    p.lines = (p.key.text ++ " [" ++ p.fingerprint.short ++ "]") ::
      (p.emissionOrder ++ p.fields.filter (!·.resolution.isEmitted)).map (·.line p.nameWidth) ∧
    p.emissionOrder ++ p.fields.filter (!·.resolution.isEmitted) ~ p.fields ∧
    ∀ f ∈ p.fields, ∃ blanks before, 2 ≤ blanks ∧
      before = "  " ++ f.name ++ String.ofList (List.replicate blanks ' ') ∧
      before.length = p.nameWidth + 4 ∧ f.line p.nameWidth = before ++ f.resolution.text := by
  refine ⟨p.emissionOrder_groups, p.perm_emissionOrder, rfl, p.perm_reported, fun f hf => ?_⟩
  have hroom := length_name_le_nameWidth hf
  refine ⟨p.nameWidth - f.name.length + 2, _, Nat.le_add_left 2 _, rfl, ?_, ?_⟩
  · simp only [String.length_append, String.length_ofList, List.length_replicate]
    have htwo : ("  " : String).length = 2 := rfl
    omega
  · rw [PlannedField.line, Text.padded, List.replicate_add, String.ofList_append]
    simp only [String.append_assoc]
    rfl

/-- A plan with a name that is longer in bytes than in characters. -/
def sampleCard : Plan where
  key := ⟨"Guest", "Card"⟩
  fields :=
    [⟨.value "Größe" "long" .large, .direct "Size"⟩,
     ⟨.reference "Note" "string", .ignored⟩,
     ⟨.reference "Tag" "string", .constant "\"guest\""⟩,
     ⟨.value "Id" "int" .word, .direct "Id"⟩]
  hasMissingSource := false
  hasTypeError := false
  diagnostics := []
  fingerprint := ⟨[0, 1, 2, 3, 4, 5, 6, 7, 8]⟩

theorem emission_listed_sample :
    sampleCard.emissionOrder.map (·.name) = ["Id", "Größe", "Tag"] ∧
    sampleCard.lines =
      ["Guest -> Card [0001020304050607]",
       "  Id       <- Id",
       "  Größe    <- Size",
       "  Tag      = \"guest\"",
       "  Note     ignored"] := by
  obtain ⟨horder, -, hlines, -⟩ := emission_listed sampleCard
  rw [hlines, horder]
  decide +kernel

end Plan
end MapPlan
