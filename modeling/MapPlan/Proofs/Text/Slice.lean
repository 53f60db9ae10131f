import MapPlan.Text.Size

/-!
# Byte ranges of a text

Slices of a text and the replacement of some of its ranges, with positions counted in bytes of its
encoding. A slice of an appended text is the slices of both parts, each at its own offset.
-/

namespace MapPlan.Text

/-- A byte at which a character of the text starts or the text ends. -/
def IsBoundary (s : List Char) (n : Nat) : Prop :=
  ∃ u v, s = u ++ v ∧ byteSize u = n

/-- The bytes at which the characters start, the first at `start`. -/
def offsetsFrom (start : Nat) : List Char → List Nat
  | [] => []
  | c :: s => start :: offsetsFrom (start + c.utf8Size) s

/-- The characters that start in the bytes from `lo` up to `hi`, the first of the text at
`start`. -/
def sliceFrom (start lo hi : Nat) : List Char → List Char
  | [] => []
  | c :: s =>
    if lo ≤ start ∧ start < hi then c :: sliceFrom (start + c.utf8Size) lo hi s
    else sliceFrom (start + c.utf8Size) lo hi s

def slice (s : List Char) (lo hi : Nat) : List Char :=
  sliceFrom 0 lo hi s

/-- The text from byte `cursor` on, with each of the ranges replaced by the target. -/
def replaceFrom (s target : List Char) (cursor : Nat) : List (Nat × Nat) → List Char
  | [] => slice s cursor (byteSize s)
  | (lo, hi) :: ranges => slice s cursor lo ++ target ++ replaceFrom s target hi ranges

def replace (s target : List Char) (ranges : List (Nat × Nat)) : List Char :=
  replaceFrom s target 0 ranges

/-- Ranges of the text from the left to the right: none is empty, none overlaps the next, and all
start and end between characters. -/
structure AreRanges (s : List Char) (ranges : List (Nat × Nat)) : Prop where
  ordered : ranges.Pairwise fun r r' => r.2 ≤ r'.1
  nonempty : ∀ r ∈ ranges, r.1 < r.2
  boundary : ∀ r ∈ ranges, IsBoundary s r.1 ∧ IsBoundary s r.2

variable {s t u : List Char} {start lo hi n : Nat}

/-! ## Sizes and offsets -/

theorem byteSize_pos (h : s ≠ []) : 0 < byteSize s := by
  cases s with
  | nil => exact absurd rfl h
  | cons c s => exact Nat.lt_of_lt_of_le c.utf8Size_pos (Nat.le_add_right _ _)

theorem isBoundary_append_left (s t : List Char) : IsBoundary (s ++ t) (byteSize s) :=
  ⟨s, t, rfl, rfl⟩

theorem offsetsFrom_append (start : Nat) (s t : List Char) :
    offsetsFrom start (s ++ t) = offsetsFrom start s ++ offsetsFrom (start + byteSize s) t := by
  induction s generalizing start with
  | nil => rfl
  | cons c s ih =>
    rw [List.cons_append, offsetsFrom, ih, byteSize_cons, ← Nat.add_assoc]
    rfl

@[simp] theorem length_offsetsFrom (start : Nat) (s : List Char) :
    (offsetsFrom start s).length = s.length := by
  induction s generalizing start with
  | nil => rfl
  | cons c s ih => exact congrArg (· + 1) (ih _)

theorem bounds_of_mem_offsetsFrom (h : n ∈ offsetsFrom start s) :
    start ≤ n ∧ n < start + byteSize s := by
  induction s generalizing start with
  | nil => cases h
  | cons c s ih =>
    have := c.utf8Size_pos
    rw [byteSize_cons]
    rcases List.mem_cons.1 h with rfl | h
    · omega
    · have := ih h
      omega

/-! ## Slices -/

theorem sliceFrom_append (start lo hi : Nat) (s t : List Char) :
    sliceFrom start lo hi (s ++ t) =
      sliceFrom start lo hi s ++ sliceFrom (start + byteSize s) lo hi t := by
  induction s generalizing start with
  | nil => rfl
  | cons c s ih =>
    rw [List.cons_append, sliceFrom, sliceFrom, ih, byteSize_cons, ← Nat.add_assoc]
    split <;> rfl

theorem sliceFrom_eq_self (hlo : lo ≤ start) (hhi : start + byteSize s ≤ hi) :
    sliceFrom start lo hi s = s := by
  induction s generalizing start with
  | nil => rfl
  | cons c s ih =>
    have := c.utf8Size_pos
    rw [byteSize_cons] at hhi
    rw [sliceFrom, if_pos (by omega), ih (by omega) (by omega)]

theorem sliceFrom_eq_nil (h : start + byteSize s ≤ lo ∨ hi ≤ start) :
    sliceFrom start lo hi s = [] := by
  induction s generalizing start with
  | nil => rfl
  | cons c s ih =>
    have := c.utf8Size_pos
    rw [byteSize_cons] at h
    rw [sliceFrom, if_neg (by omega), ih (by omega)]

/-- A slice between two boundaries. -/
theorem slice_append (s t u : List Char) :
    slice (s ++ t ++ u) (byteSize s) (byteSize s + byteSize t) = t := by
  rw [slice, sliceFrom_append, sliceFrom_append, Nat.zero_add,
    sliceFrom_eq_nil (.inl (by omega)), sliceFrom_eq_self (Nat.le_refl _) (Nat.le_refl _),
    sliceFrom_eq_nil (.inr (by rw [byteSize_append]; omega)), List.append_nil, List.nil_append]

/-- What is left of a text behind one of its parts. -/
theorem slice_append_right (s t : List Char) :
    slice (s ++ t) (byteSize s) (byteSize (s ++ t)) = t := by
  have h := slice_append s t []
  rwa [List.append_nil, ← byteSize_append] at h

@[simp] theorem sliceFrom_self (start n : Nat) (s : List Char) : sliceFrom start n n s = [] := by
  induction s generalizing start with
  | nil => rfl
  | cons c s ih => rw [sliceFrom, if_neg (by omega), ih]

theorem slice_self (s : List Char) (n : Nat) : slice s n n = [] :=
  sliceFrom_self 0 n s

theorem sliceFrom_trans {mid : Nat} (hlo : lo ≤ mid) (hhi : mid ≤ hi) :
    sliceFrom start lo mid s ++ sliceFrom start mid hi s = sliceFrom start lo hi s := by
  induction s generalizing start with
  | nil => rfl
  | cons c s ih =>
    by_cases hmid : start < mid
    · rw [sliceFrom, sliceFrom, sliceFrom, if_neg (c := mid ≤ start ∧ start < hi) (by omega), ← ih]
      by_cases hstart : lo ≤ start
      · rw [if_pos ⟨hstart, hmid⟩, if_pos ⟨hstart, by omega⟩]
        rfl
      · rw [if_neg fun h => hstart h.1, if_neg fun h => hstart h.1]
    · have hnil : sliceFrom (start + c.utf8Size) lo mid s = [] := sliceFrom_eq_nil (.inr (by omega))
      rw [sliceFrom_eq_nil (.inr (Nat.le_of_not_lt hmid)), List.nil_append, sliceFrom, sliceFrom,
        ← ih, hnil, List.nil_append]
      by_cases hstart : start < hi
      · rw [if_pos ⟨by omega, hstart⟩, if_pos ⟨by omega, hstart⟩]
      · rw [if_neg fun h => hstart h.2, if_neg fun h => hstart h.2]

/-- A slice may be cut anywhere. -/
theorem slice_trans {mid : Nat} (hlo : lo ≤ mid) (hhi : mid ≤ hi) :
    slice s lo mid ++ slice s mid hi = slice s lo hi :=
  sliceFrom_trans hlo hhi

end MapPlan.Text
