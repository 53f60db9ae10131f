/-! # Sizes in UTF-8 bytes -/

namespace MapPlan.Text

/-- The number of bytes that the characters take in UTF-8. -/
def byteSize : List Char → Nat
  | [] => 0
  | c :: s => c.utf8Size + byteSize s

@[simp] theorem byteSize_nil : byteSize [] = 0 := rfl

@[simp] theorem byteSize_cons (c : Char) (s : List Char) :
    byteSize (c :: s) = c.utf8Size + byteSize s := rfl

@[simp] theorem byteSize_append (s t : List Char) :
    byteSize (s ++ t) = byteSize s + byteSize t := by
  induction s with
  | nil => simp
  | cons c s ih => simp [ih, Nat.add_assoc]

/-- The bytes at which consecutive pieces start and end, the first starting at `start`. -/
def spansFrom (start : Nat) : List (List Char) → List (Nat × Nat)
  | [] => []
  | s :: rest => (start, start + byteSize s) :: spansFrom (start + byteSize s) rest

end MapPlan.Text
