/-! # Hexadecimal digits -/

namespace MapPlan.Text

def hexDigit? (c : Char) : Option Nat :=
  if c.isDigit then some (c.toNat - 0x30)
  else if 'a' ≤ c ∧ c ≤ 'f' then some (c.toNat - 0x57)
  else if 'A' ≤ c ∧ c ≤ 'F' then some (c.toNat - 0x37)
  else none

/-- The number that some hexadecimal digits write, the highest first. -/
def hexNumber? (digits : List Char) : Option Nat :=
  digits.foldlM (fun n c => (hexDigit? c).map (16 * n + ·)) 0

/-- The character with a code, which is none for surrogates and for what lies beyond the last. -/
def charOfCode? (n : Nat) : Option Char :=
  if n.isValidChar then some (Char.ofNat n) else none

/-- The number in the first `count` characters, all hexadecimal digits, and the rest. -/
def takeHex? (count : Nat) (s : List Char) : Option (Nat × List Char) :=
  if s.length < count then none
  else (hexNumber? (s.take count)).map (·, s.drop count)

end MapPlan.Text
