import MapPlan.Text.Ranges

/-! # Blank characters

The Unicode property White_Space, and text trimmed of it. -/

namespace MapPlan.Text

def blankRanges : List (Nat × Nat) :=
  [(0x9, 0xD), (0x20, 0x20), (0x85, 0x85), (0xA0, 0xA0), (0x1680, 0x1680), (0x2000, 0x200A),
   (0x2028, 0x2029), (0x202F, 0x202F), (0x205F, 0x205F), (0x3000, 0x3000)]

def isBlank (c : Char) : Bool :=
  inRanges blankRanges c.toNat

def trimLeft (s : List Char) : List Char :=
  s.dropWhile isBlank

def trimRight (s : List Char) : List Char :=
  (s.reverse.dropWhile isBlank).reverse

def trim (s : List Char) : List Char :=
  trimRight (trimLeft s)

/-- The last of the words that blanks separate. -/
def lastWord? (s : List Char) : Option (List Char) :=
  match ((s.reverse.dropWhile isBlank).takeWhile (!isBlank ·)).reverse with
  | [] => none
  | w => some w

end MapPlan.Text
