import MapPlan.Text.Size

/-! # String literals

Where a string literal ends, and which parts of it are holes that hold code. The rules read a unit
at a time and look at most two units ahead, with a stack of what is open; they ask only which of a
few marks a unit is, so they serve characters and bytes alike. -/

namespace MapPlan.Expr

/-- What the literal rules can tell about a unit of text. -/
inductive Mark where
  | quote
  | apostrophe
  | backslash
  | at
  | dollar
  | openBrace
  | closeBrace
  | newline
  | other
deriving DecidableEq, Repr

namespace Mark

def ofCode (n : Nat) : Mark :=
  if n = 0x22 then .quote
  else if n = 0x27 then .apostrophe
  else if n = 0x5C then .backslash
  else if n = 0x40 then .at
  else if n = 0x24 then .dollar
  else if n = 0x7B then .openBrace
  else if n = 0x7D then .closeBrace
  else if n = 0x0A then .newline
  else .other

end Mark

/-- A unit of text: a character, or a byte of its encoding. -/
class Marked (α : Type) where
  mark : α → Mark

export Marked (mark)

instance : Marked Char := ⟨fun c => .ofCode c.toNat⟩

instance : Marked UInt8 := ⟨fun b => .ofCode b.toNat⟩

/-- The rules that a string literal's opener picks. -/
structure Style where
  /-- No escapes, a quote is written twice, and line ends are allowed. -/
  verbatim : Bool
  /-- Braces enclose code. -/
  interpolated : Bool
deriving DecidableEq, Repr

namespace Style

/-- The style of the literal that these marks open: a quote, with at most one at sign and one
dollar sign before it. -/
def ofMarks? : List Mark → Option Style
  | .quote :: _ => some ⟨false, false⟩
  | .at :: .quote :: _ => some ⟨true, false⟩
  | .dollar :: .quote :: _ => some ⟨false, true⟩
  | .at :: .dollar :: .quote :: _ | .dollar :: .at :: .quote :: _ => some ⟨true, true⟩
  | _ => none

end Style

/-- Something that is open while a literal is read. -/
inductive Frame where
  /-- An opener, up to and including its quote. -/
  | opener (style : Style)
  | string (style : Style)
  /-- A character literal after its first apostrophe. -/
  | char
  /-- A hole with so many open braces of its own. -/
  | hole (depth : Nat)
  /-- The next unit has no meaning of its own. -/
  | skip
deriving DecidableEq, Repr

namespace Frame

def isHole : Frame → Bool
  | .hole _ => true
  | _ => false

/-- What is open after a unit with mark `m`, read in the given frame above `stack`, with `ahead` the
marks that follow it. A line end closes neither a character literal nor a string that is not
verbatim: there is no literal then. -/
def next? (stack : List Frame) (ahead : List Mark) (m : Mark) : Frame → Option (List Frame)
  | .skip => some stack
  | .opener style => some ((if m = .quote then .string style else .opener style) :: stack)
  | .char =>
    match m with
    | .backslash => some (.skip :: .char :: stack)
    | .apostrophe => some stack
    | .newline => none
    | _ => some (.char :: stack)
  | .hole depth =>
    match m, depth with
    | .openBrace, _ => some (.hole (depth + 1) :: stack)
    | .closeBrace, 0 => some stack
    | .closeBrace, outer + 1 => some (.hole outer :: stack)
    | .apostrophe, _ => some (.char :: .hole depth :: stack)
    | _, _ =>
      match Style.ofMarks? (m :: ahead) with
      | some style =>
        some ((if m = .quote then .string style else .opener style) :: .hole depth :: stack)
      | none => some (.hole depth :: stack)
  | .string style =>
    let doubled := ahead.head? = some m
    match m, style.verbatim, style.interpolated with
    | .backslash, false, _ => some (.skip :: .string style :: stack)
    | .quote, verbatim, _ =>
      if verbatim && doubled then some (.skip :: .string style :: stack) else some stack
    | .newline, false, _ => none
    | .openBrace, _, true =>
      some (if doubled then .skip :: .string style :: stack
        else .hole 0 :: .string style :: stack)
    | .closeBrace, _, true =>
      some (if doubled then .skip :: .string style :: stack else .string style :: stack)
    | _, _, _ => some (.string style :: stack)

end Frame

/-- A part of a literal: text, or the code between the braces of an outermost hole. -/
inductive Piece (α : Type) where
  | text (units : List α)
  | hole (code : List α)
deriving DecidableEq, Repr

namespace Piece

variable {α : Type}

def units : Piece α → List α
  | .text s | .hole s => s

def flatten (pieces : List (Piece α)) : List α :=
  pieces.flatMap units

def holes (pieces : List (Piece α)) : List (List α) :=
  pieces.filterMap fun
    | .text _ => none
    | .hole s => some s

def consText (u : α) : List (Piece α) → List (Piece α)
  | .text s :: pieces => .text (u :: s) :: pieces
  | pieces => .text [u] :: pieces

def consHole (u : α) : List (Piece α) → List (Piece α)
  | .hole s :: pieces => .hole (u :: s) :: pieces
  | pieces => .hole [u] :: pieces

/-- Put a unit before the pieces, given whether a hole is open before and after it. The braces of a
hole are text. -/
def consUnit (before after : Bool) (u : α) (pieces : List (Piece α)) : List (Piece α) :=
  match before, after with
  | false, false => consText u pieces
  | false, true => .text [u] :: pieces
  | true, true => consHole u pieces
  | true, false => .hole [] :: consText u pieces

end Piece

namespace Literal

variable {α : Type} [Marked α]

/-- Read until nothing is open: the pieces read, and the rest of the text. -/
def readOpen? : List Frame → List α → Option (List (Piece α) × List α)
  | [], us => some ([], us)
  | _ :: _, [] => none
  | frame :: stack, u :: us => do
    let stack' ← frame.next? stack ((us.take 2).map mark) (mark u)
    let (pieces, rest) ← readOpen? stack' us
    return (Piece.consUnit ((frame :: stack).any (·.isHole)) (stack'.any (·.isHole)) u pieces, rest)

def style? (us : List α) : Option Style :=
  Style.ofMarks? ((us.take 3).map mark)

/-- The string literal that the text starts with, and the rest of the text. -/
def string? (us : List α) : Option (List (Piece α) × List α) := do
  let style ← style? us
  readOpen? [.opener style] us

/-- The character literal whose body, after its first apostrophe, the text starts with, and the rest
of the text. -/
def char? (us : List α) : Option (List α × List α) := do
  let (pieces, rest) ← readOpen? [.char] us
  return (Piece.flatten pieces, rest)

/-- The pieces of a text that is one closed string literal. -/
def whole? (us : List α) : Option (List (Piece α)) :=
  match string? us with
  | some (pieces, []) => some pieces
  | _ => none

end Literal

/-- The bytes at which each hole of a literal starts and ends. -/
def Piece.holeSpans (pieces : List (Piece Char)) : List (Nat × Nat) :=
  (pieces.zip (Text.spansFrom 0 (pieces.map units))).filterMap fun
    | (.hole _, span) => some span
    | (.text _, _) => none

end MapPlan.Expr
