import MapPlan.Expr.Token

/-! # Words

A word is an identifier in code: outside comments and outside literal text, with the holes of
interpolated strings as code again. A text is read a segment at a time, first the whole text, then
each hole, into a markup that keeps every character and tells the words from the rest. -/

namespace MapPlan.Expr

/-- A name without the at sign that may escape it. -/
def bare : List Char → List Char
  | '@' :: name => name
  | name => name

structure Word where
  text : List Char
  /-- Behind a dot: the name of a member, never a bound name. -/
  member : Bool
  /-- Before member access (a dot, which a question or exclamation mark may precede) or before an
  arrow, as a parameter stands where it is used or declared. -/
  leads : Bool
deriving DecidableEq, Repr

def Word.bare (w : Word) : List Char :=
  Expr.bare w.text

inductive Fragment where
  | plain (s : List Char)
  | word (w : Word)
deriving DecidableEq, Repr

namespace Fragment

def text : Fragment → List Char
  | plain s => s
  | word w => w.text

def word? : Fragment → Option Word
  | plain _ => none
  | word w => some w

end Fragment

abbrev Markup := List Fragment

namespace Markup

def text (m : Markup) : List Char :=
  m.flatMap Fragment.text

def words (m : Markup) : List Word :=
  m.filterMap Fragment.word?

end Markup

/-! ## Segments and their holes -/

/-- A part of one segment of code. -/
inductive Part where
  | plain (s : List Char)
  | word (w : Word)
  | hole (code : List Char)
deriving DecidableEq, Repr

def Part.ofPiece : Piece Char → Part
  | .text s => .plain s
  | .hole s => .hole s

/-- The markup of a text, with a reader that splits one segment into its parts. There is none if the
reader refuses the text or a hole, at any depth. -/
def Markup.read? (parts? : List Char → Option (List Part)) (s : List Char) : Option Markup := do
  let fragments ← (← parts? s).mapM fun
    | .plain t => some [.plain t]
    | .word w => some [.word w]
    | .hole code => if code.length < s.length then read? parts? code else none
  return fragments.flatten
termination_by s.length

/-! ## Words of a tokenized text -/

namespace Token

/-- The tokens from the first one with meaning on. -/
def significant (tokens : List Token) : List Token :=
  tokens.dropWhile (·.kind.isTrivia)

def startWithDot (tokens : List Token) : Bool :=
  match significant tokens with
  | t :: _ => t.kind = .dot
  | [] => false

/-- Do member access or an arrow come next? -/
def startWithUse (tokens : List Token) : Bool :=
  match significant tokens with
  | [] => false
  | t :: rest =>
    match t.kind with
    | .dot | .arrow => true
    | .punct => (t.text = ['?'] || t.text = ['!']) && startWithDot rest
    | _ => false

/-- The parts of a segment, given whether the last token with meaning before it is a dot. -/
def partsAfter (dot : Bool) : List Token → List Part
  | [] => []
  | t :: rest =>
    let parts :=
      if t.kind = .identifier then [.word ⟨t.text, dot, startWithUse rest⟩]
      else t.pieces.map Part.ofPiece
    parts ++ partsAfter (if t.kind.isTrivia then dot else t.kind = .dot) rest

def parts? (s : List Char) : Option (List Part) :=
  (tokenize s).toOption.map (partsAfter false)

end Token

/-- The words of a text all of whose segments can be tokenized. -/
def Markup.tokenized? (s : List Char) : Option Markup :=
  Markup.read? Token.parts? s

end MapPlan.Expr
