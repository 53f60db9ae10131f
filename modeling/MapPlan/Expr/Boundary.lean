import MapPlan.Expr.Word
import MapPlan.Text.Alphabetic
import MapPlan.Text.Blank
import MapPlan.Text.Numeric

/-! # The boundary scan

Words of a text that cannot be tokenized. The scan only tells comments and literals from the rest,
and takes runs of letters, digits and underscores as words. It fails where a comment or a literal
stays open. -/

namespace MapPlan.Expr

namespace Boundary

def isNameStart (c : Char) : Bool :=
  Text.isAlphabetic c || c == '_'

def isNameChar (c : Char) : Bool :=
  Text.isAlphabetic c || Text.isNumeric c || c == '_'

/-- The name at the start of a text, with the at sign that may precede it, and the rest. -/
def name? (s : List Char) : Option (List Char × List Char) :=
  let (sign, body) :=
    match s with
    | '@' :: body => (['@'], body)
    | _ => ([], s)
  match body with
  | c :: cs =>
    if isNameStart c then some (sign ++ c :: cs.takeWhile isNameChar, cs.dropWhile isNameChar)
    else none
  | [] => none

/-- The body of a block comment up to and including the first star and slash, and the rest. -/
def commentTail? : List Char → Option (List Char × List Char)
  | '*' :: '/' :: rest => some (['*', '/'], rest)
  | c :: cs => (commentTail? cs).map fun (tail, rest) => (c :: tail, rest)
  | [] => none

/-- A word between the text of its segment before it, in reverse, and the text after it. Blanks are
skipped on both sides, comments are not. -/
def word (before : List Char) (name after : List Char) : Word where
  text := name
  member := (before.dropWhile Text.isBlank).head? = some '.'
  leads :=
    match Text.trimLeft after with
    | '=' :: '>' :: _ | '.' :: _ | '?' :: '.' :: _ | '!' :: '.' :: _ => true
    | _ => false

/-- The parts that come next in a segment and the rest, given the text before in reverse. A name
starts only where no longer one goes on. -/
def next? (before : List Char) : List Char → Option (List Part × List Char)
  | [] => none
  | '/' :: '/' :: cs =>
    some ([.plain ('/' :: '/' :: cs.takeWhile (· ≠ '\n'))], cs.dropWhile (· ≠ '\n'))
  | '/' :: '*' :: cs =>
    (commentTail? cs).map fun (tail, rest) => ([.plain ('/' :: '*' :: tail)], rest)
  | c :: cs =>
    if (Literal.style? (c :: cs)).isSome then
      (Literal.string? (c :: cs)).map fun (pieces, rest) => (pieces.map Part.ofPiece, rest)
    else if c = '\x27' then
      (Literal.char? cs).map fun (tail, rest) => ([.plain (c :: tail)], rest)
    else if before.head?.any isNameChar then some ([.plain [c]], cs)
    else
      match name? (c :: cs) with
      | some (name, rest) => some ([.word (word before name rest)], rest)
      | none => some ([.plain [c]], cs)

/-- The parts of a segment, given the text before in reverse. -/
def partsAfter? (before s : List Char) : Option (List Part) :=
  if s = [] then some []
  else do
    let (parts, rest) ← next? before s
    if rest.length < s.length then
      let more ← partsAfter? ((s.take (s.length - rest.length)).reverse ++ before) rest
      return parts ++ more
    else none
termination_by s.length

def parts? (s : List Char) : Option (List Part) :=
  partsAfter? [] s

end Boundary

/-- The words of a text all of whose comments and literals close. -/
def Markup.boundary? (s : List Char) : Option Markup :=
  Markup.read? Boundary.parts? s

end MapPlan.Expr
