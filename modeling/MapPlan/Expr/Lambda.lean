import MapPlan.Expr.Boundary

/-! # Lambda heads

A lambda with one parameter, split into its head and its body. The head is found in the text itself,
before any scan: it ends at the first arrow. -/

namespace MapPlan.Expr

def isName (s : List Char) : Bool :=
  match bare s with
  | c :: cs => Boundary.isNameStart c && cs.all Boundary.isNameChar
  | [] => false

structure Lambda where
  parameter : List Char
  /-- All that stands before the body: the head, the arrow, and the blanks around it. -/
  wrapper : List Char
  body : List Char
deriving DecidableEq, Repr

namespace Lambda

/-- The text before the first arrow and the text after it. -/
def splitArrow? : List Char → Option (List Char × List Char)
  | '=' :: '>' :: rest => some ([], rest)
  | c :: cs => (splitArrow? cs).map fun (head, rest) => (c :: head, rest)
  | [] => none

/-- What the parentheses around a head enclose. -/
def enclosed? : List Char → Option (List Char)
  | '(' :: rest => if rest.getLast? = some ')' then some rest.dropLast else none
  | _ => none

/-- The parameter that a head declares: the last word in parentheses, where a type may precede it,
or else the head itself. -/
def parameter? (head : List Char) : Option (List Char) := do
  if head.any (['\x22', '\x27', '/'].contains ·) then none
  let name ← match enclosed? head with
    | some inner => if inner.contains ',' then none else Text.lastWord? inner
    | none => some head
  if isName name then some name else none

def ofText? (s : List Char) : Option Lambda := do
  let (head, rest) ← splitArrow? s
  let parameter ← parameter? (Text.trim head)
  let blanks := rest.takeWhile Text.isBlank
  return ⟨parameter, head ++ '=' :: '>' :: blanks, rest.dropWhile Text.isBlank⟩

end Lambda
end MapPlan.Expr
