import MapPlan.Expr.Parameter

/-! # Renaming the parameter

The parameter of an expression is renamed to one fixed name, in its words and nowhere else. A text
whose literals or comments cannot be told from its code is left as it is. -/

namespace MapPlan.Expr

/-- Does the fragment stand for the parameter `name`? -/
def Fragment.refersTo (name : List Char) : Fragment → Bool
  | plain _ => false
  | word w => !w.member && w.bare = name

namespace Markup

def rename (name target : List Char) (m : Markup) : List Char :=
  m.flatMap fun f => if f.refersTo name then target else f.text

def references (name : List Char) (m : Markup) : Nat :=
  m.countP (·.refersTo name)

end Markup

structure Renamer where
  target : String := "source"
  aliases : List String := conventionalAliases
deriving DecidableEq, Repr

/-- An expression after renaming. -/
structure Renaming where
  text : String
  parameter : Option String
  renamed : Nat
  mode : Mode
deriving DecidableEq, Repr

namespace Renaming

def isMalformed (r : Renaming) : Bool :=
  r.mode = .malformed

def untouched (text : String) (parameter : Option (List Char)) (mode : Mode) : Renaming :=
  ⟨text, parameter.map String.ofList, 0, mode⟩

end Renaming

namespace Renamer

def apply (r : Renamer) (m : Markup) (mode : Mode) : Option (List Char) → Renaming
  | none => .untouched (String.ofList m.text) none mode
  | some name =>
    { text := String.ofList (m.rename (bare name) r.target.toList)
      parameter := some (String.ofList name)
      renamed := m.references (bare name)
      mode }

/-- Rename the given parameter throughout the text. -/
def rename (r : Renamer) (text : String) (parameter : String) : Renaming :=
  match scan? text.toList with
  | none => .untouched text (some parameter.toList) .malformed
  | some (m, mode) => r.apply m mode (some parameter.toList)

/-- Find the parameter of a text and rename it. A lambda head is dropped. -/
def renameParameter (r : Renamer) (text : String) : Renaming :=
  let lambda := Lambda.ofText? text.toList
  let declared := lambda.map Lambda.parameter
  match scan? ((lambda.map Lambda.body).getD text.toList) with
  | none => .untouched text declared .malformed
  | some (m, mode) => r.apply m mode (declared <|> m.parameter? r.aliases)

end Renamer
end MapPlan.Expr
