import MapPlan.Expr.Lambda
import MapPlan.Text.Lowercase

/-! # Finding the parameter

The name an expression is written against: the one its lambda head declares, or else one of its
words. Only words that look like parameters count: not behind a dot, in lower case, and no
keyword. -/

namespace MapPlan.Expr

/-- Names that parameters usually have. -/
def conventionalAliases : List String :=
  ["s", "src", "x", "p", "o", "e", "m", "item", "source"]

def keywords : List String :=
  ["as", "await", "base", "bool", "byte", "char", "checked", "decimal", "default", "double",
   "false", "float", "in", "int", "is", "long", "nameof", "new", "not", "null", "object", "or",
   "and", "out", "ref", "short", "sizeof", "static", "string", "this", "true", "typeof",
   "unchecked", "var", "with"]

namespace Word

def isEligible (w : Word) : Bool :=
  !w.member && w.bare.head?.any (fun c => Text.isLowercase c || c == '_')
    && !keywords.contains (String.ofList w.bare)

def isAlias (aliases : List String) (w : Word) : Bool :=
  aliases.contains (String.ofList w.bare)

end Word

/-- The parameter among the words: the first eligible word that leads and is an alias, or else that
leads, or else at all. -/
def Markup.parameter? (aliases : List String) (m : Markup) : Option (List Char) :=
  let eligible := m.words.filter (·.isEligible)
  let leading := eligible.filter (·.leads)
  (leading.find? (·.isAlias aliases) <|> leading.head? <|> eligible.head?).map Word.text

/-- How the words of a text were found. -/
inductive Mode where
  | tokenized
  | fallback
  /-- They were not: a comment or literal stays open. -/
  | malformed
deriving DecidableEq, Repr

/-- The words of a text, tokenized if possible. -/
def scan? (s : List Char) : Option (Markup × Mode) :=
  match Markup.tokenized? s with
  | some m => some (m, .tokenized)
  | none => (Markup.boundary? s).map (·, .fallback)

/-- The name that a text is written against, if it shows one. -/
def inferParameter? (s : List Char) : Option (List Char) :=
  match Lambda.ofText? s with
  | some lambda => some lambda.parameter
  | none => (scan? s).bind fun (m, _) => m.parameter? conventionalAliases

end MapPlan.Expr
