import MapPlan.Expr.Rename

/-! # Planning options -/

namespace MapPlan

structure Options where
  /-- What the parameters of expressions are renamed to. -/
  parameterTarget : String := "source"
  parallel : Bool := true
  /-- How many plans to keep for later runs; with 0, none. -/
  planCacheCapacity : Nat := 10000
  /-- Is a field that must have a source and has none an error? -/
  escalateMissingSource : Bool := true
  /-- The names to prefer for the parameters of expressions. -/
  conventionalAliases : List String := Expr.conventionalAliases
deriving DecidableEq, Repr

/-- The parameters of expressions cannot be renamed to this: it is no identifier. -/
structure InvalidTarget where
  target : String
deriving DecidableEq, Repr

def InvalidTarget.message (e : InvalidTarget) : String :=
  "invalid engine config: parameter_target `" ++ e.target ++ "` is not an identifier"

namespace Options

/-- Letters, digits and underscores of ASCII, and no digit first. -/
def isPlainIdentifier : List Char → Bool
  | [] => false
  | c :: cs => (c.isAlpha || c == '_') && cs.all fun c => c.isAlphanum || c == '_'

def validate (o : Options) : Except InvalidTarget Unit :=
  if isPlainIdentifier o.parameterTarget.toList then .ok () else .error ⟨o.parameterTarget⟩

def renamer (o : Options) : Expr.Renamer :=
  ⟨o.parameterTarget, o.conventionalAliases⟩

end Options
end MapPlan
