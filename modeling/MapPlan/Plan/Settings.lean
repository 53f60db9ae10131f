import MapPlan.Plan.Options
import MapPlan.Toml.Basic

/-! # Options as settings

Planning options written as TOML settings, each of them once at most; what is not set keeps its
default. -/

namespace MapPlan

/-- Why a text gives no options. -/
inductive SettingsError where
  /-- It is no TOML, sets something unknown or twice, or gives a value of the wrong type. -/
  | malformed
  | invalid (cause : InvalidTarget)
deriving DecidableEq, Repr

namespace Options

def strings? (items : List Toml.Scalar) : Option (List String) :=
  items.mapM fun
    | .str s => some s
    | _ => none

/-- Set one option by its name. -/
def set? (o : Options) : String × Toml.Value → Option Options
  | ("parameter_target", .scalar (.str s)) => some { o with parameterTarget := s }
  | ("parallel", .scalar (.bool b)) => some { o with parallel := b }
  | ("plan_cache_capacity", .scalar (.int n)) =>
    if 0 ≤ n then some { o with planCacheCapacity := n.toNat } else none
  | ("escalate_missing_source", .scalar (.bool b)) => some { o with escalateMissingSource := b }
  | ("conventional_aliases", .array items) =>
    (strings? items).map fun aliases => { o with conventionalAliases := aliases }
  | _ => none

def ofSettings? (settings : List (String × Toml.Value)) : Option Options :=
  if (settings.map Prod.fst).Nodup then settings.foldlM set? {} else none

def ofText (text : String) : Except SettingsError Options :=
  match (Toml.read? text).bind ofSettings? with
  | none => .error .malformed
  | some o =>
    match o.validate with
    | .ok () => .ok o
    | .error cause => .error (.invalid cause)

end Options
end MapPlan
