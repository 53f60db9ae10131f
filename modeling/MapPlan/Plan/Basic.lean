import MapPlan.Digest.Fingerprint
import MapPlan.Mapping.Diagnostic
import MapPlan.Shape.Assignable
import MapPlan.Shape.FieldSet

/-! # Plans

A plan says for each field of the destination how it gets its value, and in which order the fields
that get one are filled. -/

namespace MapPlan

/-- How the elements of a collection are copied. -/
inductive ElementPath where
  /-- In a slot that erases their type. -/
  | boxed
  /-- By the mapping with this key. -/
  | perElement (key : Key)
deriving DecidableEq, Repr

/-- How a destination field gets its value. -/
inductive Resolution where
  | direct (source : String)
  /-- By the mapping between the types of the two fields. -/
  | nested (source : String) (key : Key) (guard : NullGuard)
  | constant (text : String)
  | expression (text : String)
  | collection (source : String) (path : ElementPath)
  | ignored
  /-- No way was found. -/
  | unresolved
deriving DecidableEq, Repr

/-- Does the field get a value? -/
def Resolution.isEmitted : Resolution → Bool
  | .ignored | .unresolved => false
  | _ => true

structure PlannedField where
  field : Field
  resolution : Resolution
deriving DecidableEq, Repr

structure Plan where
  key : Key
  /-- All destination fields, in their order. -/
  fields : List PlannedField
  /-- Some field that must have a source has none. -/
  hasMissingSource : Bool
  /-- Some field was refused for its type. -/
  hasTypeError : Bool
  diagnostics : List Diagnostic
  fingerprint : Digest.Fingerprint
deriving DecidableEq

/-! ## Order of emission -/

namespace PlannedField

def name (f : PlannedField) : String :=
  f.field.name

/-- The group of a field that gets a value, and its place in the group. -/
def rank? (f : PlannedField) : Option (Nat × Nat) :=
  match f.resolution with
  | .direct _ =>
    match f.field.storage with
    | .value width => some (0, width.rank)
    | .reference => some (3, 0)
  | .constant _ => some (1, 0)
  | .expression _ => some (2, 0)
  | .nested .. => some (4, 0)
  | .collection .. => some (5, 0)
  | .ignored | .unresolved => none

end PlannedField

namespace Plan

def field? (p : Plan) (name : String) : Option PlannedField :=
  p.fields.find? (·.name = name)

/-- Does a rank come before another or tie with it? -/
def rankLE (a b : Nat × Nat) : Bool :=
  a.1 < b.1 || (a.1 = b.1 && a.2 ≤ b.2)

/-- The fields that get a value, by rank; fields of one rank keep the order of the destination. -/
def emissionOrder (p : Plan) : List PlannedField :=
  let ranked := p.fields.filterMap fun f => f.rank?.map (·, f)
  (ranked.mergeSort fun a b => rankLE a.1 b.1).map Prod.snd

/-- Plans by key, and plans of one key by fingerprint. -/
def materialize (plans : List Plan) : List Plan :=
  plans.mergeSort fun a b =>
    ((compare a.key b.key).then (compare a.fingerprint b.fingerprint)).isLE

end Plan

/-! ## As JSON -/

namespace ElementPath

def toJson : ElementPath → Json
  | boxed => .str "boxed"
  | perElement key => .obj [("per_element", key.toJson)]

end ElementPath

namespace Resolution

def toJson : Resolution → Json
  | direct source => .obj [("direct", .str source)]
  | nested source key guard =>
    .obj [("nested", .obj
      [("source", .str source), ("key", key.toJson), ("null_guard", .str guard.name)])]
  | constant text => .obj [("constant", .str text)]
  | expression text => .obj [("expression", .str text)]
  | collection source path =>
    .obj [("collection", .obj [("source", .str source), ("path", path.toJson)])]
  | ignored => .str "ignored"
  | unresolved => .str "unresolved"

end Resolution

namespace PlannedField

def toJson (f : PlannedField) : Json :=
  .obj [("descriptor", f.field.toJson), ("kind", f.resolution.toJson)]

end PlannedField
end MapPlan
