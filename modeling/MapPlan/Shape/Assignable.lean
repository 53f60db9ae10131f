import MapPlan.Shape.Field

/-! # What may be assigned to what

The rules for copying one field into another without looking into types. -/

namespace MapPlan

/-- The same type. -/
def Field.assignsTo (source dest : Field) : Bool :=
  source.type = dest.type

/-- May a value travel between two storage classes in a slot that erases its type? -/
def StorageClass.boxesInto (source dest : StorageClass) : Bool :=
  source = dest

/-- May elements travel one by one in such a slot? Values have to come out as the type they went in
with. -/
def Element.boxesInto (source dest : Element) : Bool :=
  source.storage.boxesInto dest.storage
    && (source.storage = .reference || source.type = dest.type)

/-- What to do about an absent source. -/
inductive NullGuard where
  /-- A value is never absent. -/
  | none
  /-- The destination becomes absent too. -/
  | propagateAbsence
  /-- The destination cannot be absent and keeps its value. -/
  | skipWhenAbsent
deriving DecidableEq, Repr

namespace NullGuard

def between : StorageClass → StorageClass → NullGuard
  | .reference, .reference => propagateAbsence
  | .reference, .value => skipWhenAbsent
  | .value, _ => none

def name : NullGuard → String
  | none => "none"
  | propagateAbsence => "propagate_absence"
  | skipWhenAbsent => "skip_when_absent"

end NullGuard
end MapPlan
