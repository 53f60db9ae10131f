import MapPlan.Shape.Field

/-! # Field sets

The fields of one shape in the order of their declaration, no two of one name. -/

namespace MapPlan

structure FieldSet where
  shape : String
  fields : List Field
  nodup : (fields.map Field.name).Nodup
deriving DecidableEq

/-- A shape cannot declare a field twice. -/
structure DuplicateField where
  shape : String
  field : String
deriving DecidableEq, Repr

def DuplicateField.message (e : DuplicateField) : String :=
  "shape " ++ e.shape ++ " declares field '" ++ e.field ++ "' more than once"

/-- The first name of a list that repeats one before it. -/
def firstRepeated? (before : List String) : List String → Option String
  | [] => none
  | name :: rest =>
    if name ∈ before then some name else firstRepeated? (name :: before) rest

theorem nodup_of_firstRepeated?_eq_none {before names : List String}
    (h : firstRepeated? before names = none) : names.Nodup ∧ ∀ n ∈ names, n ∉ before := by
  induction names generalizing before with
  | nil => simp
  | cons name rest ih =>
    rw [firstRepeated?] at h
    split at h
    · cases h
    · rename_i fresh
      obtain ⟨nodup, apart⟩ := ih h
      refine ⟨List.nodup_cons.2 ⟨fun mem => apart name mem List.mem_cons_self, nodup⟩, ?_⟩
      intro n hn
      rcases List.mem_cons.1 hn with rfl | hn
      · exact fresh
      · exact fun mem => apart n hn (List.mem_cons_of_mem _ mem)

namespace FieldSet

def ofFields (shape : String) (fields : List Field) : Except DuplicateField FieldSet :=
  match h : firstRepeated? [] (fields.map Field.name) with
  | some field => .error ⟨shape, field⟩
  | none => .ok ⟨shape, fields, (nodup_of_firstRepeated?_eq_none h).1⟩

def empty (shape : String) : FieldSet :=
  ⟨shape, [], .nil⟩

def get? (s : FieldSet) (name : String) : Option Field :=
  s.fields.find? (·.name = name)

/-- Where a field stands in the order of declaration. -/
def position? (s : FieldSet) (name : String) : Option Nat :=
  s.fields.findIdx? (·.name = name)

/-- The field of the given name, if it can be read. -/
def readable? (s : FieldSet) (name : String) : Option Field :=
  (s.get? name).filter (·.readable)

def size (s : FieldSet) : Nat :=
  s.fields.length

def isEmpty (s : FieldSet) : Bool :=
  s.fields.isEmpty

def toJson (s : FieldSet) : Json :=
  .obj [("shape", .str s.shape), ("fields", .obj (s.fields.map fun f => (f.name, f.toJson)))]

end FieldSet
end MapPlan
