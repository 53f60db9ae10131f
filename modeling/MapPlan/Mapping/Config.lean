import MapPlan.Json.Basic
import MapPlan.KeyedMap

/-! # Mapping configurations

What a mapping is told about its destination fields. There is a table for each kind of directive. To
give a field a directive takes it out of the other tables, so the last directive of a field is the
one that counts. The tables are ordered, so the order in which directives were given leaves no
trace. -/

namespace MapPlan

inductive Directive where
  /-- Leave the field alone. -/
  | ignore
  /-- Read a source field of another name. -/
  | rename (source : String)
  /-- Compute the field. -/
  | expression (text : String)
  /-- Assign the text as it stands. -/
  | constant (text : String)
deriving DecidableEq, Repr

/-! ## Tables of directives -/

structure Directives where
  ignored : NameSet := .empty
  renames : TextTable := .empty
  expressions : TextTable := .empty
  constants : TextTable := .empty
deriving DecidableEq

namespace Directives

def empty : Directives := {}

def isEmpty (t : Directives) : Bool :=
  t.ignored.isEmpty && t.renames.isEmpty && t.expressions.isEmpty && t.constants.isEmpty

/-- Take a field out of all tables. -/
def clear (t : Directives) (field : String) : Directives where
  ignored := t.ignored.erase field
  renames := t.renames.erase field
  expressions := t.expressions.erase field
  constants := t.constants.erase field

/-- Enter a field into the table for its directive. -/
def enter (t : Directives) (field : String) : Directive → Directives
  | .ignore => { t with ignored := t.ignored.insert field }
  | .rename source => { t with renames := t.renames.insert (field, source) }
  | .expression text => { t with expressions := t.expressions.insert (field, text) }
  | .constant text => { t with constants := t.constants.insert (field, text) }

def set (t : Directives) (field : String) (d : Directive) : Directives :=
  (t.clear field).enter field d

/-- The directive of a field, from the first table that has the field. -/
def get? (t : Directives) (field : String) : Option Directive :=
  if t.ignored.contains field then some .ignore
  else
    match t.constants.find? field with
    | some (_, text) => some (.constant text)
    | none =>
      match t.expressions.find? field with
      | some (_, text) => some (.expression text)
      | none => (t.renames.find? field).map fun (_, source) => .rename source

/-- The fields in some table. -/
def fields (t : Directives) : NameSet :=
  .ofList (t.ignored.items ++ t.renames.keys ++ t.expressions.keys ++ t.constants.keys)

end Directives

/-! ## Configurations -/

structure Config where
  /-- Map the opposite direction too. -/
  reverse : Bool := false
  /-- Ignore destination fields that no source field fits. -/
  ignoreUnmatched : Bool := false
  directives : Directives := .empty
deriving DecidableEq

namespace Config

def withReverse (c : Config) (reverse : Bool) : Config :=
  { c with reverse }

def withIgnoreUnmatched (c : Config) (ignoreUnmatched : Bool) : Config :=
  { c with ignoreUnmatched }

def direct (c : Config) (field : String) (d : Directive) : Config :=
  { c with directives := c.directives.set field d }

def ignore (c : Config) (field : String) : Config :=
  c.direct field .ignore

def rename (c : Config) (field source : String) : Config :=
  c.direct field (.rename source)

def expression (c : Config) (field text : String) : Config :=
  c.direct field (.expression text)

def constant (c : Config) (field text : String) : Config :=
  c.direct field (.constant text)

def directive? (c : Config) (field : String) : Option Directive :=
  c.directives.get? field

/-- The fields with a directive, in order. -/
def configured (c : Config) : List String :=
  c.directives.fields.items

def isEmpty (c : Config) : Bool :=
  !c.reverse && !c.ignoreUnmatched && c.directives.isEmpty

def ignored (c : Config) : List String :=
  c.directives.ignored.items

def renames (c : Config) : List (String × String) :=
  c.directives.renames.items

def expressions (c : Config) : List (String × String) :=
  c.directives.expressions.items

def constants (c : Config) : List (String × String) :=
  c.directives.constants.items

def toJson (c : Config) : Json :=
  let table (t : List (String × String)) : Json := .obj (t.map fun (k, v) => (k, .str v))
  .obj
    [("reverse", .bool c.reverse),
     ("ignore_unmatched", .bool c.ignoreUnmatched),
     ("ignored", .strings c.ignored),
     ("renames", table c.renames),
     ("expressions", table c.expressions),
     ("constants", table c.constants)]

end Config
end MapPlan
