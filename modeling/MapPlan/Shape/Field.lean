import MapPlan.Json.Basic

/-! # Fields

A field of a shape: what it holds and how it may be used. Types are names, compared for equality and
never looked into; the name of a type is also the name of the shape that describes it. -/

namespace MapPlan

abbrev TypeName := String

/-- How a value is held: by value and always present, or by reference and possibly absent. -/
inductive StorageClass where
  | value
  | reference
deriving DecidableEq, Repr

/-- The room a value takes, from the smallest up. -/
inductive Width where
  | byte
  | short
  | word
  | doubleWord
  | large
deriving DecidableEq, Repr

/-- The storage of a field. Only values have a width. -/
inductive Storage where
  | value (width : Width)
  | reference
deriving DecidableEq, Repr

namespace StorageClass

def name : StorageClass → String
  | value => "value"
  | reference => "reference"

/-- The word that starts a sentence. -/
def title : StorageClass → String
  | value => "Value"
  | reference => "Reference"

end StorageClass

namespace Width

def rank : Width → Nat
  | byte => 0
  | short => 1
  | word => 2
  | doubleWord => 3
  | large => 4

def name : Width → String
  | byte => "byte"
  | short => "short"
  | word => "word"
  | doubleWord => "double_word"
  | large => "large"

def all : List Width := [byte, short, word, doubleWord, large]

def ofName? (s : String) : Option Width :=
  all.find? (·.name = s)

end Width

namespace Storage

def toClass : Storage → StorageClass
  | value _ => .value
  | reference => .reference

def width? : Storage → Option Width
  | value w => some w
  | reference => none

end Storage

/-- What a collection holds. -/
structure Element where
  type : TypeName
  storage : StorageClass
deriving DecidableEq, Repr

structure Field where
  name : String
  type : TypeName
  storage : Storage
  readable : Bool := true
  writable : Bool := true
  /-- Never to be written by a mapping. -/
  ignored : Bool := false
  /-- The source field to read from where it is not the one of the same name. -/
  sourceName : Option String := none
  /-- May be left without a value. -/
  defaultable : Bool
  element : Option Element := none
deriving DecidableEq, Repr

namespace Field

def value (name : String) (type : TypeName) (width : Width) : Field where
  name
  type
  storage := .value width
  defaultable := true

def reference (name : String) (type : TypeName) : Field where
  name
  type
  storage := .reference
  defaultable := false

/-- Absence is a safe default for a reference; a value keeps its own. -/
def nullable (f : Field) : Field :=
  match f.storage with
  | .value _ => f
  | .reference => { f with defaultable := true }

/-- The source field that a field reads from unless a mapping says otherwise. -/
def candidate (f : Field) : String :=
  f.sourceName.getD f.name

end Field

/-! ## As JSON -/

namespace Element

def toJson (e : Element) : Json :=
  .obj [("ty", .str e.type), ("storage", .str e.storage.name)]

end Element

namespace Field

def toJson (f : Field) : Json :=
  .obj
    [("name", .str f.name),
     ("storage", .str f.storage.toClass.name),
     ("ty", .str f.type),
     ("width", .ofOption (fun w => .str w.name) f.storage.width?),
     ("readable", .bool f.readable),
     ("writable", .bool f.writable),
     ("ignored", .bool f.ignored),
     ("source_name", .ofOption .str f.sourceName),
     ("defaultable", .bool f.defaultable),
     ("element", .ofOption Element.toJson f.element)]

end Field
end MapPlan
