import MapPlan.Json.Basic
import MapPlan.Yaml.Node

/-! # Documents

What a document format has to tell for records to be read from it. A JSON value says itself what it
is; a scalar of YAML is what it is read as. -/

namespace MapPlan

class Document (δ : Type) where
  text? : δ → Option String
  bool? : δ → Option Bool
  /-- A value that may be absent. -/
  optional? : δ → Option (Option δ)
  items? : δ → Option (List δ)
  /-- The entries of a mapping in order, repeated names included. -/
  entries? : δ → Option (List (String × δ))
  /-- The fields of a record whose fields have the given names. -/
  fields? : List String → δ → Option (List (String × δ))
  /-- The name of one of several choices. -/
  choice? : δ → Option String

namespace Json

def text? : Json → Option String
  | .str s => some s
  | _ => none

def bool? : Json → Option Bool
  | .bool b => some b
  | _ => none

def items? : Json → Option (List Json)
  | .arr items => some items
  | _ => none

def entries? : Json → Option (List (String × Json))
  | .obj fields => some fields
  | _ => none

/-- A record may be written as an array of its first fields in order. -/
def fields? (names : List String) : Json → Option (List (String × Json))
  | .obj fields => some fields
  | .arr items => if items.length ≤ names.length then some (names.zip items) else none
  | _ => none

/-- A choice may be written as an object with its name and no value. -/
def choice? : Json → Option String
  | .str s => some s
  | .obj [(name, .null)] => some name
  | _ => none

instance : Document Json where
  text?
  bool?
  optional?
    | .null => some none
    | j => some (some j)
  items?
  entries?
  fields?
  choice?

end Json

namespace Yaml.Node

def isNullWord (s : String) : Bool :=
  ["null", "Null", "NULL", "~"].contains s

def isEmpty : Node → Bool
  | .scalar _ .plain "" => true
  | _ => false

def text? : Node → Option String
  | .scalar _ _ s => some s
  | _ => none

def boolWord? (s : String) : Option Bool :=
  if ["true", "True", "TRUE"].contains s then some true
  else if ["false", "False", "FALSE"].contains s then some false
  else none

def bool? : Node → Option Bool
  | .scalar _ .plain s | .scalar (some "tag:yaml.org,2002:bool") .literal s => boolWord? s
  | _ => none

/-- Plain words for nothing are absent, unless a tag says that they are something. -/
def optional? (n : Node) : Option (Option Node) :=
  match n with
  | .scalar none .plain s => some (if s = "" || isNullWord s then none else some n)
  | .scalar (some "tag:yaml.org,2002:null") .plain s => if isNullWord s then some none else none
  | _ => some (some n)

def items? (n : Node) : Option (List Node) :=
  match n with
  | .sequence items => some items
  | _ => if n.isEmpty then some [] else none

def entries? (n : Node) : Option (List (String × Node)) :=
  match n with
  | .mapping entries => entries.mapM fun (key, value) => key.text?.map (·, value)
  | _ => if n.isEmpty then some [] else none

/-- A choice is a word, or a tag of its own before nothing. -/
def choice? : Node → Option String
  | .scalar (some tag) style s =>
    match tag.toList with
    | '!' :: name =>
      if style = .plain && (s = "" || isNullWord s) then
        some (if name = [] then tag else String.ofList name)
      else none
    | _ => some s
  | .scalar none _ s => some s
  | _ => none

instance : Document Yaml.Node where
  text?
  bool?
  optional?
  items?
  entries?
  fields? := fun _ => entries?
  choice?

end Yaml.Node

/-! ## Records -/

/-- A record being read: its fields, each with one of the record's names and no name twice. -/
structure Record (δ : Type) where
  fields : List (String × δ)

namespace Record

variable {δ α : Type} [Document δ]

open Document

def ofDocument? (names : List String) (d : δ) : Option (Record δ) := do
  let fields ← fields? names d
  let given := fields.map Prod.fst
  if given.all names.contains && given.Nodup then some ⟨fields⟩ else none

def get? (r : Record δ) (name : String) : Option δ :=
  r.fields.lookup name

/-- A field that has to be there. -/
def required (r : Record δ) (name : String) (read : δ → Option α) : Option α :=
  (r.get? name).bind read

/-- A field that has a default. -/
def defaulted (r : Record δ) (name : String) (default : α) (read : δ → Option α) : Option α :=
  match r.get? name with
  | none => some default
  | some d => read d

/-- A field that may be absent. -/
def optional (r : Record δ) (name : String) (read : δ → Option α) : Option (Option α) :=
  match r.get? name with
  | none => some none
  | some d => do
    match ← optional? d with
    | none => return none
    | some d => return some (← read d)

end Record

namespace Document

variable {δ : Type} [Document δ]

def texts? (d : δ) : Option (List String) := do
  (← items? d).mapM text?

end Document
end MapPlan
