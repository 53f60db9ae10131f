import MapPlan.KeyedMap
import MapPlan.Mapping.Key
import MapPlan.Shape.FieldSet

/-! # Manifests

A manifest declares shapes and mappings. This is what is written there, before any of it is checked:
types are texts, and a field may be configured in several ways at once. -/

namespace MapPlan

structure FieldDecl where
  name : String
  type : String
  storage : Option StorageClass := none
  width : Option Width := none
  nullable : Bool := false
  readable : Bool := true
  writable : Bool := true
  ignored : Bool := false
  sourceName : Option String := none
deriving DecidableEq, Repr

structure MappingDecl where
  source : String
  destination : String
  reverse : Bool := false
  ignoreUnmatched : Bool := false
  ignore : List String := []
  rename : TextTable := .empty
  expression : TextTable := .empty
  constant : TextTable := .empty
deriving DecidableEq

def MappingDecl.key (m : MappingDecl) : Key :=
  ⟨m.source, m.destination⟩

structure Manifest where
  origin : Option String := none
  shapes : KeyedMap (Prod.fst : String × List FieldDecl → String) := .empty
  mappings : List MappingDecl := []
deriving DecidableEq

inductive ManifestError where
  | duplicateField (cause : DuplicateField)
  | undeclaredShape (key : Key) (shape : String)
  | conflictingDirective (key : Key) (field : String)
  /-- A collection is no value. -/
  | invalidField (shape field : String)
deriving DecidableEq, Repr

def ManifestError.message : ManifestError → String
  | duplicateField cause => cause.message
  | undeclaredShape key shape =>
    "mapping " ++ key.text ++ " refers to undeclared shape `" ++ shape ++ "`"
  | conflictingDirective key field =>
    "mapping " ++ key.text ++ " configures field `" ++ field ++ "` more than once"
  | invalidField shape field =>
    "field `" ++ field ++ "` of shape `" ++ shape ++ "`: collections are reference-class"

end MapPlan
