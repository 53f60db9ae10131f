import MapPlan.Json.Reader
import MapPlan.Manifest.Basic
import MapPlan.Manifest.Document

/-! # Reading manifests -/

namespace MapPlan

open Document

variable {δ : Type} [Document δ]

def StorageClass.ofName? (s : String) : Option StorageClass :=
  [value, reference].find? (·.name = s)

namespace FieldDecl

def names : List String :=
  ["name", "type", "storage", "width", "nullable", "readable", "writable", "ignored",
   "source_name"]

def ofDocument? (d : δ) : Option FieldDecl := do
  let r ← Record.ofDocument? names d
  return {
    name := ← r.required "name" text?
    type := ← r.required "type" text?
    storage := ← r.optional "storage" fun d => (choice? d).bind StorageClass.ofName?
    width := ← r.optional "width" fun d => (choice? d).bind Width.ofName?
    nullable := ← r.defaulted "nullable" false bool?
    readable := ← r.defaulted "readable" true bool?
    writable := ← r.defaulted "writable" true bool?
    ignored := ← r.defaulted "ignored" false bool?
    sourceName := ← r.optional "source_name" text? }

end FieldDecl

/-- Entries by name, of which the last one with a name counts. -/
def entriesByName? {β : Type} (read : δ → Option β) (d : δ) :
    Option (KeyedMap (Prod.fst : String × β → String)) := do
  let entries ← (← entries? d).mapM fun (name, d) => (read d).map (name, ·)
  return .ofList entries

namespace MappingDecl

def names : List String :=
  ["source", "destination", "reverse", "ignore_unmatched", "ignore", "rename", "expression",
   "constant"]

def ofDocument? (d : δ) : Option MappingDecl := do
  let r ← Record.ofDocument? names d
  return {
    source := ← r.required "source" text?
    destination := ← r.required "destination" text?
    reverse := ← r.defaulted "reverse" false bool?
    ignoreUnmatched := ← r.defaulted "ignore_unmatched" false bool?
    ignore := ← r.defaulted "ignore" [] texts?
    rename := ← r.defaulted "rename" .empty (entriesByName? text?)
    expression := ← r.defaulted "expression" .empty (entriesByName? text?)
    constant := ← r.defaulted "constant" .empty (entriesByName? text?) }

end MappingDecl

namespace Manifest

def names : List String :=
  ["origin", "shapes", "mappings"]

def ofDocument? (d : δ) : Option Manifest := do
  let r ← Record.ofDocument? names d
  return {
    origin := ← r.optional "origin" text?
    shapes := ← r.defaulted "shapes" .empty
      (entriesByName? fun d => do (← items? d).mapM FieldDecl.ofDocument?)
    mappings := ← r.defaulted "mappings" [] fun d => do
      (← items? d).mapM MappingDecl.ofDocument? }

def ofJson? (text : String) : Option Manifest :=
  (Json.read? text).bind ofDocument?

/-- A text without a document declares nothing. -/
def ofYaml? (text : String) : Option Manifest := do
  ofDocument? ((← Yaml.Node.read? text).getD .empty)

end Manifest
end MapPlan
