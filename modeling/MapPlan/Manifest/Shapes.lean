import MapPlan.Manifest.Basic
import MapPlan.Shape.Table
import MapPlan.Text.Blank

/-! # Declared shapes

From the declarations of fields to field sets: what the text of a type says about storage. -/

namespace MapPlan

/-! ## Type texts -/

/-- The storage of the types that need no declaration. -/
def primitive? : TypeName → Option Storage
  | "bool" | "byte" | "sbyte" => some (.value .byte)
  | "short" | "ushort" | "char" => some (.value .short)
  | "int" | "uint" | "float" => some (.value .word)
  | "long" | "ulong" | "double" | "DateTime" | "TimeSpan" => some (.value .doubleWord)
  | "decimal" | "Guid" => some (.value .large)
  | "string" | "object" => some .reference
  | _ => none

/-- What stands between a start and an ending of a text. -/
def between? (start ending s : List Char) : Option (List Char) :=
  if start.isPrefixOf s then
    let rest := s.drop start.length
    if ending.isSuffixOf rest then some (rest.take (rest.length - ending.length)) else none
  else none

/-- The type of the elements, if the text of a type is that of a collection. Blanks around an
element do not count, and nothing is no element. -/
def elementType? (type : TypeName) : Option TypeName :=
  let s := type.toList
  match between? "List<".toList ['>'] s <|> between? [] ['[', ']'] s with
  | none => none
  | some inner =>
    match Text.trim inner with
    | [] => none
    | element => some (String.ofList element)

/-- Elements of a type that needs no declaration are held as it is; any others are references. -/
def elementOf (type : TypeName) : Element :=
  ⟨type, ((primitive? type).getD .reference).toClass⟩

/-! ## Fields and sets -/

namespace FieldDecl

/-- A field with the storage that its type and its declaration give it. -/
def base (f : FieldDecl) (shape : String) : Except ManifestError Field :=
  match elementType? f.type with
  | some element =>
    if f.storage = some .value then .error (.invalidField shape f.name)
    else .ok { Field.reference f.name f.type with element := some (elementOf element) }
  | none =>
    match primitive? f.type, f.storage with
    | some (.value width), _ => .ok (.value f.name f.type width)
    | none, some .value => .ok (.value f.name f.type (f.width.getD .large))
    | _, _ => .ok (.reference f.name f.type)

def toField (f : FieldDecl) (shape : String) : Except ManifestError Field := do
  let field ← f.base shape
  let field := if f.nullable then field.nullable else field
  return { field with
    readable := f.readable
    writable := f.writable
    ignored := f.ignored
    sourceName := f.sourceName }

end FieldDecl

namespace Manifest

def fieldSet (shape : String) (fields : List FieldDecl) : Except ManifestError FieldSet := do
  let fields ← fields.mapM (·.toField shape)
  (FieldSet.ofFields shape fields).mapError .duplicateField

/-- The declared shapes. The first bad shape in the order of names gives the error. -/
def shapeTable (m : Manifest) : Except ManifestError ShapeTable := do
  return .ofList (← m.shapes.items.mapM fun (shape, fields) => fieldSet shape fields)

end Manifest
end MapPlan
