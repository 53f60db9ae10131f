import MapPlan.Shape.Table

/-! # Catalogs

A catalog looks each shape up once and remembers what it found. It counts the lookups, and
forgetting what it remembers does not reset the count. -/

namespace MapPlan

structure Catalog where
  table : ShapeTable
  remembered : KeyedMap FieldSet.shape := .empty
  introspections : Nat := 0
deriving DecidableEq

structure Catalog.Stats where
  cachedShapes : Nat
  introspections : Nat
deriving DecidableEq, Repr

namespace Catalog

def cached? (c : Catalog) (shape : String) : Option FieldSet :=
  c.remembered.find? shape

def fields (c : Catalog) (shape : String) : FieldSet × Catalog :=
  match c.cached? shape with
  | some s => (s, c)
  | none =>
    let s := c.table.fields shape
    (s, { c with
      remembered := c.remembered.insert s
      introspections := c.introspections + 1 })

def clear (c : Catalog) : Catalog :=
  { c with remembered := .empty }

def stats (c : Catalog) : Stats :=
  ⟨c.remembered.size, c.introspections⟩

end Catalog
end MapPlan
