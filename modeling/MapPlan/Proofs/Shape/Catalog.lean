import MapPlan.Proofs.KeyedMap
import MapPlan.Shape.Catalog

/-!
# Catalogs

What a catalog answers for a shape does not depend on which shapes it was asked for before.
-/

namespace MapPlan

theorem ShapeTable.shape_fields (t : ShapeTable) (shape : String) :
    (t.fields shape).shape = shape := by
  rw [fields]
  cases hfind : t.find? shape with
  | none => rfl
  | some s => exact (KeyedMap.find?_eq_some.1 hfind).2

namespace Catalog

theorem fst_fields (c : Catalog) (shape : String) :
    (c.fields shape).1 = (c.cached? shape).getD (c.table.fields shape) := by
  rw [fields]
  cases c.cached? shape <;> rfl

@[simp] theorem table_fields (c : Catalog) (shape : String) :
    (c.fields shape).2.table = c.table := by
  rw [fields]
  cases c.cached? shape <;> rfl

/-- A catalog remembers what it was asked for. -/
theorem cached?_fields_self (c : Catalog) (shape : String) :
    (c.fields shape).2.cached? shape = some (c.fields shape).1 := by
  rw [fst_fields, fields]
  cases hcached : c.cached? shape with
  | some s => exact hcached
  | none =>
    have hfind := KeyedMap.find?_insert_self (m := c.remembered) (v := c.table.fields shape)
    rw [ShapeTable.shape_fields] at hfind
    exact hfind

theorem cached?_fields_of_ne {c : Catalog} {asked shape : String} (hne : asked ≠ shape) :
    (c.fields asked).2.cached? shape = c.cached? shape := by
  rw [fields]
  cases c.cached? asked with
  | some s => rfl
  | none =>
    refine KeyedMap.find?_insert_of_ne ?_
    rw [ShapeTable.shape_fields]
    exact hne

/-- Asking for one shape does not change the answer for any. -/
theorem fields_fields (c : Catalog) (asked shape : String) :
    ((c.fields asked).2.fields shape).1 = (c.fields shape).1 := by
  by_cases heq : asked = shape
  · subst heq
    rw [fst_fields, cached?_fields_self, Option.getD_some]
  · rw [fst_fields, fst_fields c shape, cached?_fields_of_ne heq, table_fields]

end Catalog
end MapPlan
