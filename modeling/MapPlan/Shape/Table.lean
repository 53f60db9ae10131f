import MapPlan.KeyedMap
import MapPlan.Shape.FieldSet

/-! # Shape tables

The declared shapes by name. A shape that nobody declared has no fields. -/

namespace MapPlan

abbrev ShapeTable := KeyedMap FieldSet.shape

/-- The fields of a shape. -/
def ShapeTable.fields (t : ShapeTable) (shape : String) : FieldSet :=
  (t.find? shape).getD (.empty shape)

end MapPlan
