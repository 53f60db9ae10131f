import MapPlan.Manifest.Mappings
import MapPlan.Manifest.Shapes
import MapPlan.Plan.Pass

/-! # Compiling manifests -/

namespace MapPlan.Manifest

/-- The plans of all mappings of a manifest, made in one run of a new pass. -/
def compile (m : Manifest) (o : Options) : Except ManifestError PassOutput := do
  let table ← m.shapeTable
  let (registry, registered) := m.register {}
  registered
  return ((Pass.ofOptions o).run { table } registry.snapshot).1

end MapPlan.Manifest
