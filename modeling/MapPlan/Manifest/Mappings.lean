import MapPlan.Manifest.Basic
import MapPlan.Mapping.Registry

/-! # Declared mappings

Mappings are registered one after the other, up to the first that is not sound. -/

namespace MapPlan

namespace MappingDecl

/-- The fields that the declaration configures, as often as it does. -/
def configured (m : MappingDecl) : List String :=
  m.ignore ++ m.rename.keys ++ m.expression.keys ++ m.constant.keys

def config (m : MappingDecl) : Config :=
  let start : Config := { reverse := m.reverse, ignoreUnmatched := m.ignoreUnmatched }
  let c := m.ignore.foldl Config.ignore start
  let c := m.rename.items.foldl (fun c (field, source) => c.rename field source) c
  let c := m.expression.items.foldl (fun c (field, text) => c.expression field text) c
  m.constant.items.foldl (fun c (field, text) => c.constant field text) c

end MappingDecl

namespace Manifest

def declares (m : Manifest) (shape : String) : Bool :=
  m.shapes.contains shape

/-- What is wrong with a mapping of the manifest: a shape, the source first, or a field that is
configured more than once. -/
def fault? (m : Manifest) (d : MappingDecl) : Option ManifestError :=
  if !m.declares d.source then some (.undeclaredShape d.key d.source)
  else if !m.declares d.destination then some (.undeclaredShape d.key d.destination)
  else (firstRepeated? [] d.configured).map (.conflictingDirective d.key)

/-- What stands for the origin of a manifest that has none. -/
def originName (m : Manifest) : String :=
  m.origin.getD "manifest"

/-- Register mappings from the one at position `ordinal` on. -/
def registerFrom (m : Manifest) (ordinal : Nat) (r : Registry) :
    List MappingDecl → Registry × Except ManifestError Unit
  | [] => (r, .ok ())
  | d :: rest =>
    match m.fault? d with
    | some e => (r, .error e)
    | none =>
      let entry := Entry.explicit d.key d.config ⟨m.originName, ordinal⟩
      registerFrom m (ordinal + 1) (r.add entry).2 rest

/-- Register the declared mappings; what was registered before a fault stays. -/
def register (m : Manifest) (r : Registry) : Registry × Except ManifestError Unit :=
  m.registerFrom 0 r m.mappings

end Manifest
end MapPlan
