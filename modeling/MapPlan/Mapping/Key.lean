import MapPlan.Json.Basic

/-! # Mapping keys and provenances

A mapping is known by the shape it reads and the shape it writes, and a registration by where it was
declared. Both are ordered, so that whatever depends on them does not depend on time. -/

namespace MapPlan

structure Key where
  source : String
  destination : String
deriving DecidableEq, Repr

namespace Key

instance : Ord Key :=
  ⟨compareLex (compareOn Key.source) (compareOn Key.destination)⟩

instance : Std.TransOrd Key :=
  inferInstanceAs (Std.TransCmp (compareLex (compareOn Key.source) (compareOn Key.destination)))

instance : Std.LawfulEqOrd Key where
  eq_of_compare {a b} h := by
    obtain ⟨source, destination⟩ := Ordering.then_eq_eq.1 h
    have source : a.source = b.source := Std.LawfulEqOrd.eq_of_compare source
    have destination : a.destination = b.destination := Std.LawfulEqOrd.eq_of_compare destination
    cases a; cases b; cases source; cases destination; rfl

def sort (l : List Key) : List Key :=
  l.mergeSort fun a b => (compare a b).isLE

/-- The key of the opposite direction. -/
def inverse (k : Key) : Key :=
  ⟨k.destination, k.source⟩

def isSelf (k : Key) : Bool :=
  k.source = k.destination

def text (k : Key) : String :=
  k.source ++ " -> " ++ k.destination

def toJson (k : Key) : Json :=
  .obj [("source", .str k.source), ("destination", .str k.destination)]

end Key

/-- Where a mapping was declared: in which configuration, and at which position there. -/
structure Provenance where
  origin : String
  ordinal : Nat
deriving DecidableEq, Repr

namespace Provenance

instance : Ord Provenance :=
  ⟨compareLex (compareOn Provenance.origin) (compareOn Provenance.ordinal)⟩

instance : Std.TransOrd Provenance :=
  inferInstanceAs
    (Std.TransCmp (compareLex (compareOn Provenance.origin) (compareOn Provenance.ordinal)))

instance : Std.LawfulEqOrd Provenance where
  eq_of_compare {a b} h := by
    obtain ⟨origin, ordinal⟩ := Ordering.then_eq_eq.1 h
    have origin : a.origin = b.origin := Std.LawfulEqOrd.eq_of_compare origin
    have ordinal : a.ordinal = b.ordinal := Std.LawfulEqOrd.eq_of_compare ordinal
    cases a; cases b; cases origin; cases ordinal; rfl

def sort (l : List Provenance) : List Provenance :=
  l.mergeSort fun a b => (compare a b).isLE

def text (p : Provenance) : String :=
  p.origin ++ "#" ++ String.ofList (Json.decimal p.ordinal)

end Provenance
end MapPlan
