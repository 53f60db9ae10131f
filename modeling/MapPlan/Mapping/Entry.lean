import MapPlan.Mapping.Config
import MapPlan.Mapping.Key

/-! # Mapping entries

A mapping with its configuration and its origin. Of two entries for one key, precedence decides
which is kept; it looks at the entries only, never at which came first. -/

namespace MapPlan

/-- How an entry came to exist. -/
inductive Origin where
  | explicit (provenance : Provenance)
  /-- As the reverse of another mapping. -/
  | synthesized (forward : Key)
deriving DecidableEq, Repr

structure Entry where
  key : Key
  config : Config
  origin : Origin
deriving DecidableEq

namespace Entry

def explicit (key : Key) (config : Config) (provenance : Provenance) : Entry :=
  ⟨key, config, .explicit provenance⟩

/-- The reverse of an entry takes over its shapes and nothing else. -/
def reverseOf (forward : Entry) : Entry :=
  ⟨forward.key.inverse, {}, .synthesized forward.key⟩

def provenance? (e : Entry) : Option Provenance :=
  match e.origin with
  | .explicit p => some p
  | .synthesized _ => none

def isExplicit (e : Entry) : Bool :=
  e.provenance?.isSome

/-- The entry that compares less is kept. Explicit entries go before synthesized ones; among those
of one kind the origins decide, and for entries of the same provenance the written
configurations. -/
def precedence (a b : Entry) : Ordering :=
  match a.origin, b.origin with
  | .explicit p, .explicit q =>
    (compare p q).then (compare a.config.toJson.compact b.config.toJson.compact)
  | .explicit _, .synthesized _ => .lt
  | .synthesized _, .explicit _ => .gt
  | .synthesized k, .synthesized l => compare k l

/-- How diagnostics name the entry. -/
def label (e : Entry) : String :=
  match e.origin with
  | .explicit p => p.text
  | .synthesized forward => "reverse of " ++ forward.text

end Entry
end MapPlan
