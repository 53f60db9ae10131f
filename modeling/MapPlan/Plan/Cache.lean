import MapPlan.KeyedMap
import MapPlan.Plan.Basic

/-! # Plan caches

Plans kept under their fingerprints, with a count of the lookups that found one and of those that
did not. A cache may be switched off, and it may lose plans at any time. -/

namespace MapPlan

structure Cache where
  enabled : Bool
  plans : KeyedMap Plan.fingerprint := .empty
  hits : Nat := 0
  misses : Nat := 0
deriving DecidableEq

namespace Cache

open Digest (Fingerprint)

/-- An empty cache. One without any capacity is switched off. -/
def ofCapacity (capacity : Nat) : Cache where
  enabled := capacity ≠ 0

def get? (c : Cache) (f : Fingerprint) : Option Plan :=
  if c.enabled then c.plans.find? f else none

/-- The plan for a fingerprint, made now unless it is kept, and whether it was. -/
def getOrMake (c : Cache) (f : Fingerprint) (make : Fingerprint → Plan) :
    (Plan × Bool) × Cache :=
  match c.get? f with
  | some plan => ((plan, true), { c with hits := c.hits + 1 })
  | none =>
    let plan := make f
    let plans := if c.enabled then c.plans.insert plan else c.plans
    ((plan, false), { c with plans, misses := c.misses + 1 })

/-- Lose the plans that are not kept. -/
def evict (c : Cache) (keep : Fingerprint → Bool) : Cache :=
  { c with plans := c.plans.filter fun p => keep p.fingerprint }

def invalidate (c : Cache) : Cache :=
  c.evict fun _ => false

def size (c : Cache) : Nat :=
  c.plans.size

end Cache
end MapPlan
