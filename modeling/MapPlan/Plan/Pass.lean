import MapPlan.Plan.Cache
import MapPlan.Plan.Resolver
import MapPlan.Shape.Catalog

/-! # Compilation passes

A run makes the plans of all mappings of a snapshot. Plans made in an earlier run of the same pass
are taken from its cache, which does not show in the answer but for the count of such plans. -/

namespace MapPlan

structure Pass where
  resolver : Resolver := {}
  cache : Cache := .ofCapacity resolver.options.planCacheCapacity

structure PassOutput where
  plans : List Plan
  diagnostics : List Diagnostic
  cacheHits : Nat
deriving DecidableEq

namespace PassOutput

/-- The problems that should stop a build. -/
def escalations (o : PassOutput) : List Diagnostic :=
  o.diagnostics.filter (·.isError)

def hasErrors (o : PassOutput) : Bool :=
  o.diagnostics.any (·.isError)

end PassOutput

namespace Pass

def ofOptions (o : Options) : Pass where
  resolver := { options := o }

/-- What a run leaves behind. -/
structure State where
  cache : Cache
  catalog : Catalog

/-- The plan of one mapping, and whether it was in the cache. -/
def planEntry (r : Resolver) (snapshot : Snapshot) (entry : Entry) (s : State) :
    (Plan × Bool) × State :=
  let (source, catalog) := s.catalog.fields entry.key.source
  let (dest, catalog) := catalog.fields entry.key.destination
  let inputs : Inputs := ⟨entry, source, dest, snapshot⟩
  let (answer, cache) := s.cache.getOrMake (r.fingerprint inputs) (r.planAs inputs)
  (answer, ⟨cache, catalog⟩)

def planEntries (r : Resolver) (snapshot : Snapshot) :
    List Entry → State → List (Plan × Bool) × State
  | [], s => ([], s)
  | entry :: rest, s =>
    let (answer, s) := planEntry r snapshot entry s
    let (answers, s) := planEntries r snapshot rest s
    (answer :: answers, s)

/-- What a run answers, from the plans of the entries of its snapshot. -/
def output (snapshot : Snapshot) (answers : List (Plan × Bool)) : PassOutput :=
  let plans := Plan.materialize (answers.map Prod.fst)
  { plans
    diagnostics := Diagnostic.sort (snapshot.diagnostics ++ plans.flatMap Plan.diagnostics)
    cacheHits := answers.countP Prod.snd }

def run (p : Pass) (catalog : Catalog) (snapshot : Snapshot) : PassOutput × Pass × Catalog :=
  let (answers, s) := planEntries p.resolver snapshot snapshot.entries.items ⟨p.cache, catalog⟩
  (output snapshot answers, { p with cache := s.cache }, s.catalog)

end Pass
end MapPlan
