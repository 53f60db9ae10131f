import Mathlib.Data.List.Forall2
import MapPlan.Plan.Pass
import MapPlan.Proofs.Plan.Coverage
import MapPlan.Proofs.Shape.Catalog

/-!
# What happens to a pass

A pass is run time and again, each time with any catalog and any snapshot, and between the runs its
cache is emptied or loses plans. It may also lose plans within a run, before any entry. Whatever
happens, a cache that was empty at first holds plans of inputs that were planned, and nothing else.
-/

namespace MapPlan

open Digest (Fingerprint)

/-! ## Inputs of a run -/

/-- What the plan of an entry is made from. -/
def Inputs.ofEntry (catalog : Catalog) (snapshot : Snapshot) (entry : Entry) : Inputs where
  entry
  source := (catalog.fields entry.key.source).1
  dest := (catalog.fields entry.key.destination).1
  snapshot

/-- What the plans of a run are made from. -/
def Inputs.ofRun (catalog : Catalog) (snapshot : Snapshot) : List Inputs :=
  snapshot.entries.items.map (ofEntry catalog snapshot)

/-- Some inputs have the same digest only if they have the same bytes. -/
def Resolver.CollisionFree (r : Resolver) (fed : List Inputs) : Prop :=
  ∀ i ∈ fed, ∀ i' ∈ fed, r.fingerprint i = r.fingerprint i' → r.inputBytes i = r.inputBytes i'

theorem Resolver.resolve_eq_of_fingerprint_eq {r : Resolver} {fed : List Inputs} {i i' : Inputs}
    (hfed : r.CollisionFree fed) (hi : i ∈ fed) (hi' : i' ∈ fed)
    (h : r.fingerprint i = r.fingerprint i') : r.resolve i = r.resolve i' := by
  have hagree := agree_of_inputBytes_eq r (hfed i hi i' hi' h)
  rw [resolve, resolve, h, planAs_congr r hagree]

/-- Two digests that differ make no collision, however often they are taken. -/
theorem Resolver.collisionFree_of_mem {r : Resolver} {fed : List Inputs} {i i' : Inputs}
    (hne : r.fingerprint i ≠ r.fingerprint i') (hfed : ∀ j ∈ fed, j = i ∨ j = i') :
    r.CollisionFree fed := by
  intro j hj j' hj' h
  rcases hfed j hj with rfl | rfl <;> rcases hfed j' hj' with rfl | rfl
  · rfl
  · exact absurd h hne
  · exact absurd h.symm hne
  · rfl

namespace Cache

/-! ## Losing plans -/

theorem mem_evict {c : Cache} {keep : Fingerprint → Bool} {plan : Plan}
    (h : plan ∈ (c.evict keep).plans.items) : plan ∈ c.plans.items :=
  (KeyedMap.mem_filter.1 h).1

theorem evict_all (c : Cache) : c.evict (fun _ => true) = c := by
  have hplans : c.plans.filter (fun _ => true) = c.plans :=
    KeyedMap.ext (List.filter_eq_self.2 fun _ _ => rfl)
  rw [evict, hplans]

/-! ## The plans of a cache -/

theorem mem_of_get? {c : Cache} {f : Fingerprint} {plan : Plan} (h : c.get? f = some plan) :
    plan ∈ c.plans.items ∧ plan.fingerprint = f := by
  rw [get?] at h
  split at h
  · exact KeyedMap.find?_eq_some.1 h
  · cases h

/-- All plans that a cache holds are of one kind. -/
def All (P : Plan → Prop) (c : Cache) : Prop :=
  ∀ plan ∈ c.plans.items, P plan

variable {r : Resolver} {fed : List Inputs} {c : Cache} {P : Plan → Prop}

theorem all_ofCapacity (capacity : Nat) : All P (ofCapacity capacity) := by
  intro plan hplan
  cases hplan

theorem All.evict (hc : All P c) (keep : Fingerprint → Bool) : All P (c.evict keep) :=
  fun plan hplan => hc plan (mem_evict hplan)

/-- The plan that a cache gives for some inputs has their fingerprint, kept or not, and it is of the
kind of those it holds, if the plan made from the inputs is. -/
theorem All.getOrMake (hc : All P c) {i : Inputs} (hi : P (r.resolve i)) :
    (P (c.getOrMake (r.fingerprint i) (r.planAs i)).1.1 ∧
      (c.getOrMake (r.fingerprint i) (r.planAs i)).1.1.fingerprint = r.fingerprint i) ∧
      All P (c.getOrMake (r.fingerprint i) (r.planAs i)).2 := by
  rw [Cache.getOrMake]
  cases hget : c.get? (r.fingerprint i) with
  | some plan =>
    obtain ⟨hplan, hfingerprint⟩ := mem_of_get? hget
    exact ⟨⟨hc plan hplan, hfingerprint⟩, hc⟩
  | none =>
    refine ⟨⟨hi, rfl⟩, fun plan hplan => ?_⟩
    by_cases henabled : c.enabled
    · simp only [henabled, if_true] at hplan
      rcases KeyedMap.mem_insert.1 hplan with rfl | ⟨hplan, _⟩
      · exact hi
      · exact hc plan hplan
    · simp only [henabled, Bool.false_eq_true, if_false] at hplan
      exact hc plan hplan

/-- A cache holds plans of the given inputs only. -/
def Faithful (r : Resolver) (fed : List Inputs) : Cache → Prop :=
  All fun plan => ∃ i ∈ fed, plan = r.resolve i

end Cache

namespace Pass

/-! ## Histories -/

/-- The plans of some entries, with a cache that loses plans before each of them. -/
def planEntriesLosing (r : Resolver) (snapshot : Snapshot) :
    List Entry → (Nat → Fingerprint → Bool) → State → List (Plan × Bool) × State
  | [], _, s => ([], s)
  | entry :: rest, keep, s =>
    let (answer, s) := planEntry r snapshot entry { s with cache := s.cache.evict (keep 0) }
    let (answers, s) := planEntriesLosing r snapshot rest (fun n => keep (n + 1)) s
    (answer :: answers, s)

/-- A run that keeps some plans only before each entry. -/
def runLosing (p : Pass) (catalog : Catalog) (snapshot : Snapshot)
    (keep : Nat → Fingerprint → Bool) : PassOutput × Pass :=
  let (answers, s) :=
    planEntriesLosing p.resolver snapshot snapshot.entries.items keep ⟨p.cache, catalog⟩
  (output snapshot answers, { p with cache := s.cache })

theorem planEntriesLosing_cons (r : Resolver) (snapshot : Snapshot) (entry : Entry)
    (rest : List Entry) (keep : Nat → Fingerprint → Bool) (s : State) :
    planEntriesLosing r snapshot (entry :: rest) keep s =
      let first := planEntry r snapshot entry { s with cache := s.cache.evict (keep 0) }
      let others := planEntriesLosing r snapshot rest (fun n => keep (n + 1)) first.2
      (first.1 :: others.1, others.2) := rfl

theorem planEntriesLosing_all (r : Resolver) (snapshot : Snapshot) (entries : List Entry)
    (s : State) :
    planEntriesLosing r snapshot entries (fun _ _ => true) s =
      planEntries r snapshot entries s := by
  induction entries generalizing s with
  | nil => rfl
  | cons entry rest ih => simp only [planEntriesLosing, planEntries, Cache.evict_all, ih]

/-- A run is one that loses nothing. -/
theorem runLosing_all (p : Pass) (catalog : Catalog) (snapshot : Snapshot) :
    p.runLosing catalog snapshot (fun _ _ => true) =
      ((p.run catalog snapshot).1, (p.run catalog snapshot).2.1) := by
  simp only [runLosing, run, planEntriesLosing_all]

/-! ## The plans of a run -/

variable {r : Resolver} {fed : List Inputs} {catalog : Catalog} {snapshot : Snapshot}
  {P : Plan → Prop}

/-- A catalog that answers like another one gives an entry the inputs that the other would. -/
theorem planEntry_eq (r : Resolver) (snapshot : Snapshot) (entry : Entry) {s : State}
    (hcatalog : ∀ shape, (s.catalog.fields shape).1 = (catalog.fields shape).1) :
    let i := Inputs.ofEntry catalog snapshot entry
    (planEntry r snapshot entry s).1 = (s.cache.getOrMake (r.fingerprint i) (r.planAs i)).1 ∧
      (planEntry r snapshot entry s).2.cache =
        (s.cache.getOrMake (r.fingerprint i) (r.planAs i)).2 ∧
      ∀ shape, ((planEntry r snapshot entry s).2.catalog.fields shape).1 =
        (catalog.fields shape).1 := by
  have hinputs : (⟨entry, (s.catalog.fields entry.key.source).1,
      ((s.catalog.fields entry.key.source).2.fields entry.key.destination).1, snapshot⟩ : Inputs) =
      .ofEntry catalog snapshot entry := by
    rw [Catalog.fields_fields, hcatalog, hcatalog]
    rfl
  rw [← hinputs]
  refine ⟨rfl, rfl, fun shape => ?_⟩
  simp only [planEntry, Catalog.fields_fields]
  exact hcatalog shape

/-- Each plan of a run has the fingerprint of its inputs. If all plans made from the inputs of the
run are of one kind, as are those in the cache, then so are the plans of the run and those that the
cache holds after it. -/
theorem all_planEntriesLosing {entries : List Entry} (keep : Nat → Fingerprint → Bool) {s : State}
    (hs : s.cache.All P)
    (hcatalog : ∀ shape, (s.catalog.fields shape).1 = (catalog.fields shape).1)
    (hentries : ∀ entry ∈ entries, P (r.resolve (.ofEntry catalog snapshot entry))) :
    List.Forall₂ (fun entry (answer : Plan × Bool) => P answer.1 ∧
        answer.1.fingerprint = r.fingerprint (.ofEntry catalog snapshot entry))
      entries (planEntriesLosing r snapshot entries keep s).1 ∧
    (planEntriesLosing r snapshot entries keep s).2.cache.All P := by
  induction entries generalizing keep s with
  | nil => exact ⟨.nil, hs⟩
  | cons entry rest ih =>
    obtain ⟨hanswer, hcache, hcatalog⟩ :=
      planEntry_eq r snapshot entry (s := { s with cache := s.cache.evict (keep 0) }) hcatalog
    obtain ⟨hentry, hentries⟩ := List.forall_mem_cons.1 hentries
    obtain ⟨hplan, hall⟩ := (hs.evict (keep 0)).getOrMake hentry
    rw [← hanswer] at hplan
    rw [← hcache] at hall
    obtain ⟨hplans, hrest⟩ := ih (fun n => keep (n + 1)) hall hcatalog hentries
    exact ⟨.cons hplan hplans, hrest⟩

theorem all_runLosing {p : Pass} (hp : p.cache.All P)
    (hinputs : ∀ i ∈ Inputs.ofRun catalog snapshot, P (p.resolver.resolve i))
    (keep : Nat → Fingerprint → Bool) :
    (∀ plan ∈ (p.runLosing catalog snapshot keep).1.plans, P plan) ∧
      (p.runLosing catalog snapshot keep).2.cache.All P := by
  obtain ⟨hanswers, hcache⟩ :=
    all_planEntriesLosing keep (s := ⟨p.cache, catalog⟩) hp (fun _ => rfl)
      fun entry hentry => hinputs _ (List.mem_map_of_mem hentry)
  refine ⟨fun plan hplan => ?_, hcache⟩
  obtain ⟨answer, hanswer, rfl⟩ := List.mem_map.1 (List.mem_mergeSort.1 hplan)
  exact ((List.forall₂_and_left _ _).1 hanswers.flip).1 answer hanswer

/-- The plans of a run are those of its inputs, and its cache stays faithful. -/
theorem runLosing_faithful {p : Pass} (hp : p.cache.Faithful p.resolver fed)
    (hfed : p.resolver.CollisionFree fed) (hinputs : ∀ i ∈ Inputs.ofRun catalog snapshot, i ∈ fed)
    (keep : Nat → Fingerprint → Bool) :
    (p.runLosing catalog snapshot keep).1.plans =
        Plan.materialize ((Inputs.ofRun catalog snapshot).map p.resolver.resolve) ∧
      (p.runLosing catalog snapshot keep).2.cache.Faithful p.resolver fed := by
  have hentries : ∀ entry ∈ snapshot.entries.items, Inputs.ofEntry catalog snapshot entry ∈ fed :=
    fun entry hentry => hinputs _ (List.mem_map_of_mem hentry)
  obtain ⟨hanswers, hcache⟩ :=
    all_planEntriesLosing keep (s := ⟨p.cache, catalog⟩) hp (fun _ => rfl)
      fun entry hentry => ⟨_, hentries entry hentry, rfl⟩
  have hplans := ((List.forall₂_and_left _ _).2 ⟨hentries, hanswers⟩).imp
    fun entry answer ⟨hentry, ⟨i, hi, hanswer⟩, hfingerprint⟩ => hanswer.trans
      (Resolver.resolve_eq_of_fingerprint_eq hfed hi hentry
        ((congrArg Plan.fingerprint hanswer).symm.trans hfingerprint))
  refine ⟨congrArg Plan.materialize ?_, hcache⟩
  rw [Inputs.ofRun, List.map_map, ← List.forall₂_eq_eq_eq, List.forall₂_map_left_iff,
    List.forall₂_map_right_iff]
  exact hplans.flip

/-- Of a run's plans and its snapshot, the diagnostics follow. -/
theorem diagnostics_runLosing (p : Pass) (catalog : Catalog) (snapshot : Snapshot)
    (keep : Nat → Fingerprint → Bool) :
    (p.runLosing catalog snapshot keep).1.diagnostics =
      Diagnostic.sort (snapshot.diagnostics ++
        (p.runLosing catalog snapshot keep).1.plans.flatMap Plan.diagnostics) := rfl

/-! ## Steps -/

/-- What may be done with a pass. -/
inductive Step where
  | run (catalog : Catalog) (snapshot : Snapshot) (keep : Nat → Fingerprint → Bool)
  | invalidate
  | evict (keep : Fingerprint → Bool)

namespace Step

/-- The inputs that a step plans. -/
def inputs : Step → List Inputs
  | run catalog snapshot _ => Inputs.ofRun catalog snapshot
  | invalidate | evict _ => []

def apply (p : Pass) : Step → Option PassOutput × Pass
  | run catalog snapshot keep =>
    let (output, p) := p.runLosing catalog snapshot keep
    (some output, p)
  | invalidate => (none, { p with cache := p.cache.invalidate })
  | evict keep => (none, { p with cache := p.cache.evict keep })

end Step

/-- What a pass is after some steps. -/
def after (p : Pass) (steps : List Step) : Pass :=
  steps.foldl (fun p step => (step.apply p).2) p

/-- What the runs among some steps answer. -/
def outputs : Pass → List Step → List PassOutput
  | _, [] => []
  | p, step :: rest =>
    let (output, p) := step.apply p
    output.toList ++ outputs p rest

theorem outputs_cons (p : Pass) (step : Step) (rest : List Step) :
    p.outputs (step :: rest) = (step.apply p).1.toList ++ (step.apply p).2.outputs rest := rfl

theorem all_apply {p : Pass} {step : Step} (hp : p.cache.All P)
    (hinputs : ∀ i ∈ step.inputs, P (p.resolver.resolve i)) :
    (step.apply p).2.cache.All P ∧ (step.apply p).2.resolver = p.resolver := by
  cases step with
  | run catalog snapshot keep => exact ⟨(all_runLosing hp hinputs keep).2, rfl⟩
  | invalidate => exact ⟨hp.evict _, rfl⟩
  | evict keep => exact ⟨hp.evict keep, rfl⟩

/-- What the runs among some steps answer, if all plans made from their inputs are of one kind: each
run is one of a pass with the same resolver and with plans of that kind in its cache. -/
theorem forall₂_outputs {β : Type} {f : Step → Option β} {R : PassOutput → β → Prop} {p : Pass}
    {steps : List Step} (hr : p.resolver = r) (hp : p.cache.All P)
    (hinputs : ∀ step ∈ steps, ∀ i ∈ step.inputs, P (r.resolve i))
    (hstep : ∀ q : Pass, q.resolver = r → q.cache.All P → ∀ step ∈ steps,
      List.Forall₂ R (step.apply q).1.toList (f step).toList) :
    List.Forall₂ R (p.outputs steps) (steps.filterMap f) := by
  induction steps generalizing p with
  | nil => exact .nil
  | cons step rest ih =>
    rw [List.forall_mem_cons] at hinputs
    obtain ⟨hcache, hresolver⟩ := all_apply hp (hr ▸ hinputs.1)
    have hrest := ih (hresolver.trans hr) hcache hinputs.2 fun q hq hall step hmem =>
      hstep q hq hall step (List.mem_cons_of_mem _ hmem)
    have hfilter : (step :: rest).filterMap f = (f step).toList ++ rest.filterMap f := by
      rw [List.filterMap_cons]
      cases f step <;> rfl
    rw [outputs_cons, hfilter]
    exact List.rel_append (hstep p hr hp step List.mem_cons_self) hrest

end Pass
end MapPlan
