import MapPlan.Proofs.Plan.History

/-!
# The cache does not show

Whatever was done with a pass before, a run answers with the plans and diagnostics of a new pass
that keeps no plans at all, as long as the digest does not confuse the inputs planned on the way.
-/

namespace MapPlan

/-- The same resolver, for a pass that keeps no plans. -/
def Resolver.uncached (r : Resolver) : Resolver :=
  { r with options := { r.options with planCacheCapacity := 0 } }

theorem Resolver.resolve_uncached (r : Resolver) : r.uncached.resolve = r.resolve := rfl

/-- What a run answers, the use of the cache apart. -/
def PassOutput.answer (o : PassOutput) : List Plan × List Diagnostic :=
  (o.plans, o.diagnostics)

namespace Pass

def ofResolver (r : Resolver) : Pass where
  resolver := r

/-- What a step answers if it is the first of a pass that keeps no plans. -/
def Step.fresh? (r : Resolver) : Step → Option PassOutput
  | run catalog snapshot _ => some ((ofResolver r.uncached).run catalog snapshot).1
  | invalidate | evict _ => none

variable {r : Resolver} {fed : List Inputs}

theorem plans_fresh (hfed : r.CollisionFree fed) {catalog : Catalog} {snapshot : Snapshot}
    (hinputs : ∀ i ∈ Inputs.ofRun catalog snapshot, i ∈ fed) :
    ((ofResolver r.uncached).run catalog snapshot).1.plans =
      Plan.materialize ((Inputs.ofRun catalog snapshot).map r.resolve) := by
  have hrun := runLosing_all (ofResolver r.uncached) catalog snapshot
  obtain ⟨hplans, _⟩ :=
    runLosing_faithful (p := ofResolver r.uncached) (Cache.all_ofCapacity 0) hfed hinputs
      fun _ _ => true
  rw [hrun] at hplans
  rw [← r.resolve_uncached]
  exact hplans

/-- A run with a faithful cache answers like a fresh one. -/
theorem answer_runLosing {p : Pass} (hp : p.cache.Faithful p.resolver fed)
    (hfed : p.resolver.CollisionFree fed) {catalog : Catalog} {snapshot : Snapshot}
    (hinputs : ∀ i ∈ Inputs.ofRun catalog snapshot, i ∈ fed)
    (keep : Nat → Digest.Fingerprint → Bool) :
    (p.runLosing catalog snapshot keep).1.answer =
      ((ofResolver p.resolver.uncached).run catalog snapshot).1.answer := by
  have hplans : (p.runLosing catalog snapshot keep).1.plans =
      ((ofResolver p.resolver.uncached).run catalog snapshot).1.plans := by
    rw [(runLosing_faithful hp hfed hinputs keep).1, plans_fresh hfed hinputs]
  rw [PassOutput.answer, diagnostics_runLosing, hplans]
  rfl

/-- A step answers like a fresh pass. -/
theorem answer_apply {p : Pass} (hp : p.cache.Faithful p.resolver fed)
    (hfed : p.resolver.CollisionFree fed) {step : Step} (hinputs : ∀ i ∈ step.inputs, i ∈ fed) :
    List.Forall₂ (fun o o' => o.answer = o'.answer) (step.apply p).1.toList
      (step.fresh? p.resolver).toList := by
  cases step with
  | run catalog snapshot keep => exact .cons (answer_runLosing hp hfed hinputs keep) .nil
  | invalidate => exact .nil
  | evict keep => exact .nil

/-- Each run among some steps is one with a cache that is faithful to the inputs of the steps. -/
theorem forall₂_outputs_ofResolver {β : Type} {f : Step → Option β} {R : PassOutput → β → Prop}
    {steps : List Step}
    (hstep : ∀ q : Pass, q.resolver = r → q.cache.Faithful r (steps.flatMap Step.inputs) →
      ∀ step : Step, (∀ i ∈ step.inputs, i ∈ steps.flatMap Step.inputs) →
        List.Forall₂ R (step.apply q).1.toList (f step).toList) :
    List.Forall₂ R ((ofResolver r).outputs steps) (steps.filterMap f) := by
  have hinputs : ∀ step ∈ steps, ∀ i ∈ step.inputs, i ∈ steps.flatMap Step.inputs :=
    fun step hmem i hi => List.mem_flatMap.2 ⟨step, hmem, hi⟩
  have hempty : (ofResolver r).cache.Faithful r (steps.flatMap Step.inputs) :=
    Cache.all_ofCapacity _
  exact forall₂_outputs rfl hempty (fun step hmem i hi => ⟨i, hinputs step hmem i hi, rfl⟩)
    fun q hq hfaithful step hmem => hstep q hq hfaithful step (hinputs step hmem)

/-- A pass that starts with an empty cache of any capacity answers each run like a new pass that
keeps no plans. -/
theorem answers_eq_fresh (r : Resolver) (steps : List Step)
    (hhash : r.CollisionFree (steps.flatMap Step.inputs)) :
    ((ofResolver r).outputs steps).map PassOutput.answer =
      (steps.filterMap (Step.fresh? r)).map PassOutput.answer := by
  rw [← List.forall₂_eq_eq_eq, List.forall₂_map_left_iff, List.forall₂_map_right_iff]
  refine forall₂_outputs_ofResolver ?_
  rintro q rfl hq step hinputs
  exact answer_apply hq hhash hinputs

/-! A mapping changes between runs, a run loses its plans half-way, and the cache is thinned out and
emptied. -/

def sampleEntry (reverse : Bool) : Entry :=
  .explicit ⟨"A", "B"⟩ { reverse } ⟨"o", 0⟩

def sampleSnapshot (reverse : Bool) : Snapshot where
  entries := KeyedMap.ofList [sampleEntry reverse]

def sampleInputs (reverse : Bool) : Inputs :=
  .ofEntry { table := .empty } (sampleSnapshot reverse) (sampleEntry reverse)

def sampleResolver : Resolver where
  options := { parameterTarget := "s", conventionalAliases := [] }

def sampleSteps : List Step :=
  [.run { table := .empty } (sampleSnapshot false) (fun _ _ => true),
   .run { table := .empty } (sampleSnapshot true) (fun _ _ => true),
   .evict (fun f => f.bytes.head? = some 0),
   .run { table := .empty } (sampleSnapshot false) (fun n _ => n = 0),
   .invalidate,
   .run { table := .empty } (sampleSnapshot true) (fun _ _ => false)]

theorem fingerprint_sample_ne :
    sampleResolver.fingerprint (sampleInputs false) ≠
      sampleResolver.fingerprint (sampleInputs true) := by
  decide +kernel

theorem inputs_sample : sampleSteps.flatMap Step.inputs =
    [sampleInputs false, sampleInputs true, sampleInputs false, sampleInputs true] := rfl

theorem mem_inputs_sample {i : Inputs} (h : i ∈ sampleSteps.flatMap Step.inputs) :
    i = sampleInputs false ∨ i = sampleInputs true := by
  rw [inputs_sample] at h
  simp only [List.mem_cons, List.not_mem_nil, or_false] at h
  rcases h with h | h | h | h
  · exact .inl h
  · exact .inr h
  · exact .inl h
  · exact .inr h

theorem collisionFree_sample : sampleResolver.CollisionFree (sampleSteps.flatMap Step.inputs) :=
  Resolver.collisionFree_of_mem fingerprint_sample_ne fun _ => mem_inputs_sample

theorem answers_sample :
    sampleResolver.CollisionFree (sampleSteps.flatMap Step.inputs) ∧
    ((ofResolver sampleResolver).outputs sampleSteps).map PassOutput.answer =
      (sampleSteps.filterMap (Step.fresh? sampleResolver)).map PassOutput.answer :=
  ⟨collisionFree_sample, answers_eq_fresh sampleResolver sampleSteps collisionFree_sample⟩

end Pass
end MapPlan
