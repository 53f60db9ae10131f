import Mathlib.Algebra.BigOperators.Group.List.Basic
import Mathlib.Algebra.GroupWithZero.Nat
import Mathlib.Data.Finset.Card
import MapPlan.Proofs.Plan.Transparency

/-!
# The books of a cache

A pass looks up one plan for each entry of a run, and its cache counts the lookups that found one
and those that did not. If nothing is lost, a plan is found exactly if its inputs were planned in an
earlier run since the cache was last emptied: two entries of one run have different keys, so none
finds the plan of another. A cache without capacity finds nothing and keeps nothing.
-/

namespace MapPlan

open Digest (Fingerprint)

/-! ## Lookups are counted -/

namespace Cache

theorem hits_getOrMake (c : Cache) (f : Fingerprint) (make : Fingerprint → Plan) :
    (c.getOrMake f make).2.hits = c.hits + if (c.getOrMake f make).1.2 then 1 else 0 := by
  rw [getOrMake]
  cases c.get? f <;> rfl

theorem lookups_getOrMake (c : Cache) (f : Fingerprint) (make : Fingerprint → Plan) :
    (c.getOrMake f make).2.hits + (c.getOrMake f make).2.misses = c.hits + c.misses + 1 := by
  rw [getOrMake]
  cases c.get? f with
  | some plan => exact Nat.add_right_comm _ _ _
  | none => rfl

end Cache

namespace Pass

theorem hits_planEntry (r : Resolver) (snapshot : Snapshot) (entry : Entry) (s : State) :
    (planEntry r snapshot entry s).2.cache.hits =
      s.cache.hits + if (planEntry r snapshot entry s).1.2 then 1 else 0 := by
  obtain ⟨hanswer, hcache, _⟩ := planEntry_eq r snapshot entry (s := s) fun _ => rfl
  rw [hanswer, hcache, Cache.hits_getOrMake]

theorem lookups_planEntry (r : Resolver) (snapshot : Snapshot) (entry : Entry) (s : State) :
    (planEntry r snapshot entry s).2.cache.hits + (planEntry r snapshot entry s).2.cache.misses =
      s.cache.hits + s.cache.misses + 1 := by
  obtain ⟨_, hcache, _⟩ := planEntry_eq r snapshot entry (s := s) fun _ => rfl
  rw [hcache, Cache.lookups_getOrMake]

/-- Each entry of a run is one lookup, and the answers tell which were hits. -/
theorem counts_planEntriesLosing (r : Resolver) (snapshot : Snapshot) (entries : List Entry)
    (keep : Nat → Fingerprint → Bool) (s : State) :
    let run := planEntriesLosing r snapshot entries keep s
    run.2.cache.hits = s.cache.hits + run.1.countP Prod.snd ∧
      run.2.cache.hits + run.2.cache.misses = s.cache.hits + s.cache.misses + run.1.length := by
  induction entries generalizing keep s with
  | nil => exact ⟨rfl, rfl⟩
  | cons entry rest ih =>
    have hhits : _ = s.cache.hits + _ :=
      hits_planEntry r snapshot entry { s with cache := s.cache.evict (keep 0) }
    have hlookups : _ = s.cache.hits + s.cache.misses + 1 :=
      lookups_planEntry r snapshot entry { s with cache := s.cache.evict (keep 0) }
    obtain ⟨hrest, hrest'⟩ := ih (fun n => keep (n + 1))
      (planEntry r snapshot entry { s with cache := s.cache.evict (keep 0) }).2
    rw [planEntriesLosing_cons]
    simp only [List.countP_cons, List.length_cons]
    constructor <;> omega

theorem length_planEntriesLosing (r : Resolver) (snapshot : Snapshot) (entries : List Entry)
    (keep : Nat → Fingerprint → Bool) (s : State) :
    (planEntriesLosing r snapshot entries keep s).1.length = entries.length := by
  induction entries generalizing keep s with
  | nil => rfl
  | cons entry rest ih => exact congrArg (· + 1) (ih _ _)

theorem length_plans_runLosing (p : Pass) (catalog : Catalog) (snapshot : Snapshot)
    (keep : Nat → Fingerprint → Bool) :
    (p.runLosing catalog snapshot keep).1.plans.length = snapshot.entries.size := by
  have hlength := length_planEntriesLosing p.resolver snapshot snapshot.entries.items keep
    ⟨p.cache, catalog⟩
  show (Plan.materialize _).length = _
  rw [Plan.materialize, List.length_mergeSort, List.length_map, hlength]
  rfl

theorem hits_runLosing (p : Pass) (catalog : Catalog) (snapshot : Snapshot)
    (keep : Nat → Fingerprint → Bool) :
    (p.runLosing catalog snapshot keep).2.cache.hits =
      p.cache.hits + (p.runLosing catalog snapshot keep).1.cacheHits :=
  (counts_planEntriesLosing p.resolver snapshot snapshot.entries.items keep ⟨p.cache, catalog⟩).1

theorem lookups_runLosing (p : Pass) (catalog : Catalog) (snapshot : Snapshot)
    (keep : Nat → Fingerprint → Bool) :
    (p.runLosing catalog snapshot keep).2.cache.hits +
        (p.runLosing catalog snapshot keep).2.cache.misses =
      p.cache.hits + p.cache.misses + (p.runLosing catalog snapshot keep).1.plans.length := by
  have hlookups := (counts_planEntriesLosing p.resolver snapshot snapshot.entries.items keep
    ⟨p.cache, catalog⟩).2
  rw [length_planEntriesLosing] at hlookups
  rw [length_plans_runLosing]
  exact hlookups

/-! ## Counts over a history -/

/-- The counts of a cache are those of what its pass answered. -/
structure Balances (p : Pass) (outputs : List PassOutput) : Prop where
  hits : p.cache.hits = (outputs.map PassOutput.cacheHits).sum
  lookups : p.cache.hits + p.cache.misses = (outputs.map fun o => o.plans.length).sum

theorem counts_after (p : Pass) (steps : List Step) :
    (p.after steps).cache.hits = p.cache.hits + ((p.outputs steps).map PassOutput.cacheHits).sum ∧
      (p.after steps).cache.hits + (p.after steps).cache.misses =
        p.cache.hits + p.cache.misses + ((p.outputs steps).map fun o => o.plans.length).sum := by
  induction steps generalizing p with
  | nil => exact ⟨rfl, rfl⟩
  | cons step rest ih =>
    obtain ⟨hhits, hlookups⟩ := ih (step.apply p).2
    cases step with
    | run catalog snapshot keep =>
      have hrun : _ = p.cache.hits + _ := hits_runLosing p catalog snapshot keep
      have hrun' : _ = p.cache.hits + p.cache.misses + _ :=
        lookups_runLosing p catalog snapshot keep
      have houtputs : p.outputs (.run catalog snapshot keep :: rest) =
          (p.runLosing catalog snapshot keep).1 ::
            (p.runLosing catalog snapshot keep).2.outputs rest := rfl
      have hafter : p.after (.run catalog snapshot keep :: rest) =
          (p.runLosing catalog snapshot keep).2.after rest := rfl
      simp only [Step.apply] at hhits hlookups
      rw [houtputs, hafter, List.map_cons, List.map_cons, List.sum_cons, List.sum_cons]
      constructor <;> omega
    | invalidate => exact ⟨hhits, hlookups⟩
    | evict keep => exact ⟨hhits, hlookups⟩

/-- The books balance after any history, whatever is lost on the way. -/
theorem balances_after (r : Resolver) (steps : List Step) :
    ((ofResolver r).after steps).Balances ((ofResolver r).outputs steps) := by
  obtain ⟨hhits, hlookups⟩ := counts_after (ofResolver r) steps
  exact ⟨hhits.trans (Nat.zero_add _), hlookups.trans (Nat.zero_add _)⟩

theorem outputs_append (p : Pass) (before later : List Step) :
    p.outputs (before ++ later) = p.outputs before ++ (p.after before).outputs later := by
  induction before generalizing p with
  | nil => rfl
  | cons step rest ih =>
    rw [List.cons_append, outputs_cons, outputs_cons, ih, List.append_assoc]
    rfl

end Pass

/-! ## What is found -/

/-- What a plan is made from, the options apart. -/
def Inputs.digested (i : Inputs) : Key × FieldSet × FieldSet × Config × List Key :=
  (i.entry.key, i.source, i.dest, i.entry.config, Resolver.usableKeys i)

theorem Inputs.digested_eq_iff {i i' : Inputs} : i.digested = i'.digested ↔ i.Agree i' := by
  simp only [digested, Prod.mk.injEq]
  constructor
  · rintro ⟨hkey, hsource, hdest, hconfig, husable⟩
    exact ⟨hkey, hsource, hdest, hconfig, husable⟩
  · rintro ⟨hkey, hsource, hdest, hconfig, husable⟩
    exact ⟨hkey, hsource, hdest, hconfig, husable⟩

theorem Resolver.fingerprint_eq_iff {r : Resolver} {fed : List Inputs} {i i' : Inputs}
    (hfed : r.CollisionFree fed) (hi : i ∈ fed) (hi' : i' ∈ fed) :
    r.fingerprint i = r.fingerprint i' ↔ i.digested = i'.digested := by
  rw [Inputs.digested_eq_iff]
  constructor
  · intro h
    exact agree_of_inputBytes_eq r (hfed i hi i' hi' h)
  · intro h
    exact congrArg r.hash ((inputBytes_eq_iff rfl).2 ⟨h, rfl⟩)

namespace Cache

/-- A cache that is in use keeps the plans of these inputs, one for all that have it in common. -/
structure Keeps (r : Resolver) (resolved : List Inputs) (c : Cache) : Prop where
  enabled : c.enabled = true
  kept : ∀ f, f ∈ c.plans.keys ↔ ∃ i ∈ resolved, r.fingerprint i = f
  size : c.size = (resolved.map Inputs.digested).toFinset.card

variable {r : Resolver} {fed resolved : List Inputs} {c : Cache} {i : Inputs}

theorem keeps_nil (henabled : c.enabled = true) (hempty : c.plans.items = []) :
    c.Keeps r [] := by
  refine ⟨henabled, fun f => ?_, ?_⟩
  · rw [KeyedMap.keys, hempty]
    simp
  · rw [size, KeyedMap.size, hempty]
    rfl

theorem Keeps.mem_keys_iff (hc : c.Keeps r resolved) (hfed : r.CollisionFree fed) (hi : i ∈ fed)
    (hresolved : resolved ⊆ fed) :
    r.fingerprint i ∈ c.plans.keys ↔ i.digested ∈ resolved.map Inputs.digested := by
  rw [hc.kept, List.mem_map]
  refine exists_congr fun j => and_congr_right fun hj => ?_
  exact Resolver.fingerprint_eq_iff hfed (hresolved hj) hi

theorem exists_mem_concat_iff {p : Inputs → Prop} :
    (∃ j ∈ resolved ++ [i], p j) ↔ p i ∨ ∃ j ∈ resolved, p j := by
  simp [or_and_right, exists_or, or_comm]

/-- A plan is found exactly if the same inputs were resolved, and is kept from then on. -/
theorem Keeps.getOrMake (hc : c.Keeps r resolved) (hfed : r.CollisionFree fed) (hi : i ∈ fed)
    (hresolved : resolved ⊆ fed) :
    (c.getOrMake (r.fingerprint i) (r.planAs i)).1.2 =
        decide (i.digested ∈ resolved.map Inputs.digested) ∧
      (c.getOrMake (r.fingerprint i) (r.planAs i)).2.Keeps r (resolved ++ [i]) := by
  have hget : c.get? (r.fingerprint i) = c.plans.find? (r.fingerprint i) := if_pos hc.enabled
  have hmem := hc.mem_keys_iff hfed hi hresolved
  have hdigested : ((resolved ++ [i]).map Inputs.digested).toFinset =
      insert i.digested (resolved.map Inputs.digested).toFinset := by
    rw [List.map_append, List.toFinset_append, Finset.union_comm]
    rfl
  rw [Cache.getOrMake, hget]
  cases hfind : c.plans.find? (r.fingerprint i) with
  | some plan =>
    have hkey : r.fingerprint i ∈ c.plans.keys := by
      rw [← KeyedMap.contains_iff, KeyedMap.contains, hfind]
      rfl
    have hknown := hmem.1 hkey
    refine ⟨(decide_eq_true hknown).symm, hc.enabled, fun f => ?_, ?_⟩
    · rw [exists_mem_concat_iff, ← hc.kept, or_iff_right_of_imp]
      rintro rfl
      exact hkey
    · rw [hdigested, Finset.insert_eq_of_mem (List.mem_toFinset.2 hknown)]
      exact hc.size
  | none =>
    have hkey : r.fingerprint i ∉ c.plans.keys := by
      rw [← KeyedMap.contains_iff, KeyedMap.contains, hfind]
      exact Bool.false_ne_true
    have hknown := mt hmem.2 hkey
    refine ⟨(decide_eq_false hknown).symm, hc.enabled, fun f => ?_, ?_⟩
    · simp only [hc.enabled, if_true]
      rw [exists_mem_concat_iff, ← hc.kept, KeyedMap.mem_keys_insert]
      exact or_congr_left eq_comm
    · simp only [Cache.size, hc.enabled, if_true]
      rw [hdigested, Finset.card_insert_of_notMem (mt List.mem_toFinset.1 hknown),
        KeyedMap.size_insert_of_find? hfind]
      exact congrArg (· + 1) hc.size

end Cache

namespace Pass

variable {r : Resolver} {catalog : Catalog} {snapshot : Snapshot} {fed known : List Inputs}

/-- The plans of some entries with different keys: each is found exactly if it was known before, no
matter what the entries before it leave behind. -/
theorem keeps_planEntries {entries : List Entry} {seen : List Inputs} {s : State}
    (hs : s.cache.Keeps r (known ++ seen)) (hfed : r.CollisionFree fed)
    (hknown : known ++ seen ⊆ fed)
    (hentries : ∀ e ∈ entries, Inputs.ofEntry catalog snapshot e ∈ fed)
    (hcatalog : ∀ shape, (s.catalog.fields shape).1 = (catalog.fields shape).1)
    (hkeys : entries.Pairwise fun e e' => e.key ≠ e'.key)
    (hseen : ∀ i ∈ seen, ∀ e ∈ entries, i.entry.key ≠ e.key) :
    (planEntries r snapshot entries s).1.map Prod.snd =
        entries.map (fun e => decide
          ((Inputs.ofEntry catalog snapshot e).digested ∈ known.map Inputs.digested)) ∧
      (planEntries r snapshot entries s).2.cache.Keeps r
        (known ++ (seen ++ entries.map (Inputs.ofEntry catalog snapshot))) := by
  induction entries generalizing seen s with
  | nil =>
    rw [List.map_nil, List.map_nil, List.append_nil]
    exact ⟨rfl, hs⟩
  | cons entry rest ih =>
    obtain ⟨hanswer, hcache, hcatalog⟩ := planEntry_eq r snapshot entry hcatalog
    obtain ⟨hi, hrest⟩ := List.forall_mem_cons.1 hentries
    obtain ⟨hfirst, hkeys⟩ := List.pairwise_cons.1 hkeys
    obtain ⟨hhit, hkeeps⟩ := hs.getOrMake hfed hi hknown
    -- The entries of this run that went before have other keys.
    have hmem : (Inputs.ofEntry catalog snapshot entry).digested ∈
          (known ++ seen).map Inputs.digested ↔
        (Inputs.ofEntry catalog snapshot entry).digested ∈ known.map Inputs.digested := by
      rw [List.map_append, List.mem_append]
      refine or_iff_left fun hmem => ?_
      obtain ⟨i, hi, heq⟩ := List.mem_map.1 hmem
      exact hseen i hi entry List.mem_cons_self (congrArg Prod.fst heq)
    rw [List.append_assoc, ← hcache] at hkeeps
    obtain ⟨hanswers, hfinal⟩ := ih hkeeps
      (List.append_subset.2 ⟨fun i hi => hknown (List.mem_append_left _ hi),
        List.append_subset.2 ⟨fun i hi => hknown (List.mem_append_right _ hi),
          List.cons_subset.2 ⟨hi, List.nil_subset _⟩⟩⟩)
      hrest hcatalog hkeys (by
        intro i hi e he
        rcases List.mem_append.1 hi with hi | hi
        · exact hseen i hi e (List.mem_cons_of_mem _ he)
        · rw [List.mem_singleton.1 hi]
          exact hfirst e he)
    rw [List.append_assoc] at hfinal
    refine ⟨?_, hfinal⟩
    rw [List.map_cons, ← decide_eq_decide.2 hmem, ← hhit, ← hanswer, ← hanswers]
    rfl

/-- A run finds the plans of the inputs that were known before it. -/
theorem keeps_run {p : Pass} (hresolver : p.resolver = r) (hp : p.cache.Keeps r known)
    (hfed : r.CollisionFree fed) (hknown : known ⊆ fed)
    (hinputs : Inputs.ofRun catalog snapshot ⊆ fed) :
    (p.run catalog snapshot).1.cacheHits =
        (Inputs.ofRun catalog snapshot).countP
          (fun i => i.digested ∈ known.map Inputs.digested) ∧
      (p.run catalog snapshot).2.1.cache.Keeps r (known ++ Inputs.ofRun catalog snapshot) := by
  subst hresolver
  have hkeys : snapshot.entries.items.Pairwise fun e e' => e.key ≠ e'.key :=
    snapshot.entries.sorted.imp KeyedMap.ne_of_compare_lt
  have hstart : p.cache.Keeps p.resolver (known ++ []) := by rwa [List.append_nil]
  obtain ⟨hanswers, hkeeps⟩ :=
    keeps_planEntries (s := ⟨p.cache, catalog⟩) hstart hfed (by rwa [List.append_nil])
      (fun e he => hinputs (List.mem_map_of_mem he)) (fun _ => rfl) hkeys
      fun _ hi => nomatch hi
  refine ⟨?_, hkeeps⟩
  have hcount : (p.run catalog snapshot).1.cacheHits =
      ((planEntries p.resolver snapshot snapshot.entries.items ⟨p.cache, catalog⟩).1.map
        Prod.snd).countP id := by
    rw [List.countP_map]
    rfl
  rw [hcount, hanswers, List.countP_map, Inputs.ofRun, List.countP_map]
  rfl

/-! ## Histories without losses -/

namespace Step

/-- A run that loses nothing on the way, or an invalidation. -/
def Lossless : Step → Prop
  | run _ _ keep => ∀ n f, keep n f = true
  | invalidate => True
  | evict _ => False

/-- The inputs resolved since the last invalidation, with those of one more step. -/
def remember (known : List Inputs) : Step → List Inputs
  | run catalog snapshot _ => known ++ Inputs.ofRun catalog snapshot
  | invalidate => []
  | evict _ => known

end Step

/-- The inputs that some steps resolved since the last invalidation among them. -/
def resolvedSince (steps : List Step) : List Inputs :=
  steps.foldl Step.remember []

theorem apply_run_of_lossless {p : Pass} {keep : Nat → Fingerprint → Bool}
    (h : (Step.run catalog snapshot keep).Lossless) :
    (Step.run catalog snapshot keep).apply p =
      (some (p.run catalog snapshot).1, (p.run catalog snapshot).2.1) := by
  have hkeep : keep = fun _ _ => true := funext fun n => funext fun f => h n f
  rw [hkeep]
  have hrun := runLosing_all p catalog snapshot
  simp only [Step.apply, hrun]

theorem keeps_apply {p : Pass} {step : Step} (hp : p.cache.Keeps p.resolver known)
    (hfed : p.resolver.CollisionFree fed) (hknown : known ⊆ fed) (hinputs : step.inputs ⊆ fed)
    (hstep : step.Lossless) :
    (step.apply p).2.cache.Keeps p.resolver (step.remember known) := by
  cases step with
  | run catalog snapshot keep =>
    rw [apply_run_of_lossless hstep]
    exact (keeps_run rfl hp hfed hknown hinputs).2
  | invalidate =>
    refine Cache.keeps_nil hp.enabled (List.filter_eq_nil_iff.2 ?_)
    exact fun _ _ => Bool.false_ne_true
  | evict keep => exact absurd hstep id

theorem remember_subset {step : Step} (hknown : known ⊆ fed) (hinputs : step.inputs ⊆ fed) :
    step.remember known ⊆ fed := by
  cases step with
  | run catalog snapshot keep => exact List.append_subset.2 ⟨hknown, hinputs⟩
  | invalidate => exact List.nil_subset _
  | evict keep => exact hknown

theorem resolver_apply (p : Pass) (step : Step) : (step.apply p).2.resolver = p.resolver := by
  cases step <;> rfl

theorem keeps_foldl {p : Pass} (steps : List Step) (hp : p.cache.Keeps p.resolver known)
    (hfed : p.resolver.CollisionFree fed) (hknown : known ⊆ fed)
    (hinputs : ∀ step ∈ steps, step.inputs ⊆ fed) (hsteps : ∀ step ∈ steps, step.Lossless) :
    (p.after steps).cache.Keeps p.resolver (steps.foldl Step.remember known) ∧
      (p.after steps).resolver = p.resolver ∧ steps.foldl Step.remember known ⊆ fed := by
  induction steps generalizing p known with
  | nil => exact ⟨hp, rfl, hknown⟩
  | cons step rest ih =>
    obtain ⟨hstep, hrest⟩ := List.forall_mem_cons.1 hsteps
    obtain ⟨hinput, hinputs⟩ := List.forall_mem_cons.1 hinputs
    have hresolver := resolver_apply p step
    have hkeeps := keeps_apply hp hfed hknown hinput hstep
    rw [← hresolver] at hkeeps hfed ⊢
    exact ih hkeeps hfed (remember_subset hknown hinput) hinputs hrest

/-- After any steps that lose nothing, the cache keeps what was resolved since the last
invalidation. -/
theorem keeps_after {steps : List Step} (hcapacity : r.options.planCacheCapacity ≠ 0)
    (hfed : r.CollisionFree fed) (hinputs : ∀ step ∈ steps, step.inputs ⊆ fed)
    (hsteps : ∀ step ∈ steps, step.Lossless) :
    ((ofResolver r).after steps).cache.Keeps r (resolvedSince steps) ∧
      ((ofResolver r).after steps).resolver = r ∧ resolvedSince steps ⊆ fed :=
  keeps_foldl (p := ofResolver r) steps (Cache.keeps_nil (decide_eq_true hcapacity) rfl) hfed
    (List.nil_subset _) hinputs hsteps

end Pass

/-! ## Caches without capacity -/

namespace Cache

/-- A cache that is not in use, with nothing in it. -/
structure Idle (c : Cache) : Prop where
  enabled : c.enabled = false
  empty : c.plans.items = []

variable {c : Cache}

theorem Idle.evict (hc : c.Idle) (keep : Fingerprint → Bool) : (c.evict keep).Idle := by
  refine ⟨hc.enabled, ?_⟩
  show c.plans.items.filter _ = []
  rw [hc.empty]
  rfl

theorem Idle.getOrMake (hc : c.Idle) (f : Fingerprint) (make : Fingerprint → Plan) :
    (c.getOrMake f make).1.2 = false ∧ (c.getOrMake f make).2.Idle := by
  have hget : c.get? f = none := if_neg (by rw [hc.enabled]; exact Bool.false_ne_true)
  rw [Cache.getOrMake, hget]
  refine ⟨rfl, hc.enabled, ?_⟩
  simp only [hc.enabled, Bool.false_eq_true, if_false]
  exact hc.empty

end Cache

namespace Pass

theorem idle_planEntriesLosing (r : Resolver) (snapshot : Snapshot) (entries : List Entry)
    (keep : Nat → Fingerprint → Bool) {s : State} (hs : s.cache.Idle) :
    (∀ answer ∈ (planEntriesLosing r snapshot entries keep s).1, answer.2 = false) ∧
      (planEntriesLosing r snapshot entries keep s).2.cache.Idle := by
  induction entries generalizing keep s with
  | nil => exact ⟨fun _ hanswer => (nomatch hanswer), hs⟩
  | cons entry rest ih =>
    obtain ⟨hanswer, hcache, _⟩ := planEntry_eq r snapshot entry
      (s := { s with cache := s.cache.evict (keep 0) }) fun _ => rfl
    let i := Inputs.ofEntry s.catalog snapshot entry
    obtain ⟨hmiss, hidle⟩ := (hs.evict (keep 0)).getOrMake (r.fingerprint i) (r.planAs i)
    rw [← hcache] at hidle
    obtain ⟨hmisses, hfinal⟩ := ih (fun n => keep (n + 1)) hidle
    refine ⟨List.forall_mem_cons.2 ⟨?_, hmisses⟩, hfinal⟩
    exact (congrArg Prod.snd hanswer).trans hmiss

theorem idle_outputs {p : Pass} (hp : p.cache.Idle) (steps : List Step) :
    (∀ o ∈ p.outputs steps, o.cacheHits = 0) ∧ (p.after steps).cache.Idle := by
  induction steps generalizing p with
  | nil => exact ⟨fun _ ho => (nomatch ho), hp⟩
  | cons step rest ih =>
    cases step with
    | run catalog snapshot keep =>
      obtain ⟨hmisses, hidle⟩ := idle_planEntriesLosing p.resolver snapshot
        snapshot.entries.items keep (s := ⟨p.cache, catalog⟩) hp
      obtain ⟨hrest, hfinal⟩ := ih (p := (p.runLosing catalog snapshot keep).2) hidle
      refine ⟨List.forall_mem_cons.2 ⟨?_, hrest⟩, hfinal⟩
      exact List.countP_eq_zero.2 fun answer hanswer => by simp [hmisses answer hanswer]
    | invalidate => exact ih (hp.evict fun _ => false)
    | evict keep => exact ih (hp.evict keep)

/-- Without capacity, each plan of each run was looked up in vain. -/
theorem misses_of_idle {r : Resolver} (steps : List Step) (hstart : (ofResolver r).cache.Idle) :
    ((ofResolver r).after steps).cache.misses =
        (((ofResolver r).outputs steps).map fun o => o.plans.length).sum ∧
      ((ofResolver r).after steps).cache.size = 0 := by
  obtain ⟨hmisses, hidle⟩ := idle_outputs hstart steps
  have hbalances := balances_after r steps
  have hhits : ((ofResolver r).after steps).cache.hits = 0 := by
    rw [hbalances.hits]
    refine List.sum_eq_zero fun n hn => ?_
    obtain ⟨o, ho, rfl⟩ := List.mem_map.1 hn
    exact hmisses o ho
  have hlookups := hbalances.lookups
  rw [hhits, Nat.zero_add] at hlookups
  exact ⟨hlookups, List.length_eq_zero_iff.2 hidle.empty⟩

/-! ## The books -/

/-- With capacity, and if nothing is lost, a run finds the plans whose inputs were resolved in a run
before it since the last invalidation, and the cache holds one plan for all inputs that are the
same. Without capacity nothing is found and nothing held. Either way, after any of the steps, the
counts of the cache are those of the runs up to then. -/
theorem cache_accounts (r : Resolver) (steps : List Step) :
    (∀ before later, steps = before ++ later →
      ((ofResolver r).after before).Balances ((ofResolver r).outputs before)) ∧
    (r.options.planCacheCapacity ≠ 0 → (∀ step ∈ steps, step.Lossless) →
      r.CollisionFree (steps.flatMap Step.inputs) →
      (∀ before catalog snapshot keep later, steps = before ++ .run catalog snapshot keep :: later →
        ∃ o others, (ofResolver r).outputs steps = (ofResolver r).outputs before ++ o :: others ∧
          o.cacheHits = (Inputs.ofRun catalog snapshot).countP
            fun i => i.digested ∈ (resolvedSince before).map Inputs.digested) ∧
      ∀ before later, steps = before ++ later →
        ((ofResolver r).after before).cache.size =
          ((resolvedSince before).map Inputs.digested).toFinset.card) ∧
    (r.options.planCacheCapacity = 0 →
      (∀ o ∈ (ofResolver r).outputs steps, o.cacheHits = 0) ∧
      ∀ before later, steps = before ++ later →
        ((ofResolver r).after before).cache.misses =
          (((ofResolver r).outputs before).map fun o => o.plans.length).sum ∧
        ((ofResolver r).after before).cache.size = 0) := by
  refine ⟨fun before _ _ => balances_after r before, fun hcapacity hsteps hfed => ?_,
    fun hcapacity => ?_⟩
  · have hinputs : ∀ step ∈ steps, step.inputs ⊆ steps.flatMap Step.inputs :=
      fun step hstep i hi => List.mem_flatMap.2 ⟨step, hstep, hi⟩
    have hkeeps := fun before later (h : steps = before ++ later) =>
      keeps_after hcapacity hfed (fun step hstep => hinputs step (h ▸ List.mem_append_left _ hstep))
        fun step hstep => hsteps step (h ▸ List.mem_append_left _ hstep)
    refine ⟨fun before catalog snapshot keep later h => ?_, fun before later h => ?_⟩
    · obtain ⟨hkeep, hresolver, hknown⟩ := hkeeps before _ h
      have hrun : Step.run catalog snapshot keep ∈ steps :=
        h ▸ List.mem_append_right _ List.mem_cons_self
      refine ⟨(((ofResolver r).after before).run catalog snapshot).1,
        (((ofResolver r).after before).run catalog snapshot).2.1.outputs later, ?_,
        (keeps_run hresolver hkeep hfed hknown (hinputs _ hrun)).1⟩
      rw [h, outputs_append, outputs_cons, apply_run_of_lossless (hsteps _ hrun)]
      rfl
    · exact (hkeeps before later h).1.size
  · have hstart : (ofResolver r).cache.Idle := ⟨decide_eq_false (not_not_intro hcapacity), rfl⟩
    exact ⟨(idle_outputs hstart steps).1, fun before _ _ => misses_of_idle before hstart⟩

/-! A mapping is changed and changed back, which finds its first plan again. Once the cache is
emptied, its second plan is no longer there. -/

def sampleRun (reverse : Bool) : Step :=
  .run { table := .empty } (sampleSnapshot reverse) fun _ _ => true

def sampleHistory : List Step :=
  [sampleRun false, sampleRun true, sampleRun false, .invalidate, sampleRun true]

theorem lossless_sample : ∀ step ∈ sampleHistory, step.Lossless := by
  simp [sampleHistory, sampleRun, Step.Lossless]

theorem cache_accounts_sample :
    sampleResolver.options.planCacheCapacity ≠ 0 ∧ (∀ step ∈ sampleHistory, step.Lossless) ∧
    sampleResolver.CollisionFree (sampleHistory.flatMap Step.inputs) ∧
    (∃ o others, (ofResolver sampleResolver).outputs sampleHistory =
        (ofResolver sampleResolver).outputs [sampleRun false, sampleRun true] ++ o :: others ∧
      o.cacheHits = 1) ∧
    (∃ o others, (ofResolver sampleResolver).outputs sampleHistory =
        (ofResolver sampleResolver).outputs
          [sampleRun false, sampleRun true, sampleRun false, .invalidate] ++ o :: others ∧
      o.cacheHits = 0) ∧
    ((ofResolver sampleResolver).after
      [sampleRun false, sampleRun true, sampleRun false]).cache.size = 2 := by
  have hcapacity : sampleResolver.options.planCacheCapacity ≠ 0 := by decide
  obtain ⟨hruns, hsize⟩ := (cache_accounts sampleResolver sampleHistory).2.1 hcapacity
    lossless_sample collisionFree_sample
  refine ⟨hcapacity, lossless_sample, collisionFree_sample, ?_, ?_, ?_⟩
  · obtain ⟨o, others, houtputs, hhits⟩ := hruns [sampleRun false, sampleRun true] _ _ _ _ rfl
    exact ⟨o, others, houtputs, hhits.trans (by decide)⟩
  · obtain ⟨o, others, houtputs, hhits⟩ :=
      hruns [sampleRun false, sampleRun true, sampleRun false, .invalidate] _ _ _ _ rfl
    exact ⟨o, others, houtputs, hhits.trans (by decide)⟩
  · exact (hsize [sampleRun false, sampleRun true, sampleRun false] _ rfl).trans (by decide)

end Pass
end MapPlan
