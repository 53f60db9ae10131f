import MapPlan.Proofs.Mapping.Diagnostic
import MapPlan.Proofs.Plan.Preimage
import MapPlan.Proofs.Plan.Transparency

/-!
# The order of plans

Plans are put in order by their keys, and by their fingerprints where the keys are equal. Two plans
that this order does not tell apart are one plan, also if they were made by different resolvers from
different snapshots: a fingerprint covers the options that show in a plan, and all else that the
plan is made from. So the order in which plans were made does not show in a list of them.
-/

namespace MapPlan

open scoped List

/-! ## Plans of different resolvers -/

namespace Resolver

variable {o o' : Options} {hash : Digest.Hash}

/-- How a field is resolved depends on the options only through the renaming of expressions. -/
theorem resolveField_congr_options (h : o.renamer = o'.renamer) :
    resolveField ⟨o, hash⟩ = resolveField ⟨o', hash⟩ := by
  have hcompute : compute ⟨o, hash⟩ = compute ⟨o', hash⟩ := by
    funext text dest
    rw [compute, compute, h]
  funext i dest
  rw [resolveField, resolveField, hcompute]

/-- Options that do not show in their bytes do not show in a plan. -/
theorem planAs_congr_options (htarget : o.parameterTarget = o'.parameterTarget)
    (haliases : o.conventionalAliases = o'.conventionalAliases)
    (hescalate : o.escalateMissingSource = o'.escalateMissingSource) :
    planAs ⟨o, hash⟩ = planAs ⟨o', hash⟩ := by
  have hrenamer : o.renamer = o'.renamer := by
    rw [Options.renamer, Options.renamer, htarget, haliases]
  have houtcomes : outcomes ⟨o, hash⟩ = outcomes ⟨o', hash⟩ := by
    funext i
    rw [outcomes, outcomes, resolveField_congr_options hrenamer]
  funext i fingerprint
  rw [planAs, planAs, houtcomes, hescalate]

end Resolver

/-- A plan to make: with which options, and from what. -/
structure Job where
  options : Options
  inputs : Inputs

namespace Job

def resolver (j : Job) : Resolver where
  options := j.options

def plan (j : Job) : Plan :=
  j.resolver.resolve j.inputs

/-- Some jobs have the same digest of their options or of their inputs only if the digested bytes
are the same. -/
def CollisionFree (jobs : List Job) : Prop :=
  ∀ j ∈ jobs, ∀ j' ∈ jobs,
    (Digest.blake3 (Resolver.optionsBytes j.options) =
        Digest.blake3 (Resolver.optionsBytes j'.options) →
      Resolver.optionsBytes j.options = Resolver.optionsBytes j'.options) ∧
    (j.plan.fingerprint = j'.plan.fingerprint →
      j.resolver.inputBytes j.inputs = j'.resolver.inputBytes j'.inputs)

/-- A fingerprint names one plan, whoever makes it and from whatever snapshot. -/
theorem plan_eq_of_fingerprint_eq {jobs : List Job} {j j' : Job} (hjobs : CollisionFree jobs)
    (hj : j ∈ jobs) (hj' : j' ∈ jobs) (hsize : j.options.Addressable)
    (hsize' : j'.options.Addressable) (h : j.plan.fingerprint = j'.plan.fingerprint) :
    j.plan = j'.plan := by
  obtain ⟨hoptions, hinputs⟩ := hjobs j hj j' hj'
  have hlength : (Digest.blake3 (Resolver.optionsBytes j.options)).bytes.length =
      (Digest.blake3 (Resolver.optionsBytes j'.options)).bytes.length := by
    rw [Digest.length_blake3, Digest.length_blake3]
  obtain ⟨hagree, hdigest⟩ := (Resolver.inputBytes_eq_iff hlength).1 (hinputs h)
  obtain ⟨htarget, haliases, hescalate⟩ :=
    (Resolver.optionsBytes_eq_iff hsize hsize').1 (hoptions hdigest)
  have hmake : j.resolver.planAs = j'.resolver.planAs :=
    Resolver.planAs_congr_options htarget haliases hescalate
  calc
    j.plan = j.resolver.planAs j.inputs j.plan.fingerprint := rfl
    _ = j'.resolver.planAs j'.inputs j'.plan.fingerprint := by
      rw [h, Resolver.planAs_congr j.resolver hagree, hmake]
    _ = j'.plan := rfl

end Job

/-! ## Sorting plans -/

namespace Plan

/-- By key, and plans of one key by fingerprint. -/
def order : Plan → Plan → Ordering :=
  compareLex (compareOn key) (compareOn fingerprint)

instance : Std.TransCmp order :=
  inferInstanceAs (Std.TransCmp (compareLex (compareOn key) (compareOn fingerprint)))

theorem materialize_eq (plans : List Plan) :
    materialize plans = plans.mergeSort fun a b => (order a b).isLE := rfl

theorem order_isLE_iff {p q : Plan} :
    (order p q).isLE ↔ compare p.key q.key = .lt ∨
      p.key = q.key ∧ (compare p.fingerprint q.fingerprint).isLE := by
  have horder : order p q = (compare p.key q.key).then (compare p.fingerprint q.fingerprint) := rfl
  rw [horder]
  cases hkey : compare p.key q.key with
  | lt => simp
  | eq => simp [Std.LawfulEqOrd.eq_of_compare hkey]
  | gt =>
    have hne : p.key ≠ q.key := by
      intro heq
      rw [heq, Std.ReflOrd.compare_self] at hkey
      cases hkey
    simp [hne]

theorem fingerprint_eq_of_order_eq {p q : Plan} (h : order p q = .eq) :
    p.fingerprint = q.fingerprint :=
  Std.LawfulEqOrd.eq_of_compare (Ordering.then_eq_eq.1 h).2

theorem perm_materialize (plans : List Plan) : materialize plans ~ plans :=
  List.mergeSort_perm _ _

theorem pairwise_materialize (plans : List Plan) :
    (materialize plans).Pairwise fun p q => compare p.key q.key = .lt ∨
      p.key = q.key ∧ (compare p.fingerprint q.fingerprint).isLE :=
  (pairwise_mergeSort order plans).imp order_isLE_iff.1

/-- Plans of any resolvers come in one order, however they are given: by key, those of one key by
fingerprint, each as often as it was given. -/
theorem materialize_of_perm (jobs : List Job) (hsize : ∀ j ∈ jobs, j.options.Addressable)
    (hhash : Job.CollisionFree jobs) :
    (∀ plans, plans ~ jobs.map Job.plan →
      materialize plans = materialize (jobs.map Job.plan)) ∧
    (materialize (jobs.map Job.plan)).Pairwise (fun p q => compare p.key q.key = .lt ∨
      p.key = q.key ∧ (compare p.fingerprint q.fingerprint).isLE) ∧
    materialize (jobs.map Job.plan) ~ jobs.map Job.plan := by
  refine ⟨fun plans hperm => ?_, pairwise_materialize _, perm_materialize _⟩
  rw [materialize_eq, materialize_eq]
  refine (mergeSort_eq_of_perm hperm.symm fun p hp q hq heq => ?_).symm
  obtain ⟨j, hj, rfl⟩ := List.mem_map.1 hp
  obtain ⟨j', hj', rfl⟩ := List.mem_map.1 hq
  exact Job.plan_eq_of_fingerprint_eq hhash hj hj' (hsize j hj) (hsize j' hj')
    (fingerprint_eq_of_order_eq heq)

/-! One mapping in three plans: as it is, with another configuration, and as it is for a resolver
that keeps no plans. -/

def sampleJobs : List Job :=
  [⟨Pass.sampleResolver.options, Pass.sampleInputs false⟩,
   ⟨Pass.sampleResolver.options, Pass.sampleInputs true⟩,
   ⟨Pass.sampleResolver.uncached.options, Pass.sampleInputs false⟩]

theorem collisionFree_sampleJobs : Job.CollisionFree sampleJobs := by
  have hplain : ∀ j ∈ sampleJobs, Resolver.optionsBytes j.options =
      Resolver.optionsBytes Pass.sampleResolver.options := by
    simp [sampleJobs, Resolver.uncached, Resolver.optionsBytes, Resolver.optionsParts]
  have hcases : ∀ j ∈ sampleJobs, ∃ reverse,
      j.resolver.inputBytes j.inputs =
        Pass.sampleResolver.inputBytes (Pass.sampleInputs reverse) ∧
      j.plan.fingerprint = Pass.sampleResolver.fingerprint (Pass.sampleInputs reverse) := by
    simp only [sampleJobs, List.forall_mem_cons, List.not_mem_nil, false_imp_iff, implies_true,
      and_true]
    exact ⟨⟨false, rfl, rfl⟩, ⟨true, rfl, rfl⟩, ⟨false, rfl, rfl⟩⟩
  intro j hj j' hj'
  refine ⟨fun _ => by rw [hplain j hj, hplain j' hj'], fun h => ?_⟩
  obtain ⟨reverse, hbytes, hfingerprint⟩ := hcases j hj
  obtain ⟨reverse', hbytes', hfingerprint'⟩ := hcases j' hj'
  rw [hfingerprint, hfingerprint'] at h
  rw [hbytes, hbytes']
  cases reverse <;> cases reverse'
  · rfl
  · exact absurd h Pass.fingerprint_sample_ne
  · exact absurd h.symm Pass.fingerprint_sample_ne
  · rfl

theorem materialize_sample :
    (∀ j ∈ sampleJobs, j.options.Addressable) ∧ Job.CollisionFree sampleJobs ∧
    sampleJobs.reverse.map Job.plan ~ sampleJobs.map Job.plan ∧
    materialize (sampleJobs.reverse.map Job.plan) = materialize (sampleJobs.map Job.plan) := by
  have hsize : ∀ j ∈ sampleJobs, j.options.Addressable := by decide
  have hperm : sampleJobs.reverse.map Job.plan ~ sampleJobs.map Job.plan :=
    (List.reverse_perm _).map _
  exact ⟨hsize, collisionFree_sampleJobs, hperm,
    (materialize_of_perm sampleJobs hsize collisionFree_sampleJobs).1 _ hperm⟩

end Plan
end MapPlan
