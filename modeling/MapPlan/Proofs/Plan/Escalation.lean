import MapPlan.Proofs.Mapping.Snapshot
import MapPlan.Proofs.Plan.Closure
import MapPlan.Proofs.Plan.Refusal

/-!
# What stops a build

A run has errors exactly if one of its plans was refused: for a type, or for an absent source where
that is escalated. What happens at registration is never an error. This needs no more of a cache
than that its plans were made by the resolver of the pass, so it holds after any history.
-/

namespace MapPlan

open scoped List

/-- The plan should stop a build: a field was refused for its type, or lacks a source it must have
and that is escalated. -/
def Plan.Blocks (o : Options) (p : Plan) : Prop :=
  p.hasTypeError ∨ o.escalateMissingSource ∧ p.hasMissingSource

/-! ## Errors of a plan -/

namespace Diagnostic

theorem isError_iff {e : Diagnostic} : e.isError ↔ e.severity = .error :=
  decide_eq_true_iff

theorem exists_isError_iff {l : List Diagnostic} :
    l.any (·.isError) ↔ ∃ e ∈ l, e.severity = .error := by
  rw [List.any_eq_true]
  exact exists_congr fun e => and_congr_right fun _ => isError_iff

end Diagnostic

namespace Resolver

variable {r : Resolver} {i : Inputs} {d : Field}

theorem exists_problem_of_error {o : Outcome} (h : o.isTypeError ∨ o.isMissing) :
    ∃ p, o.problem = some p := by
  rcases h with h | h
  · obtain ⟨p, hp, _⟩ := Outcome.isTypeError_iff.1 h
    exact ⟨p, hp⟩
  · obtain ⟨⟨p, hp, _⟩, _⟩ := Outcome.isMissing_iff.1 h
    exact ⟨p, hp⟩

/-- A field is reported as an error if it is refused for its type, or for an absent source that is
escalated. -/
theorem report?_isError_iff :
    (∃ e, r.report? i d = some e ∧ e.severity = .error) ↔
      (r.resolveField i d).isTypeError ∨
        (r.resolveField i d).isMissing ∧ r.options.escalateMissingSource := by
  rw [← Outcome.severity_eq_error_iff]
  constructor
  · rintro ⟨e, he, herror⟩
    obtain ⟨p, _, rfl⟩ := report?_eq_some.1 he
    exact herror
  · intro herror
    obtain ⟨p, hp⟩ :=
      exists_problem_of_error ((Outcome.severity_eq_error_iff.1 herror).imp_right And.left)
    exact ⟨_, report?_eq_some.2 ⟨p, hp, rfl⟩, herror⟩

theorem exists_error_resolve_iff (r : Resolver) (i : Inputs) :
    (∃ e ∈ (r.resolve i).diagnostics, e.severity = .error) ↔ (r.resolve i).Blocks r.options := by
  calc
    _ ↔ ∃ d ∈ i.dest.fields, ∃ e, r.report? i d = some e ∧ e.severity = .error := by
      simp only [mem_diagnostics_resolve]
      exact ⟨fun ⟨e, ⟨d, hd, he⟩, herror⟩ => ⟨d, hd, e, he, herror⟩,
        fun ⟨d, hd, e, he, herror⟩ => ⟨e, ⟨d, hd, he⟩, herror⟩⟩
    _ ↔ ∃ d ∈ i.dest.fields, (r.resolveField i d).isTypeError ∨
        (r.resolveField i d).isMissing ∧ r.options.escalateMissingSource :=
      exists_congr fun d => and_congr_right fun _ => report?_isError_iff
    _ ↔ _ := by
      rw [Plan.Blocks, hasTypeError_resolve_iff, hasMissingSource_resolve_iff]
      constructor
      · rintro ⟨d, hd, htype | ⟨hmissing, hescalate⟩⟩
        · exact .inl ⟨d, hd, htype⟩
        · exact .inr ⟨hescalate, d, hd, hmissing⟩
      · rintro (⟨d, hd, htype⟩ | ⟨hescalate, d, hd, hmissing⟩)
        · exact ⟨d, hd, .inl htype⟩
        · exact ⟨d, hd, .inr ⟨hmissing, hescalate⟩⟩

end Resolver

/-! ## Reports of registration -/

/-- Nothing that a snapshot reports is an error. -/
def Snapshot.Harmless (s : Snapshot) : Prop :=
  ∀ e ∈ s.diagnostics, e.severity ≠ .error

/-- Entries that are not kept are warnings, reverses that are not derived are notes. -/
theorem Registry.harmless_addAll (added : List Entry) : (addAll {} added).snapshot.Harmless := by
  intro e he
  have holds := holds_addAll added
  rcases List.mem_append.1 (holds.diagnostics_snapshot.subset he) with hduplicate | hconflict
  · obtain ⟨x, _, rfl⟩ :=
      List.mem_map.1 (holds.reported.subset (List.mem_append_left _ hduplicate))
    exact nofun
  · obtain ⟨x, _, rfl⟩ := List.mem_map.1 hconflict
    exact nofun

/-! ## Errors of a run -/

/-- The plans of a cache were made by the resolver, from whatever inputs. -/
def Cache.Made (r : Resolver) : Cache → Prop :=
  All fun plan => ∃ i, plan = r.resolve i

namespace PassOutput

/-- There are problems that should stop a build exactly if there are errors. -/
theorem hasErrors_iff_escalations (o : PassOutput) : o.hasErrors ↔ o.escalations ≠ [] := by
  rw [hasErrors, escalations, List.any_eq_true, Ne, List.filter_eq_nil_iff]
  simp only [not_forall, not_not, exists_prop]

end PassOutput

namespace Pass

variable {p : Pass} {catalog : Catalog} {snapshot : Snapshot}

/-- Each plan of a run was made by the resolver of the pass, now or earlier. -/
theorem made_runLosing (hp : p.cache.Made p.resolver) (keep : Nat → Digest.Fingerprint → Bool) :
    (∀ plan ∈ (p.runLosing catalog snapshot keep).1.plans, ∃ i, plan = p.resolver.resolve i) ∧
      (p.runLosing catalog snapshot keep).2.cache.Made p.resolver :=
  all_runLosing hp (fun i _ => ⟨i, rfl⟩) keep

theorem hasErrors_runLosing (hp : p.cache.Made p.resolver) (hsnapshot : snapshot.Harmless)
    (keep : Nat → Digest.Fingerprint → Bool) :
    (p.runLosing catalog snapshot keep).1.hasErrors ↔
      ∃ plan ∈ (p.runLosing catalog snapshot keep).1.plans, plan.Blocks p.resolver.options := by
  have hmade : ∀ plan ∈ (p.runLosing catalog snapshot keep).1.plans, _ :=
    (made_runLosing hp keep).1
  rw [PassOutput.hasErrors, Diagnostic.exists_isError_iff, diagnostics_runLosing]
  constructor
  · rintro ⟨e, he, herror⟩
    rcases List.mem_append.1 (Diagnostic.mem_sort.1 he) with hregistered | hplanned
    · exact absurd herror (hsnapshot e hregistered)
    · obtain ⟨plan, hplan, he⟩ := List.mem_flatMap.1 hplanned
      refine ⟨plan, hplan, ?_⟩
      obtain ⟨i, rfl⟩ := hmade plan hplan
      exact (Resolver.exists_error_resolve_iff _ i).1 ⟨e, he, herror⟩
  · rintro ⟨plan, hplan, hblocks⟩
    obtain ⟨i, rfl⟩ := hmade plan hplan
    obtain ⟨e, he, herror⟩ := (Resolver.exists_error_resolve_iff _ i).2 hblocks
    refine ⟨e, Diagnostic.mem_sort.2 (List.mem_append_right _ ?_), herror⟩
    exact List.mem_flatMap.2 ⟨_, hplan, he⟩

theorem hasErrors_apply (hp : p.cache.Made p.resolver) {step : Step}
    (hstep : ∀ s ∈ step.snapshot?, s.Harmless) :
    List.Forall₂ (fun o _ => o.hasErrors ↔ ∃ plan ∈ o.plans, plan.Blocks p.resolver.options)
      (step.apply p).1.toList step.snapshot?.toList := by
  cases step with
  | run catalog snapshot keep => exact .cons (hasErrors_runLosing hp (hstep _ rfl) keep) .nil
  | invalidate => exact .nil
  | evict keep => exact .nil

/-- After any history, a run has errors exactly if one of its plans should stop a build. -/
theorem hasErrors_outputs {steps : List Step} (hp : p.cache.Made p.resolver)
    (hsteps : ∀ s ∈ steps.filterMap Step.snapshot?, s.Harmless) :
    ∀ o ∈ p.outputs steps, o.hasErrors ↔ ∃ plan ∈ o.plans, plan.Blocks p.resolver.options := by
  have houtputs : List.Forall₂
      (fun o _ => (o.hasErrors ↔ ∃ plan ∈ o.plans, plan.Blocks p.resolver.options) ∧ True)
      (p.outputs steps) (steps.filterMap Step.snapshot?) := by
    refine forall₂_outputs rfl hp (fun _ _ i _ => ⟨i, rfl⟩) fun q hq hmade step hmem => ?_
    rw [← hq] at hmade ⊢
    refine (hasErrors_apply hmade fun s hs => ?_).imp fun _ _ h => ⟨h, trivial⟩
    exact hsteps s (List.mem_filterMap.2 ⟨step, hmem, hs⟩)
  exact ((List.forall₂_and_left _ _).1 houtputs).1

end Pass
end MapPlan
