import MapPlan.CommandLine.Verdict
import MapPlan.Proofs.Manifest.Registration
import MapPlan.Proofs.Plan.Escalation
import MapPlan.Proofs.Plan.Settings

/-!
# Verdicts

The exit code of a request and the failure that is told, from what its files hold. A request fails
at the first of its steps that does: reading the manifest, reading the options, making the shapes,
registering the mappings. If none does, a report on plans is a success, and one on diagnostics is a
success unless some plan should stop a build. The options are those of the named file, which fails
to give any where it has no text or its text is refused.
-/

namespace MapPlan

namespace CommandLine

/-! ## The options of a file -/

section
variable {α ε ε' : Type} {x : Except ε α} {g : ε → ε'}

theorem mapError_eq_ok {a : α} : x.mapError g = .ok a ↔ x = .ok a := by
  cases x <;> simp [Except.mapError]

theorem mapError_eq_error {e' : ε'} : x.mapError g = .error e' ↔ ∃ e, x = .error e ∧ g e = e' := by
  cases x <;> simp [Except.mapError]

end

section
variable {files : Files} {path : String} {config : Option String} {o : Options} {f : Failure}

/-- Why a file gives no options. -/
inductive RefusesOptions (files : Files) (path : String) : Failure → Prop where
  | unreadable {cause : FileError} : files path = .error cause →
      RefusesOptions files path (.unreadable path cause)
  | settings {text : String} {cause : SettingsError} : files path = .ok text →
      Options.Refuses text cause → RefusesOptions files path (.settings cause)

theorem loadOptions_of_ok {text : String} (h : files path = .ok text) :
    loadOptions files (some path) = (Options.ofText text).mapError .settings := by
  rw [loadOptions, read, h]
  rfl

theorem loadOptions_of_error {cause : FileError} (h : files path = .error cause) :
    loadOptions files (some path) = .error (.unreadable path cause) := by
  rw [loadOptions, read, h]
  rfl

/-- Without a file the options are the defaults, and else those that its text writes. -/
theorem loadOptions_eq_ok_iff :
    loadOptions files config = .ok o ↔
      (config = none ∧ o = {}) ∨ ∃ path text, config = some path ∧ files path = .ok text ∧
        Options.Writes text o ∧ Options.isPlainIdentifier o.parameterTarget.toList := by
  cases config with
  | none =>
    refine ⟨fun h => .inl ⟨rfl, (Except.ok.inj h).symm⟩, ?_⟩
    rintro (⟨_, rfl⟩ | ⟨_, _, hpath, _⟩)
    · rfl
    · cases hpath
  | some path =>
    constructor
    · intro h
      cases htext : files path with
      | error cause => cases (loadOptions_of_error htext).symm.trans h
      | ok text =>
        have hoptions := mapError_eq_ok.1 ((loadOptions_of_ok htext).symm.trans h)
        exact .inr ⟨path, text, rfl, htext, Options.ofText_eq_ok_iff.1 hoptions⟩
    · rintro (⟨hpath, _⟩ | ⟨_, text, ⟨⟩, htext, hwrites⟩)
      · cases hpath
      · exact (loadOptions_of_ok htext).trans (mapError_eq_ok.2 (Options.ofText_eq_ok_iff.2 hwrites))

theorem loadOptions_eq_error_iff :
    loadOptions files config = .error f ↔
      ∃ path, config = some path ∧ RefusesOptions files path f := by
  cases config with
  | none => exact iff_of_false nofun nofun
  | some path =>
    simp only [Option.some.injEq, exists_eq_left']
    constructor
    · intro h
      cases htext : files path with
      | error cause =>
        cases (loadOptions_of_error htext).symm.trans h
        exact .unreadable htext
      | ok text =>
        obtain ⟨cause, hcause, rfl⟩ :=
          mapError_eq_error.1 ((loadOptions_of_ok htext).symm.trans h)
        exact .settings htext (Options.ofText_eq_error_iff.1 hcause)
    · intro h
      cases h with
      | unreadable hcause => exact loadOptions_of_error hcause
      | settings htext hcause =>
        exact (loadOptions_of_ok htext).trans (mapError_eq_error.2 ⟨_, hcause.ofText_eq, rfl⟩)

end

/-! ## Steps of a request -/

/-- All steps of a request succeed, and give these. -/
structure Loads (files : Files) (r : Request) (m : Manifest) (o : Options) (table : ShapeTable)
    (registry : Registry) : Prop where
  manifest : loadManifest files r.manifest = .ok m
  options : loadOptions files r.config = .ok o
  shapes : m.shapeTable = .ok table
  mappings : m.register {} = (registry, .ok ())

/-- A step of a request fails, and the ones before it do not. -/
inductive Fails (files : Files) (r : Request) : Failure → Prop where
  | manifest {f : Failure} : loadManifest files r.manifest = .error f → Fails files r f
  | options {m : Manifest} {f : Failure} : loadManifest files r.manifest = .ok m →
      loadOptions files r.config = .error f → Fails files r f
  | shapes {m : Manifest} {o : Options} {e : ManifestError} :
      loadManifest files r.manifest = .ok m → loadOptions files r.config = .ok o →
      m.shapeTable = .error e → Fails files r (.manifest r.manifest e)
  | mappings {m : Manifest} {o : Options} {table : ShapeTable} {registry : Registry}
      {e : ManifestError} :
      loadManifest files r.manifest = .ok m → loadOptions files r.config = .ok o →
      m.shapeTable = .ok table → m.register {} = (registry, .error e) →
      Fails files r (.manifest r.manifest e)

variable {files : Files} {r : Request} {m : Manifest} {o : Options} {table : ShapeTable}
  {registry : Registry} {f : Failure}

/-- What the one run of a new pass finds. -/
def outputOf (o : Options) (table : ShapeTable) (registry : Registry) : PassOutput :=
  ((Pass.ofOptions o).run { table } registry.snapshot).1

theorem Fails.compile_eq (h : Fails files r f) : r.compile files = .error f := by
  cases h with
  | manifest hmanifest =>
    rw [Request.compile, hmanifest]
    rfl
  | options hmanifest hoptions =>
    rw [Request.compile, hmanifest, hoptions]
    rfl
  | shapes hmanifest hoptions hshapes =>
    rw [Request.compile, hmanifest, hoptions]
    simp only [bind, Except.bind, Manifest.compile, hshapes]
    rfl
  | mappings hmanifest hoptions hshapes hmappings =>
    rw [Request.compile, hmanifest, hoptions]
    simp only [bind, Except.bind, Manifest.compile, hshapes, hmappings]
    rfl

theorem Loads.compile_eq (h : Loads files r m o table registry) :
    r.compile files = .ok (outputOf o table registry) := by
  rw [Request.compile, h.manifest, h.options]
  simp only [bind, Except.bind, Manifest.compile, h.shapes, h.mappings]
  rfl

/-- Some step is the first to fail, or none fails. -/
theorem fails_or_loads (files : Files) (r : Request) :
    (∃ f, Fails files r f) ∨ ∃ m o table registry, Loads files r m o table registry := by
  cases hmanifest : loadManifest files r.manifest with
  | error f => exact .inl ⟨f, .manifest hmanifest⟩
  | ok m =>
    cases hoptions : loadOptions files r.config with
    | error f => exact .inl ⟨f, .options hmanifest hoptions⟩
    | ok o =>
      cases hshapes : m.shapeTable with
      | error e => exact .inl ⟨_, .shapes hmanifest hoptions hshapes⟩
      | ok table =>
        obtain ⟨registry, hregistry⟩ : ∃ registry, (m.register {}).1 = registry := ⟨_, rfl⟩
        cases hmappings : (m.register {}).2 with
        | error e =>
          exact .inl ⟨_, .mappings hmanifest hoptions hshapes (Prod.ext hregistry hmappings)⟩
        | ok =>
          exact .inr ⟨m, o, table, registry, hmanifest, hoptions, hshapes,
            Prod.ext hregistry hmappings⟩

theorem fails_iff : Fails files r f ↔ r.compile files = .error f := by
  refine ⟨Fails.compile_eq, fun h => ?_⟩
  obtain ⟨f', hf'⟩ | ⟨m, o, table, registry, hloads⟩ := fails_or_loads files r
  · rw [hf'.compile_eq] at h
    cases h
    exact hf'
  · rw [hloads.compile_eq] at h
    cases h

theorem Loads.exists_addAll (h : Loads files r m o table registry) :
    ∃ added, registry = Registry.addAll {} added := by
  have hregister := Manifest.register_of_ok (congrArg Prod.snd h.mappings) {}
  exact ⟨m.entries, congrArg Prod.fst (h.mappings.symm.trans hregister)⟩

theorem Loads.hasErrors_iff (h : Loads files r m o table registry) :
    (outputOf o table registry).hasErrors ↔
      ∃ p ∈ (outputOf o table registry).plans, p.Blocks o := by
  obtain ⟨added, rfl⟩ := h.exists_addAll
  have hrun : ((Pass.ofOptions o).runLosing { table } (Registry.addAll {} added).snapshot
      fun _ _ => true).1.hasErrors ↔ _ :=
    Pass.hasErrors_runLosing (p := .ofOptions o) (Cache.all_ofCapacity _)
      (Registry.harmless_addAll added) _
  rw [Pass.runLosing_all] at hrun
  exact hrun

/-! ## Verdicts -/

theorem verdict_of_fails (h : Fails files r f) : r.verdict files = ⟨2, "", some f⟩ := by
  rw [Request.verdict, h.compile_eq]

theorem verdict_of_loads (h : Loads files r m o table registry) :
    r.verdict files = .ofOutput r (outputOf o table registry) := by
  rw [Request.verdict, h.compile_eq]

/-- Errors show in the code of a report on diagnostics, and nowhere else. -/
theorem exitCode_ofOutput_eq_one_iff (r : Request) (output : PassOutput) :
    (Verdict.ofOutput r output).exitCode = 1 ↔ r.report = .diagnostics ∧ output.hasErrors := by
  show (if r.report = .diagnostics && output.hasErrors then 1 else 0) = 1 ↔ _
  split <;> simp_all

theorem exitCode_ofOutput_le_one (r : Request) (output : PassOutput) :
    (Verdict.ofOutput r output).exitCode ≤ 1 := by
  show (if r.report = .diagnostics && output.hasErrors then 1 else 0) ≤ 1
  split <;> decide

/-- What a verdict says of the files of a request. -/
structure Verdict.Judges (v : Verdict) (files : Files) (r : Request) : Prop where
  code : v.exitCode = 0 ∨ v.exitCode = 1 ∨ v.exitCode = 2
  /-- The failure that is told is that of the first step that fails. -/
  failure : ∀ f, v.failure = some f ↔ Fails files r f
  /-- Nothing is printed then, and the code tells it from all else. -/
  refused : v.exitCode = 2 ↔ ∃ f, Fails files r f
  silent : v.exitCode = 2 → v.output = ""
  /-- If no step fails, what the plans are like shows in a report on diagnostics only. -/
  errors : v.exitCode = 1 ↔ r.report = .diagnostics ∧ ∃ m o table registry,
    Loads files r m o table registry ∧ ∃ p ∈ (outputOf o table registry).plans, p.Blocks o
  printed : ∀ m o table registry, Loads files r m o table registry →
    v.output = r.report.render r.json (outputOf o table registry)

theorem judges_of_fails (h : Fails files r f) : (r.verdict files).Judges files r := by
  have hcompile := h.compile_eq
  have hloads : ∀ {m o table registry}, ¬ Loads files r m o table registry := by
    intro m o table registry hloads
    rw [hloads.compile_eq] at hcompile
    cases hcompile
  rw [verdict_of_fails h]
  refine ⟨.inr (.inr rfl), fun f' => ?_, ⟨fun _ => ⟨f, h⟩, fun _ => rfl⟩, fun _ => rfl, ?_, ?_⟩
  · rw [fails_iff, hcompile, Except.error.injEq, Option.some.injEq]
  · exact iff_of_false (by simp) fun ⟨_, _, _, _, _, h, _⟩ => hloads h
  · exact fun _ _ _ _ h => absurd h hloads

theorem judges_of_loads (h : Loads files r m o table registry) :
    (r.verdict files).Judges files r := by
  have hcompile := h.compile_eq
  have hfails : ∀ {f}, ¬ Fails files r f := by
    intro f hf
    rw [hf.compile_eq] at hcompile
    cases hcompile
  have hcode := exitCode_ofOutput_le_one r (outputOf o table registry)
  rw [verdict_of_loads h]
  refine ⟨by omega, fun f => iff_of_false nofun hfails, ?_, fun h2 => by omega, ?_, ?_⟩
  · exact iff_of_false (by omega) fun ⟨f, hf⟩ => hfails hf
  · rw [exitCode_ofOutput_eq_one_iff, h.hasErrors_iff]
    refine and_congr_right fun _ => ⟨fun hblocks => ⟨m, o, table, registry, h, hblocks⟩, ?_⟩
    rintro ⟨m', o', table', registry', h', hblocks⟩
    have heq := h.compile_eq.symm.trans h'.compile_eq
    obtain rfl : o = o' := Except.ok.inj (h.options.symm.trans h'.options)
    rw [Except.ok.inj heq]
    exact hblocks
  · intro m' o' table' registry' h'
    rw [Except.ok.inj (h'.compile_eq.symm.trans h.compile_eq)]
    rfl

/-- The code and the failure of any request, and what the errors of a run are: after any history of
a pass, a run over registered mappings has errors, and problems that should stop a build, exactly if
one of its plans should. -/
theorem verdict_judges :
    (∀ (files : Files) (r : Request), (r.verdict files).Judges files r) ∧
    (∀ o : PassOutput, o.hasErrors ↔ o.escalations ≠ []) ∧
    ∀ (r : Resolver) (steps : List Pass.Step),
      (∀ s ∈ steps.filterMap Pass.Step.snapshot?,
        ∃ added, s = (Registry.addAll {} added).snapshot) →
      ∀ o ∈ (Pass.ofResolver r).outputs steps,
        o.hasErrors ↔ ∃ p ∈ o.plans, p.Blocks r.options := by
  refine ⟨fun files r => ?_, PassOutput.hasErrors_iff_escalations, fun r steps hsteps => ?_⟩
  · obtain ⟨f, hfails⟩ | ⟨m, o, table, registry, hloads⟩ := fails_or_loads files r
    · exact judges_of_fails hfails
    · exact judges_of_loads hloads
  · refine Pass.hasErrors_outputs (p := Pass.ofResolver r) (Cache.all_ofCapacity _) ?_
    intro s hs
    obtain ⟨added, rfl⟩ := hsteps s hs
    exact Registry.harmless_addAll added

/-! A number is mapped to a text, which is refused. -/

def mismatchTable : ShapeTable :=
  KeyedMap.ofList
    [⟨"A", [.value "X" "int" .word], by decide⟩, ⟨"B", [.reference "X" "string"], by decide⟩]

def mismatchSteps : List Pass.Step :=
  [.run { table := mismatchTable }
    (Registry.addAll {} [.explicit ⟨"A", "B"⟩ {} ⟨"o", 0⟩]).snapshot fun _ _ => true]

theorem verdict_mismatch :
    (∀ s ∈ mismatchSteps.filterMap Pass.Step.snapshot?,
      ∃ added, s = (Registry.addAll {} added).snapshot) ∧
    ∃ o ∈ (Pass.ofResolver {}).outputs mismatchSteps,
      o.hasErrors ∧ o.escalations ≠ [] ∧ ∃ p ∈ o.plans, p.Blocks {} := by
  have hsteps : ∀ s ∈ mismatchSteps.filterMap Pass.Step.snapshot?,
      ∃ added, s = (Registry.addAll {} added).snapshot := by
    intro s hs
    exact ⟨_, List.mem_singleton.1 hs⟩
  have herrors : ((Pass.ofResolver {}).outputs mismatchSteps).any (·.hasErrors) := by
    decide +kernel
  obtain ⟨o, ho, herror⟩ := List.any_eq_true.1 herrors
  obtain ⟨_, hescalations, hblocks⟩ := verdict_judges
  exact ⟨hsteps, o, ho, herror, (hescalations o).1 herror,
    (hblocks {} mismatchSteps hsteps o ho).1 herror⟩

end CommandLine
end MapPlan
