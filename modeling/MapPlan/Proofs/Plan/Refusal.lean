import MapPlan.Proofs.Expr.LiteralSafety
import MapPlan.Proofs.Mapping.Diagnostic
import MapPlan.Proofs.Plan.Decision

/-!
# Refusals and their reports

A field that no way was found to fill is reported, once, and no other field is, but for the
expressions that are kept because they cannot be renamed safely. What is reported of a field follows
from how it was decided, and so do the two flags of a plan and the severity of a report.
-/

namespace MapPlan

variable {r : Resolver} {i : Inputs} {d : Field} {s : Snapshot} {source : Field}
  {kind : Resolution} {problem : Option Problem}

/-! ## Problems of a field -/

/-- A field that a source field does not fill is refused for its type. -/
theorem Fills.unresolved_iff (h : Fills s source d kind problem) :
    kind = .unresolved ↔ ∃ p, problem = some p ∧ p.isTypeError := by
  cases h <;> simp [Problem.isTypeError]

theorem Fills.isTypeError {p : Problem} (h : Fills s source d kind (some p)) : p.isTypeError := by
  cases h <;> rfl

namespace Problem

theorem isTypeError_iff (p : Problem) :
    p.isTypeError ↔ p.kind = .typeMismatch ∨ p.kind = .unsoundBoxing := by
  cases p <;> simp [isTypeError, kind]

theorem kind_eq_missingSource_iff {p : Problem} :
    p.kind = .missingSource ↔ ∃ name, p = .missingSource name := by
  cases p <;> simp [kind]

theorem kind_eq_malformedExpression_iff {p : Problem} :
    p.kind = .malformedExpression ↔ p = .malformedExpression := by
  cases p <;> simp [kind]

theorem kind_eq_unsoundBoxing_iff {p : Problem} :
    p.kind = .unsoundBoxing ↔ ∃ given wanted, p = .unsoundBoxing given wanted := by
  cases p <;> simp [kind]

end Problem

namespace Decides

/-- A field is left without a value exactly if it is reported to lack a source or to be refused for
its type. -/
theorem unresolved_iff (h : Decides r i d kind problem) :
    kind = .unresolved ↔ ∃ p, problem = some p ∧
      (p.kind = .missingSource ∨ p.kind = .typeMismatch ∨ p.kind = .unsoundBoxing) := by
  cases h with
  | excluded => simp
  | constant => simp
  | @expression text =>
    cases (r.options.renamer.renameParameter text).isMalformed <;> simp [Problem.kind]
  | unmatched => simp
  | missing => simp [Problem.kind]
  | filled _ _ _ hfills =>
    rw [hfills.unresolved_iff]
    refine exists_congr fun p => and_congr_right fun hp => ?_
    subst hp
    have htype := hfills.isTypeError
    exact iff_of_true htype (.inr (p.isTypeError_iff.1 htype))

/-- An expression is reported exactly if it is malformed. -/
theorem malformed_iff (h : Decides r i d kind problem) :
    problem = some .malformedExpression ↔ ∃ given text, kind = .expression text ∧
      i.directive? d = some (.expression given) ∧
      (r.options.renamer.renameParameter given).isMalformed := by
  constructor
  · rintro rfl
    generalize hp : some Problem.malformedExpression = problem at h
    cases h with
    | @expression given _ hdirective =>
      by_cases hmalformed : (r.options.renamer.renameParameter given).isMalformed
      · exact ⟨given, _, rfl, hdirective, hmalformed⟩
      · rw [if_neg hmalformed] at hp
        cases hp
    | filled _ _ _ hfills =>
      subst hp
      cases hfills.isTypeError
    | _ => cases hp
  · rintro ⟨given, text, rfl, hdirective, hmalformed⟩
    cases h with
    | expression _ hdirective' =>
      rw [hdirective'] at hdirective
      cases hdirective
      exact if_pos hmalformed
    | filled _ _ _ hfills => cases hfills

/-- A malformed expression is kept as it was given. -/
theorem verbatim (h : Decides r i d kind (some .malformedExpression)) :
    ∃ given, i.directive? d = some (.expression given) ∧ kind = .expression given := by
  obtain ⟨given, text, rfl, hdirective, hmalformed⟩ := h.malformed_iff.1 rfl
  have hopen := h.open_of_ne_ignored nofun
  have htext := h.unique (.expression hopen hdirective)
  rw [Expr.Renamer.text_renameParameter_of_isMalformed hmalformed] at htext
  exact ⟨given, hdirective, htext⟩

/-- Boxing is refused only between elements of different storage classes. -/
theorem storage_ne_of_unsoundBoxing {given wanted : Element}
    (h : Decides r i d kind (some (.unsoundBoxing given wanted))) :
    ∃ source, i.read? d = some source ∧ source.element = some given ∧
      d.element = some wanted ∧ given.storage ≠ wanted.storage := by
  generalize hp : some (Problem.unsoundBoxing given wanted) = problem at h
  cases h with
  | @expression text _ _ =>
    split at hp <;> cases hp
  | filled _ _ hsource hfills =>
    subst hp
    cases hfills with
    | unsoundBoxing _ hgiven hwanted _ hstorage => exact ⟨_, hsource, hgiven, hwanted, hstorage⟩
  | _ => cases hp

end Decides

/-! ## Reports of a plan -/

theorem Diagnostic.mem_sort {e : Diagnostic} {l : List Diagnostic} : e ∈ sort l ↔ e ∈ l :=
  List.mem_mergeSort

/-- Of two diagnostics for one key, the one that is sorted first has the smaller field. -/
theorem Diagnostic.compare_field_isLE {e e' : Diagnostic} (hkey : e.key = e'.key)
    (h : (compare e e').isLE) : (compare e.field e'.field).isLE := by
  have hcompare : compare e e' = (compare e.key e'.key).then ((compare e.field e'.field).then
      ((compare e.kind.rank e'.kind.rank).then
        ((compare e.severity.rank e'.severity.rank).then (compare e.message e'.message)))) := rfl
  rw [hcompare, hkey, Std.ReflOrd.compare_self, Ordering.eq_then] at h
  exact Ordering.isLE_left_of_isLE_then h

namespace Resolver

/-- The report of a field, if there is one. -/
def report? (r : Resolver) (i : Inputs) (d : Field) : Option Diagnostic :=
  (r.resolveField i d).diagnostic? i.entry.key r.options.escalateMissingSource

theorem report?_eq_some {e : Diagnostic} :
    r.report? i d = some e ↔ ∃ p, (r.resolveField i d).problem = some p ∧
      e = ⟨p.kind, (r.resolveField i d).severity r.options.escalateMissingSource, i.entry.key,
        some d.name, p.message⟩ := by
  rw [report?, Outcome.diagnostic?, Option.map_eq_some_iff, field_resolveField]
  exact exists_congr fun p => and_congr_right fun _ => eq_comm

theorem diagnostics_resolve (r : Resolver) (i : Inputs) :
    (r.resolve i).diagnostics = Diagnostic.sort (i.dest.fields.filterMap (r.report? i)) := by
  show Diagnostic.sort ((i.dest.fields.map (r.resolveField i)).filterMap _) = _
  rw [List.filterMap_map]
  rfl

theorem mem_diagnostics_resolve {e : Diagnostic} :
    e ∈ (r.resolve i).diagnostics ↔ ∃ d ∈ i.dest.fields, r.report? i d = some e := by
  rw [diagnostics_resolve, Diagnostic.mem_sort, List.mem_filterMap]

/-- The reports stand in strictly ascending order of their fields. -/
theorem pairwise_diagnostics_resolve (r : Resolver) (i : Inputs) :
    (r.resolve i).diagnostics.Pairwise fun e e' => compare e.field e'.field = .lt := by
  have hapart : (i.dest.fields.filterMap (r.report? i)).Pairwise fun e e' => e.field ≠ e'.field := by
    refine List.pairwise_filterMap.2 ((List.pairwise_map.1 i.dest.nodup).imp ?_)
    intro d d' hne e he e' he' heq
    obtain ⟨_, _, rfl⟩ := report?_eq_some.1 he
    obtain ⟨_, _, rfl⟩ := report?_eq_some.1 he'
    exact hne (Option.some.inj heq)
  have hsorted := pairwise_mergeSort compare (i.dest.fields.filterMap (r.report? i))
  have hperm := List.mergeSort_perm (i.dest.fields.filterMap (r.report? i))
    fun e e' => (compare e e').isLE
  have hapart := hperm.symm.pairwise hapart fun h => h.symm
  rw [diagnostics_resolve]
  refine (hsorted.and hapart).imp_of_mem fun {e e'} he he' ⟨hle, hne⟩ => ?_
  obtain ⟨d, _, he⟩ := List.mem_filterMap.1 (Diagnostic.mem_sort.1 he)
  obtain ⟨d', _, he'⟩ := List.mem_filterMap.1 (Diagnostic.mem_sort.1 he')
  have hkey : e.key = e'.key := by
    obtain ⟨_, _, rfl⟩ := report?_eq_some.1 he
    obtain ⟨_, _, rfl⟩ := report?_eq_some.1 he'
    rfl
  exact compare_eq_lt_of_isLE_of_ne (Diagnostic.compare_field_isLE hkey hle) hne

end Resolver

/-- The plan has a report of this kind about the field of this name. -/
def Plan.Reports (p : Plan) (name : String) (kind : DiagnosticKind) : Prop :=
  ∃ e ∈ p.diagnostics, e.field = some name ∧ e.kind = kind

theorem Resolver.reports_iff {k : DiagnosticKind} (hd : d ∈ i.dest.fields) :
    (r.resolve i).Reports d.name k ↔ ∃ p, (r.resolveField i d).problem = some p ∧ p.kind = k := by
  constructor
  · rintro ⟨e, he, hname, hkind⟩
    obtain ⟨d', hd', he⟩ := mem_diagnostics_resolve.1 he
    obtain ⟨p, hp, rfl⟩ := report?_eq_some.1 he
    obtain rfl := FieldSet.eq_of_name_eq hd' hd (Option.some.inj hname)
    exact ⟨p, hp, hkind⟩
  · rintro ⟨p, hp, hkind⟩
    have hreport := report?_eq_some.2 ⟨p, hp, rfl⟩
    exact ⟨_, mem_diagnostics_resolve.2 ⟨d, hd, hreport⟩, rfl, hkind⟩

/-! ## Flags and severities -/

namespace Outcome

variable {o : Outcome}

theorem isTypeError_iff :
    o.isTypeError ↔ ∃ p, o.problem = some p ∧ (p.kind = .typeMismatch ∨ p.kind = .unsoundBoxing) := by
  rw [isTypeError, Option.any_eq_true]
  exact exists_congr fun p => and_congr_right fun _ => p.isTypeError_iff

theorem isMissing_iff :
    o.isMissing ↔ (∃ p, o.problem = some p ∧ p.kind = .missingSource) ∧
      o.field.defaultable = false := by
  rw [isMissing]
  split
  · rename_i hproblem
    simp [hproblem, Problem.kind]
  · rename_i hproblem
    refine iff_of_false Bool.false_ne_true fun ⟨⟨p, hp, hkind⟩, _⟩ => ?_
    obtain ⟨name, rfl⟩ := Problem.kind_eq_missingSource_iff.1 hkind
    exact hproblem name hp

theorem severity_eq_error_iff {escalate : Bool} :
    o.severity escalate = .error ↔ o.isTypeError ∨ o.isMissing ∧ escalate := by
  rw [severity]
  split
  · rename_i h
    simpa using h
  · rename_i h
    simpa using h

end Outcome

namespace Resolver

theorem hasTypeError_resolve_iff :
    (r.resolve i).hasTypeError ↔ ∃ d ∈ i.dest.fields, (r.resolveField i d).isTypeError := by
  show (r.outcomes i).any (·.isTypeError) = true ↔ _
  rw [outcomes, List.any_map, List.any_eq_true]
  rfl

theorem hasMissingSource_resolve_iff :
    (r.resolve i).hasMissingSource ↔ ∃ d ∈ i.dest.fields, (r.resolveField i d).isMissing := by
  show (r.outcomes i).any (·.isMissing) = true ↔ _
  rw [outcomes, List.any_map, List.any_eq_true]
  rfl

end Resolver

/-! ## What a plan reports -/

/-- The reports of a plan are those of its fields: which fields are reported and with what, what the
flags of the plan say of the reports, and how severe they are. -/
structure Plan.Justified (p : Plan) (r : Resolver) (i : Inputs) : Prop where
  fields : p.fields.map PlannedField.field = i.dest.fields
  named : ∀ e ∈ p.diagnostics, e.key = p.key ∧ ∃ f ∈ p.fields, e.field = some f.name
  ascending : p.diagnostics.Pairwise fun e e' => compare e.field e'.field = .lt
  unresolved : ∀ f ∈ p.fields, f.resolution = .unresolved ↔
    p.Reports f.name .missingSource ∨ p.Reports f.name .typeMismatch ∨
      p.Reports f.name .unsoundBoxing
  malformed : ∀ f ∈ p.fields, p.Reports f.name .malformedExpression ↔
    ∃ given text, f.resolution = .expression text ∧
      i.directive? f.field = some (.expression given) ∧
      (r.options.renamer.renameParameter given).isMalformed
  /-- A malformed expression is kept as it was given. -/
  verbatim : ∀ f ∈ p.fields, p.Reports f.name .malformedExpression →
    ∃ given, i.directive? f.field = some (.expression given) ∧ f.resolution = .expression given
  typeError : p.hasTypeError ↔
    ∃ e ∈ p.diagnostics, e.kind = .typeMismatch ∨ e.kind = .unsoundBoxing
  typeError_severity : ∀ e ∈ p.diagnostics,
    e.kind = .typeMismatch ∨ e.kind = .unsoundBoxing → e.severity = .error
  boxing : ∀ f ∈ p.fields, p.Reports f.name .unsoundBoxing → ∃ source given wanted,
    i.read? f.field = some source ∧ source.element = some given ∧
    f.field.element = some wanted ∧ given.storage ≠ wanted.storage
  missing : p.hasMissingSource ↔
    ∃ f ∈ p.fields, f.field.defaultable = false ∧ p.Reports f.name .missingSource
  /-- Of the reports of absent sources, the errors are those of fields that need one, if they are
  escalated at all. -/
  missing_severity : ∀ e ∈ p.diagnostics, e.kind = .missingSource →
    ∀ f ∈ p.fields, e.field = some f.name →
      (e.severity = .error ↔ f.field.defaultable = false ∧ r.options.escalateMissingSource = true)

namespace Resolver

/-- A report of a plan is that of a problem of one of its fields. -/
theorem exists_problem_of_mem {e : Diagnostic} (he : e ∈ (r.resolve i).diagnostics) :
    ∃ d ∈ i.dest.fields, ∃ p, (r.resolveField i d).problem = some p ∧
      e = ⟨p.kind, (r.resolveField i d).severity r.options.escalateMissingSource, i.entry.key,
        some d.name, p.message⟩ := by
  obtain ⟨d, hd, he⟩ := mem_diagnostics_resolve.1 he
  exact ⟨d, hd, report?_eq_some.1 he⟩

theorem reports_iff_of_mem {f : PlannedField} (hf : f ∈ (r.resolve i).fields)
    {k : DiagnosticKind} : (r.resolve i).Reports f.name k ↔
      ∃ p, (r.resolveField i f.field).problem = some p ∧ p.kind = k :=
  reports_iff (mem_fields_resolve.1 hf).1

section Fields

variable {f : PlannedField}

theorem unresolved_iff_of_mem (hf : f ∈ (r.resolve i).fields) :
    f.resolution = .unresolved ↔
      (r.resolve i).Reports f.name .missingSource ∨ (r.resolve i).Reports f.name .typeMismatch ∨
        (r.resolve i).Reports f.name .unsoundBoxing := by
  rw [(decides_of_mem hf).unresolved_iff, reports_iff_of_mem hf, reports_iff_of_mem hf,
    reports_iff_of_mem hf, ← exists_or, ← exists_or]
  exact exists_congr fun p => by rw [and_or_left, and_or_left]

theorem malformed_iff_of_mem (hf : f ∈ (r.resolve i).fields) :
    (r.resolve i).Reports f.name .malformedExpression ↔
      ∃ given text, f.resolution = .expression text ∧
        i.directive? f.field = some (.expression given) ∧
        (r.options.renamer.renameParameter given).isMalformed := by
  rw [← (decides_of_mem hf).malformed_iff, reports_iff_of_mem hf]
  simp [Problem.kind_eq_malformedExpression_iff]

theorem verbatim_of_reports (hf : f ∈ (r.resolve i).fields)
    (hreports : (r.resolve i).Reports f.name .malformedExpression) :
    ∃ given, i.directive? f.field = some (.expression given) ∧
      f.resolution = .expression given := by
  obtain ⟨p, hp, hkind⟩ := (reports_iff_of_mem hf).1 hreports
  have hdecides := decides_of_mem hf
  rw [hp, Problem.kind_eq_malformedExpression_iff.1 hkind] at hdecides
  exact hdecides.verbatim

theorem storage_ne_of_reports (hf : f ∈ (r.resolve i).fields)
    (hreports : (r.resolve i).Reports f.name .unsoundBoxing) :
    ∃ source given wanted, i.read? f.field = some source ∧ source.element = some given ∧
      f.field.element = some wanted ∧ given.storage ≠ wanted.storage := by
  obtain ⟨p, hp, hkind⟩ := (reports_iff_of_mem hf).1 hreports
  obtain ⟨given, wanted, rfl⟩ := Problem.kind_eq_unsoundBoxing_iff.1 hkind
  have hdecides := decides_of_mem hf
  rw [hp] at hdecides
  obtain ⟨source, hsource, hgiven, hwanted, hne⟩ := hdecides.storage_ne_of_unsoundBoxing
  exact ⟨source, given, wanted, hsource, hgiven, hwanted, hne⟩

end Fields

theorem hasTypeError_iff_exists_report : (r.resolve i).hasTypeError ↔
    ∃ e ∈ (r.resolve i).diagnostics, e.kind = .typeMismatch ∨ e.kind = .unsoundBoxing := by
  rw [hasTypeError_resolve_iff]
  constructor
  · rintro ⟨d, hd, htype⟩
    obtain ⟨p, hp, hkind⟩ := Outcome.isTypeError_iff.1 htype
    exact ⟨_, mem_diagnostics_resolve.2 ⟨d, hd, report?_eq_some.2 ⟨p, hp, rfl⟩⟩, hkind⟩
  · rintro ⟨e, he, hkind⟩
    obtain ⟨d, hd, p, hp, rfl⟩ := exists_problem_of_mem he
    exact ⟨d, hd, Outcome.isTypeError_iff.2 ⟨p, hp, hkind⟩⟩

theorem hasMissingSource_iff_exists_report : (r.resolve i).hasMissingSource ↔
    ∃ f ∈ (r.resolve i).fields, f.field.defaultable = false ∧
      (r.resolve i).Reports f.name .missingSource := by
  rw [hasMissingSource_resolve_iff]
  constructor
  · rintro ⟨d, hd, hmissing⟩
    obtain ⟨hproblem, hdefault⟩ := Outcome.isMissing_iff.1 hmissing
    rw [field_resolveField] at hdefault
    exact ⟨⟨d, (r.resolveField i d).resolution⟩, mem_fields_resolve.2 ⟨hd, rfl⟩, hdefault,
      (reports_iff hd).2 hproblem⟩
  · rintro ⟨f, hf, hdefault, hreports⟩
    refine ⟨f.field, (mem_fields_resolve.1 hf).1, Outcome.isMissing_iff.2 ?_⟩
    rw [field_resolveField]
    exact ⟨(reports_iff_of_mem hf).1 hreports, hdefault⟩

theorem severity_of_mem_of_typeError {e : Diagnostic} (he : e ∈ (r.resolve i).diagnostics)
    (hkind : e.kind = .typeMismatch ∨ e.kind = .unsoundBoxing) : e.severity = .error := by
  obtain ⟨d, hd, p, hp, rfl⟩ := exists_problem_of_mem he
  exact Outcome.severity_eq_error_iff.2 (.inl (Outcome.isTypeError_iff.2 ⟨p, hp, hkind⟩))

theorem severity_of_mem_of_missingSource {e : Diagnostic} {f : PlannedField}
    (he : e ∈ (r.resolve i).diagnostics) (hkind : e.kind = .missingSource)
    (hf : f ∈ (r.resolve i).fields) (hname : e.field = some f.name) :
    e.severity = .error ↔
      f.field.defaultable = false ∧ r.options.escalateMissingSource = true := by
  obtain ⟨d, hd, p, hp, rfl⟩ := exists_problem_of_mem he
  obtain rfl := FieldSet.eq_of_name_eq hd (mem_fields_resolve.1 hf).1 (Option.some.inj hname)
  have hkind : p.kind = .missingSource := hkind
  have htype : ¬ (r.resolveField i f.field).isTypeError := by
    rw [Outcome.isTypeError_iff]
    rintro ⟨p', hp', hkind'⟩
    obtain rfl := Option.some.inj (hp.symm.trans hp')
    rw [hkind] at hkind'
    simp at hkind'
  rw [Outcome.severity_eq_error_iff, or_iff_right htype, Outcome.isMissing_iff,
    field_resolveField, and_iff_right (⟨p, hp, hkind⟩ : ∃ p, _)]

/-- What a plan reports, and which reports its flags stand for. -/
theorem resolve_justified (r : Resolver) (i : Inputs) : (r.resolve i).Justified r i where
  fields := by
    rw [fields_resolve, List.map_map]
    exact List.map_id _
  named e he := by
    obtain ⟨d, hd, p, hp, rfl⟩ := exists_problem_of_mem he
    exact ⟨rfl, ⟨d, (r.resolveField i d).resolution⟩, mem_fields_resolve.2 ⟨hd, rfl⟩, rfl⟩
  ascending := pairwise_diagnostics_resolve r i
  unresolved f hf := unresolved_iff_of_mem hf
  malformed f hf := malformed_iff_of_mem hf
  verbatim f hf hreports := verbatim_of_reports hf hreports
  typeError := hasTypeError_iff_exists_report
  typeError_severity e he hkind := severity_of_mem_of_typeError he hkind
  boxing f hf hreports := storage_ne_of_reports hf hreports
  missing := hasMissingSource_iff_exists_report
  missing_severity e he hkind f hf hname := severity_of_mem_of_missingSource he hkind hf hname

end Resolver
end MapPlan
