import MapPlan.Proofs.Plan.Emission
import MapPlan.Proofs.Plan.Materialization
import MapPlan.Proofs.Plan.Refusal

/-!
# What options change in a plan

Options say what the parameters of expressions are renamed to, and whether it is an error that a
field lacks a source. In a plan they change the text of expressions and the severity of such
reports, and nothing else: whether an expression is malformed depends on its text alone, and reports
stand in the order of their fields, whatever their severity.
-/

namespace MapPlan

open scoped List

/-! ## Fields -/

/-- Ways to fill a field that differ in the text of an expression at most. -/
inductive Resolution.Alike : Resolution → Resolution → Prop where
  | same (kind : Resolution) : Alike kind kind
  | expression (text text' : String) : Alike (.expression text) (.expression text')

structure PlannedField.Alike (f f' : PlannedField) : Prop where
  field : f.field = f'.field
  resolution : f.resolution.Alike f'.resolution

namespace Resolver

variable {r r' : Resolver} {i : Inputs} {d : Field}

theorem resolveField_alike (r r' : Resolver) (i : Inputs) (d : Field) :
    (r.resolveField i d).resolution.Alike (r'.resolveField i d).resolution ∧
      (r.resolveField i d).problem = (r'.resolveField i d).problem := by
  rcases i.closed_or_open d with hclosed | hopen
  · rw [resolveField_of_closed hclosed, resolveField_of_closed hclosed]
    exact ⟨.same _, rfl⟩
  rcases i.directive_cases d with ⟨text, hdirective⟩ | ⟨text, hdirective⟩ | hreads
  · rw [resolveField_of_constant hopen hdirective, resolveField_of_constant hopen hdirective]
    exact ⟨.same _, rfl⟩
  · rw [resolveField_of_expression hopen hdirective, resolveField_of_expression hopen hdirective,
      compute, compute]
    refine ⟨.expression _ _, ?_⟩
    simp only [Expr.Renamer.isMalformed_renameParameter_iff]
  · rw [resolveField_of_reads hopen hreads, resolveField_of_reads hopen hreads]
    exact ⟨.same _, rfl⟩

theorem problem_resolveField (r r' : Resolver) (i : Inputs) (d : Field) :
    (r.resolveField i d).problem = (r'.resolveField i d).problem :=
  (resolveField_alike r r' i d).2

theorem isMissing_resolveField (r r' : Resolver) (i : Inputs) (d : Field) :
    (r.resolveField i d).isMissing = (r'.resolveField i d).isMissing := by
  rw [Outcome.isMissing, Outcome.isMissing, problem_resolveField r r', field_resolveField,
    field_resolveField]

theorem isTypeError_resolveField (r r' : Resolver) (i : Inputs) (d : Field) :
    (r.resolveField i d).isTypeError = (r'.resolveField i d).isTypeError := by
  rw [Outcome.isTypeError, Outcome.isTypeError, problem_resolveField r r']

theorem fields_resolve_alike (r r' : Resolver) (i : Inputs) :
    List.Forall₂ PlannedField.Alike (r.resolve i).fields (r'.resolve i).fields := by
  rw [fields_resolve, fields_resolve, List.forall₂_map_left_iff, List.forall₂_map_right_iff,
    List.forall₂_same]
  exact fun d _ => ⟨rfl, (resolveField_alike r r' i d).1⟩

end Resolver

/-! ## Order of emission -/

theorem PlannedField.Alike.rank?_eq {f f' : PlannedField} (h : f.Alike f') :
    f.rank? = f'.rank? := by
  obtain ⟨field, resolution⟩ := f
  obtain ⟨_, resolution'⟩ := f'
  obtain ⟨rfl, hresolution⟩ := h
  cases hresolution <;> rfl

theorem PlannedField.Alike.name_eq {f f' : PlannedField} (h : f.Alike f') : f.name = f'.name :=
  congrArg Field.name h.field

namespace Plan

theorem map_name_filter_rank? {l l' : List PlannedField} (h : List.Forall₂ PlannedField.Alike l l')
    (k : Nat × Nat) :
    (l.filter (·.rank? = some k)).map (·.name) = (l'.filter (·.rank? = some k)).map (·.name) := by
  induction h with
  | nil => rfl
  | cons hfield _ ih =>
    rw [List.filter_cons, List.filter_cons, hfield.rank?_eq]
    split
    · rw [List.map_cons, List.map_cons, hfield.name_eq, ih]
    · exact ih

theorem map_name_emissionOrder {p p' : Plan}
    (h : List.Forall₂ PlannedField.Alike p.fields p'.fields) :
    p.emissionOrder.map (·.name) = p'.emissionOrder.map (·.name) := by
  rw [emissionOrder_eq, emissionOrder_eq, List.map_flatMap, List.map_flatMap]
  exact List.flatMap_congr fun k _ => map_name_filter_rank? h k

end Plan

/-! ## Reports -/

/-- The report is about a field that must have a source and has none. -/
def Inputs.Lacks (i : Inputs) (e : Diagnostic) : Prop :=
  e.kind = .missingSource ∧ ∃ d ∈ i.dest.fields, e.field = some d.name ∧ d.defaultable = false

/-- Reports that differ in their severity at most, and only if a source is lacking. -/
structure Diagnostic.Alike (i : Inputs) (e e' : Diagnostic) : Prop where
  kind : e.kind = e'.kind
  key : e.key = e'.key
  field : e.field = e'.field
  message : e.message = e'.message
  severity : ¬ i.Lacks e → e.severity = e'.severity

theorem forall₂_filterMap {α β : Type} {R : β → β → Prop} {f g : α → Option β} {l : List α}
    (h : ∀ a ∈ l, Option.Rel R (f a) (g a)) : List.Forall₂ R (l.filterMap f) (l.filterMap g) := by
  induction l with
  | nil => exact .nil
  | cons a l ih =>
    obtain ⟨ha, hl⟩ := List.forall_mem_cons.1 h
    rw [List.filterMap_cons, List.filterMap_cons]
    cases hf : f a <;> cases hg : g a <;> rw [hf, hg] at ha <;> cases ha
    · exact ih hl
    · exact .cons ‹_› (ih hl)

/-- What is reported of a field does not depend on how it is filled. -/
theorem Outcome.diagnostic?_congr {o o' : Outcome} (hfield : o.field = o'.field)
    (hproblem : o.problem = o'.problem) (key : Key) (escalate : Bool) :
    o.diagnostic? key escalate = o'.diagnostic? key escalate := by
  obtain ⟨field, _, problem⟩ := o
  cases hfield
  cases hproblem
  rfl

namespace Resolver

variable {r r' : Resolver} {i : Inputs} {d : Field}

/-- The reports of a plan stand in the order of the names of their fields. -/
theorem diagnostics_resolve_eq (r : Resolver) (i : Inputs) :
    (r.resolve i).diagnostics =
      (i.dest.fields.mergeSort fun d d' => (compareOn Field.name d d').isLE).filterMap
        (r.report? i) := by
  let sorted := i.dest.fields.mergeSort fun d d' => (compareOn Field.name d d').isLE
  have hsorted : sorted ~ i.dest.fields := List.mergeSort_perm _ _
  have hperm : (r.resolve i).diagnostics ~ sorted.filterMap (r.report? i) := by
    rw [diagnostics_resolve]
    exact (List.mergeSort_perm _ _).trans (hsorted.filterMap _).symm
  have hnames : sorted.Pairwise fun d d' => compare d.name d'.name = .lt := by
    have hapart := hsorted.symm.pairwise (List.pairwise_map.1 i.dest.nodup) fun h => h.symm
    exact ((pairwise_mergeSort (compareOn Field.name) i.dest.fields).and hapart).imp
      fun ⟨hle, hne⟩ => compare_eq_lt_of_isLE_of_ne hle hne
  have hfields : (sorted.filterMap (r.report? i)).Pairwise
      fun e e' => compare e.field e'.field = .lt := by
    refine List.pairwise_filterMap.2 (hnames.imp fun {d d'} hlt e he e' he' => ?_)
    obtain ⟨_, _, rfl⟩ := report?_eq_some.1 he
    obtain ⟨_, _, rfl⟩ := report?_eq_some.1 he'
    exact hlt
  exact KeyedMap.eq_of_sorted (pairwise_diagnostics_resolve r i) hfields fun _ => hperm.mem_iff

theorem report?_eq_diagnostic? (r r' : Resolver) (i : Inputs) (d : Field) :
    r'.report? i d =
      (r.resolveField i d).diagnostic? i.entry.key r'.options.escalateMissingSource := by
  refine Outcome.diagnostic?_congr ?_ (problem_resolveField r' r i d) _ _
  rw [field_resolveField, field_resolveField]

theorem report?_alike (r r' : Resolver) (hd : d ∈ i.dest.fields) :
    Option.Rel (Diagnostic.Alike i) (r.report? i d) (r'.report? i d) := by
  rw [report?_eq_diagnostic? r r', report?, Outcome.diagnostic?, Outcome.diagnostic?]
  cases hp : (r.resolveField i d).problem with
  | none => exact .none
  | some p =>
    refine .some ⟨rfl, rfl, rfl, rfl, fun hlacks => ?_⟩
    have hmissing : (r.resolveField i d).isMissing = false := by
      refine Bool.eq_false_iff.2 fun hmissing => hlacks ?_
      obtain ⟨⟨p', hp', hkind⟩, hdefault⟩ := Outcome.isMissing_iff.1 hmissing
      obtain rfl := Option.some.inj (hp.symm.trans hp')
      exact ⟨hkind, _, hd, by rw [field_resolveField], field_resolveField r i d ▸ hdefault⟩
    simp only [Outcome.severity, hmissing, Bool.false_and]

/-! ## Plans -/

/-- Under other options a plan has the same fields, filled in the same way but for the text of
expressions, and in the same order; it has the same flags, and the same reports but for how severe
the lack of a source is. The target and the aliases do not show in its reports, the escalation does
not show in its fields, and no other option shows at all. -/
theorem resolve_alike (hash : Digest.Hash) (o o' : Options) (i : Inputs) :
    let p := resolve ⟨o, hash⟩ i
    let p' := resolve ⟨o', hash⟩ i
    List.Forall₂ PlannedField.Alike p.fields p'.fields ∧
    p.hasMissingSource = p'.hasMissingSource ∧
    p.hasTypeError = p'.hasTypeError ∧
    p.emissionOrder.map (·.name) = p'.emissionOrder.map (·.name) ∧
    List.Forall₂ (Diagnostic.Alike i) p.diagnostics p'.diagnostics ∧
    (o.parameterTarget = o'.parameterTarget → o.conventionalAliases = o'.conventionalAliases →
      p.fields = p'.fields) ∧
    (o.escalateMissingSource = o'.escalateMissingSource → p.diagnostics = p'.diagnostics) ∧
    (o.parameterTarget = o'.parameterTarget → o.conventionalAliases = o'.conventionalAliases →
      o.escalateMissingSource = o'.escalateMissingSource → p = p') := by
  intro p p'
  have hfields := fields_resolve_alike ⟨o, hash⟩ ⟨o', hash⟩ i
  refine ⟨hfields, ?_, ?_, Plan.map_name_emissionOrder hfields, ?_, fun htarget haliases => ?_,
    fun hescalate => ?_, fun htarget haliases hescalate => ?_⟩
  · rw [Bool.eq_iff_iff, hasMissingSource_resolve_iff, hasMissingSource_resolve_iff]
    refine exists_congr fun d => and_congr_right fun _ => ?_
    rw [isMissing_resolveField ⟨o, hash⟩ ⟨o', hash⟩]
  · rw [Bool.eq_iff_iff, hasTypeError_resolve_iff, hasTypeError_resolve_iff]
    refine exists_congr fun d => and_congr_right fun _ => ?_
    rw [isTypeError_resolveField ⟨o, hash⟩ ⟨o', hash⟩]
  · rw [diagnostics_resolve_eq, diagnostics_resolve_eq]
    exact forall₂_filterMap fun d hd => report?_alike _ _ (List.mem_mergeSort.1 hd)
  · have hrenamer : o.renamer = o'.renamer := by
      rw [Options.renamer, Options.renamer, htarget, haliases]
    rw [fields_resolve, fields_resolve, resolveField_congr_options hrenamer]
  · rw [diagnostics_resolve, diagnostics_resolve]
    refine congrArg Diagnostic.sort (List.filterMap_congr fun d _ => ?_)
    rw [report?_eq_diagnostic? ⟨o, hash⟩ ⟨o', hash⟩, report?, hescalate]
  · have hparts := optionsParts_eq_iff.2 ⟨htarget, haliases, hescalate⟩
    have hfingerprint : fingerprint ⟨o, hash⟩ i = fingerprint ⟨o', hash⟩ i := by
      simp only [fingerprint, inputBytes, parts, optionsBytes, hparts]
    change planAs ⟨o, hash⟩ i _ = planAs ⟨o', hash⟩ i _
    rw [hfingerprint, planAs_congr_options htarget haliases hescalate]

/-! A user is computed and an owner has no source, under options that differ in all they can show
and under options that differ in what they cannot. -/

def sampleOwner : Field :=
  .reference "owner" "User"

def sampleUser : Field :=
  .reference "user" "User"

def sampleBill : Inputs where
  entry := .explicit ⟨"Bill", "BillDto"⟩ (({} : Config).expression "user" "b") ⟨"o", 0⟩
  source := ⟨"Bill", [], by decide⟩
  dest := ⟨"BillDto", [sampleOwner, sampleUser], by decide⟩
  snapshot := {}

def terse : Options where
  parameterTarget := "s"
  escalateMissingSource := false

def sequential : Options where
  parallel := false
  planCacheCapacity := 0

def ownerReport (severity : Severity) : Diagnostic :=
  ⟨.missingSource, severity, ⟨"Bill", "BillDto"⟩, some "owner", "no readable source field `owner`"⟩

theorem fields_sampleBill (r : Resolver) :
    (r.resolve sampleBill).fields.map PlannedField.resolution =
      [.unresolved, .expression (r.options.renamer.renameParameter "b").text] := rfl

theorem diagnostics_sampleBill (h : (r.options.renamer.renameParameter "b").isMalformed = false) :
    (r.resolve sampleBill).diagnostics =
      [ownerReport (if r.options.escalateMissingSource then .error else .warning)] := by
  have hopen : sampleBill.Open sampleUser := ⟨rfl, rfl, by decide⟩
  have hdirective : sampleBill.directive? sampleUser = some (.expression "b") := by decide
  have huser : r.report? sampleBill sampleUser = none := by
    rw [report?, resolveField_of_expression hopen hdirective, compute, h]
    rfl
  have hreports : [sampleOwner, sampleUser].filterMap (r.report? sampleBill) =
      [ownerReport (if r.options.escalateMissingSource then .error else .warning)] := by
    rw [List.filterMap_cons, List.filterMap_cons, huser, List.filterMap_nil]
    rfl
  rw [diagnostics_resolve]
  exact (congrArg Diagnostic.sort hreports).trans (List.mergeSort_singleton _)

theorem resolve_alike_sample :
    (resolve ⟨{}, Digest.blake3⟩ sampleBill).fields.map PlannedField.resolution =
      [.unresolved, .expression "source"] ∧
    (resolve ⟨terse, Digest.blake3⟩ sampleBill).fields.map PlannedField.resolution =
      [.unresolved, .expression "s"] ∧
    (resolve ⟨{}, Digest.blake3⟩ sampleBill).diagnostics = [ownerReport .error] ∧
    (resolve ⟨terse, Digest.blake3⟩ sampleBill).diagnostics = [ownerReport .warning] ∧
    (resolve ⟨{}, Digest.blake3⟩ sampleBill).hasMissingSource =
      (resolve ⟨terse, Digest.blake3⟩ sampleBill).hasMissingSource ∧
    resolve ⟨{}, Digest.blake3⟩ sampleBill = resolve ⟨sequential, Digest.blake3⟩ sampleBill := by
  obtain ⟨-, hmissing, -⟩ := resolve_alike Digest.blake3 {} terse sampleBill
  obtain ⟨-, -, -, -, -, -, -, hplan⟩ := resolve_alike Digest.blake3 {} sequential sampleBill
  have hdefault : ({} : Options).renamer.renameParameter "b" =
      ⟨"source", some "b", 1, .tokenized⟩ := by decide +kernel
  have hterse : terse.renamer.renameParameter "b" = ⟨"s", some "b", 1, .tokenized⟩ := by
    decide +kernel
  refine ⟨?_, ?_, diagnostics_sampleBill (by rw [hdefault]; rfl),
    diagnostics_sampleBill (by rw [hterse]; rfl), hmissing, hplan rfl rfl rfl⟩
  · rw [fields_sampleBill, hdefault]
  · rw [fields_sampleBill, hterse]

end Resolver
end MapPlan
