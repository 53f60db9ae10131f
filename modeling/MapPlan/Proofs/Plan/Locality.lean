import MapPlan.Proofs.Plan.Coverage
import MapPlan.Proofs.Plan.Refusal

/-!
# Fields apart

What becomes of a destination field hangs on the field itself and on what it looks at: its
directive, the source field of the name it reads from, and whether the keys it could use are
registered. Plans that agree on these agree on the field, whatever else they are made from. So the
order in which the fields of a shape are declared shows in the order of a plan's fields and nowhere
else.
-/

namespace MapPlan

open scoped List

variable {r : Resolver} {i i' : Inputs} {d : Field}

/-- The inputs are the same to a destination field. -/
structure Inputs.AgreeOn (i i' : Inputs) (d : Field) : Prop where
  directive : i.directive? d = i'.directive? d
  ignoreUnmatched : i.entry.config.ignoreUnmatched = i'.entry.config.ignoreUnmatched
  source : i.source.get? (i.candidate d) = i'.source.get? (i.candidate d)
  types : ∀ source, i.source.get? (i.candidate d) = some source →
    i.snapshot.contains source.type d.type = i'.snapshot.contains source.type d.type
  elements : ∀ source given wanted, i.source.get? (i.candidate d) = some source →
    source.element = some given → d.element = some wanted →
    i.snapshot.contains given.type wanted.type = i'.snapshot.contains given.type wanted.type

namespace Inputs.AgreeOn

theorem candidate (h : i.AgreeOn i' d) : i.candidate d = i'.candidate d := by
  rw [Inputs.candidate, Inputs.candidate, h.directive]

theorem fromSource_eq (h : i.AgreeOn i' d) :
    Resolver.fromSource i (i.candidate d) d = Resolver.fromSource i' (i'.candidate d) d := by
  rw [Resolver.fromSource, Resolver.fromSource, ← h.candidate, FieldSet.readable?,
    FieldSet.readable?, ← h.source, ← h.ignoreUnmatched]
  cases hreadable : (i.source.get? (i.candidate d)).filter (·.readable) with
  | none => rfl
  | some source =>
    have hget := (Option.filter_eq_some_iff.1 hreadable).1
    exact Resolver.assign_congr (h.types source hget) fun given wanted =>
      h.elements source given wanted hget

/-- The field is resolved in the same way. -/
theorem resolveField_eq (h : i.AgreeOn i' d) : r.resolveField i d = r.resolveField i' d := by
  rcases i.closed_or_open d with hclosed | hopen
  · rw [Resolver.resolveField_of_closed hclosed, Resolver.resolveField_of_closed]
    rwa [← h.directive]
  have hopen' : i'.Open d := ⟨hopen.writable, hopen.ignored, h.directive ▸ hopen.directive⟩
  rcases i.directive_cases d with ⟨text, hdirective⟩ | ⟨text, hdirective⟩ | hreads
  · rw [Resolver.resolveField_of_constant hopen hdirective,
      Resolver.resolveField_of_constant hopen' (h.directive ▸ hdirective)]
  · rw [Resolver.resolveField_of_expression hopen hdirective,
      Resolver.resolveField_of_expression hopen' (h.directive ▸ hdirective)]
  · have hreads' : i'.Reads d := ⟨h.directive ▸ hreads.constant, h.directive ▸ hreads.expression⟩
    rw [Resolver.resolveField_of_reads hopen hreads, Resolver.resolveField_of_reads hopen' hreads',
      h.fromSource_eq]

end Inputs.AgreeOn

/-! ## A field of a plan -/

/-- What a plan reports about the field of the given name. -/
def Plan.reportsOn (p : Plan) (name : String) : List Diagnostic :=
  p.diagnostics.filter (·.field = some name)

namespace Resolver

theorem field?_resolve (r : Resolver) (hd : d ∈ i.dest.fields) :
    (r.resolve i).field? d.name = some ⟨d, (r.resolveField i d).resolution⟩ := by
  have hget : i.dest.fields.find? (·.name = d.name) = some d :=
    FieldSet.get?_eq_some_iff.2 ⟨hd, rfl⟩
  rw [Plan.field?, fields_resolve, List.find?_map]
  exact congrArg (Option.map _) hget

theorem nodup_diagnostics_resolve (r : Resolver) (i : Inputs) :
    (r.resolve i).diagnostics.Nodup := by
  refine (pairwise_diagnostics_resolve r i).imp ?_
  rintro e _ hlt rfl
  rw [Std.ReflOrd.compare_self] at hlt
  cases hlt

/-- A field is reported once if at all. -/
theorem reportsOn_resolve (r : Resolver) (hd : d ∈ i.dest.fields) :
    (r.resolve i).reportsOn d.name = (r.report? i d).toList := by
  have hmem : ∀ e, e ∈ (r.resolve i).reportsOn d.name ↔ r.report? i d = some e := by
    intro e
    rw [Plan.reportsOn, List.mem_filter, mem_diagnostics_resolve, decide_eq_true_iff]
    constructor
    · rintro ⟨⟨d', hd', he⟩, hname⟩
      obtain ⟨_, _, rfl⟩ := report?_eq_some.1 he
      obtain rfl := FieldSet.eq_of_name_eq hd' hd (Option.some.inj hname)
      exact he
    · intro he
      obtain ⟨_, _, rfl⟩ := report?_eq_some.1 he
      exact ⟨⟨d, hd, he⟩, rfl⟩
  cases hreport : r.report? i d with
  | none =>
    rw [hreport] at hmem
    exact List.eq_nil_iff_forall_not_mem.2 fun e he => nomatch (hmem e).1 he
  | some e =>
    rw [hreport] at hmem
    refine List.perm_singleton.1 ((List.perm_ext_iff_of_nodup ?_ (List.nodup_singleton e)).2 ?_)
    · exact (nodup_diagnostics_resolve r i).filter _
    · intro e'
      rw [hmem, List.mem_singleton, Option.some.injEq, eq_comm]

theorem report?_eq_of_agreeOn (r : Resolver) (hkey : i.entry.key = i'.entry.key)
    (h : i.AgreeOn i' d) : r.report? i d = r.report? i' d := by
  rw [report?, report?, h.resolveField_eq, hkey]

/-! ## Fields in another order -/

/-- Plans for the same fields in another order, each of which finds the inputs the same. -/
theorem resolve_of_perm (r : Resolver) (hkey : i.entry.key = i'.entry.key)
    (hdest : i.dest.fields ~ i'.dest.fields) (h : ∀ d ∈ i.dest.fields, i.AgreeOn i' d) :
    (r.resolve i).fields ~ (r.resolve i').fields ∧
    (r.resolve i).hasMissingSource = (r.resolve i').hasMissingSource ∧
    (r.resolve i).hasTypeError = (r.resolve i').hasTypeError ∧
    (r.resolve i).diagnostics = (r.resolve i').diagnostics := by
  have houtcomes : r.outcomes i ~ r.outcomes i' := by
    have heach : r.outcomes i = i.dest.fields.map (r.resolveField i') :=
      List.map_congr_left fun d hd => (h d hd).resolveField_eq
    rw [heach]
    exact hdest.map _
  refine ⟨houtcomes.map _, houtcomes.any_eq, houtcomes.any_eq, ?_⟩
  change Diagnostic.sort ((r.outcomes i).filterMap _) =
    Diagnostic.sort ((r.outcomes i').filterMap _)
  rw [hkey]
  exact Diagnostic.sort_eq_of_perm (houtcomes.filterMap _)

theorem agreeOn_of_perm (hentry : i.entry = i'.entry) (hsnapshot : i.snapshot = i'.snapshot)
    (hsource : i.source.fields ~ i'.source.fields) (d : Field) : i.AgreeOn i' d where
  directive := by rw [Inputs.directive?, Inputs.directive?, hentry]
  ignoreUnmatched := by rw [hentry]
  source := FieldSet.get?_eq_of_perm hsource _
  types _ _ := by rw [hsnapshot]
  elements _ _ _ _ _ _ := by rw [hsnapshot]

/-- A field that finds the inputs of two plans the same is planned and reported the same in both. To
declare the fields of the shapes in another order moves the planned fields and changes nothing
else. -/
theorem resolve_local (r : Resolver) (i i' : Inputs) (hkey : i.entry.key = i'.entry.key) :
    (∀ d ∈ i.dest.fields, d ∈ i'.dest.fields → i.AgreeOn i' d →
      ∃ (kind : Resolution) (report : Option Diagnostic),
        (r.resolve i).field? d.name = some ⟨d, kind⟩ ∧
        (r.resolve i').field? d.name = some ⟨d, kind⟩ ∧
        (r.resolve i).reportsOn d.name = report.toList ∧
        (r.resolve i').reportsOn d.name = report.toList) ∧
    (i.entry = i'.entry → i.snapshot = i'.snapshot → i.source.fields ~ i'.source.fields →
      i.dest.fields ~ i'.dest.fields →
        (r.resolve i).fields ~ (r.resolve i').fields ∧
        (r.resolve i).hasMissingSource = (r.resolve i').hasMissingSource ∧
        (r.resolve i).hasTypeError = (r.resolve i').hasTypeError ∧
        (r.resolve i).diagnostics = (r.resolve i').diagnostics) := by
  refine ⟨fun d hd hd' h => ?_, fun hentry hsnapshot hsource hdest => ?_⟩
  · refine ⟨(r.resolveField i d).resolution, r.report? i d, field?_resolve r hd, ?_,
      reportsOn_resolve r hd, ?_⟩
    · rw [h.resolveField_eq, field?_resolve r hd']
    · rw [report?_eq_of_agreeOn r hkey h, reportsOn_resolve r hd']
  · exact resolve_of_perm r hkey hdest fun d _ => agreeOn_of_perm hentry hsnapshot hsource d

/-! The lines of an order, which no mapping fits, are planned once beside a sum that has no source,
once beside a number that a directive gives, and once with all fields the other way round. -/

def sampleItems : Field :=
  { Field.reference "items" "List<Line>" with element := some ⟨"Line", .reference⟩ }

def sampleLines : Field :=
  { Field.reference "lines" "List<LineDto>" with
    sourceName := some "items", element := some ⟨"LineDto", .reference⟩ }

def sampleOrder : Inputs where
  entry := .explicit ⟨"Order", "OrderDto"⟩ {} ⟨"o", 0⟩
  source := ⟨"Order", [sampleItems, .value "id" "int" .word], by decide⟩
  dest := ⟨"OrderDto", [sampleLines, .reference "sum" "Sum"], by decide⟩
  snapshot := {}

def sampleOther : Inputs where
  entry := .explicit ⟨"Order", "OrderDto"⟩ (({} : Config).constant "id" "0") ⟨"p", 1⟩
  source := ⟨"Order", [.value "id" "long" .doubleWord, sampleItems], by decide⟩
  dest := ⟨"OrderDto", [.value "id" "int" .word, sampleLines], by decide⟩
  snapshot := ⟨KeyedMap.ofList [.explicit ⟨"Row", "RowDto"⟩ {} ⟨"p", 2⟩], []⟩

def sampleTurned : Inputs :=
  { sampleOrder with
    source := ⟨"Order", [.value "id" "int" .word, sampleItems], by decide⟩
    dest := ⟨"OrderDto", [.reference "sum" "Sum", sampleLines], by decide⟩ }

theorem agreeOn_sample : sampleOrder.AgreeOn sampleOther sampleLines := by
  have hget : sampleOrder.source.get? (sampleOrder.candidate sampleLines) = some sampleItems := by
    decide
  refine ⟨by decide, rfl, by decide, fun source h => ?_, fun source given wanted h he he' => ?_⟩
  · rw [hget] at h
    cases h
    decide
  · rw [hget] at h
    cases h
    cases he
    cases he'
    decide

theorem resolve_local_sample :
    sampleOrder.entry.key = sampleOther.entry.key ∧ sampleOrder.AgreeOn sampleOther sampleLines ∧
    (({} : Resolver).resolve sampleOther).field? "lines" = some ⟨sampleLines, .unresolved⟩ ∧
    ((({} : Resolver).resolve sampleOther).reportsOn "lines").map Diagnostic.kind =
      [.typeMismatch] ∧
    sampleOrder.source.fields ~ sampleTurned.source.fields ∧
    sampleOrder.dest.fields ~ sampleTurned.dest.fields ∧
    (({} : Resolver).resolve sampleTurned).hasMissingSource ∧
    (({} : Resolver).resolve sampleOrder).diagnostics =
      (({} : Resolver).resolve sampleTurned).diagnostics := by
  obtain ⟨kind, report, hkind, hkind', hreport, hreport'⟩ :=
    (resolve_local {} sampleOrder sampleOther rfl).1 sampleLines (by decide) (by decide)
      agreeOn_sample
  have hunresolved : (({} : Resolver).resolve sampleOrder).field? "lines" =
      some ⟨sampleLines, .unresolved⟩ := by decide
  obtain rfl : kind = .unresolved :=
    congrArg PlannedField.resolution (Option.some.inj (hkind.symm.trans hunresolved))
  have hsource : sampleOrder.source.fields ~ sampleTurned.source.fields := .swap _ _ _
  have hdest : sampleOrder.dest.fields ~ sampleTurned.dest.fields := .swap _ _ _
  obtain ⟨-, hmissing, -, hdiagnostics⟩ :=
    (resolve_local {} sampleOrder sampleTurned rfl).2 rfl rfl hsource hdest
  refine ⟨rfl, agreeOn_sample, hkind', ?_, hsource, hdest, ?_, hdiagnostics⟩
  · change ((({} : Resolver).resolve sampleOther).reportsOn sampleLines.name).map _ = _
    rw [hreport', ← hreport, reportsOn_resolve {} (by decide)]
    decide
  · rw [← hmissing]
    decide

end Resolver
end MapPlan
