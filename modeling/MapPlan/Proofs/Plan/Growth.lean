import Mathlib.Data.List.Sort
import MapPlan.Proofs.Plan.Refusal

/-!
# More mappings

Registering more mappings makes no field worse off. A field keeps what it has, or a mapping takes it
out of a refusal or out of a box, and no report is added. A field that lacks a source still lacks
it.
-/

namespace MapPlan

open scoped List

variable {s s' : Snapshot} {r : Resolver} {i : Inputs} {source d : Field}
  {kind kind' : Resolution} {problem problem' : Option Problem}

/-- What more mappings may make of a field. -/
inductive Resolution.Improves : Resolution → Resolution → Prop where
  | keep (kind : Resolution) : Improves kind kind
  | nested (name : String) (key : Key) (guard : NullGuard) :
      Improves .unresolved (.nested name key guard)
  | perElement (name : String) (key : Key) :
      Improves .unresolved (.collection name (.perElement key))
  | unboxed (name : String) (key : Key) :
      Improves (.collection name .boxed) (.collection name (.perElement key))

/-- A field and its problem stay as they are, or the field improves and has no problem any more.
Only a refusal for its type is lifted. -/
inductive Relieves : Resolution → Option Problem → Resolution → Option Problem → Prop where
  | keep (kind : Resolution) (problem : Option Problem) : Relieves kind problem kind problem
  | lift {kind kind' : Resolution} {problem : Option Problem} :
      kind.Improves kind' → (∀ p ∈ problem, p.isTypeError) → Relieves kind problem kind' none

theorem Relieves.improves (h : Relieves kind problem kind' problem') : kind.Improves kind' := by
  cases h with
  | keep => exact .keep kind
  | lift himproves => exact himproves

/-! ## One field -/

/-- A field that some key would relieve is relieved if the key is registered, and otherwise stays as
it is. -/
theorem Fills.relieve {key : Key} (hmapped : key ∈ s'.keys → Fills s' source d kind' none)
    (hkept : key ∉ s'.keys → Fills s' source d kind problem) (himproves : kind.Improves kind')
    (hrefused : ∀ p ∈ problem, p.isTypeError) :
    ∃ kind' problem', Fills s' source d kind' problem' ∧ Relieves kind problem kind' problem' := by
  by_cases hkey : key ∈ s'.keys
  · exact ⟨_, _, hmapped hkey, .lift himproves hrefused⟩
  · exact ⟨_, _, hkept hkey, .keep _ _⟩

/-- A field that a source field fills is filled at least as well. -/
theorem Fills.grow (hkeys : s.keys ⊆ s'.keys) (h : Fills s source d kind problem) :
    ∃ kind' problem', Fills s' source d kind' problem' ∧ Relieves kind problem kind' problem' := by
  have hrefused : ∀ p ∈ problem, p.isTypeError := by
    rintro p rfl
    exact h.isTypeError
  cases h with
  | direct htype => exact ⟨_, _, .direct htype, .keep _ _⟩
  | perElement htype hgiven hwanted hkey =>
    exact ⟨_, _, .perElement htype hgiven hwanted (hkeys hkey), .keep _ _⟩
  | boxed htype hgiven hwanted _ hsame hstorage =>
    exact relieve (.perElement htype hgiven hwanted)
      (.boxed htype hgiven hwanted · hsame hstorage) (.unboxed _ _) hrefused
  | unmappedElements htype hgiven hwanted _ hsame hstorage =>
    exact relieve (.perElement htype hgiven hwanted)
      (.unmappedElements htype hgiven hwanted · hsame hstorage) (.perElement _ _) hrefused
  | unsoundBoxing htype hgiven hwanted _ hstorage =>
    exact relieve (.perElement htype hgiven hwanted)
      (.unsoundBoxing htype hgiven hwanted · hstorage) (.perElement _ _) hrefused
  | nested htype hplain hkey => exact ⟨_, _, .nested htype hplain (hkeys hkey), .keep _ _⟩
  | unmappedTypes htype hplain _ =>
    exact relieve (.nested htype hplain) (.unmappedTypes htype hplain ·) (.nested _ _ _) hrefused

/-- The same mapping, with other mappings registered beside it. -/
def Inputs.among (i : Inputs) (s : Snapshot) : Inputs :=
  { i with snapshot := s }

/-- What is registered matters only where a source field fills the field. -/
theorem Decides.grow (hkeys : i.snapshot.keys ⊆ s.keys) (h : Decides r i d kind problem) :
    ∃ kind' problem', Decides r (i.among s) d kind' problem' ∧
      Relieves kind problem kind' problem' := by
  have stillOpen : i.Open d → (i.among s).Open d :=
    fun h => ⟨h.writable, h.ignored, h.directive⟩
  have stillReads : i.Reads d → (i.among s).Reads d := fun h => ⟨h.constant, h.expression⟩
  cases h with
  | excluded hclosed => exact ⟨_, _, .excluded hclosed, .keep _ _⟩
  | constant hopen hdirective =>
    exact ⟨_, _, .constant (stillOpen hopen) hdirective, .keep _ _⟩
  | expression hopen hdirective =>
    exact ⟨_, _, .expression (stillOpen hopen) hdirective, .keep _ _⟩
  | unmatched hopen hreads hsource hignore =>
    exact ⟨_, _, .unmatched (stillOpen hopen) (stillReads hreads) hsource hignore, .keep _ _⟩
  | missing hopen hreads hsource hignore =>
    exact ⟨_, _, .missing (stillOpen hopen) (stillReads hreads) hsource hignore, .keep _ _⟩
  | filled hopen hreads hsource hfills =>
    obtain ⟨kind', problem', hfills', hrelieves⟩ := hfills.grow hkeys
    exact ⟨kind', problem', .filled (stillOpen hopen) (stillReads hreads) hsource hfills',
      hrelieves⟩

namespace Resolver

variable (r) (d) (hkeys : i.snapshot.keys ⊆ s.keys)
include hkeys

theorem relieves_resolveField :
    Relieves (r.resolveField i d).resolution (r.resolveField i d).problem
      (r.resolveField (i.among s) d).resolution (r.resolveField (i.among s) d).problem := by
  obtain ⟨kind', problem', hdecides, hrelieves⟩ := (decides_resolveField r i d).grow hkeys
  rwa [resolveField_of_decides hdecides]

/-- A field is resolved as before, or it has no problem and had none but with its type. -/
theorem resolveField_among :
    r.resolveField (i.among s) d = r.resolveField i d ∨
      (r.resolveField (i.among s) d).problem = none ∧
        ∀ p ∈ (r.resolveField i d).problem, p.isTypeError := by
  have hrelieves := relieves_resolveField r d hkeys
  have hfield : (r.resolveField (i.among s) d).field = (r.resolveField i d).field := by
    rw [field_resolveField, field_resolveField]
  generalize r.resolveField (i.among s) d = o' at hrelieves hfield ⊢
  generalize r.resolveField i d = o at hrelieves hfield ⊢
  obtain ⟨field, kind, problem⟩ := o
  obtain ⟨field', kind', problem'⟩ := o'
  cases hfield
  cases hrelieves with
  | keep => exact .inl rfl
  | lift _ hrefused => exact .inr ⟨rfl, hrefused⟩

theorem report?_among :
    r.report? (i.among s) d = r.report? i d ∨ r.report? (i.among s) d = none := by
  rcases resolveField_among r d hkeys with hsame | ⟨hnone, _⟩
  · left
    rw [report?, report?, hsame]
    rfl
  · right
    rw [report?, Outcome.diagnostic?, hnone]
    rfl

theorem isMissing_among :
    (r.resolveField (i.among s) d).isMissing = (r.resolveField i d).isMissing := by
  rcases resolveField_among r d hkeys with hsame | ⟨hnone, hrefused⟩
  · rw [hsame]
  · have hfound : ¬ (r.resolveField i d).isMissing := by
      rw [Outcome.isMissing_iff]
      rintro ⟨⟨p, hp, hkind⟩, _⟩
      obtain ⟨name, rfl⟩ := Problem.kind_eq_missingSource_iff.1 hkind
      cases hrefused _ hp
    rw [Bool.eq_false_iff.2 hfound, Outcome.isMissing, hnone]

theorem isTypeError_of_among (h : (r.resolveField (i.among s) d).isTypeError) :
    (r.resolveField i d).isTypeError := by
  rcases resolveField_among r d hkeys with hsame | ⟨hnone, _⟩
  · rwa [← hsame]
  · rw [Outcome.isTypeError, hnone] at h
    cases h

end Resolver

/-! ## The plan -/

theorem filterMap_sublist_of_eq_or_none {α β : Type} {f g : α → Option β}
    (h : ∀ a, g a = f a ∨ g a = none) (l : List α) : l.filterMap g <+ l.filterMap f := by
  induction l with
  | nil => exact .slnil
  | cons a l ih =>
    rw [List.filterMap_cons, List.filterMap_cons]
    rcases h a with hsame | hnone
    · rw [hsame]
      cases f a with
      | none => exact ih
      | some b => exact ih.cons_cons b
    · rw [hnone]
      cases f a with
      | none => exact ih
      | some b => exact ih.cons b

namespace Diagnostic

instance : Std.Antisymm fun e e' : Diagnostic => (compare e e').isLE = true :=
  ⟨fun _ _ hle hge => Std.LawfulEqOrd.eq_of_compare (Std.OrientedCmp.isLE_antisymm hle hge)⟩

theorem sort_sublist_sort {l l' : List Diagnostic} (h : l' <+ l) : sort l' <+ sort l := by
  have hl := List.mergeSort_perm l fun e e' => (compare e e').isLE
  have hl' := List.mergeSort_perm l' fun e e' => (compare e e').isLE
  exact List.sublist_of_subperm_of_pairwise
    (hl'.subperm.trans (h.subperm.trans hl.symm.subperm))
    (pairwise_mergeSort compare l') (pairwise_mergeSort compare l)

end Diagnostic

namespace Resolver

/-- Where more mappings are registered, each field of a plan is the same or improves: it is no
longer refused, or no longer boxed. Reports are only dropped, the same sources are absent, and no
type error is new. -/
theorem resolve_among (r : Resolver) (i : Inputs) (s : Snapshot)
    (hkeys : i.snapshot.keys ⊆ s.keys) :
    List.Forall₂ (fun f f' => f.field = f'.field ∧ f.resolution.Improves f'.resolution)
      (r.resolve i).fields (r.resolve (i.among s)).fields ∧
    (r.resolve (i.among s)).diagnostics <+ (r.resolve i).diagnostics ∧
    (r.resolve (i.among s)).hasMissingSource = (r.resolve i).hasMissingSource ∧
    ((r.resolve (i.among s)).hasTypeError → (r.resolve i).hasTypeError) := by
  refine ⟨?_, ?_, ?_, fun h => ?_⟩
  · rw [fields_resolve, fields_resolve]
    change List.Forall₂ _ _ (i.dest.fields.map _)
    rw [List.forall₂_map_left_iff, List.forall₂_map_right_iff, List.forall₂_same]
    exact fun d _ => ⟨rfl, (relieves_resolveField r d hkeys).improves⟩
  · rw [diagnostics_resolve, diagnostics_resolve]
    exact Diagnostic.sort_sublist_sort
      (filterMap_sublist_of_eq_or_none (report?_among r · hkeys) i.dest.fields)
  · rw [Bool.eq_iff_iff, hasMissingSource_resolve_iff, hasMissingSource_resolve_iff]
    refine exists_congr fun d => and_congr_right fun _ => ?_
    rw [isMissing_among r d hkeys]
  · obtain ⟨d, hd, htype⟩ := hasTypeError_resolve_iff.1 h
    exact hasTypeError_resolve_iff.2 ⟨d, hd, isTypeError_of_among r d hkeys htype⟩

/-! Tags travel in a box and owners are refused until mappings for them are registered. Those leave
two fields refused: one for its elements and one for its source. -/

def sampleShop : Inputs where
  entry := .explicit ⟨"Shop", "ShopDto"⟩ {} ⟨"o", 0⟩
  source := ⟨"Shop",
    [{ Field.reference "tags" "List<Tag>" with element := some ⟨"Tag", .reference⟩ },
     .reference "owner" "User",
     { Field.reference "sizes" "List<int>" with element := some ⟨"int", .value⟩ }], by decide⟩
  dest := ⟨"ShopDto",
    [{ Field.reference "tags" "Tag[]" with element := some ⟨"Tag", .reference⟩ },
     .reference "owner" "UserDto",
     { Field.reference "sizes" "Size[]" with element := some ⟨"Size", .reference⟩ },
     .reference "street" "string"], by decide⟩
  snapshot := ⟨KeyedMap.ofList [.explicit ⟨"Shop", "ShopDto"⟩ {} ⟨"o", 0⟩], []⟩

def sampleMore : Snapshot where
  entries := KeyedMap.ofList
    [.explicit ⟨"Shop", "ShopDto"⟩ {} ⟨"p", 0⟩, .explicit ⟨"Tag", "Tag"⟩ {} ⟨"p", 1⟩,
     .explicit ⟨"User", "UserDto"⟩ {} ⟨"p", 2⟩]

theorem resolve_among_sample :
    sampleShop.snapshot.keys ⊆ sampleMore.keys ∧
    (({} : Resolver).resolve sampleShop).fields.map PlannedField.resolution =
      [.collection "tags" .boxed, .unresolved, .unresolved, .unresolved] ∧
    (({} : Resolver).resolve (sampleShop.among sampleMore)).fields.map PlannedField.resolution =
      [.collection "tags" (.perElement ⟨"Tag", "Tag"⟩),
       .nested "owner" ⟨"User", "UserDto"⟩ .propagateAbsence, .unresolved, .unresolved] ∧
    (({} : Resolver).resolve (sampleShop.among sampleMore)).diagnostics <+
      (({} : Resolver).resolve sampleShop).diagnostics ∧
    (({} : Resolver).resolve (sampleShop.among sampleMore)).hasMissingSource := by
  have hkeys : sampleShop.snapshot.keys ⊆ sampleMore.keys := by decide
  obtain ⟨-, hdiagnostics, hmissing, -⟩ := resolve_among {} sampleShop sampleMore hkeys
  exact ⟨hkeys, by decide, by decide, hdiagnostics, hmissing.trans (by decide)⟩

end Resolver
end MapPlan
