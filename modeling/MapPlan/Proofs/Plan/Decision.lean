import MapPlan.Plan.Resolver
import MapPlan.Proofs.KeyedMap
import MapPlan.Proofs.Shape.FieldSet

/-!
# How a field is decided

What becomes of a destination field, as the order of decisions is documented: each outcome with all
the conditions under which it is reached. One of them always holds, and no two hold together.
-/

namespace MapPlan

/-! ## Filling a field from a source field -/

/-- What becomes of a field that is filled from another one, and why it is left without a value. -/
inductive Fills (s : Snapshot) (source dest : Field) : Resolution → Option Problem → Prop where
  | direct (htype : source.type = dest.type) : Fills s source dest (.direct source.name) none
  | perElement {given wanted : Element} (htype : source.type ≠ dest.type)
      (hgiven : source.element = some given) (hwanted : dest.element = some wanted)
      (hkey : (⟨given.type, wanted.type⟩ : Key) ∈ s.keys) :
      Fills s source dest (.collection source.name (.perElement ⟨given.type, wanted.type⟩)) none
  | boxed {given wanted : Element} (htype : source.type ≠ dest.type)
      (hgiven : source.element = some given) (hwanted : dest.element = some wanted)
      (hkey : (⟨given.type, wanted.type⟩ : Key) ∉ s.keys) (hsame : given.type = wanted.type)
      (hstorage : given.storage = wanted.storage) :
      Fills s source dest (.collection source.name .boxed) none
  | unmappedElements {given wanted : Element} (htype : source.type ≠ dest.type)
      (hgiven : source.element = some given) (hwanted : dest.element = some wanted)
      (hkey : (⟨given.type, wanted.type⟩ : Key) ∉ s.keys) (hsame : given.type ≠ wanted.type)
      (hstorage : given.storage = wanted.storage) :
      Fills s source dest .unresolved (some (.unmappedElements given.type wanted.type))
  | unsoundBoxing {given wanted : Element} (htype : source.type ≠ dest.type)
      (hgiven : source.element = some given) (hwanted : dest.element = some wanted)
      (hkey : (⟨given.type, wanted.type⟩ : Key) ∉ s.keys)
      (hstorage : given.storage ≠ wanted.storage) :
      Fills s source dest .unresolved (some (.unsoundBoxing given wanted))
  | nested (htype : source.type ≠ dest.type) (hplain : source.element = none ∨ dest.element = none)
      (hkey : (⟨source.type, dest.type⟩ : Key) ∈ s.keys) :
      Fills s source dest (.nested source.name ⟨source.type, dest.type⟩
        (.between source.storage.toClass dest.storage.toClass)) none
  | unmappedTypes (htype : source.type ≠ dest.type)
      (hplain : source.element = none ∨ dest.element = none)
      (hkey : (⟨source.type, dest.type⟩ : Key) ∉ s.keys) :
      Fills s source dest .unresolved (some (.unmappedTypes source.name source.type dest.type))

theorem Snapshot.contains_iff {s : Snapshot} {source dest : String} :
    s.contains source dest ↔ (⟨source, dest⟩ : Key) ∈ s.keys :=
  KeyedMap.contains_iff

theorem Element.boxesInto_iff {given wanted : Element} (htype : given.type = wanted.type) :
    given.boxesInto wanted ↔ given.storage = wanted.storage := by
  simp [boxesInto, StorageClass.boxesInto, htype]

namespace Resolver

theorem fills_of_assign_eq {s : Snapshot} {source dest : Field} {o : Outcome}
    (h : assign s source dest = o) : Fills s source dest o.resolution o.problem := by
  rw [assign] at h
  split at h
  · rename_i htype
    cases h
    exact .direct (of_decide_eq_true htype)
  · rename_i htype
    have htype : source.type ≠ dest.type := fun heq => htype (decide_eq_true heq)
    split at h
    · rename_i given wanted hgiven hwanted
      split at h
      · rename_i hkey
        cases h
        exact .perElement htype hgiven hwanted (Snapshot.contains_iff.1 hkey)
      rename_i hkey
      have hkey := mt Snapshot.contains_iff.2 hkey
      split at h
      · rename_i hboxes
        obtain ⟨hsame, hboxes⟩ := Bool.and_eq_true_iff.1 hboxes
        have hsame := of_decide_eq_true hsame
        cases h
        exact .boxed htype hgiven hwanted hkey hsame ((Element.boxesInto_iff hsame).1 hboxes)
      rename_i hboxes
      split at h
      · rename_i hstorage
        have hsame : given.type ≠ wanted.type := fun hsame =>
          hboxes (Bool.and_eq_true_iff.2
            ⟨decide_eq_true hsame, (Element.boxesInto_iff hsame).2 hstorage⟩)
        cases h
        exact .unmappedElements htype hgiven hwanted hkey hsame hstorage
      · rename_i hstorage
        cases h
        exact .unsoundBoxing htype hgiven hwanted hkey hstorage
    · rename_i hplain
      have hplain : source.element = none ∨ dest.element = none := by
        cases hgiven : source.element with
        | none => exact .inl rfl
        | some given =>
          cases hwanted : dest.element with
          | none => exact .inr rfl
          | some wanted => exact absurd hwanted (hplain given wanted hgiven)
      split at h
      · rename_i hkey
        cases h
        exact .nested htype hplain (Snapshot.contains_iff.1 hkey)
      · rename_i hkey
        cases h
        exact .unmappedTypes htype hplain (mt Snapshot.contains_iff.2 hkey)

theorem assign_eq_of_fills {s : Snapshot} {source dest : Field} {kind : Resolution}
    {problem : Option Problem} (h : Fills s source dest kind problem) :
    assign s source dest = ⟨dest, kind, problem⟩ := by
  cases h with
  | direct htype => simp [assign, Field.assignsTo, htype]
  | perElement htype hgiven hwanted hkey =>
    have hkey := Snapshot.contains_iff.2 hkey
    simp [assign, Field.assignsTo, htype, hgiven, hwanted, hkey]
  | boxed htype hgiven hwanted hkey hsame hstorage =>
    have hkey := mt Snapshot.contains_iff.1 hkey
    have hboxes := (Element.boxesInto_iff hsame).2 hstorage
    rw [hsame] at hkey
    simp [assign, Field.assignsTo, htype, hgiven, hwanted, hkey, hsame, hboxes]
  | unmappedElements htype hgiven hwanted hkey hsame hstorage =>
    have hkey := mt Snapshot.contains_iff.1 hkey
    simp [assign, Field.assignsTo, htype, hgiven, hwanted, hkey, hsame, hstorage]
  | @unsoundBoxing given wanted htype hgiven hwanted hkey hstorage =>
    have hkey := mt Snapshot.contains_iff.1 hkey
    have hboxes : (given.type = wanted.type && given.boxesInto wanted) = false := by
      simp [Element.boxesInto, StorageClass.boxesInto, hstorage]
    simp [assign, Field.assignsTo, htype, hgiven, hwanted, hkey, hboxes, hstorage]
  | nested htype hplain hkey =>
    have hkey := Snapshot.contains_iff.2 hkey
    rcases hplain with hplain | hplain <;> simp [assign, Field.assignsTo, htype, hplain, hkey]
  | unmappedTypes htype hplain hkey =>
    have hkey := mt Snapshot.contains_iff.1 hkey
    rcases hplain with hplain | hplain <;> simp [assign, Field.assignsTo, htype, hplain, hkey]

end Resolver

namespace Fills

variable {s : Snapshot} {source dest : Field} {kind kind' : Resolution}
  {problem problem' : Option Problem} {name : String} {key : Key}

theorem unique (h : Fills s source dest kind problem) (h' : Fills s source dest kind' problem') :
    kind = kind' := by
  have heq := (Resolver.assign_eq_of_fills h).symm.trans (Resolver.assign_eq_of_fills h')
  exact congrArg Outcome.resolution heq

theorem direct_iff (h : Fills s source dest kind problem) :
    kind = .direct name ↔ name = source.name ∧ source.type = dest.type := by
  constructor
  · rintro rfl
    cases h with
    | direct htype => exact ⟨rfl, htype⟩
  · rintro ⟨rfl, htype⟩
    exact h.unique (.direct htype)

theorem perElement_iff (h : Fills s source dest kind problem) :
    kind = .collection name (.perElement key) ↔ name = source.name ∧ ∃ given wanted,
      source.type ≠ dest.type ∧ source.element = some given ∧ dest.element = some wanted ∧
      key = ⟨given.type, wanted.type⟩ ∧ key ∈ s.keys := by
  constructor
  · rintro rfl
    cases h with
    | perElement htype hgiven hwanted hkey =>
      exact ⟨rfl, _, _, htype, hgiven, hwanted, rfl, hkey⟩
  · rintro ⟨rfl, given, wanted, htype, hgiven, hwanted, rfl, hkey⟩
    exact h.unique (.perElement htype hgiven hwanted hkey)

theorem boxed_iff (h : Fills s source dest kind problem) :
    kind = .collection name .boxed ↔ name = source.name ∧ ∃ given wanted,
      source.type ≠ dest.type ∧ source.element = some given ∧ dest.element = some wanted ∧
      (⟨given.type, wanted.type⟩ : Key) ∉ s.keys ∧ given.type = wanted.type ∧
      given.storage = wanted.storage := by
  constructor
  · rintro rfl
    cases h with
    | boxed htype hgiven hwanted hkey hsame hstorage =>
      exact ⟨rfl, _, _, htype, hgiven, hwanted, hkey, hsame, hstorage⟩
  · rintro ⟨rfl, given, wanted, htype, hgiven, hwanted, hkey, hsame, hstorage⟩
    exact h.unique (.boxed htype hgiven hwanted hkey hsame hstorage)

theorem nested_iff {guard : NullGuard} (h : Fills s source dest kind problem) :
    kind = .nested name key guard ↔ name = source.name ∧ source.type ≠ dest.type ∧
      (source.element = none ∨ dest.element = none) ∧ key = ⟨source.type, dest.type⟩ ∧
      key ∈ s.keys ∧ guard = .between source.storage.toClass dest.storage.toClass := by
  constructor
  · rintro rfl
    cases h with
    | nested htype hplain hkey => exact ⟨rfl, htype, hplain, rfl, hkey, rfl⟩
  · rintro ⟨rfl, htype, hplain, rfl, hkey, rfl⟩
    exact h.unique (.nested htype hplain hkey)

/-- No way is found between elements, or between types that are not both collections. -/
theorem unfilled_iff (h : Fills s source dest kind problem) :
    kind = .unresolved ↔ source.type ≠ dest.type ∧
      ((∃ given wanted, source.element = some given ∧ dest.element = some wanted ∧
          (⟨given.type, wanted.type⟩ : Key) ∉ s.keys ∧
          (given.type ≠ wanted.type ∨ given.storage ≠ wanted.storage)) ∨
        ((source.element = none ∨ dest.element = none) ∧
          (⟨source.type, dest.type⟩ : Key) ∉ s.keys)) := by
  constructor
  · rintro rfl
    cases h with
    | unmappedElements htype hgiven hwanted hkey hsame _ =>
      exact ⟨htype, .inl ⟨_, _, hgiven, hwanted, hkey, .inl hsame⟩⟩
    | unsoundBoxing htype hgiven hwanted hkey hstorage =>
      exact ⟨htype, .inl ⟨_, _, hgiven, hwanted, hkey, .inr hstorage⟩⟩
    | unmappedTypes htype hplain hkey => exact ⟨htype, .inr ⟨hplain, hkey⟩⟩
  · rintro ⟨htype, ⟨given, wanted, hgiven, hwanted, hkey, hdiffer⟩ | ⟨hplain, hkey⟩⟩
    · by_cases hstorage : given.storage = wanted.storage
      · have hsame := hdiffer.resolve_right (not_not_intro hstorage)
        exact h.unique (.unmappedElements htype hgiven hwanted hkey hsame hstorage)
      · exact h.unique (.unsoundBoxing htype hgiven hwanted hkey hstorage)
    · exact h.unique (.unmappedTypes htype hplain hkey)

end Fills

/-! ## Deciding a field -/

namespace Inputs

def directive? (i : Inputs) (d : Field) : Option Directive :=
  i.entry.config.directive? d.name

/-- The name of the source field that a field reads from: the one it is told, or else its own. -/
def candidate (i : Inputs) (d : Field) : String :=
  match i.directive? d with
  | some (.rename name) => name
  | _ => d.candidate

/-- The source field that a field reads from, if it can be read. -/
def read? (i : Inputs) (d : Field) : Option Field :=
  i.source.readable? (i.candidate d)

/-- The field may be written, as far as its shape and its directive go. -/
structure Open (i : Inputs) (d : Field) : Prop where
  writable : d.writable = true
  ignored : d.ignored = false
  directive : i.directive? d ≠ some .ignore

/-- A field is ignored by its shape or its directive, or it is open. -/
theorem closed_or_open (i : Inputs) (d : Field) :
    (d.writable = false ∨ d.ignored = true ∨ i.directive? d = some .ignore) ∨ i.Open d := by
  by_cases hclosed : d.writable = false ∨ d.ignored = true ∨ i.directive? d = some .ignore
  · exact .inl hclosed
  · simp only [not_or, Bool.not_eq_false, Bool.not_eq_true] at hclosed
    exact .inr ⟨hclosed.1, hclosed.2.1, hclosed.2.2⟩

/-- No directive gives the field its value. -/
structure Reads (i : Inputs) (d : Field) : Prop where
  constant : ∀ text, i.directive? d ≠ some (.constant text)
  expression : ∀ text, i.directive? d ≠ some (.expression text)

/-- A directive gives a field its value, or the field reads a source field. -/
theorem directive_cases (i : Inputs) (d : Field) :
    (∃ text, i.directive? d = some (.constant text)) ∨
      (∃ text, i.directive? d = some (.expression text)) ∨ i.Reads d := by
  by_cases hconstant : ∃ text, i.directive? d = some (.constant text)
  · exact .inl hconstant
  by_cases hexpression : ∃ text, i.directive? d = some (.expression text)
  · exact .inr (.inl hexpression)
  · exact .inr (.inr ⟨not_exists.1 hconstant, not_exists.1 hexpression⟩)

end Inputs

/-- What becomes of a destination field, and why it is reported. -/
inductive Decides (r : Resolver) (i : Inputs) (d : Field) : Resolution → Option Problem → Prop where
  | excluded (h : d.writable = false ∨ d.ignored = true ∨ i.directive? d = some .ignore) :
      Decides r i d .ignored none
  | constant {text : String} (hopen : i.Open d)
      (hdirective : i.directive? d = some (.constant text)) :
      Decides r i d (.constant text) none
  | expression {text : String} (hopen : i.Open d)
      (hdirective : i.directive? d = some (.expression text)) :
      Decides r i d (.expression (r.options.renamer.renameParameter text).text)
        (if (r.options.renamer.renameParameter text).isMalformed then some .malformedExpression
          else none)
  | unmatched (hopen : i.Open d) (hreads : i.Reads d) (hsource : i.read? d = none)
      (hignore : i.entry.config.ignoreUnmatched = true) : Decides r i d .ignored none
  | missing (hopen : i.Open d) (hreads : i.Reads d) (hsource : i.read? d = none)
      (hignore : i.entry.config.ignoreUnmatched = false) :
      Decides r i d .unresolved (some (.missingSource (i.candidate d)))
  | filled {source : Field} {kind : Resolution} {problem : Option Problem} (hopen : i.Open d)
      (hreads : i.Reads d) (hsource : i.read? d = some source)
      (hfills : Fills i.snapshot source d kind problem) : Decides r i d kind problem

namespace Resolver

variable {r : Resolver} {i : Inputs} {d : Field}

theorem resolveField_of_closed
    (h : d.writable = false ∨ d.ignored = true ∨ i.directive? d = some .ignore) :
    r.resolveField i d = ⟨d, .ignored, none⟩ := by
  rw [resolveField]
  split
  · rfl
  · rename_i hflags
    rcases h with h | h | h
    · exact absurd (by rw [h]; rfl) hflags
    · exact absurd (by rw [h, Bool.or_true]) hflags
    · rw [show i.entry.config.directive? d.name = some .ignore from h]

theorem flags_of_open (hopen : i.Open d) : (!d.writable || d.ignored) = false := by
  rw [hopen.writable, hopen.ignored]
  rfl

theorem resolveField_of_constant {text : String} (hopen : i.Open d)
    (hdirective : i.directive? d = some (.constant text)) :
    r.resolveField i d = ⟨d, .constant text, none⟩ := by
  rw [Inputs.directive?] at hdirective
  rw [resolveField, flags_of_open hopen, hdirective]
  rfl

theorem resolveField_of_expression {text : String} (hopen : i.Open d)
    (hdirective : i.directive? d = some (.expression text)) :
    r.resolveField i d = r.compute text d := by
  rw [Inputs.directive?] at hdirective
  rw [resolveField, flags_of_open hopen, hdirective]
  rfl

theorem resolveField_of_reads (hopen : i.Open d) (hreads : i.Reads d) :
    r.resolveField i d = fromSource i (i.candidate d) d := by
  rw [resolveField, flags_of_open hopen, Inputs.candidate]
  cases hdirective : i.directive? d with
  | none =>
    rw [Inputs.directive?] at hdirective
    rw [hdirective]
    rfl
  | some directive =>
    cases directive with
    | ignore => exact absurd hdirective hopen.directive
    | constant text => exact absurd hdirective (hreads.constant text)
    | expression text => exact absurd hdirective (hreads.expression text)
    | rename name =>
      rw [Inputs.directive?] at hdirective
      rw [hdirective]
      rfl

theorem decides_of_reads (hopen : i.Open d) (hreads : i.Reads d) :
    Decides r i d (fromSource i (i.candidate d) d).resolution
      (fromSource i (i.candidate d) d).problem := by
  rw [fromSource]
  cases hsource : i.source.readable? (i.candidate d) with
  | some source => exact .filled hopen hreads hsource (fills_of_assign_eq rfl)
  | none =>
    cases hignore : i.entry.config.ignoreUnmatched with
    | true => exact .unmatched hopen hreads hsource hignore
    | false => exact .missing hopen hreads hsource hignore

/-- What becomes of a field is one of the documented outcomes. -/
theorem decides_resolveField (r : Resolver) (i : Inputs) (d : Field) :
    Decides r i d (r.resolveField i d).resolution (r.resolveField i d).problem := by
  rcases i.closed_or_open d with hclosed | hopen
  · rw [resolveField_of_closed hclosed]
    exact .excluded hclosed
  rcases i.directive_cases d with ⟨text, hdirective⟩ | ⟨text, hdirective⟩ | hreads
  · rw [resolveField_of_constant hopen hdirective]
    exact .constant hopen hdirective
  · rw [resolveField_of_expression hopen hdirective]
    exact .expression hopen hdirective
  · rw [resolveField_of_reads hopen hreads]
    exact decides_of_reads hopen hreads

theorem resolveField_of_decides {kind : Resolution} {problem : Option Problem}
    (h : Decides r i d kind problem) : r.resolveField i d = ⟨d, kind, problem⟩ := by
  cases h with
  | excluded hclosed => exact resolveField_of_closed hclosed
  | constant hopen hdirective => exact resolveField_of_constant hopen hdirective
  | expression hopen hdirective => exact resolveField_of_expression hopen hdirective
  | unmatched hopen hreads hsource hignore =>
    rw [resolveField_of_reads hopen hreads, fromSource,
      show i.source.readable? (i.candidate d) = none from hsource, hignore]
    rfl
  | missing hopen hreads hsource hignore =>
    rw [resolveField_of_reads hopen hreads, fromSource,
      show i.source.readable? (i.candidate d) = none from hsource, hignore]
    rfl
  | filled hopen hreads hsource hfills =>
    rw [resolveField_of_reads hopen hreads, fromSource,
      show i.source.readable? (i.candidate d) = some _ from hsource]
    exact assign_eq_of_fills hfills

end Resolver

variable {r : Resolver} {i : Inputs} {d : Field} {kind kind' : Resolution}
  {problem problem' : Option Problem}

theorem Inputs.name_of_read? {source : Field} (h : i.read? d = some source) :
    source.name = i.candidate d :=
  (FieldSet.mem_of_readable? h).2.1

namespace Decides

theorem unique (h : Decides r i d kind problem) (h' : Decides r i d kind' problem') :
    kind = kind' := by
  have heq := Resolver.resolveField_of_decides h
  rw [Resolver.resolveField_of_decides h'] at heq
  exact (congrArg Outcome.resolution heq).symm

theorem open_of_ne_ignored (h : Decides r i d kind problem) (hkind : kind ≠ .ignored) :
    i.Open d := by
  cases h with
  | excluded => exact absurd rfl hkind
  | constant hopen | expression hopen | unmatched hopen | missing hopen | filled hopen =>
    exact hopen

theorem ignored_iff (h : Decides r i d kind problem) :
    kind = .ignored ↔
      d.writable = false ∨ d.ignored = true ∨ i.directive? d = some .ignore ∨
        (i.Reads d ∧ i.read? d = none ∧ i.entry.config.ignoreUnmatched = true) := by
  constructor
  · rintro rfl
    cases h with
    | excluded hclosed =>
      rcases hclosed with hclosed | hclosed | hclosed
      · exact .inl hclosed
      · exact .inr (.inl hclosed)
      · exact .inr (.inr (.inl hclosed))
    | unmatched _ hreads hsource hignore => exact .inr (.inr (.inr ⟨hreads, hsource, hignore⟩))
    | filled _ _ _ hfills => cases hfills
  · intro hconditions
    by_cases hkind : kind = .ignored
    · exact hkind
    have hopen := h.open_of_ne_ignored hkind
    rcases hconditions with hclosed | hclosed | hclosed | ⟨hreads, hsource, hignore⟩
    · exact h.unique (.excluded (.inl hclosed))
    · exact h.unique (.excluded (.inr (.inl hclosed)))
    · exact h.unique (.excluded (.inr (.inr hclosed)))
    · exact h.unique (.unmatched hopen hreads hsource hignore)

theorem constant_iff (h : Decides r i d kind problem) (hkind : kind ≠ .ignored) (text : String) :
    kind = .constant text ↔ i.directive? d = some (.constant text) := by
  constructor
  · rintro rfl
    cases h with
    | constant _ hdirective => exact hdirective
    | filled _ _ _ hfills => cases hfills
  · intro hdirective
    exact h.unique (.constant (h.open_of_ne_ignored hkind) hdirective)

theorem expression_iff (h : Decides r i d kind problem) (hkind : kind ≠ .ignored)
    (text : String) :
    kind = .expression text ↔ ∃ given, i.directive? d = some (.expression given) ∧
      text = (r.options.renamer.renameParameter given).text := by
  constructor
  · rintro rfl
    cases h with
    | expression _ hdirective => exact ⟨_, hdirective, rfl⟩
    | filled _ _ _ hfills => cases hfills
  · rintro ⟨given, hdirective, rfl⟩
    exact h.unique (.expression (h.open_of_ne_ignored hkind) hdirective)

/-- A field that is to be read lacks its source, or the source fills it. -/
theorem read_cases (h : Decides r i d kind problem) (hkind : kind ≠ .ignored)
    (hreads : i.Reads d) :
    i.read? d = none ∧ kind = .unresolved ∨
      ∃ source, i.read? d = some source ∧ Fills i.snapshot source d kind problem := by
  cases h with
  | excluded => exact absurd rfl hkind
  | constant _ hdirective => exact absurd hdirective (hreads.constant _)
  | expression _ hdirective => exact absurd hdirective (hreads.expression _)
  | unmatched => exact absurd rfl hkind
  | missing _ _ hsource => exact .inl ⟨hsource, rfl⟩
  | filled _ _ hsource hfills => exact .inr ⟨_, hsource, hfills⟩

/-- What a source field must be like to fill a field in some way is all that a field must read to be
filled that way. -/
theorem filled_iff (h : Decides r i d kind problem) (hkind : kind ≠ .ignored)
    (hreads : i.Reads d) {kind' : Resolution} {name : String} {C : Field → Prop}
    (hfills : ∀ source, Fills i.snapshot source d kind problem →
      (kind = kind' ↔ name = source.name ∧ C source)) (hresolved : kind' ≠ .unresolved) :
    kind = kind' ↔ name = i.candidate d ∧ ∃ source, i.read? d = some source ∧ C source := by
  rcases h.read_cases hkind hreads with ⟨hsource, rfl⟩ | ⟨source, hsource, hkinds⟩
  · simp [hresolved.symm, hsource]
  · rw [hfills source hkinds, Inputs.name_of_read? hsource, hsource]
    simp

theorem unfilled_iff (h : Decides r i d kind problem) (hkind : kind ≠ .ignored)
    (hreads : i.Reads d) :
    kind = .unresolved ↔ i.read? d = none ∨ ∃ source,
      i.read? d = some source ∧ source.type ≠ d.type ∧
      ((∃ given wanted, source.element = some given ∧ d.element = some wanted ∧
          (⟨given.type, wanted.type⟩ : Key) ∉ i.snapshot.keys ∧
          (given.type ≠ wanted.type ∨ given.storage ≠ wanted.storage)) ∨
        ((source.element = none ∨ d.element = none) ∧
          (⟨source.type, d.type⟩ : Key) ∉ i.snapshot.keys)) := by
  rcases h.read_cases hkind hreads with ⟨hsource, rfl⟩ | ⟨source, hsource, hkinds⟩
  · simp [hsource]
  · rw [hkinds.unfilled_iff, hsource]
    simp only [reduceCtorEq, false_or, Option.some.injEq, exists_eq_left']

end Decides

/-! ## The documented order -/

/-- The outcome of a destination field, clause by clause. The clauses about what the field reads are
for fields that are not ignored and whose value no directive gives. -/
structure Decision (r : Resolver) (i : Inputs) (d : Field) (kind : Resolution) : Prop where
  ignored : kind = .ignored ↔
    d.writable = false ∨ d.ignored = true ∨ i.directive? d = some .ignore ∨
      (i.Reads d ∧ i.read? d = none ∧ i.entry.config.ignoreUnmatched = true)
  constant : kind ≠ .ignored → ∀ text,
    (kind = .constant text ↔ i.directive? d = some (.constant text))
  expression : kind ≠ .ignored → ∀ text,
    (kind = .expression text ↔ ∃ given, i.directive? d = some (.expression given) ∧
      text = (r.options.renamer.renameParameter given).text)
  direct : kind ≠ .ignored → i.Reads d → ∀ name,
    (kind = .direct name ↔ name = i.candidate d ∧ ∃ source, i.read? d = some source ∧
      source.type = d.type)
  perElement : kind ≠ .ignored → i.Reads d → ∀ name key,
    (kind = .collection name (.perElement key) ↔ name = i.candidate d ∧ ∃ source given wanted,
      i.read? d = some source ∧ source.type ≠ d.type ∧
      source.element = some given ∧ d.element = some wanted ∧
      key = ⟨given.type, wanted.type⟩ ∧ key ∈ i.snapshot.keys)
  boxed : kind ≠ .ignored → i.Reads d → ∀ name,
    (kind = .collection name .boxed ↔ name = i.candidate d ∧ ∃ source given wanted,
      i.read? d = some source ∧ source.type ≠ d.type ∧
      source.element = some given ∧ d.element = some wanted ∧
      (⟨given.type, wanted.type⟩ : Key) ∉ i.snapshot.keys ∧
      given.type = wanted.type ∧ given.storage = wanted.storage)
  nested : kind ≠ .ignored → i.Reads d → ∀ name key guard,
    (kind = .nested name key guard ↔ name = i.candidate d ∧ ∃ source,
      i.read? d = some source ∧ source.type ≠ d.type ∧
      (source.element = none ∨ d.element = none) ∧
      key = ⟨source.type, d.type⟩ ∧ key ∈ i.snapshot.keys ∧
      guard = .between source.storage.toClass d.storage.toClass)
  unresolved : kind ≠ .ignored → i.Reads d →
    (kind = .unresolved ↔ i.read? d = none ∨ ∃ source,
      i.read? d = some source ∧ source.type ≠ d.type ∧
      ((∃ given wanted, source.element = some given ∧ d.element = some wanted ∧
          (⟨given.type, wanted.type⟩ : Key) ∉ i.snapshot.keys ∧
          (given.type ≠ wanted.type ∨ given.storage ≠ wanted.storage)) ∨
        ((source.element = none ∨ d.element = none) ∧
          (⟨source.type, d.type⟩ : Key) ∉ i.snapshot.keys)))

theorem Decides.decision (h : Decides r i d kind problem) : Decision r i d kind where
  ignored := h.ignored_iff
  constant := h.constant_iff
  expression := h.expression_iff
  direct hkind hreads name := h.filled_iff hkind hreads (fun _ hfills => hfills.direct_iff) nofun
  perElement hkind hreads name key := by
    rw [h.filled_iff hkind hreads (fun _ hfills => hfills.perElement_iff) nofun]
    simp only [exists_and_left]
  boxed hkind hreads name := by
    rw [h.filled_iff hkind hreads (fun _ hfills => hfills.boxed_iff) nofun]
    simp only [exists_and_left]
  nested hkind hreads name key guard :=
    h.filled_iff hkind hreads (fun _ hfills => hfills.nested_iff) nofun
  unresolved := h.unfilled_iff

namespace Resolver

theorem field_resolveField (r : Resolver) (i : Inputs) (d : Field) :
    (r.resolveField i d).field = d := by
  rw [resolveField_of_decides (decides_resolveField r i d)]

theorem fields_resolve (r : Resolver) (i : Inputs) :
    (r.resolve i).fields = i.dest.fields.map fun d => ⟨d, (r.resolveField i d).resolution⟩ := by
  show ((i.dest.fields.map (r.resolveField i)).map Outcome.planned) = _
  rw [List.map_map]
  refine List.map_congr_left fun d _ => ?_
  rw [Function.comp_apply, Outcome.planned, field_resolveField]

theorem mem_fields_resolve {f : PlannedField} :
    f ∈ (r.resolve i).fields ↔
      f.field ∈ i.dest.fields ∧ f.resolution = (r.resolveField i f.field).resolution := by
  rw [fields_resolve, List.mem_map]
  constructor
  · rintro ⟨d, hd, rfl⟩
    exact ⟨hd, rfl⟩
  · rintro ⟨hd, hresolution⟩
    exact ⟨f.field, hd, by rw [← hresolution]⟩

theorem decides_of_mem {f : PlannedField} (hf : f ∈ (r.resolve i).fields) :
    Decides r i f.field f.resolution (r.resolveField i f.field).problem := by
  rw [(mem_fields_resolve.1 hf).2]
  exact decides_resolveField r i f.field

/-- A plan lists the destination fields in their order, each once, and decides each of them in the
documented order. -/
theorem resolve_decides (r : Resolver) (i : Inputs) :
    (r.resolve i).fields.map PlannedField.field = i.dest.fields ∧
    ((r.resolve i).fields.map PlannedField.name).Nodup ∧
    ∀ f ∈ (r.resolve i).fields, Decision r i f.field f.resolution := by
  rw [fields_resolve, List.map_map, List.map_map]
  refine ⟨List.map_id _, i.dest.nodup, fun f hf => ?_⟩
  obtain ⟨d, _, rfl⟩ := List.mem_map.1 hf
  exact (decides_resolveField r i d).decision

end Resolver
end MapPlan
