import Mathlib.Data.List.DropRight
import Mathlib.Data.List.Forall2
import MapPlan.Manifest.Shapes
import MapPlan.Proofs.KeyedMap
import MapPlan.Proofs.Shape.FieldSet

/-!
# Declared shapes

The shapes of a manifest are made into field sets one after the other, by their names. Two things
may be wrong with a shape: a collection that is declared a value, and a field that is declared
twice. The first shape with something wrong gives the error, and there a collection goes before a
field that comes twice, wherever they stand.
-/

namespace MapPlan

/-! ## Steps that may fail -/

section Steps

variable {ε α β : Type} {f : α → Except ε β} {l : List α} {l' : List β} {e : ε}

theorem mapM_eq_ok_iff : l.mapM f = .ok l' ↔ List.Forall₂ (fun a b => f a = .ok b) l l' := by
  induction l generalizing l' with
  | nil => cases l' <;> simp [pure, Except.pure]
  | cons a rest ih =>
    rw [List.mapM_cons]
    cases ha : f a with
    | error e => cases l' <;> simp [bind, Except.bind, ha]
    | ok b =>
      cases hrest : rest.mapM f with
      | error e => cases l' <;> simp [bind, Except.bind, ha, hrest, ← ih]
      | ok bs => cases l' <;> simp [bind, Except.bind, pure, Except.pure, ha, hrest, ← ih]

theorem exists_mapM_iff : (∃ l', l.mapM f = .ok l') ↔ ∀ a ∈ l, ∃ b, f a = .ok b := by
  induction l with
  | nil => simp [pure, Except.pure]
  | cons a rest ih =>
    rw [List.mapM_cons, List.forall_mem_cons, ← ih]
    cases ha : f a with
    | error e => simp [bind, Except.bind]
    | ok b => cases hrest : rest.mapM f <;> simp [bind, Except.bind, pure, Except.pure]

/-- The first step that fails gives the error. -/
theorem mapM_eq_error_iff : l.mapM f = .error e ↔
    ∃ before a after, l = before ++ a :: after ∧ (∀ x ∈ before, ∃ b, f x = .ok b) ∧
      f a = .error e := by
  induction l with
  | nil => simp [pure, Except.pure]
  | cons a rest ih =>
    rw [List.mapM_cons]
    constructor
    · intro h
      cases ha : f a with
      | error e' =>
        rw [ha] at h
        cases h
        exact ⟨[], a, rest, rfl, nofun, ha⟩
      | ok b =>
        cases hrest : rest.mapM f with
        | error e' =>
          rw [ha, hrest] at h
          cases h
          obtain ⟨before, a', after, rfl, hbefore, ha'⟩ := ih.1 hrest
          exact ⟨a :: before, a', after, rfl, List.forall_mem_cons.2 ⟨⟨b, ha⟩, hbefore⟩, ha'⟩
        | ok bs =>
          rw [ha, hrest] at h
          cases h
    · rintro ⟨before, a', after, hl, hbefore, ha'⟩
      cases before with
      | nil =>
        cases hl
        rw [ha']
        rfl
      | cons x before =>
        cases hl
        obtain ⟨⟨b, hb⟩, hbefore⟩ := List.forall_mem_cons.1 hbefore
        rw [hb, ih.2 ⟨before, a', after, rfl, hbefore, ha'⟩]
        rfl

theorem map_eq_map_of_forall₂ {γ : Type} {g : α → γ} {h : β → γ}
    (hall : List.Forall₂ (fun a b => g a = h b) l l') : l.map g = l'.map h := by
  rw [← List.forall₂_eq_eq_eq, List.forall₂_map_left_iff, List.forall₂_map_right_iff]
  exact hall

end Steps

/-! ## Type texts -/

theorem between?_eq_some {start ending s inner : List Char} :
    between? start ending s = some inner ↔ s = start ++ inner ++ ending := by
  rw [between?]
  constructor
  · intro h
    split at h
    · rename_i hstart
      obtain ⟨rest, rfl⟩ := List.isPrefixOf_iff_prefix.1 hstart
      rw [List.drop_left] at h
      dsimp only at h
      split at h
      · rename_i hending
        obtain ⟨inner', rfl⟩ := List.isSuffixOf_iff_suffix.1 hending
        cases h
        simp
      · cases h
    · cases h
  · rintro rfl
    have hstart : start.isPrefixOf (start ++ inner ++ ending) :=
      List.isPrefixOf_iff_prefix.2 ⟨inner ++ ending, (List.append_assoc ..).symm⟩
    have hending : ending.isSuffixOf (inner ++ ending) :=
      List.isSuffixOf_iff_suffix.2 ⟨inner, rfl⟩
    rw [if_pos hstart, List.append_assoc, List.drop_left]
    simp [hending]

theorem trim_eq_nil_iff {s : List Char} : Text.trim s = [] ↔ ∀ c ∈ s, Text.isBlank c := by
  rw [Text.trim, Text.trimRight, List.reverse_eq_nil_iff, List.dropWhile_eq_nil_iff]
  simp only [List.mem_reverse]
  rw [← List.dropWhile_eq_nil_iff, Text.trimLeft, List.dropWhile_idempotent,
    List.dropWhile_eq_nil_iff]

/-- A collection is written with its elements in angle brackets or before square ones, and there is
something visible of the elements. -/
def IsCollection (type : TypeName) : Prop :=
  ∃ element : String, (type = "List<" ++ element ++ ">" ∨ type = element ++ "[]") ∧
    ∃ c ∈ element.toList, Text.isBlank c = false

/-- No text is a collection in both ways. -/
theorem between?_eq_none_of_brackets {start inner s : List Char} {c : Char} (hc : c ≠ ']')
    (h : between? [] ['[', ']'] s = some inner) : between? start [c] s = none := by
  rw [Option.eq_none_iff_forall_ne_some]
  intro inner' h'
  have hlast := congrArg List.getLast? (between?_eq_some.1 h)
  rw [between?_eq_some.1 h'] at hlast
  simp at hlast
  exact hc hlast

theorem isSome_elementType? {type : TypeName} : (elementType? type).isSome ↔ IsCollection type := by
  rw [elementType?]
  constructor
  · intro h
    split at h
    · cases h
    rename_i inner hinner
    have hvisible : ∃ c ∈ inner, Text.isBlank c = false := by
      have htrim : Text.trim inner ≠ [] := by
        intro hnil
        rw [hnil] at h
        cases h
      simpa [trim_eq_nil_iff] using htrim
    refine ⟨String.ofList inner, ?_, by rwa [String.toList_ofList]⟩
    cases hangle : between? "List<".toList ['>'] type.toList with
    | some inner' =>
      rw [hangle] at hinner
      cases hinner
      have htext := between?_eq_some.1 hangle
      exact .inl (String.toList_inj.1 (by simpa using htext))
    | none =>
      rw [hangle] at hinner
      have hsquare : between? [] ['[', ']'] type.toList = some inner := hinner
      have htext := between?_eq_some.1 hsquare
      exact .inr (String.toList_inj.1 (by simpa using htext))
  · rintro ⟨element, htype, c, hc, hvisible⟩
    have hinner : (between? "List<".toList ['>'] type.toList <|>
        between? [] ['[', ']'] type.toList) = some element.toList := by
      rcases htype with rfl | rfl
      · have hangle : between? "List<".toList ['>'] ("List<" ++ element ++ ">").toList =
            some element.toList := between?_eq_some.2 (by simp)
        rw [hangle]
        rfl
      · have hsquare : between? [] ['[', ']'] (element ++ "[]").toList = some element.toList :=
          between?_eq_some.2 (by simp)
        rw [between?_eq_none_of_brackets (by decide) hsquare, hsquare]
        rfl
    rw [hinner]
    dsimp only
    split
    · rename_i htrim
      rw [trim_eq_nil_iff.1 htrim c hc] at hvisible
      cases hvisible
    · rfl

instance {type : TypeName} : Decidable (IsCollection type) :=
  decidable_of_iff _ isSome_elementType?

/-! ## Fields -/

namespace FieldDecl

variable {f : FieldDecl} {g : Field} {shape : String} {e : ManifestError}

/-- A collection that is declared a value. -/
def Invalid (f : FieldDecl) : Prop :=
  f.storage = some .value ∧ IsCollection f.type

instance : Decidable f.Invalid :=
  inferInstanceAs (Decidable (_ ∧ _))

/-- A value of the given width: by its type, or by declaration for a type that says nothing of its
storage. -/
def IsValue (f : FieldDecl) (w : Width) : Prop :=
  ¬ IsCollection f.type ∧ (primitive? f.type = some (.value w) ∨
    primitive? f.type = none ∧ f.storage = some .value ∧ f.width.getD .large = w)

/-- What becomes of a declared field. -/
structure Yields (f : FieldDecl) (g : Field) : Prop where
  name : g.name = f.name
  type : g.type = f.type
  readable : g.readable = f.readable
  writable : g.writable = f.writable
  ignored : g.ignored = f.ignored
  sourceName : g.sourceName = f.sourceName
  element : g.element.isSome ↔ IsCollection f.type
  value : ∀ w, g.storage = .value w ↔ f.IsValue w
  width : g.storage.toClass = .value ↔ g.storage.width?.isSome
  collection : g.element.isSome → g.storage.toClass = .reference
  defaultable : g.defaultable ↔ g.storage.toClass = .value ∨ f.nullable

/-- What a declaration says of a field besides its storage. -/
def complete (f : FieldDecl) (g : Field) : Field :=
  { g with
    readable := f.readable
    writable := f.writable
    ignored := f.ignored
    sourceName := f.sourceName
    defaultable := g.defaultable || (f.nullable && g.storage.toClass = .reference) }

theorem toField_eq (f : FieldDecl) (shape : String) :
    f.toField shape = (f.base shape).map f.complete := by
  rw [toField]
  cases f.base shape with
  | error e => rfl
  | ok g =>
    obtain ⟨name, type, storage, readable, writable, ignored, sourceName, defaultable, element⟩ := g
    cases storage <;> cases hnullable : f.nullable <;>
      simp [bind, Except.bind, pure, Except.pure, Except.map, complete, Field.nullable,
        Storage.toClass, hnullable]

theorem yields_complete (hname : g.name = f.name) (htype : g.type = f.type)
    (helement : g.element.isSome ↔ IsCollection f.type)
    (hvalue : ∀ w, g.storage = .value w ↔ f.IsValue w)
    (hcollection : g.element.isSome → g.storage.toClass = .reference)
    (hdefaultable : g.defaultable = true ↔ g.storage.toClass = .value) :
    f.Yields (f.complete g) where
  name := hname
  type := htype
  readable := rfl
  writable := rfl
  ignored := rfl
  sourceName := rfl
  element := helement
  value := hvalue
  collection := hcollection
  width := by
    simp only [complete]
    cases g.storage <;> simp [Storage.toClass, Storage.width?]
  defaultable := by
    simp only [complete, Bool.or_eq_true, hdefaultable, Bool.and_eq_true, decide_eq_true_eq]
    cases g.storage <;> simp [Storage.toClass]

theorem base_cases (f : FieldDecl) (shape : String) :
    f.Invalid ∧ f.base shape = .error (.invalidField shape f.name) ∨
      ¬ f.Invalid ∧ ∃ g, f.base shape = .ok g ∧ f.Yields (f.complete g) := by
  rw [base]
  cases helement : elementType? f.type with
  | some element =>
    have hcollection : IsCollection f.type := isSome_elementType?.1 (by rw [helement]; rfl)
    by_cases hstorage : f.storage = some .value
    · exact .inl ⟨⟨hstorage, hcollection⟩, if_pos hstorage⟩
    · refine .inr ⟨fun h => hstorage h.1, _, if_neg hstorage, yields_complete rfl rfl ?_ ?_ ?_ ?_⟩
      · exact iff_of_true rfl hcollection
      · exact fun w => iff_of_false nofun fun h => h.1 hcollection
      · exact fun _ => rfl
      · exact iff_of_false nofun nofun
  | none =>
    have hcollection : ¬ IsCollection f.type := by
      rw [← isSome_elementType?, helement]
      nofun
    refine .inr ⟨fun h => hcollection h.2, ?_⟩
    dsimp only
    split
    · rename_i w hprimitive
      refine ⟨_, rfl, yields_complete rfl rfl (iff_of_false nofun hcollection) (fun w' => ?_) nofun
        (iff_of_true rfl rfl)⟩
      simp [IsValue, hcollection, hprimitive, Field.value]
    · rename_i hprimitive hstorage
      refine ⟨_, rfl, yields_complete rfl rfl (iff_of_false nofun hcollection) (fun w' => ?_) nofun
        (iff_of_true rfl rfl)⟩
      simp [IsValue, hcollection, hprimitive, hstorage, Field.value]
    · rename_i hprimitive hstorage
      refine ⟨_, rfl, yields_complete rfl rfl (iff_of_false nofun hcollection) (fun w' => ?_) nofun
        (iff_of_false nofun nofun)⟩
      refine iff_of_false nofun ?_
      rintro ⟨-, hvalue | ⟨hnone, hvalue, -⟩⟩
      · exact hprimitive w' hvalue
      · exact hstorage hnone hvalue

/-- A declared field is a collection that is declared a value, or a field is made of it. -/
theorem toField_cases (f : FieldDecl) (shape : String) :
    f.Invalid ∧ f.toField shape = .error (.invalidField shape f.name) ∨
      ¬ f.Invalid ∧ ∃ g, f.toField shape = .ok g ∧ f.Yields g := by
  rw [toField_eq]
  rcases f.base_cases shape with ⟨hinvalid, hbase⟩ | ⟨hvalid, g, hbase, hyields⟩
  · exact .inl ⟨hinvalid, by rw [hbase]; rfl⟩
  · exact .inr ⟨hvalid, _, by rw [hbase]; rfl, hyields⟩

theorem names_of_yields {decls : List FieldDecl} {fields : List Field}
    (h : List.Forall₂ Yields decls fields) :
    decls.map FieldDecl.name = fields.map Field.name :=
  map_eq_map_of_forall₂ (h.imp fun _ _ hyields => hyields.name.symm)

end FieldDecl

/-! ## Shapes -/

namespace Manifest

variable {shape : String} {decls : List FieldDecl} {e : ManifestError} {s : FieldSet}

/-- No collection of the shape is declared a value, and no field is declared twice. -/
def Sound (decls : List FieldDecl) : Prop :=
  (∀ f ∈ decls, ¬ f.Invalid) ∧ (decls.map FieldDecl.name).Nodup

instance : Decidable (Sound decls) :=
  inferInstanceAs (Decidable (_ ∧ _))

/-- The error that is told of a shape: of the first collection that is declared a value, and if
there is none, of the first field that comes again. -/
inductive Refuses (shape : String) (decls : List FieldDecl) : ManifestError → Prop where
  | invalid {before after : List FieldDecl} {f : FieldDecl} (hdecls : decls = before ++ f :: after)
      (hbefore : ∀ g ∈ before, ¬ g.Invalid) (hf : f.Invalid) :
      Refuses shape decls (.invalidField shape f.name)
  | duplicate {name : String} (hvalid : ∀ f ∈ decls, ¬ f.Invalid)
      (hname : RepeatsFirst (decls.map FieldDecl.name) name) :
      Refuses shape decls (.duplicateField ⟨shape, name⟩)

/-- The field set has the declared fields in their order, and finds each by its name. -/
structure Describes (shape : String) (decls : List FieldDecl) (s : FieldSet) : Prop where
  shape : s.shape = shape
  fields : List.Forall₂ FieldDecl.Yields decls s.fields
  get : ∀ name g, s.get? name = some g ↔ g ∈ s.fields ∧ g.name = name
  position : ∀ name i, s.position? name = some i ↔ ∃ g, s.fields[i]? = some g ∧ g.name = name

theorem toFields_of_valid (shape : String) (hvalid : ∀ f ∈ decls, ¬ f.Invalid) :
    ∃ fields, decls.mapM (·.toField shape) = .ok fields ∧
      List.Forall₂ FieldDecl.Yields decls fields := by
  cases hfields : decls.mapM (·.toField shape) with
  | error e =>
    obtain ⟨before, f, after, rfl, -, hf⟩ := mapM_eq_error_iff.1 hfields
    rcases f.toField_cases shape with ⟨hinvalid, -⟩ | ⟨-, g, hok, -⟩
    · exact absurd hinvalid (hvalid f (by simp))
    · rw [hf] at hok
      cases hok
  | ok fields =>
    refine ⟨fields, rfl, (mapM_eq_ok_iff.1 hfields).imp fun f g hfg => ?_⟩
    rcases f.toField_cases shape with ⟨-, herror⟩ | ⟨-, g', hok, hyields⟩
    · rw [hfg] at herror
      cases herror
    · rw [hfg] at hok
      cases hok
      exact hyields

theorem fieldSet_of_refuses (h : Refuses shape decls e) : fieldSet shape decls = .error e := by
  cases h with
  | @invalid before after f hdecls hbefore hf =>
    have herror : decls.mapM (·.toField shape) = .error (.invalidField shape f.name) := by
      refine mapM_eq_error_iff.2 ⟨before, f, after, hdecls, fun g hg => ?_, ?_⟩
      · rcases g.toField_cases shape with ⟨hinvalid, -⟩ | ⟨-, g', hok, -⟩
        · exact absurd hinvalid (hbefore g hg)
        · exact ⟨g', hok⟩
      · rcases f.toField_cases shape with ⟨-, herror⟩ | ⟨hvalid, -⟩
        · exact herror
        · exact absurd hf hvalid
    rw [fieldSet, herror]
    rfl
  | duplicate hvalid hname =>
    obtain ⟨fields, hfields, hyields⟩ := toFields_of_valid shape hvalid
    rw [FieldDecl.names_of_yields hyields] at hname
    rw [fieldSet, hfields]
    exact congrArg (Except.mapError ManifestError.duplicateField)
      (FieldSet.ofFields_of_repeatsFirst hname)

theorem fieldSet_of_sound (shape : String) (h : Sound decls) :
    ∃ s, fieldSet shape decls = .ok s ∧ Describes shape decls s := by
  obtain ⟨fields, hfields, hyields⟩ := toFields_of_valid shape h.1
  have hnodup := h.2
  rw [FieldDecl.names_of_yields hyields] at hnodup
  refine ⟨⟨shape, fields, hnodup⟩, ?_, rfl, hyields, fun _ _ => FieldSet.get?_eq_some_iff,
    fun _ _ => FieldSet.position?_eq_some_iff⟩
  rw [fieldSet, hfields]
  exact congrArg (Except.mapError ManifestError.duplicateField) (FieldSet.ofFields_of_nodup hnodup)

theorem sound_or_refuses (shape : String) (decls : List FieldDecl) :
    Sound decls ∨ ∃ e, Refuses shape decls e := by
  by_cases hvalid : ∀ f ∈ decls, ¬ f.Invalid
  · by_cases hnodup : (decls.map FieldDecl.name).Nodup
    · exact .inl ⟨hvalid, hnodup⟩
    · obtain ⟨name, hname⟩ := exists_repeatsFirst_iff.2 hnodup
      exact .inr ⟨_, .duplicate hvalid hname⟩
  · simp only [not_forall, not_not] at hvalid
    obtain ⟨f, hf, hinvalid⟩ := hvalid
    obtain ⟨first, hfirst⟩ := Option.isSome_iff_exists.1
      (List.find?_isSome (p := (decide <| FieldDecl.Invalid ·)).2 ⟨f, hf, decide_eq_true hinvalid⟩)
    obtain ⟨hinvalid, before, after, hdecls, hbefore⟩ := List.find?_eq_some_iff_append.1 hfirst
    refine .inr ⟨_, .invalid hdecls (fun g hg => ?_) (of_decide_eq_true hinvalid)⟩
    simpa using hbefore g hg

theorem fieldSet_eq_error_iff : fieldSet shape decls = .error e ↔ Refuses shape decls e := by
  refine ⟨fun h => ?_, fieldSet_of_refuses⟩
  rcases sound_or_refuses shape decls with hsound | ⟨e', he'⟩
  · obtain ⟨s, hs, -⟩ := fieldSet_of_sound shape hsound
    rw [h] at hs
    cases hs
  · have herror := fieldSet_of_refuses he'
    rw [h] at herror
    cases herror
    exact he'

theorem describes_of_fieldSet (h : fieldSet shape decls = .ok s) : Describes shape decls s := by
  rcases sound_or_refuses shape decls with hsound | ⟨e, he⟩
  · obtain ⟨s', hs', hdescribes⟩ := fieldSet_of_sound shape hsound
    rw [h] at hs'
    cases hs'
    exact hdescribes
  · rw [fieldSet_of_refuses he] at h
    cases h

theorem exists_fieldSet_iff : (∃ s, fieldSet shape decls = .ok s) ↔ Sound decls := by
  constructor
  · rintro ⟨s, hs⟩
    refine (sound_or_refuses shape decls).resolve_right ?_
    rintro ⟨e, he⟩
    rw [fieldSet_of_refuses he] at hs
    cases hs
  · intro h
    obtain ⟨s, hs, -⟩ := fieldSet_of_sound shape h
    exact ⟨s, hs⟩

/-! ## Tables -/

theorem items_ofList_of_describes {shapes : KeyedMap (Prod.fst : String × List FieldDecl → String)}
    {sets : List FieldSet}
    (h : List.Forall₂ (fun p s => Describes p.1 p.2 s) shapes.items sets) :
    (KeyedMap.ofList sets : ShapeTable).items = sets := by
  have hnames : shapes.items.map Prod.fst = sets.map FieldSet.shape :=
    map_eq_map_of_forall₂ (h.imp fun _ _ hdescribes => hdescribes.shape.symm)
  have hsorted : (shapes.items.map Prod.fst).Pairwise fun a b => compare a b = .lt :=
    List.pairwise_map.2 shapes.sorted
  rw [hnames] at hsorted
  exact KeyedMap.items_ofList (List.pairwise_map.1 hsorted)

theorem shapeTable_eq (m : Manifest) :
    m.shapeTable = (m.shapes.items.mapM fun p => fieldSet p.1 p.2).map .ofList := by
  rw [shapeTable]
  cases m.shapes.items.mapM fun p => fieldSet p.1 p.2 <;> rfl

/-- The shapes of a manifest make a table unless something is wrong with one of them, and the first
one with something wrong, in the order of names, gives the error. The table has the declared shapes
and no others, and for each the declared fields. -/
theorem shapeTable_exact (m : Manifest) :
    ((∃ t, m.shapeTable = .ok t) ↔ ∀ p ∈ m.shapes.items, Sound p.2) ∧
    (∀ e, m.shapeTable = .error e ↔ ∃ before p after, m.shapes.items = before ++ p :: after ∧
      (∀ q ∈ before, Sound q.2) ∧ Refuses p.1 p.2 e) ∧
    ∀ t, m.shapeTable = .ok t →
      List.Forall₂ (fun p s => Describes p.1 p.2 s) m.shapes.items t.items := by
  have herror : ∀ e, m.shapeTable = .error e ↔
      (m.shapes.items.mapM fun p => fieldSet p.1 p.2) = .error e := by
    intro e
    rw [shapeTable_eq]
    cases m.shapes.items.mapM fun p => fieldSet p.1 p.2 <;> simp [Except.map]
  have hok : ∀ t, m.shapeTable = .ok t ↔
      ∃ sets, (m.shapes.items.mapM fun p => fieldSet p.1 p.2) = .ok sets ∧ .ofList sets = t := by
    intro t
    rw [shapeTable_eq]
    cases m.shapes.items.mapM fun p => fieldSet p.1 p.2 <;> simp [Except.map]
  refine ⟨?_, fun e => ?_, fun t ht => ?_⟩
  · calc
      _ ↔ ∃ sets, (m.shapes.items.mapM fun p => fieldSet p.1 p.2) = .ok sets := by simp [hok]
      _ ↔ ∀ p ∈ m.shapes.items, ∃ s, fieldSet p.1 p.2 = .ok s := exists_mapM_iff
      _ ↔ ∀ p ∈ m.shapes.items, Sound p.2 := forall₂_congr fun _ _ => exists_fieldSet_iff
  · rw [herror, mapM_eq_error_iff]
    simp only [exists_fieldSet_iff, fieldSet_eq_error_iff]
  · obtain ⟨sets, hsets, rfl⟩ := (hok t).1 ht
    have hdescribes : List.Forall₂ (fun p s => Describes p.1 p.2 s) m.shapes.items sets :=
      (mapM_eq_ok_iff.1 hsets).imp fun _ _ h => describes_of_fieldSet h
    rw [items_ofList_of_describes hdescribes]
    exact hdescribes

/-- A value that is no collection, collections written both ways, and one of what is itself written
like a collection. -/
def sampleFields : List FieldDecl :=
  [{ name := "Id", type := "int" },
   { name := "Lines", type := "List<Line>", nullable := true },
   { name := "Pages", type := "List<Page>[]" },
   { name := "Blank", type := "List< >", storage := some .value }]

/-- A collection that is declared a value, behind a field that comes twice. -/
def sampleRefused : List FieldDecl :=
  [{ name := "Id", type := "int" }, { name := "Id", type := "long" },
   { name := "Codes", type := "int[]", storage := some .value }]

theorem shapeTable_sample :
    (∃ t s, ({ shapes := .ofList [("A", sampleFields)] } : Manifest).shapeTable = .ok t ∧
      t.items = [s] ∧ Describes "A" sampleFields s) ∧
    ({ shapes := .ofList [("B", sampleRefused), ("A", sampleFields)] } : Manifest).shapeTable =
      .error (.invalidField "B" "Codes") := by
  constructor
  · obtain ⟨hiff, -, hdescribes⟩ := shapeTable_exact { shapes := .ofList [("A", sampleFields)] }
    obtain ⟨t, ht⟩ := hiff.2 (by decide)
    obtain ⟨s, rest, hs, hrest, hitems⟩ := List.forall₂_cons_left_iff.1 (hdescribes t ht)
    rw [List.forall₂_nil_left_iff.1 hrest] at hitems
    exact ⟨t, s, ht, hitems, hs⟩
  · obtain ⟨-, herror, -⟩ :=
      shapeTable_exact { shapes := .ofList [("B", sampleRefused), ("A", sampleFields)] }
    refine (herror _).2 ⟨[("A", sampleFields)], ("B", sampleRefused), [], rfl, by decide, ?_⟩
    have hdecls : sampleRefused = sampleRefused.take 2 ++
        { name := "Codes", type := "int[]", storage := some .value } :: [] := rfl
    exact .invalid hdecls (by decide) (by decide)

end Manifest
end MapPlan
