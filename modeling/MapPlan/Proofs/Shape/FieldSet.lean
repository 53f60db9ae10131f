import Mathlib.Data.List.Nodup
import MapPlan.Shape.FieldSet

/-!
# Field sets

What is written of a field set tells its fields, all that they declare, and their order.
-/

namespace MapPlan

/-! ## Optional values -/

theorem Json.ofOption_injective {α : Type} {f : α → Json} (hf : ∀ a b, f a = f b → a = b)
    (hnull : ∀ a, f a ≠ .null) {a b : Option α} (h : Json.ofOption f a = Json.ofOption f b) :
    a = b := by
  cases a with
  | none =>
    cases b with
    | none => rfl
    | some b => exact absurd h.symm (hnull b)
  | some a =>
    cases b with
    | none => exact absurd h (hnull a)
    | some b => rw [hf a b h]

/-! ## Fields -/

theorem StorageClass.name_injective {c d : StorageClass} (h : c.name = d.name) : c = d := by
  cases c <;> cases d <;> first | rfl | exact absurd h (by decide)

theorem Width.name_injective {v w : Width} (h : v.name = w.name) : v = w := by
  cases v <;> cases w <;> first | rfl | exact absurd h (by decide)

theorem Storage.eq_of_toClass_of_width? {s t : Storage} (hclass : s.toClass = t.toClass)
    (hwidth : s.width? = t.width?) : s = t := by
  cases s with
  | value v =>
    cases t with
    | value w => rw [Option.some.inj hwidth]
    | reference => cases hclass
  | reference =>
    cases t with
    | value w => cases hclass
    | reference => rfl

theorem Element.toJson_injective (e e' : Element) (h : e.toJson = e'.toJson) : e = e' := by
  simp only [Element.toJson, Json.obj.injEq, List.cons.injEq, Prod.mk.injEq, Json.str.injEq,
    true_and, and_true] at h
  obtain ⟨htype, hstorage⟩ := h
  cases e
  cases e'
  cases htype
  cases StorageClass.name_injective hstorage
  rfl

theorem Field.toJson_injective (f g : Field) (h : f.toJson = g.toJson) : f = g := by
  simp only [Field.toJson, Json.obj.injEq, List.cons.injEq, Prod.mk.injEq, Json.str.injEq,
    Json.bool.injEq, true_and, and_true] at h
  obtain ⟨hname, hclass, htype, hwidth, hreadable, hwritable, hignored, hsource, hdefault,
    helement⟩ := h
  have hwidth := Json.ofOption_injective
    (fun v w h => Width.name_injective (Json.str.inj h)) (fun _ => nofun) hwidth
  have hstorage := Storage.eq_of_toClass_of_width? (StorageClass.name_injective hclass) hwidth
  have hsource := Json.ofOption_injective (fun s t h => Json.str.inj h) (fun _ => nofun) hsource
  have helement := Json.ofOption_injective Element.toJson_injective (fun _ => nofun) helement
  cases f
  cases g
  simp only [Field.mk.injEq]
  exact ⟨hname, htype, hstorage, hreadable, hwritable, hignored, hsource, hdefault, helement⟩

/-! ## Repeated names -/

/-- The name is the first of a list that repeats one before it. -/
def RepeatsFirst (names : List String) (name : String) : Prop :=
  ∃ before after, names = before ++ name :: after ∧ before.Nodup ∧ name ∈ before

theorem firstRepeated?_eq_some {seen names : List String} {name : String} :
    firstRepeated? seen names = some name ↔
      ∃ before after, names = before ++ name :: after ∧ before.Nodup ∧
        (∀ n ∈ before, n ∉ seen) ∧ (name ∈ seen ∨ name ∈ before) := by
  induction names generalizing seen with
  | nil => simp [firstRepeated?]
  | cons first rest ih =>
    rw [firstRepeated?]
    split
    · rename_i hseen
      constructor
      · rintro ⟨⟩
        exact ⟨[], rest, rfl, .nil, List.forall_mem_nil _, .inl hseen⟩
      · rintro ⟨before, after, hnames, -, hfresh, -⟩
        cases before with
        | nil =>
          cases hnames
          rfl
        | cons n before =>
          cases hnames
          exact absurd hseen (hfresh first List.mem_cons_self)
    · rename_i hseen
      rw [ih]
      constructor
      · rintro ⟨before, after, rfl, hnodup, hfresh, hrepeats⟩
        have hfirst : first ∉ before := fun h => hfresh first h List.mem_cons_self
        refine ⟨first :: before, after, rfl, List.nodup_cons.2 ⟨hfirst, hnodup⟩, ?_, ?_⟩
        · rw [List.forall_mem_cons]
          exact ⟨hseen, fun n hn h => hfresh n hn (List.mem_cons_of_mem _ h)⟩
        · rwa [List.mem_cons, or_assoc, or_left_comm, ← List.mem_cons] at hrepeats
      · rintro ⟨before, after, hnames, hnodup, hfresh, hrepeats⟩
        cases before with
        | nil =>
          cases hnames
          exact absurd (hrepeats.resolve_right List.not_mem_nil) hseen
        | cons n before =>
          cases hnames
          obtain ⟨hfirst, hnodup⟩ := List.nodup_cons.1 hnodup
          refine ⟨before, after, rfl, hnodup, fun n hn => ?_, ?_⟩
          · rw [List.mem_cons, not_or]
            exact ⟨ne_of_mem_of_not_mem hn hfirst, hfresh n (List.mem_cons_of_mem _ hn)⟩
          · rwa [List.mem_cons, or_assoc, or_left_comm, ← List.mem_cons]

theorem firstRepeated?_nil_eq_some {names : List String} {name : String} :
    firstRepeated? [] names = some name ↔ RepeatsFirst names name := by
  rw [firstRepeated?_eq_some, RepeatsFirst]
  simp

theorem exists_repeatsFirst_iff {names : List String} :
    (∃ name, RepeatsFirst names name) ↔ ¬ names.Nodup := by
  constructor
  · rintro ⟨name, before, after, rfl, -, hmem⟩ hnodup
    exact (List.nodup_append.1 hnodup).2.2 name hmem name List.mem_cons_self rfl
  · intro h
    simp only [← firstRepeated?_nil_eq_some, ← Option.ne_none_iff_exists']
    exact fun hnone => h (nodup_of_firstRepeated?_eq_none hnone).1

namespace FieldSet

@[ext] theorem ext {s t : FieldSet} (hshape : s.shape = t.shape) (hfields : s.fields = t.fields) :
    s = t := by
  cases s
  cases t
  cases hshape
  cases hfields
  rfl

theorem toJson_injective (s t : FieldSet) (h : s.toJson = t.toJson) : s = t := by
  simp only [toJson, Json.obj.injEq, List.cons.injEq, Prod.mk.injEq, Json.str.injEq, true_and,
    and_true] at h
  obtain ⟨hshape, hfields⟩ := h
  refine ext hshape (List.map_inj_right ?_ |>.1 hfields)
  intro f g hfg
  exact Field.toJson_injective f g (Prod.mk.inj hfg).2

/-! ## Making field sets -/

theorem ofFields_of_repeatsFirst {shape name : String} {fields : List Field}
    (h : RepeatsFirst (fields.map Field.name) name) :
    ofFields shape fields = .error ⟨shape, name⟩ := by
  rw [ofFields]
  split
  · rename_i name' hname
    rw [firstRepeated?_nil_eq_some.2 h] at hname
    cases hname
    rfl
  · rename_i hnone
    rw [firstRepeated?_nil_eq_some.2 h] at hnone
    cases hnone

theorem ofFields_of_nodup {shape : String} {fields : List Field}
    (h : (fields.map Field.name).Nodup) : ofFields shape fields = .ok ⟨shape, fields, h⟩ := by
  rw [ofFields]
  split
  · rename_i name hname
    exact absurd h (exists_repeatsFirst_iff.1 ⟨name, firstRepeated?_nil_eq_some.1 hname⟩)
  · rfl

/-! ## Look-up -/

theorem eq_of_name_eq {s : FieldSet} {f g : Field} (hf : f ∈ s.fields) (hg : g ∈ s.fields)
    (h : f.name = g.name) : f = g :=
  List.inj_on_of_nodup_map s.nodup hf hg h

theorem get?_eq_some_iff {s : FieldSet} {name : String} {f : Field} :
    s.get? name = some f ↔ f ∈ s.fields ∧ f.name = name := by
  constructor
  · intro h
    have hname := List.find?_some h
    exact ⟨List.mem_of_find?_eq_some h, of_decide_eq_true hname⟩
  · rintro ⟨hf, rfl⟩
    have hsome : (s.get? f.name).isSome :=
      List.find?_isSome.2 ⟨f, hf, decide_eq_true (rfl : f.name = f.name)⟩
    obtain ⟨g, hg⟩ := Option.isSome_iff_exists.1 hsome
    have hname := List.find?_some hg
    rw [hg, eq_of_name_eq (List.mem_of_find?_eq_some hg) hf (of_decide_eq_true hname)]

/-- Look-up does not see the order of declaration. -/
theorem get?_eq_of_perm {s t : FieldSet} (h : s.fields.Perm t.fields) (name : String) :
    s.get? name = t.get? name := by
  refine Option.ext fun f => ?_
  rw [get?_eq_some_iff, get?_eq_some_iff, h.mem_iff]

/-- Names are at one position each. -/
theorem position?_eq_some_iff {s : FieldSet} {name : String} {i : Nat} :
    s.position? name = some i ↔ ∃ f, s.fields[i]? = some f ∧ f.name = name := by
  rw [position?, List.findIdx?_eq_some_iff_getElem]
  constructor
  · rintro ⟨hi, hname, -⟩
    exact ⟨_, List.getElem?_eq_getElem hi, of_decide_eq_true hname⟩
  · rintro ⟨f, hf, rfl⟩
    obtain ⟨hi, rfl⟩ := List.getElem?_eq_some_iff.1 hf
    refine ⟨hi, decide_eq_true rfl, fun j hji hname => ?_⟩
    have hi' : i < (s.fields.map Field.name).length := by simpa using hi
    have hj' : j < (s.fields.map Field.name).length := Nat.lt_trans hji hi'
    have hnames : (s.fields.map Field.name)[j] = (s.fields.map Field.name)[i] := by
      simpa using hname
    exact Nat.ne_of_lt hji (s.nodup.getElem_inj_iff.1 hnames)

theorem mem_of_readable? {s : FieldSet} {name : String} {f : Field}
    (h : s.readable? name = some f) : f ∈ s.fields ∧ f.name = name ∧ f.readable := by
  obtain ⟨hget, hreadable⟩ := Option.filter_eq_some_iff.1 h
  obtain ⟨hf, hname⟩ := get?_eq_some_iff.1 hget
  exact ⟨hf, hname, hreadable⟩

end FieldSet
end MapPlan
