import Mathlib.Algebra.GroupWithZero.Nat
import Mathlib.Data.Finset.Card
import MapPlan.Plan.Pass
import MapPlan.Proofs.Shape.Catalog

/-!
# Introspections

A catalog looks a shape up when it is first asked for it, and again only if it was cleared in
between. The calls that clear it part all calls into stretches, and what a catalog remembers and has
counted can be told from the shapes asked for in each stretch. A pass is a number of such calls, two
for each key, whatever plans it finds in its cache.
-/

namespace MapPlan

/-- What one more item does to the pieces between separators: it starts a new piece, or belongs to
the last one. -/
theorem exists_splitOn_concat {α : Type} [DecidableEq α] (a : α) (l : List α) :
    ∃ earlier current, l.splitOn a = earlier ++ [current] ∧
      ∀ x, (l ++ [x]).splitOn a =
        if x = a then earlier ++ [current, []] else earlier ++ [current ++ [x]] := by
  induction l with
  | nil =>
    refine ⟨[], [], List.splitOn_nil a, fun x => ?_⟩
    by_cases h : x = a <;> simp [List.splitOn_eq_splitOnP, List.splitOnP_cons_eq_if_modifyHead, h]
  | cons y rest ih =>
    obtain ⟨earlier, current, hrest, hconcat⟩ := ih
    rw [List.splitOn_eq_splitOnP] at hrest
    simp only [List.splitOn_eq_splitOnP] at hconcat ⊢
    simp only [List.cons_append, List.splitOnP_cons_eq_if_modifyHead, hrest, hconcat]
    by_cases hy : y = a
    · refine ⟨[] :: earlier, current, by simp [hy], fun x => ?_⟩
      by_cases hx : x = a <;> simp [hy, hx]
    · cases earlier with
      | nil =>
        refine ⟨[], y :: current, by simp [hy], fun x => ?_⟩
        by_cases hx : x = a <;> simp [hy, hx]
      | cons first earlier =>
        refine ⟨(y :: first) :: earlier, current, by simp [hy], fun x => ?_⟩
        by_cases hx : x = a <;> simp [hy, hx]

namespace Catalog

/-! ## Calls on a catalog -/

inductive Call where
  | fields (shape : String)
  | cached (shape : String)
  | clear
deriving DecidableEq, Repr

/-- What a catalog is after a call. -/
def apply (c : Catalog) : Call → Catalog
  | .fields shape => (c.fields shape).2
  | .cached _ => c
  | .clear => c.clear

/-- What a new catalog is after some calls. -/
def after (t : ShapeTable) (calls : List Call) : Catalog :=
  calls.foldl apply { table := t }

/-- The shape that a call has looked up unless it is remembered. -/
def Call.shape? : Call → Option String
  | .fields shape => some shape
  | .cached _ | .clear => none

/-- The shapes that some calls ask for. -/
def asked (calls : List Call) : Finset String :=
  (calls.filterMap Call.shape?).toFinset

/-- The calls since the last one that clears. -/
def sinceClear (calls : List Call) : List Call :=
  (calls.splitOn .clear).getLastD []

variable {c : Catalog} {t : ShapeTable} {calls current : List Call} {earlier : List (List Call)}
  {shape : String}

theorem mem_asked : shape ∈ asked calls ↔ .fields shape ∈ calls := by
  rw [asked, List.mem_toFinset, List.mem_filterMap]
  constructor
  · rintro ⟨call, hcall, hshape⟩
    cases call <;> cases hshape
    exact hcall
  · exact fun h => ⟨_, h, rfl⟩

theorem asked_append (calls calls' : List Call) :
    asked (calls ++ calls') = asked calls ∪ asked calls' := by
  rw [asked, List.filterMap_append, List.toFinset_append]
  rfl

/-- What a catalog remembers and has counted, from the stretches of calls before the last one that
cleared it and from the calls since. -/
structure Tracks (c : Catalog) (t : ShapeTable) (earlier : List (List Call)) (current : List Call) :
    Prop where
  table : c.table = t
  cached : ∀ shape, c.cached? shape = if shape ∈ asked current then some (t.fields shape) else none
  size : c.remembered.size = (asked current).card
  introspections : c.introspections =
    (earlier.map fun stretch => (asked stretch).card).sum + (asked current).card

theorem tracks_new (t : ShapeTable) : Tracks { table := t } t [] [] where
  table := rfl
  cached _ := rfl
  size := rfl
  introspections := rfl

namespace Tracks

theorem of_asked_eq (h : Tracks c t earlier current) {current' : List Call}
    (hasked : asked current = asked current') : Tracks c t earlier current' where
  table := h.table
  cached := hasked ▸ h.cached
  size := hasked ▸ h.size
  introspections := hasked ▸ h.introspections

/-- A shape that is remembered is not looked up. -/
theorem fields_of_mem (h : Tracks c t earlier current) (hshape : shape ∈ asked current) :
    c.fields shape = (t.fields shape, c) := by
  rw [Catalog.fields, h.cached, if_pos hshape]

theorem fields_of_not_mem (h : Tracks c t earlier current) (hshape : shape ∉ asked current) :
    c.fields shape = (t.fields shape, { c with
      remembered := c.remembered.insert (t.fields shape)
      introspections := c.introspections + 1 }) := by
  rw [Catalog.fields, h.cached, if_neg hshape, h.table]

theorem fst_fields (h : Tracks c t earlier current) (shape : String) :
    (c.fields shape).1 = t.fields shape := by
  by_cases hshape : shape ∈ asked current
  · rw [h.fields_of_mem hshape]
  · rw [h.fields_of_not_mem hshape]

theorem fields (h : Tracks c t earlier current) (shape : String) :
    Tracks (c.fields shape).2 t earlier (current ++ [.fields shape]) := by
  have hinsert : asked (current ++ [.fields shape]) = insert shape (asked current) := by
    rw [asked_append, Finset.union_comm]
    rfl
  by_cases hshape : shape ∈ asked current
  · rw [h.fields_of_mem hshape]
    rw [Finset.insert_eq_of_mem hshape] at hinsert
    exact h.of_asked_eq hinsert.symm
  · have hcard := Finset.card_insert_of_notMem hshape
    rw [← hinsert] at hcard
    constructor
    case table => rw [table_fields, h.table]
    case cached =>
      intro other
      rw [hinsert]
      by_cases hother : shape = other
      · subst hother
        rw [cached?_fields_self, h.fst_fields, if_pos (Finset.mem_insert_self ..)]
      · rw [cached?_fields_of_ne hother, h.cached]
        simp only [Finset.mem_insert, Ne.symm hother, false_or]
    case size =>
      have hfind : c.remembered.find? (t.fields shape).shape = none := by
        rw [ShapeTable.shape_fields]
        exact (h.cached shape).trans (if_neg hshape)
      rw [h.fields_of_not_mem hshape, hcard, ← h.size]
      exact KeyedMap.size_insert_of_find? hfind
    case introspections =>
      rw [h.fields_of_not_mem hshape, hcard, ← Nat.add_assoc, ← h.introspections]

theorem clear (h : Tracks c t earlier current) : Tracks c.clear t (earlier ++ [current]) [] where
  table := h.table
  cached _ := rfl
  size := rfl
  introspections := by
    rw [List.map_append, List.sum_append]
    exact h.introspections

end Tracks

/-- A catalog can be told from the stretches of the calls on it. -/
theorem exists_tracks_after (t : ShapeTable) (calls : List Call) :
    ∃ earlier current, calls.splitOn .clear = earlier ++ [current] ∧
      Tracks (after t calls) t earlier current := by
  induction calls using List.reverseRecOn with
  | nil => exact ⟨[], [], List.splitOn_nil _, tracks_new t⟩
  | append_singleton calls call ih =>
    obtain ⟨earlier, current, hsplit, htracks⟩ := ih
    obtain ⟨earlier', current', hsplit', hconcat⟩ := exists_splitOn_concat Call.clear calls
    obtain ⟨rfl, hcurrent⟩ := List.append_inj' (hsplit.symm.trans hsplit') rfl
    cases hcurrent
    have hafter : after t (calls ++ [call]) = (after t calls).apply call := by
      rw [after, List.foldl_append]
      rfl
    rw [hconcat, hafter]
    cases call with
    | fields shape => exact ⟨earlier, current ++ [Call.fields shape], rfl, htracks.fields shape⟩
    | cached shape =>
      refine ⟨earlier, current ++ [.cached shape], rfl, htracks.of_asked_eq ?_⟩
      rw [asked_append]
      exact (Finset.union_empty _).symm
    | clear => exact ⟨earlier ++ [current], [], by simp, htracks.clear⟩

end Catalog

/-! ## Passes -/

namespace Snapshot

/-- The sources and destinations of the keys, in order. -/
def shapes (s : Snapshot) : List String :=
  s.keys.flatMap fun k => [k.source, k.destination]

end Snapshot

namespace Pass

open Catalog (Call)

theorem catalog_planEntries (r : Resolver) (snapshot : Snapshot) (entries : List Entry)
    (s : State) :
    (planEntries r snapshot entries s).2.catalog =
      (entries.flatMap fun e => [.fields e.key.source, .fields e.key.destination]).foldl
        Catalog.apply s.catalog := by
  induction entries generalizing s with
  | nil => rfl
  | cons entry rest ih => exact ih (planEntry r snapshot entry s).2

/-- A run asks for the shapes of its keys, and the cache has no part in it. -/
theorem catalog_run (p : Pass) (c : Catalog) (snapshot : Snapshot) :
    (p.run c snapshot).2.2 = (snapshot.shapes.map Call.fields).foldl Catalog.apply c := by
  have hshapes : snapshot.shapes.map Call.fields = snapshot.entries.items.flatMap fun e =>
      [.fields e.key.source, .fields e.key.destination] := by
    rw [Snapshot.shapes, Snapshot.keys, KeyedMap.keys, List.flatMap_map, List.map_flatMap]
    rfl
  rw [hshapes]
  exact catalog_planEntries p.resolver snapshot snapshot.entries.items ⟨p.cache, c⟩

end Pass

namespace Catalog

variable {t : ShapeTable} {calls current : List Call} {earlier : List (List Call)} {c : Catalog}

theorem sinceClear_eq (h : calls.splitOn .clear = earlier ++ [current]) :
    sinceClear calls = current := by
  rw [sinceClear, h, List.getLastD_concat]

theorem asked_map_fields (shapes : List String) :
    asked (shapes.map Call.fields) = shapes.toFinset := by
  ext shape
  rw [mem_asked, List.mem_toFinset, List.mem_map]
  constructor
  · rintro ⟨_, hshape, ⟨⟩⟩
    exact hshape
  · exact fun h => ⟨shape, h, rfl⟩

theorem Tracks.foldl_fields (h : Tracks c t earlier current) (shapes : List String) :
    Tracks ((shapes.map Call.fields).foldl apply c) t earlier
      (current ++ shapes.map Call.fields) := by
  induction shapes generalizing c current with
  | nil => rwa [List.map_nil, List.append_nil]
  | cons shape rest ih =>
    rw [List.map_cons, List.append_cons]
    exact ih (h.fields shape)

/-- Calls for some shapes look up those that are not remembered, each once. -/
theorem Tracks.introspections_foldl_fields (h : Tracks c t earlier current) (shapes : List String) :
    ((shapes.map Call.fields).foldl apply c).introspections =
      c.introspections + (shapes.toFinset.filter fun shape => c.cached? shape = none).card := by
  have hfilter : (shapes.toFinset.filter fun shape => c.cached? shape = none) =
      shapes.toFinset \ asked current := by
    ext shape
    rw [Finset.mem_filter, Finset.mem_sdiff, h.cached]
    simp
  rw [(h.foldl_fields shapes).introspections, h.introspections, hfilter, asked_append,
    asked_map_fields, ← Finset.union_sdiff_self_eq_union,
    Finset.card_union_of_disjoint Finset.disjoint_sdiff, Nat.add_assoc]

/-- Whatever is called on a new catalog, it answers with the fields of its table, and it looks each
shape up once between calls that clear it. A pass looks up those shapes of its keys that are not
remembered, wherever its plans come from. -/
theorem after_introspects (t : ShapeTable) (calls : List Call) :
    (∀ shape, ((after t calls).fields shape).1 = (t.find? shape).getD (.empty shape)) ∧
    (∀ shape, (after t calls).cached? shape =
      if Call.fields shape ∈ sinceClear calls then some ((t.find? shape).getD (.empty shape))
      else none) ∧
    (after t calls).stats.cachedShapes = (asked (sinceClear calls)).card ∧
    (after t calls).stats.introspections =
      ((calls.splitOn .clear).map fun stretch => (asked stretch).card).sum ∧
    ∀ (p : Pass) (snapshot : Snapshot),
      (p.run (after t calls) snapshot).2.2 = after t (calls ++ snapshot.shapes.map .fields) ∧
      (p.run (after t calls) snapshot).2.2.stats.introspections =
        (after t calls).stats.introspections +
          (snapshot.shapes.toFinset.filter fun shape =>
            (after t calls).cached? shape = none).card := by
  obtain ⟨earlier, current, hsplit, htracks⟩ := exists_tracks_after t calls
  rw [hsplit, sinceClear_eq hsplit]
  refine ⟨htracks.fst_fields, fun shape => ?_, htracks.size, ?_, fun p snapshot => ⟨?_, ?_⟩⟩
  · rw [htracks.cached]
    simp only [mem_asked]
    rfl
  · rw [List.map_append, List.sum_append]
    exact htracks.introspections
  · rw [Pass.catalog_run, after, after, List.foldl_append]
  · rw [Pass.catalog_run]
    exact htracks.introspections_foldl_fields snapshot.shapes

end Catalog
end MapPlan
