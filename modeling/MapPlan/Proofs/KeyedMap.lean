import MapPlan.KeyedMap

/-!
# Keyed maps as finite functions

A keyed map is determined by its items, by its items in any order, and by what a look-up finds. An
item that is put in takes the place of the one with its key and leaves the others alone.
-/

namespace MapPlan.KeyedMap

variable {κ β : Type} [Ord κ] {key : β → κ} {m m' : KeyedMap key} {k : κ} {v x y : β}

@[simp] theorem mem_filter {p : β → Bool} : x ∈ (m.filter p).items ↔ x ∈ m.items ∧ p x :=
  List.mem_filter

variable [Std.TransOrd κ] [Std.LawfulEqOrd κ]

omit [Std.LawfulEqOrd κ] in
theorem ne_of_compare_lt {k l : κ} (h : compare k l = .lt) : k ≠ l := by
  rintro rfl
  rw [Std.ReflOrd.compare_self] at h
  cases h

/-! ## Look-up -/

omit [Std.LawfulEqOrd κ] in
theorem eq_of_key_eq (hx : x ∈ m.items) (hy : y ∈ m.items) (h : key x = key y) : x = y := by
  have hsorted := m.sorted.imp (S := fun a b => key a = key b → a = b)
    fun hlt heq => absurd heq (ne_of_compare_lt hlt)
  have hflip := m.sorted.imp (S := flip fun a b => key a = key b → a = b)
    fun hlt heq => absurd heq.symm (ne_of_compare_lt hlt)
  exact hsorted.forall_of_forall_of_flip (fun _ _ _ => rfl) hflip hx hy h

theorem find?_eq_some : m.find? k = some x ↔ x ∈ m.items ∧ key x = k := by
  constructor
  · intro h
    have heq := List.find?_some h
    exact ⟨List.mem_of_find?_eq_some h, Std.LawfulEqOrd.eq_of_compare (of_decide_eq_true heq)⟩
  · rintro ⟨hx, rfl⟩
    cases hfind : m.find? (key x) with
    | none =>
      have := List.find?_eq_none.1 hfind x hx
      simp at this
    | some y =>
      have heq := List.find?_some hfind
      rw [eq_of_key_eq (List.mem_of_find?_eq_some hfind) hx
        (Std.LawfulEqOrd.eq_of_compare (of_decide_eq_true heq))]

theorem contains_iff : m.contains k ↔ k ∈ m.keys := by
  simp [contains, Option.isSome_iff_exists, find?_eq_some, keys]

theorem find?_eq_none : m.find? k = none ↔ ∀ x ∈ m.items, key x ≠ k := by
  rw [Option.eq_none_iff_forall_ne_some]
  simp [find?_eq_some]

omit [Std.TransOrd κ] in
theorem mem_erase : x ∈ (m.erase k).items ↔ x ∈ m.items ∧ key x ≠ k := by
  rw [erase, mem_filter, decide_eq_true_iff, ne_eq, Std.compare_eq_iff_eq]

/-! ## Equality -/

omit [Std.LawfulEqOrd κ] in
theorem nodup_items (m : KeyedMap key) : m.items.Nodup :=
  m.sorted.imp fun hlt heq => ne_of_compare_lt hlt (congrArg key heq)

omit [Std.LawfulEqOrd κ] in
/-- Of some items there is one list in strictly ascending order of their keys. -/
theorem eq_of_sorted {γ : Type} {f : γ → κ} {l l' : List γ}
    (hl : l.Pairwise fun a b => compare (f a) (f b) = .lt)
    (hl' : l'.Pairwise fun a b => compare (f a) (f b) = .lt) (h : ∀ x, x ∈ l ↔ x ∈ l') :
    l = l' := by
  have hnodup : ∀ {l : List γ}, (l.Pairwise fun a b => compare (f a) (f b) = .lt) → l.Nodup :=
    fun hl => hl.imp fun hlt heq => ne_of_compare_lt hlt (congrArg f heq)
  have hperm := (List.perm_ext_iff_of_nodup (hnodup hl) (hnodup hl')).2 h
  refine hperm.eq_of_pairwise (fun a b _ _ hab hba => ?_) hl hl'
  rw [Std.OrientedCmp.gt_of_lt hab] at hba
  cases hba

omit [Std.LawfulEqOrd κ] in
/-- Two maps with the same items in some order are equal. -/
theorem ext_mem (h : ∀ x, x ∈ m.items ↔ x ∈ m'.items) : m = m' :=
  ext (eq_of_sorted m.sorted m'.sorted h)

omit [Std.LawfulEqOrd κ] in
/-- Maps with the same keys, as far as a filter lets them pass, have them in the same order. -/
theorem filter_keys_congr {p : κ → Bool} (h : ∀ k, p k → (k ∈ m.keys ↔ k ∈ m'.keys)) :
    m.keys.filter p = m'.keys.filter p := by
  have hsorted : ∀ m : KeyedMap key, (m.keys.filter p).Pairwise fun k l => compare k l = .lt :=
    fun m => (List.pairwise_map.2 m.sorted).filter p
  refine eq_of_sorted (f := id) (hsorted m) (hsorted m') fun k => ?_
  rw [List.mem_filter, List.mem_filter]
  exact and_congr_left (h k)

/-! ## Insertion -/

theorem mem_place {l : List β} (hl : l.Pairwise fun a b => compare (key a) (key b) = .lt) :
    x ∈ place key v l ↔ x = v ∨ x ∈ l ∧ key x ≠ key v := by
  induction l with
  | nil => simp [place]
  | cons y rest ih =>
    obtain ⟨first, others⟩ := List.pairwise_cons.1 hl
    rw [place]
    split
    · rename_i lt
      -- Every item comes after `v`, so all of them stay.
      have hne : ∀ z ∈ y :: rest, key z ≠ key v := by
        intro z hz
        rcases List.mem_cons.1 hz with rfl | hz
        · exact (ne_of_compare_lt lt).symm
        · exact (ne_of_compare_lt (Std.TransCmp.lt_trans lt (first z hz))).symm
      rw [List.mem_cons]
      exact or_congr_right ⟨fun hx => ⟨hx, hne x hx⟩, And.left⟩
    · rename_i eq
      have hkey := Std.LawfulEqOrd.eq_of_compare eq
      have hne : ∀ z ∈ rest, key z ≠ key v := by
        intro z hz
        rw [hkey]
        exact (ne_of_compare_lt (first z hz)).symm
      rw [List.mem_cons, List.mem_cons]
      refine or_congr_right ⟨fun hx => ⟨.inr hx, hne x hx⟩, ?_⟩
      rintro ⟨rfl | hx, hxv⟩
      · exact absurd hkey.symm hxv
      · exact hx
    · rename_i gt
      have hne : key y ≠ key v := ne_of_compare_lt (Std.OrientedCmp.lt_of_gt gt)
      rw [List.mem_cons, ih others, List.mem_cons]
      constructor
      · rintro (rfl | rfl | ⟨hx, hxv⟩)
        · exact .inr ⟨.inl rfl, hne⟩
        · exact .inl rfl
        · exact .inr ⟨.inr hx, hxv⟩
      · rintro (rfl | ⟨rfl | hx, hxv⟩)
        · exact .inr (.inl rfl)
        · exact .inl rfl
        · exact .inr (.inr ⟨hx, hxv⟩)

theorem mem_insert : x ∈ (m.insert v).items ↔ x = v ∨ x ∈ m.items ∧ key x ≠ key v :=
  mem_place m.sorted

theorem find?_insert_self : (m.insert v).find? (key v) = some v :=
  find?_eq_some.2 ⟨mem_insert.2 (.inl rfl), rfl⟩

theorem find?_insert_of_ne (h : key v ≠ k) : (m.insert v).find? k = m.find? k := by
  refine Option.ext fun x => ?_
  rw [find?_eq_some, find?_eq_some, mem_insert]
  constructor
  · rintro ⟨rfl | ⟨hx, _⟩, hxk⟩
    · exact absurd hxk h
    · exact ⟨hx, hxk⟩
  · rintro ⟨hx, rfl⟩
    exact ⟨.inr ⟨hx, h.symm⟩, rfl⟩

theorem mem_keys_insert : k ∈ (m.insert v).keys ↔ k = key v ∨ k ∈ m.keys := by
  rw [keys, List.mem_map, keys, List.mem_map]
  constructor
  · rintro ⟨x, hx, rfl⟩
    rcases mem_insert.1 hx with rfl | ⟨hx, _⟩
    · exact .inl rfl
    · exact .inr ⟨x, hx, rfl⟩
  · rintro (rfl | ⟨x, hx, rfl⟩)
    · exact ⟨v, mem_insert.2 (.inl rfl), rfl⟩
    · by_cases hkey : key x = key v
      · exact ⟨v, mem_insert.2 (.inl rfl), hkey.symm⟩
      · exact ⟨x, mem_insert.2 (.inr ⟨hx, hkey⟩), rfl⟩

theorem mem_keys_foldl_insert {l : List β} :
    k ∈ (l.foldl insert m).keys ↔ k ∈ m.keys ∨ ∃ x ∈ l, key x = k := by
  induction l generalizing m with
  | nil => simp
  | cons v rest ih =>
    simp only [List.foldl_cons, ih, mem_keys_insert, List.mem_cons, exists_eq_or_imp]
    rw [or_comm (a := k = key v), or_assoc, eq_comm (a := k)]

theorem mem_keys_ofList {l : List β} : k ∈ (ofList l : KeyedMap key).keys ↔ ∃ x ∈ l, key x = k := by
  rw [ofList, mem_keys_foldl_insert]
  exact or_iff_right List.not_mem_nil

/-- Items with different keys do not replace each other. -/
theorem mem_foldl_insert {l : List β} (hl : l.Pairwise fun a b => key a ≠ key b) :
    x ∈ (l.foldl insert m).items ↔ x ∈ l ∨ x ∈ m.items ∧ ∀ y ∈ l, key x ≠ key y := by
  induction l generalizing m with
  | nil => simp
  | cons v rest ih =>
    obtain ⟨hfirst, hrest⟩ := List.pairwise_cons.1 hl
    rw [List.foldl_cons, ih hrest, mem_insert, List.mem_cons, List.forall_mem_cons, or_and_right,
      and_assoc, or_left_comm, ← or_assoc]
    refine or_congr_left (or_congr_left (and_iff_left_of_imp ?_))
    rintro rfl
    exact hfirst

theorem items_ofList {l : List β} (hl : l.Pairwise fun a b => compare (key a) (key b) = .lt) :
    (ofList l : KeyedMap key).items = l := by
  refine eq_of_sorted (sorted _) hl fun x => ?_
  rw [ofList, mem_foldl_insert (hl.imp ne_of_compare_lt)]
  exact or_iff_left fun h => List.not_mem_nil h.1

/-! ## Items under one key -/

variable [DecidableEq κ]

/-- The items with other keys than a given one. -/
def others (m : KeyedMap key) (k : κ) : List β :=
  m.items.filter fun x => key x ≠ k

omit [Std.TransOrd κ] [Std.LawfulEqOrd κ] in
theorem mem_others : x ∈ m.others k ↔ x ∈ m.items ∧ key x ≠ k := by
  simp [others]

omit [Std.LawfulEqOrd κ] in
theorem nodup_cons_others (h : key x = k) : (x :: m.others k).Nodup :=
  List.nodup_cons.2 ⟨fun hx => (mem_others.1 hx).2 h, m.nodup_items.filter _⟩

theorem perm_items_insert : (m.insert v).items.Perm (v :: m.others (key v)) := by
  refine (List.perm_ext_iff_of_nodup (nodup_items _) (nodup_cons_others rfl)).2 fun x => ?_
  rw [mem_insert, List.mem_cons, mem_others]

theorem perm_items_of_find? (h : m.find? k = some x) : m.items.Perm (x :: m.others k) := by
  obtain ⟨hx, rfl⟩ := find?_eq_some.1 h
  refine (List.perm_ext_iff_of_nodup (nodup_items _) (nodup_cons_others rfl)).2 fun y => ?_
  rw [List.mem_cons, mem_others]
  constructor
  · intro hy
    by_cases hkey : key y = key x
    · exact .inl (eq_of_key_eq hy hx hkey)
    · exact .inr ⟨hy, hkey⟩
  · rintro (rfl | ⟨hy, _⟩)
    · exact hx
    · exact hy

theorem others_of_find? (h : m.find? k = none) : m.others k = m.items := by
  refine List.filter_eq_self.2 fun x hx => ?_
  exact decide_eq_true (find?_eq_none.1 h x hx)

theorem size_insert_of_find? (h : m.find? (key v) = none) : (m.insert v).size = m.size + 1 := by
  rw [size, perm_items_insert.length_eq, others_of_find? h]
  rfl

end MapPlan.KeyedMap
