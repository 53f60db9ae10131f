import Mathlib.Data.List.Basic
import MapPlan.Plan.Settings

/-!
# Options of a text

Options are told apart by the values of their settings, and settings give the options that have
each value that is set and the default of each that is not. A text gives none just where it is no
list of settings, sets one twice or to a value that no options have, or names a target that is no
identifier.
-/

namespace MapPlan.Options

variable {o o' : Options} {name : String} {v : Toml.Value} {s : String × Toml.Value}
  {settings : List (String × Toml.Value)} {text : String} {e : SettingsError}

/-! ## Values of settings -/

/-- The value that a setting has in the options. -/
def value? (o : Options) : String → Option Toml.Value
  | "parameter_target" => some (.scalar (.str o.parameterTarget))
  | "parallel" => some (.scalar (.bool o.parallel))
  | "plan_cache_capacity" => some (.scalar (.int o.planCacheCapacity))
  | "escalate_missing_source" => some (.scalar (.bool o.escalateMissingSource))
  | "conventional_aliases" => some (.array (o.conventionalAliases.map .str))
  | _ => none

theorem ext_value? (h : ∀ name, o.value? name = o'.value? name) : o = o' := by
  have htarget := h "parameter_target"
  have hparallel := h "parallel"
  have hcapacity := h "plan_cache_capacity"
  have hescalate := h "escalate_missing_source"
  have haliases := h "conventional_aliases"
  simp only [value?, Option.some.injEq, Toml.Value.scalar.injEq, Toml.Scalar.str.injEq,
    Toml.Scalar.bool.injEq, Toml.Scalar.int.injEq, Toml.Value.array.injEq, Int.natCast_inj,
    List.map_inj_right fun _ _ => Toml.Scalar.str.inj]
    at htarget hparallel hcapacity hescalate haliases
  cases o
  cases o'
  congr

/-! ## Setting one value -/

theorem strings?_eq_some_iff {items : List Toml.Scalar} {strings : List String} :
    strings? items = some strings ↔ items = strings.map .str := by
  induction items generalizing strings with
  | nil => simp [strings?, eq_comm]
  | cons item items ih =>
    simp only [strings?] at ih ⊢
    simp only [List.mapM_cons, Option.bind_eq_bind, Option.bind_eq_some_iff, ih, Option.pure_def,
      Option.some.injEq]
    constructor
    · rintro ⟨s, hs, tail, rfl, rfl⟩
      cases item with
      | str s' =>
        cases hs
        rfl
      | _ => cases hs
    · intro h
      obtain ⟨s, tail, rfl, rfl, rfl⟩ := List.map_eq_cons_iff.1 h.symm
      exact ⟨s, rfl, tail, rfl, rfl⟩

theorem value?_of_set? (h : o.set? s = some o') : o'.value? s.1 = some s.2 := by
  unfold set? at h
  split at h
  · cases h
    rfl
  · cases h
    rfl
  · obtain ⟨hn, h⟩ := Option.ite_none_right_eq_some.1 h
    cases h
    exact congrArg (fun n => some (Toml.Value.scalar (.int n))) (Int.toNat_of_nonneg hn)
  · cases h
    rfl
  · obtain ⟨aliases, haliases, rfl⟩ := Option.map_eq_some_iff.1 h
    rw [strings?_eq_some_iff.1 haliases]
    rfl
  · cases h

theorem value?_of_set?_of_ne (h : o.set? s = some o') (hname : name ≠ s.1) :
    o'.value? name = o.value? name := by
  unfold set? at h
  split at h
  -- A capacity is checked and aliases are read one by one before they are set.
  on_goal 3 => obtain ⟨_, h⟩ := Option.ite_none_right_eq_some.1 h
  on_goal 5 => obtain ⟨_, _, h⟩ := Option.map_eq_some_iff.1 h
  on_goal 6 => cases h
  all_goals
    cases h
    unfold value?
    split <;> first | rfl | contradiction

/-- What some options have for the value of a setting can be set in all. -/
theorem exists_set? (h : o'.value? name = some v) (o : Options) :
    ∃ o₁, o.set? (name, v) = some o₁ := by
  unfold value? at h
  split at h <;> cases h
  · exact ⟨_, rfl⟩
  · exact ⟨_, rfl⟩
  · rw [set?, if_pos (Int.natCast_nonneg o'.planCacheCapacity)]
    exact ⟨_, rfl⟩
  · exact ⟨_, rfl⟩
  · rw [set?, strings?_eq_some_iff.2 rfl]
    exact ⟨_, rfl⟩

/-! ## Setting all values -/

/-- The settings make `o'` of `o`. -/
structure Sets (settings : List (String × Toml.Value)) (o o' : Options) : Prop where
  set : ∀ s ∈ settings, o'.value? s.1 = some s.2
  unset : ∀ name, name ∉ settings.map Prod.fst → o'.value? name = o.value? name

theorem Sets.unique {o₁ o₂ : Options} (h₁ : Sets settings o o₁) (h₂ : Sets settings o o₂) :
    o₁ = o₂ := by
  refine ext_value? fun name => ?_
  by_cases hname : name ∈ settings.map Prod.fst
  · obtain ⟨s, hs, rfl⟩ := List.mem_map.1 hname
    rw [h₁.set s hs, h₂.set s hs]
  · rw [h₁.unset name hname, h₂.unset name hname]

theorem sets_of_foldlM (hnodup : (settings.map Prod.fst).Nodup)
    (h : settings.foldlM set? o = some o') : Sets settings o o' := by
  induction settings generalizing o with
  | nil =>
    cases h
    exact ⟨nofun, fun _ _ => rfl⟩
  | cons s settings ih =>
    obtain ⟨o₁, hset, hfold⟩ := Option.bind_eq_some_iff.1 (List.foldlM_cons.symm.trans h)
    obtain ⟨hs, hnodup⟩ := List.nodup_cons.1 hnodup
    have tail := ih hnodup hfold
    refine ⟨List.forall_mem_cons.2 ⟨?_, tail.set⟩, fun name hname => ?_⟩
    · rw [tail.unset s.1 hs, value?_of_set? hset]
    · obtain ⟨hne, hname⟩ := not_or.1 (mt List.mem_cons.2 hname)
      rw [tail.unset name hname, value?_of_set?_of_ne hset hne]

theorem exists_foldlM (h : ∀ s ∈ settings, ∃ o : Options, o.value? s.1 = some s.2) (o : Options) :
    ∃ o', settings.foldlM set? o = some o' := by
  induction settings generalizing o with
  | nil => exact ⟨o, rfl⟩
  | cons s settings ih =>
    obtain ⟨⟨_, hs⟩, h⟩ := List.forall_mem_cons.1 h
    obtain ⟨o₁, hset⟩ := exists_set? hs o
    obtain ⟨o', hfold⟩ := ih h o₁
    exact ⟨o', List.foldlM_cons.trans (Option.bind_eq_some_iff.2 ⟨o₁, hset, hfold⟩)⟩

theorem ofSettings?_eq_some_iff :
    ofSettings? settings = some o ↔ (settings.map Prod.fst).Nodup ∧ Sets settings {} o := by
  rw [ofSettings?, Option.ite_none_right_eq_some]
  refine and_congr_right fun hnodup => ⟨sets_of_foldlM hnodup, fun h => ?_⟩
  obtain ⟨o', hfold⟩ := exists_foldlM (fun s hs => ⟨o, h.set s hs⟩) {}
  rw [hfold, (sets_of_foldlM hnodup hfold).unique h]

theorem exists_ofSettings?_iff :
    (∃ o, ofSettings? settings = some o) ↔ (settings.map Prod.fst).Nodup ∧
      ∀ s ∈ settings, ∃ o : Options, o.value? s.1 = some s.2 := by
  constructor
  · rintro ⟨o, h⟩
    obtain ⟨hnodup, hsets⟩ := ofSettings?_eq_some_iff.1 h
    exact ⟨hnodup, fun s hs => ⟨o, hsets.set s hs⟩⟩
  · rintro ⟨hnodup, h⟩
    obtain ⟨o, hfold⟩ := exists_foldlM h {}
    exact ⟨o, ofSettings?_eq_some_iff.2 ⟨hnodup, sets_of_foldlM hnodup hfold⟩⟩

/-! ## Texts -/

/-- The text sets each option once at most, and so makes `o` of the defaults. -/
def Writes (text : String) (o : Options) : Prop :=
  ∃ settings, Toml.read? text = some settings ∧ (settings.map Prod.fst).Nodup ∧ Sets settings {} o

/-- Why a text gives no options. -/
inductive Refuses (text : String) : SettingsError → Prop where
  | unread : Toml.read? text = none → Refuses text .malformed
  | repeated {settings : List (String × Toml.Value)} : Toml.read? text = some settings →
      ¬ (settings.map Prod.fst).Nodup → Refuses text .malformed
  /-- No options have such a value, so there is no such setting or its value has another type. -/
  | unknown {settings : List (String × Toml.Value)} {s : String × Toml.Value} :
      Toml.read? text = some settings → s ∈ settings →
      (∀ o : Options, o.value? s.1 ≠ some s.2) → Refuses text .malformed
  | target {o : Options} : Writes text o → ¬ isPlainIdentifier o.parameterTarget.toList →
      Refuses text (.invalid ⟨o.parameterTarget⟩)

theorem writes_iff : Writes text o ↔ (Toml.read? text).bind ofSettings? = some o := by
  simp only [Writes, Option.bind_eq_some_iff, ofSettings?_eq_some_iff]

theorem refuses_malformed_iff :
    Refuses text .malformed ↔ (Toml.read? text).bind ofSettings? = none := by
  rw [Option.eq_none_iff_forall_ne_some]
  constructor
  · intro h o hwrites
    obtain ⟨settings, hread, hnodup, hsets⟩ := writes_iff.2 hwrites
    cases h with
    | unread hnone => cases hnone.symm.trans hread
    | repeated hread' hrepeated =>
      cases hread.symm.trans hread'
      exact hrepeated hnodup
    | unknown hread' hs hunknown =>
      cases hread.symm.trans hread'
      exact hunknown o (hsets.set _ hs)
  · intro h
    cases hread : Toml.read? text with
    | none => exact .unread hread
    | some settings =>
      rw [hread, Option.bind_some] at h
      by_cases hnodup : (settings.map Prod.fst).Nodup
      · have hunknown := mt exists_ofSettings?_iff.2 (not_exists.2 h)
        simp only [hnodup, true_and, not_forall, not_exists] at hunknown
        obtain ⟨s, hs, hunknown⟩ := hunknown
        exact .unknown hread hs hunknown
      · exact .repeated hread hnodup

/-- A text gives the options that it writes, if their target is an identifier. -/
theorem ofText_eq_ok_iff :
    ofText text = .ok o ↔ Writes text o ∧ isPlainIdentifier o.parameterTarget.toList := by
  rw [writes_iff, ofText]
  cases (Toml.read? text).bind ofSettings? with
  | none => exact iff_of_false nofun fun h => nomatch h.1
  | some o' =>
    rw [Option.some.injEq]
    by_cases htarget : isPlainIdentifier o'.parameterTarget.toList
    · simp only [validate, if_pos htarget, Except.ok.injEq]
      exact ⟨fun heq => ⟨heq, heq ▸ htarget⟩, And.left⟩
    · simp only [validate, if_neg htarget]
      exact iff_of_false nofun fun ⟨heq, h⟩ => htarget (heq ▸ h)

theorem Refuses.ofText_eq (h : Refuses text e) : ofText text = .error e := by
  have malformed (h : Refuses text .malformed) : ofText text = .error .malformed := by
    rw [ofText, refuses_malformed_iff.1 h]
  cases h with
  | unread hread => exact malformed (.unread hread)
  | repeated hread hrepeated => exact malformed (.repeated hread hrepeated)
  | unknown hread hs hunknown => exact malformed (.unknown hread hs hunknown)
  | target hwrites htarget =>
    rw [ofText, writes_iff.1 hwrites]
    simp only [validate, if_neg htarget]

theorem ofText_eq_error_iff : ofText text = .error e ↔ Refuses text e := by
  refine ⟨fun h => ?_, Refuses.ofText_eq⟩
  rw [ofText] at h
  cases hwrites : (Toml.read? text).bind ofSettings? with
  | none =>
    rw [hwrites] at h
    cases h
    exact refuses_malformed_iff.2 hwrites
  | some o =>
    rw [hwrites] at h
    by_cases htarget : isPlainIdentifier o.parameterTarget.toList
    · simp only [validate, if_pos htarget] at h
      cases h
    · simp only [validate, if_neg htarget] at h
      cases h
      exact .target (writes_iff.2 hwrites) htarget

example : ofText "plan_cache_capacity = 5 # plans\nparallel = false" =
    .ok { planCacheCapacity := 5, parallel := false } := by
  decide +kernel

end MapPlan.Options
