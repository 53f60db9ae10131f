import MapPlan.Regex

/-!
# Languages, derivatives and longest matches

The derivative of an expression by a character has exactly the texts that may follow it, so the
search by derivatives finds the longest start of a text that belongs to the language, and finds
nothing only where no start does.
-/

namespace MapPlan.Regex

variable {a b r : Regex} {c : Char} {s : List Char} {n : Nat}

/-! ## Languages, one constructor at a time -/

@[simp] theorem not_matches_void : ¬ Matches .void s := nofun

@[simp] theorem matches_empty : Matches .empty s ↔ s = [] := by
  constructor
  · rintro ⟨⟩
    rfl
  · rintro rfl
    exact .empty

theorem matches_char {p : Char → Bool} : Matches (.char p) s ↔ ∃ c, p c ∧ s = [c] := by
  constructor
  · rintro ⟨⟩
    exact ⟨_, ‹_›, rfl⟩
  · rintro ⟨c, hc, rfl⟩
    exact .char hc

theorem matches_seq :
    Matches (.seq a b) s ↔ ∃ t u, s = t ++ u ∧ Matches a t ∧ Matches b u := by
  constructor
  · rintro ⟨⟩
    exact ⟨_, _, rfl, ‹_›, ‹_›⟩
  · rintro ⟨t, u, rfl, ht, hu⟩
    exact .seq ht hu

theorem matches_alt : Matches (.alt a b) s ↔ Matches a s ∨ Matches b s := by
  constructor
  · intro h
    cases h with
    | altLeft h => exact .inl h
    | altRight h => exact .inr h
  · rintro (h | h)
    · exact .altLeft h
    · exact .altRight h

/-- What holds of no text, and of a piece before a text of which it holds, holds of a repetition. -/
theorem star_induction {P : List Char → Prop} (nil : P [])
    (cons : ∀ t u, Matches a t → Matches (.star a) u → P u → P (t ++ u))
    (h : Matches (.star a) s) : P s := by
  generalize hr : Regex.star a = r at h
  induction h with
  | starNil => exact nil
  | starCons ht hu _ ih =>
    cases hr
    exact cons _ _ ht hu (ih rfl)
  | _ => cases hr

theorem matches_exactly : Matches (exactly c) s ↔ s = [c] := by
  rw [exactly, matches_char]
  constructor
  · rintro ⟨d, hd, rfl⟩
    rw [eq_of_beq hd]
  · rintro rfl
    exact ⟨c, beq_self_eq_true c, rfl⟩

theorem matches_anyBut {cs : List Char} :
    Matches (anyBut cs) s ↔ ∃ c, c ∉ cs ∧ s = [c] := by
  simp [anyBut, matches_char]

theorem matches_text {t : List Char} : Matches (text t) s ↔ s = t := by
  induction t generalizing s with
  | nil => exact matches_empty
  | cons c t ih =>
    cases t with
    | nil => exact matches_exactly
    | cons d t =>
      rw [text, matches_seq]
      constructor
      · rintro ⟨u, v, rfl, hu, hv⟩
        rw [matches_exactly.1 hu, ih.1 hv]
        rfl
      · rintro rfl
        exact ⟨[c], d :: t, rfl, matches_exactly.2 rfl, ih.2 rfl⟩
      · exact nofun

theorem matches_exactly_seq : Matches (.seq (exactly c) a) s ↔ ∃ t, s = c :: t ∧ Matches a t := by
  rw [matches_seq]
  constructor
  · rintro ⟨_, t, rfl, hc, ht⟩
    rw [matches_exactly.1 hc]
    exact ⟨t, rfl, ht⟩
  · rintro ⟨t, rfl, ht⟩
    exact ⟨[c], t, rfl, matches_exactly.2 rfl, ht⟩

theorem matches_text_seq {t : List Char} :
    Matches (.seq (text t) a) s ↔ ∃ u, s = t ++ u ∧ Matches a u := by
  rw [matches_seq]
  constructor
  · rintro ⟨_, u, rfl, ht, hu⟩
    rw [matches_text.1 ht]
    exact ⟨u, rfl, hu⟩
  · rintro ⟨u, rfl, hu⟩
    exact ⟨t, u, rfl, matches_text.2 rfl, hu⟩

theorem matches_plus :
    Matches (plus a) s ↔ ∃ t u, s = t ++ u ∧ Matches a t ∧ Matches (.star a) u :=
  matches_seq

theorem matches_optional : Matches (optional a) s ↔ s = [] ∨ Matches a s := by
  rw [optional, matches_alt, matches_empty]

/-- A repetition of single characters. -/
theorem matches_star_char {p : Char → Bool} : Matches (.star (.char p)) s ↔ ∀ c ∈ s, p c := by
  constructor
  · intro h
    refine star_induction (P := fun s => ∀ c ∈ s, p c) (by simp) (fun t u ht _ ih => ?_) h
    obtain ⟨c, hc, rfl⟩ := matches_char.1 ht
    exact List.forall_mem_cons.2 ⟨hc, ih⟩
  · intro h
    induction s with
    | nil => exact .starNil
    | cons c s ih =>
      obtain ⟨hc, hs⟩ := List.forall_mem_cons.1 h
      exact .starCons (s := [c]) (.char hc) (ih hs)

theorem matches_plus_char {p : Char → Bool} :
    Matches (plus (.char p)) s ↔ s ≠ [] ∧ ∀ c ∈ s, p c := by
  rw [matches_plus]
  constructor
  · rintro ⟨t, u, rfl, ht, hu⟩
    obtain ⟨c, hc, rfl⟩ := matches_char.1 ht
    exact ⟨nofun, List.forall_mem_cons.2 ⟨hc, matches_star_char.1 hu⟩⟩
  · rintro ⟨hne, h⟩
    cases s with
    | nil => exact absurd rfl hne
    | cons c s =>
      obtain ⟨hc, hs⟩ := List.forall_mem_cons.1 h
      exact ⟨[c], s, rfl, .char hc, matches_star_char.2 hs⟩

/-- What ends in a repetition of single characters goes on with any of them. -/
theorem matches_seq_star_concat {p : Char → Bool} (h : Matches (.seq a (.star (.char p))) s)
    (hc : p c) : Matches (.seq a (.star (.char p))) (s ++ [c]) := by
  obtain ⟨t, u, rfl, ht, hu⟩ := matches_seq.1 h
  rw [List.append_assoc]
  refine .seq ht (matches_star_char.2 fun d hd => ?_)
  rcases List.mem_append.1 hd with hd | hd
  · exact matches_star_char.1 hu d hd
  · rw [List.mem_singleton.1 hd]
    exact hc

/-- Behind the first piece there are only the single characters that repeat. -/
theorem of_matches_seq_star_append {p : Char → Bool} {u v : List Char}
    (h : Matches (.seq a (.star (.char p))) (u ++ c :: v))
    (ha : ∀ t, Matches a t → t.length ≤ u.length) : p c := by
  obtain ⟨t, w, heq, ht, hw⟩ := matches_seq.1 h
  refine matches_star_char.1 hw c ?_
  rcases List.append_eq_append_iff.1 heq with ⟨x, rfl, hx⟩ | ⟨x, rfl, rfl⟩
  · have hle := ha _ ht
    rw [List.length_append] at hle
    have hnil : x = [] := List.length_eq_zero_iff.1 (by omega)
    rw [hnil, List.nil_append] at hx
    rw [← hx]
    exact List.mem_cons_self
  · exact List.mem_append_right _ List.mem_cons_self

/-! ## Derivatives -/

theorem matches_seqOf : Matches (seqOf a b) s ↔ Matches (.seq a b) s := by
  unfold seqOf
  split
  · simp [matches_seq]
  · simp [matches_seq]
  · rw [matches_seq]
    constructor
    · intro h
      exact ⟨[], s, rfl, .empty, h⟩
    · rintro ⟨t, u, rfl, ht, hu⟩
      rw [matches_empty.1 ht]
      exact hu
  · rfl

theorem matches_altOf : Matches (altOf a b) s ↔ Matches (.alt a b) s := by
  unfold altOf
  split
  · simp [matches_alt]
  · simp [matches_alt]
  · rfl

theorem nullable_iff : r.nullable ↔ Matches r [] := by
  induction r with
  | void => simp [nullable]
  | empty => simp [nullable]
  | char p => simp [nullable, matches_char]
  | seq a b iha ihb => simp [nullable, matches_seq, iha, ihb, and_assoc]
  | alt a b iha ihb => simp [nullable, matches_alt, iha, ihb]
  | star a _ => simp [nullable, Matches.starNil]

/-- A repetition that starts with `c` starts with a piece that does: empty pieces may be left
out. -/
theorem matches_star_cons :
    Matches (.star a) (c :: s) ↔
      ∃ t u, s = t ++ u ∧ Matches a (c :: t) ∧ Matches (.star a) u := by
  constructor
  · intro h
    generalize hw : c :: s = w at h
    revert hw
    refine star_induction (P := fun w => c :: s = w →
      ∃ t u, s = t ++ u ∧ Matches a (c :: t) ∧ Matches (.star a) u)
      (fun hw => nomatch hw) (fun t u ht hu ih hw => ?_) h
    cases t with
    | nil => exact ih hw
    | cons d t =>
      obtain ⟨rfl, rfl⟩ := List.cons.inj hw
      exact ⟨t, u, rfl, ht, hu⟩
  · rintro ⟨t, u, rfl, ht, hu⟩
    exact .starCons ht hu

theorem matches_seq_cons :
    Matches (.seq a b) (c :: s) ↔
      (∃ t u, s = t ++ u ∧ Matches a (c :: t) ∧ Matches b u) ∨
        Matches a [] ∧ Matches b (c :: s) := by
  rw [matches_seq]
  constructor
  · rintro ⟨t, u, heq, ht, hu⟩
    cases t with
    | nil => exact .inr ⟨ht, by rw [heq]; exact hu⟩
    | cons d t =>
      obtain ⟨rfl, rfl⟩ := List.cons.inj heq
      exact .inl ⟨t, u, rfl, ht, hu⟩
  · rintro (⟨t, u, rfl, ht, hu⟩ | ⟨ha, hb⟩)
    · exact ⟨c :: t, u, rfl, ht, hu⟩
    · exact ⟨[], c :: s, rfl, ha, hb⟩

theorem matches_deriv : Matches (r.deriv c) s ↔ Matches r (c :: s) := by
  induction r generalizing s with
  | void => simp [deriv]
  | empty => simp [deriv]
  | char p =>
    rw [deriv, matches_char]
    split
    · rename_i h
      simp only [matches_empty, List.cons.injEq]
      constructor
      · rintro rfl
        exact ⟨c, h, rfl, rfl⟩
      · rintro ⟨_, _, _, hs⟩
        exact hs
    · rename_i h
      simp only [not_matches_void, List.cons.injEq, false_iff]
      rintro ⟨d, hd, rfl, _⟩
      exact h hd
  | seq a b iha ihb =>
    rw [deriv, matches_seq_cons]
    split
    · rename_i h
      simp only [matches_altOf, matches_alt, matches_seqOf, matches_seq, iha, ihb,
        nullable_iff.1 h, true_and]
    · rename_i h
      simp only [matches_seqOf, matches_seq, iha, mt nullable_iff.2 h, false_and, or_false]
  | alt a b iha ihb => simp only [deriv, matches_altOf, matches_alt, iha, ihb]
  | star a ih => simp only [deriv, matches_seqOf, matches_seq, ih, matches_star_cons]

/-! ## Longest matches -/

theorem longest?_nil : r.longest? [] = if r.nullable then some 0 else none := by
  cases r <;> rfl

theorem longest?_cons :
    r.longest? (c :: s) =
      match (r.deriv c).longest? s with
      | some n => some (n + 1)
      | none => if r.nullable then some 0 else none := by
  cases r with
  | void => cases s <;> rfl
  | _ => rfl

/-- What the search finds is a start of the text, belongs to the language, and no longer start
does; where it finds nothing, no start at all belongs to it. -/
theorem longest?_spec (r : Regex) (s : List Char) :
    match r.longest? s with
    | some n => n ≤ s.length ∧ Matches r (s.take n) ∧
        ∀ m, n < m → m ≤ s.length → ¬ Matches r (s.take m)
    | none => ∀ m, m ≤ s.length → ¬ Matches r (s.take m) := by
  induction s generalizing r with
  | nil =>
    rw [longest?_nil]
    by_cases h : r.nullable
    · rw [if_pos h]
      refine ⟨Nat.le_refl _, nullable_iff.1 h, fun m hm hle => ?_⟩
      exact absurd (Nat.lt_of_lt_of_le hm hle) (Nat.lt_irrefl _)
    · rw [if_neg h]
      intro m _
      rw [List.take_nil]
      exact mt nullable_iff.2 h
  | cons c s ih =>
    have step : ∀ m, Matches r ((c :: s).take (m + 1)) ↔ Matches (r.deriv c) (s.take m) :=
      fun m => matches_deriv.symm
    have tail := ih (r.deriv c)
    rw [longest?_cons]
    cases hd : (r.deriv c).longest? s with
    | some n =>
      rw [hd] at tail
      obtain ⟨hle, hm, hmax⟩ := tail
      refine ⟨Nat.succ_le_succ hle, (step n).2 hm, fun m hlt hml => ?_⟩
      obtain ⟨m, rfl⟩ : ∃ k, m = k + 1 := ⟨m - 1, by omega⟩
      exact mt (step m).1 (hmax m (by omega) (Nat.le_of_succ_le_succ hml))
    | none =>
      rw [hd] at tail
      have long : ∀ m, m + 1 ≤ (c :: s).length → ¬ Matches r ((c :: s).take (m + 1)) :=
        fun m hml => mt (step m).1 (tail m (Nat.le_of_succ_le_succ hml))
      by_cases h : r.nullable
      · rw [if_pos h]
        refine ⟨Nat.zero_le _, nullable_iff.1 h, fun m hlt hml => ?_⟩
        obtain ⟨m, rfl⟩ : ∃ k, m = k + 1 := ⟨m - 1, by omega⟩
        exact long m hml
      · rw [if_neg h]
        intro m hml
        cases m with
        | zero => exact mt nullable_iff.2 h
        | succ m => exact long m hml

theorem le_length_of_longest? (h : r.longest? s = some n) : n ≤ s.length := by
  have spec := longest?_spec r s
  rw [h] at spec
  exact spec.1

theorem matches_of_longest? (h : r.longest? s = some n) : Matches r (s.take n) := by
  have spec := longest?_spec r s
  rw [h] at spec
  exact spec.2.1

/-- A start that belongs to the language bounds the longest one from below. -/
theorem exists_longest?_of_matches {t u : List Char} (h : Matches r t) :
    ∃ n, r.longest? (t ++ u) = some n ∧ t.length ≤ n := by
  have spec := longest?_spec r (t ++ u)
  have hle : t.length ≤ (t ++ u).length := by simp
  have ht : Matches r ((t ++ u).take t.length) := by rwa [List.take_left]
  cases hn : r.longest? (t ++ u) with
  | none =>
    rw [hn] at spec
    exact absurd ht (spec _ hle)
  | some n =>
    rw [hn] at spec
    refine ⟨n, rfl, Nat.le_of_not_lt fun hlt => ?_⟩
    exact spec.2.2 _ hlt hle ht

end MapPlan.Regex
