import MapPlan.Json.Reader

/-!
# Reading what was written

The reader gives back a value from its compact form, and stops where that ends. The compact form
therefore determines the value, even at the start of a longer text. Only a number may run on into
what follows it, so what follows one must not start with a digit.
-/

namespace MapPlan.Json

open Reader

variable {x y : List Char}

/-! ## Strings -/

theorem hexNumber?_hexDigit :
    ∀ n < 0x20, Text.hexNumber? ['0', '0', hexDigit (n / 16), hexDigit (n % 16)] = some n := by
  decide

theorem codeEscape?_hexDigit {c : Char} (hc : c.toNat < 0x20) :
    codeEscape? ('0' :: '0' :: hexDigit (c.toNat / 16) :: hexDigit (c.toNat % 16) :: x) =
      some (c, x) := by
  have hnumber := hexNumber?_hexDigit c.toNat hc
  have hvalid : c.toNat.isValidChar := c.valid
  have htake : Text.takeHex? 4
      ('0' :: '0' :: hexDigit (c.toNat / 16) :: hexDigit (c.toNat % 16) :: x) =
      some (c.toNat, x) := by
    simp [Text.takeHex?, hnumber]
  have hlow : highSurrogate c.toNat = false := by
    simp only [highSurrogate, Bool.and_eq_false_iff, decide_eq_false_iff_not]
    omega
  simp [codeEscape?, htake, hlow, Text.charOfCode?, hvalid]

/-- A character is written as itself or as an escape. -/
theorem escape_cases (c : Char) :
    (escape c = [c] ∧ c ≠ '\x22' ∧ c ≠ '\\' ∧ ¬ c.toNat < 0x20) ∨
    ∃ code, escape c = '\\' :: code ∧ ∀ x, escape? (code ++ x) = some (c, x) := by
  unfold escape
  split
  · subst c; exact .inr ⟨_, rfl, fun _ => rfl⟩
  split
  · subst c; exact .inr ⟨_, rfl, fun _ => rfl⟩
  split
  · subst c; exact .inr ⟨_, rfl, fun _ => rfl⟩
  split
  · subst c; exact .inr ⟨_, rfl, fun _ => rfl⟩
  split
  · subst c; exact .inr ⟨_, rfl, fun _ => rfl⟩
  split
  · subst c; exact .inr ⟨_, rfl, fun _ => rfl⟩
  split
  · subst c; exact .inr ⟨_, rfl, fun _ => rfl⟩
  split
  · rename_i hc
    exact .inr ⟨_, rfl, fun _ => codeEscape?_hexDigit hc⟩
  · exact .inl ⟨rfl, ‹_›, ‹_›, ‹_›⟩

theorem stringTail?_flatMap_escape (s : List Char) :
    stringTail? (s.flatMap escape ++ '\x22' :: x) = some (s, x) := by
  induction s with
  | nil => rw [stringTail?.eq_def]; simp
  | cons c s ih =>
    rw [List.flatMap_cons, List.append_assoc, stringTail?.eq_def]
    obtain ⟨hself, hquote, hslash, hcontrol⟩ | ⟨code, hcode, hread⟩ := escape_cases c
    · simp [hself, hquote, hslash, hcontrol, ih]
    · simp only [hcode, List.cons_append, hread]
      simp [ih]

theorem string?_quoted (s : String) : string? (quoted s ++ x) = some (s, x) := by
  simp [quoted, string?, stringTail?_flatMap_escape]

/-! ## Numbers -/

/-- A text that a number can stand before. -/
def Stops (x : List Char) : Prop :=
  ∀ c ∈ x.head?, c.isDigit = false

theorem digitChar_ne_zero : ∀ n < 10, 0 < n → n.digitChar ≠ '0' := by
  decide

theorem head?_toDigits_ne_zero {n : Nat} (hn : 0 < n) : (Nat.toDigits 10 n).head? ≠ some '0' := by
  induction n using Nat.base_induction 10 (by decide) with
  | single n hlt =>
    rw [Nat.toDigits_of_lt_base hlt, List.head?_cons]
    exact fun h => digitChar_ne_zero n hlt hn (Option.some.inj h)
  | digit n d hd hpos ih =>
    obtain ⟨c, s, hcs⟩ := List.exists_cons_of_ne_nil (Nat.toDigits_ne_nil (n := n) (b := 10))
    rw [← Nat.toDigits_append_toDigits (by decide) hpos hd, hcs]
    rw [hcs] at ih
    exact ih hpos

theorem takeWhile_toDigits (n : Nat) (hx : Stops x) :
    (Nat.toDigits 10 n ++ x).takeWhile Char.isDigit = Nat.toDigits 10 n ∧
      (Nat.toDigits 10 n ++ x).dropWhile Char.isDigit = x := by
  have hdigits : ∀ c ∈ Nat.toDigits 10 n, c.isDigit :=
    fun c hc => Nat.isDigit_of_mem_toDigits (by decide) (by decide) hc
  rw [List.takeWhile_append_of_pos hdigits, List.dropWhile_append_of_pos hdigits]
  cases x with
  | nil => simp
  | cons c x => simp [hx c rfl]

theorem natural?_toDigits (n : Nat) (hx : Stops x) :
    natural? (Nat.toDigits 10 n ++ x) = some (n, x) := by
  obtain ⟨htake, hdrop⟩ := takeWhile_toDigits n hx
  rw [natural?, htake, hdrop]
  split
  · rename_i h
    exact absurd h Nat.toDigits_ne_nil
  · rename_i c s h
    rcases Nat.eq_zero_or_pos n with rfl | hpos
    · cases h
    · exact absurd (by rw [h]; rfl) (head?_toDigits_ne_zero hpos)
  · exact congrArg (fun n => some (n, x)) Nat.ofDigitChars_ten_toDigits

theorem exists_digit_toDigits (n : Nat) :
    ∃ c s, Nat.toDigits 10 n = c :: s ∧ c.isDigit := by
  obtain ⟨c, s, hcs⟩ := List.exists_cons_of_ne_nil (Nat.toDigits_ne_nil (n := n) (b := 10))
  refine ⟨c, s, hcs, Nat.isDigit_of_mem_toDigits (b := 10) (n := n) (by decide) (by decide) ?_⟩
  rw [hcs]
  exact List.mem_cons_self

theorem integer?_decimal (n : Int) (hx : Stops x) : integer? (decimal n ++ x) = some (n, x) := by
  cases n with
  | ofNat n =>
    have hread := natural?_toDigits n hx
    obtain ⟨c, s, hcs, hdigit⟩ := exists_digit_toDigits n
    rw [hcs, List.cons_append] at hread
    rw [decimal, hcs, List.cons_append, integer?, hread]
    · rfl
    · rintro _ ⟨⟩
      cases hdigit
  | negSucc n =>
    rw [decimal, List.cons_append, integer?, natural?_toDigits _ hx]
    rfl

/-! ## Values -/

/-- What may follow a value in a longer text. -/
def Ends (x : List Char) : Json → Prop
  | .int _ => Stops x
  | _ => True

theorem ends_of_stops (hx : Stops x) (j : Json) : j.Ends x := by
  cases j with
  | int n => exact hx
  | _ => trivial

theorem stops_nil : Stops [] := by
  rintro _ ⟨⟩

theorem stops_cons {c : Char} (hc : c.isDigit = false) : Stops (c :: x) := by
  rintro _ ⟨⟩
  exact hc

/-- No written value starts like the end of an array, or with a blank. -/
theorem exists_lead (j : Json) :
    ∃ c s, compactChars j = c :: s ∧ isBlank c = false ∧ c ≠ ']' := by
  cases j with
  | null => exact ⟨_, _, rfl, rfl, by decide⟩
  | bool b => cases b <;> exact ⟨_, _, rfl, rfl, by decide⟩
  | int n =>
    rw [compactChars]
    cases n with
    | ofNat n =>
      obtain ⟨c, s, hcs, hdigit⟩ := exists_digit_toDigits n
      refine ⟨c, s, hcs, ?_, ?_⟩
      · simp only [isBlank, Bool.or_eq_false_iff, beq_eq_false_iff_ne]
        refine ⟨⟨⟨?_, ?_⟩, ?_⟩, ?_⟩ <;> rintro rfl <;> cases hdigit
      · rintro rfl
        cases hdigit
    | negSucc n => exact ⟨_, _, rfl, rfl, by decide⟩
  | str s => exact ⟨_, _, rfl, rfl, by decide⟩
  | arr items => exact ⟨_, _, rfl, rfl, by decide⟩
  | obj fields => exact ⟨_, _, rfl, rfl, by decide⟩

theorem skipBlanks_cons {c : Char} (hc : isBlank c = false) : skipBlanks (c :: x) = c :: x := by
  rw [skipBlanks, List.dropWhile_cons_of_neg (by simp [hc])]

theorem skipBlanks_compactChars (j : Json) :
    skipBlanks (compactChars j ++ x) = compactChars j ++ x := by
  obtain ⟨c, s, hcs, hblank, _⟩ := exists_lead j
  rw [hcs, List.cons_append, skipBlanks_cons hblank]

theorem exists_lead_items (j : Json) (items : List Json) :
    ∃ c t, compactItems (j :: items) ++ x = c :: t ∧ isBlank c = false ∧ c ≠ ']' := by
  obtain ⟨c, s, hcs, hlead⟩ := exists_lead j
  cases items <;> exact ⟨c, _, by rw [compactItems, hcs]; rfl, hlead⟩

theorem exists_lead_fields (name : String) (j : Json) (fields : List (String × Json)) :
    ∃ t, compactFields ((name, j) :: fields) ++ x = '\x22' :: t := by
  cases fields <;> exact ⟨_, by rw [compactFields, quoted]; rfl⟩

/-! Each kind of value is read given that its parts are. -/

variable {fuel : Nat} {j : Json} {items : List Json} {fields : List (String × Json)}

theorem value?_absent : value? (fuel + 1) (absent ++ x) = some (.null, x) := by
  simp [value?, absent, after?]

theorem value?_bit (b : Bool) : value? (fuel + 1) (bit b ++ x) = some (.bool b, x) := by
  cases b <;> simp [value?, bit, absent, after?]

theorem value?_decimal (n : Int) (hx : Stops x) :
    value? (fuel + 1) (decimal n ++ x) = some (.int n, x) := by
  have hread := integer?_decimal n hx
  obtain ⟨c, s, hcs, hlead⟩ : ∃ c s, decimal n = c :: s ∧ (c.isDigit ∨ c = '-') := by
    cases n with
    | ofNat n =>
      obtain ⟨c, s, hcs, hdigit⟩ := exists_digit_toDigits n
      exact ⟨c, s, hcs, .inl hdigit⟩
    | negSucc n => exact ⟨_, _, rfl, .inr rfl⟩
  have hne : ∀ d, d.isDigit = false → d ≠ '-' → c ≠ d := by
    rintro _ hd hd' rfl
    rcases hlead with hlead | hlead
    · rw [hlead] at hd
      cases hd
    · exact hd' hlead
  rw [hcs, List.cons_append] at hread ⊢
  rw [value?]
  · simp [after?, absent, bit, List.isPrefixOf_cons_cons, hread, (hne 'n' rfl (by decide)).symm,
      (hne 't' rfl (by decide)).symm, (hne 'f' rfl (by decide)).symm]
  · rintro _ ⟨⟩
    exact hne '\x22' rfl (by decide) rfl
  · rintro _ ⟨⟩
    exact hne '[' rfl (by decide) rfl
  · rintro _ ⟨⟩
    exact hne '\x7b' rfl (by decide) rfl

theorem value?_quoted (s : String) : value? (fuel + 1) (quoted s ++ x) = some (.str s, x) := by
  have hread := string?_quoted (x := x) s
  rw [quoted, List.cons_append, List.cons_append] at *
  rw [value?, hread]
  rfl

theorem value?_arr (hlead : ∃ c t, y = c :: t ∧ isBlank c = false ∧ c ≠ ']')
    (hread : items? fuel y = some (items, x)) :
    value? (fuel + 1) ('[' :: y) = some (.arr items, x) := by
  obtain ⟨c, t, rfl, hblank, hclose⟩ := hlead
  rw [value?, skipBlanks_cons hblank]
  split
  · rename_i h
    cases h
    exact absurd rfl hclose
  · rw [hread]
    rfl

theorem value?_obj (hlead : ∃ t, y = '\x22' :: t) (hread : fields? fuel y = some (fields, x)) :
    value? (fuel + 1) ('\x7b' :: y) = some (.obj fields, x) := by
  obtain ⟨t, rfl⟩ := hlead
  rw [value?, skipBlanks_cons rfl]
  simp [hread]

theorem items?_last (hread : value? fuel (compactChars j ++ ']' :: x) = some (j, ']' :: x)) :
    items? (fuel + 1) (compactChars j ++ ']' :: x) = some ([j], x) := by
  rw [items?, skipBlanks_compactChars, hread]
  rfl

theorem items?_cons (hread : value? fuel (compactChars j ++ ',' :: y) = some (j, ',' :: y))
    (hrest : items? fuel y = some (items, x)) :
    items? (fuel + 1) (compactChars j ++ ',' :: y) = some (j :: items, x) := by
  rw [items?, skipBlanks_compactChars, hread]
  simp [skipBlanks_cons, isBlank, hrest]

theorem fields?_last {name : String}
    (hread : value? fuel (compactChars j ++ '\x7d' :: x) = some (j, '\x7d' :: x)) :
    fields? (fuel + 1) (quoted name ++ ':' :: (compactChars j ++ '\x7d' :: x)) =
      some ([(name, j)], x) := by
  have hquote : skipBlanks (quoted name ++ ':' :: (compactChars j ++ '\x7d' :: x)) =
      quoted name ++ ':' :: (compactChars j ++ '\x7d' :: x) := skipBlanks_cons rfl
  rw [fields?, hquote, string?_quoted]
  simp [skipBlanks_cons, isBlank, skipBlanks_compactChars, hread]

theorem fields?_cons {name : String}
    (hread : value? fuel (compactChars j ++ ',' :: y) = some (j, ',' :: y))
    (hrest : fields? fuel y = some (fields, x)) :
    fields? (fuel + 1) (quoted name ++ ':' :: (compactChars j ++ ',' :: y)) =
      some ((name, j) :: fields, x) := by
  have hquote : skipBlanks (quoted name ++ ':' :: (compactChars j ++ ',' :: y)) =
      quoted name ++ ':' :: (compactChars j ++ ',' :: y) := skipBlanks_cons rfl
  rw [fields?, hquote, string?_quoted]
  simp [skipBlanks_cons, isBlank, skipBlanks_compactChars, hread, hrest]

mutual

theorem value?_compactChars (fuel : Nat) (j : Json) {x : List Char}
    (hfuel : (compactChars j).length ≤ fuel) (hx : j.Ends x) :
    value? fuel (compactChars j ++ x) = some (j, x) := by
  match fuel with
  | 0 =>
    obtain ⟨c, s, hcs, _, _⟩ := exists_lead j
    rw [hcs, List.length_cons] at hfuel
    omega
  | fuel + 1 =>
    match j with
    | .null => exact value?_absent
    | .bool b => exact value?_bit b
    | .int n => exact value?_decimal n hx
    | .str s => exact value?_quoted s
    | .arr [] => rfl
    | .arr (j :: items) =>
      rw [compactChars, List.length_cons] at hfuel
      exact value?_arr (exists_lead_items j items)
        (items?_compactItems fuel (j :: items) nofun (by omega))
    | .obj [] => rfl
    | .obj ((name, j) :: fields) =>
      rw [compactChars, List.length_cons] at hfuel
      exact value?_obj (exists_lead_fields name j fields)
        (fields?_compactFields fuel ((name, j) :: fields) nofun (by omega))

theorem items?_compactItems (fuel : Nat) (items : List Json) {x : List Char} (hne : items ≠ [])
    (hfuel : (compactItems items).length ≤ fuel) :
    items? fuel (compactItems items ++ x) = some (items, x) := by
  match fuel, items with
  | 0, [j] => simp [compactItems] at hfuel
  | 0, j :: k :: rest => simp [compactItems] at hfuel
  | fuel + 1, [j] =>
    simp only [compactItems, List.length_append, List.length_singleton] at hfuel
    simp only [compactItems, List.append_assoc]
    exact items?_last (value?_compactChars fuel j (by omega) (ends_of_stops (stops_cons rfl) j))
  | fuel + 1, j :: k :: rest =>
    simp only [compactItems, List.length_append, List.length_cons] at hfuel
    simp only [compactItems, List.append_assoc]
    exact items?_cons (value?_compactChars fuel j (by omega) (ends_of_stops (stops_cons rfl) j))
      (items?_compactItems fuel (k :: rest) nofun (by omega))

theorem fields?_compactFields (fuel : Nat) (fields : List (String × Json)) {x : List Char}
    (hne : fields ≠ []) (hfuel : (compactFields fields).length ≤ fuel) :
    fields? fuel (compactFields fields ++ x) = some (fields, x) := by
  match fuel, fields with
  | 0, [(name, j)] => simp [compactFields] at hfuel
  | 0, (name, j) :: f :: rest => simp [compactFields] at hfuel
  | fuel + 1, [(name, j)] =>
    simp only [compactFields, List.length_append, List.length_cons] at hfuel
    simp only [compactFields, List.append_assoc]
    exact fields?_last (value?_compactChars fuel j (by omega) (ends_of_stops (stops_cons rfl) j))
  | fuel + 1, (name, j) :: f :: rest =>
    simp only [compactFields, List.length_append, List.length_cons] at hfuel
    simp only [compactFields, List.append_assoc]
    exact fields?_cons (value?_compactChars fuel j (by omega) (ends_of_stops (stops_cons rfl) j))
      (fields?_compactFields fuel (f :: rest) nofun (by omega))

end

/-! ## The written text -/

/-- A written value is read back. -/
theorem read?_compact (j : Json) : read? j.compact = some j := by
  have hread := value?_compactChars (j.compactChars.length + 1) j (x := []) (by omega)
    (ends_of_stops stops_nil j)
  have hskip := skipBlanks_compactChars (x := []) j
  rw [List.append_nil] at hread hskip
  simp only [read?, compact, String.toList_ofList, hskip, hread]
  rfl

/-- A text that starts with a written value starts with no other. -/
theorem compactChars_append_cancel {j k : Json} (hx : j.Ends x) (hy : k.Ends y)
    (h : compactChars j ++ x = compactChars k ++ y) : j = k ∧ x = y := by
  let fuel := (compactChars j).length + (compactChars k).length
  have hj := value?_compactChars fuel j (by omega) hx
  have hk := value?_compactChars fuel k (by omega) hy
  rw [h, hk] at hj
  cases hj
  exact ⟨rfl, rfl⟩

theorem compact_injective {j k : Json} (h : j.compact = k.compact) : j = k := by
  have hj := read?_compact j
  rw [h, read?_compact k] at hj
  exact (Option.some.inj hj).symm

end MapPlan.Json
