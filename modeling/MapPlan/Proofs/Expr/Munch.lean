import MapPlan.Proofs.Expr.TokenRole

/-!
# How far a token reaches

The first two characters of a text settle which rule it can start with, and no text of a rule starts
another one of it, unless the next character goes on with it. So a text of a rule is taken as a
token whatever stands behind it, as long as the next character does not go on with it: the tokenizer
looks one character ahead.
-/

namespace MapPlan

/-! ## Letters and digits -/

namespace Text

variable {c : Char}

/-- Two classes that agree on each code below 128 agree on ASCII. -/
theorem eq_of_ascii (hc : c.toNat < 128) {p q : Char → Bool}
    (h : ∀ n < 128, p (Char.ofNat n) = q (Char.ofNat n)) : p c = q c := by
  have := h c.toNat hc
  rwa [Char.ofNat_toNat] at this

theorem toNat_lt_of_isAlphanum (h : c.isAlphanum) : c.toNat < 128 := by
  have below : ∀ n : UInt32, n.toNat < 128 → c.val ≤ n → c.toNat < 128 :=
    fun n hn hc => Nat.lt_of_le_of_lt hc hn
  rcases Bool.or_eq_true_iff.1 h with hletter | hdigit
  · rcases Bool.or_eq_true_iff.1 hletter with hupper | hlower
    · exact below 'Z'.val (by decide) (of_decide_eq_true hupper).2
    · exact below 'z'.val (by decide) (of_decide_eq_true (Bool.and_eq_true_iff.1 hlower).2)
  · exact below '9'.val (by decide) (of_decide_eq_true (Bool.and_eq_true_iff.1 hdigit).2)

theorem isIdentifierContinue_of_isAlphanum (h : c.isAlphanum) : isIdentifierContinue c := by
  have := eq_of_ascii (toNat_lt_of_isAlphanum h)
    (p := fun c => c.isAlphanum && isIdentifierContinue c) (q := Char.isAlphanum) (by decide)
  rw [h] at this
  exact (Bool.and_eq_true_iff.1 this).2

theorem isIdentifierStart_of_isAlpha (h : c.isAlpha) : isIdentifierStart c := by
  have hc : c.toNat < 128 := toNat_lt_of_isAlphanum (by rw [Char.isAlphanum, h, Bool.true_or])
  have := eq_of_ascii hc (p := fun c => c.isAlpha && isIdentifierStart c) (q := Char.isAlpha)
    (by decide)
  rw [h] at this
  exact (Bool.and_eq_true_iff.1 this).2

theorem le_toNat_of_isIdentifierStart (h : isIdentifierStart c) : 0x41 ≤ c.toNat := by
  rw [isIdentifierStart, identifierStartRanges, inRanges] at h
  exact of_decide_eq_true (Bool.and_eq_true_iff.1 h).1

theorem toNat_of_isDigit (h : c.isDigit) : 0x30 ≤ c.toNat ∧ c.toNat ≤ 0x39 := by
  rw [Char.isDigit, Bool.and_eq_true, decide_eq_true_iff, decide_eq_true_iff] at h
  exact h

theorem isIdentifierContinue_of_isDigit (h : c.isDigit) : isIdentifierContinue c := by
  obtain ⟨hlo, hhi⟩ := toNat_of_isDigit h
  have : inRanges identifierFurtherRanges c.toNat := by
    rw [identifierFurtherRanges, inRanges, decide_eq_true hlo, decide_eq_true hhi]
    rfl
  rw [isIdentifierContinue, this, Bool.or_true]

/-- What starts an identifier is no digit. -/
theorem not_isDigit_of_letter (h : isIdentifierStart c || c == '_') : ¬ c.isDigit := by
  intro hdigit
  have hbound := toNat_of_isDigit hdigit
  rcases Bool.or_eq_true_iff.1 h with hstart | hunderscore
  · have := le_toNat_of_isIdentifierStart hstart
    omega
  · rw [eq_of_beq hunderscore] at hbound
    exact absurd hbound.2 (by decide)

theorem isIdentifierContinue_of_letter (h : isIdentifierStart c || c == '_') :
    isIdentifierContinue c := by
  rcases Bool.or_eq_true_iff.1 h with hstart | hunderscore
  · rw [isIdentifierContinue, hstart, Bool.true_or]
  · rw [eq_of_beq hunderscore]
    decide

end Text

namespace Expr

open Regex

variable {s u z rest : List Char} {c : Char} {kind kind' : TokenKind}

/-! ## The first two characters -/

namespace TokenKind

/-- The kind of token that a character starts, where the next one does not matter. -/
def ofChar (c : Char) : TokenKind :=
  if TokenRule.spaces.contains c then .whitespace
  else if c.isDigit then .number
  else if Text.isIdentifierStart c || c == '_' then .identifier
  else
    match c with
    | '\x22' => .str
    | '\x27' => .char
    | '@' => .identifier
    | '.' => .dot
    | '(' => .openParen
    | ')' => .closeParen
    | ',' => .comma
    | _ => .punct

/-- The kind of token that a text starts with, if with any. A block comment may turn out to be
unterminated. -/
def ofHead : List Char → TokenKind
  | '/' :: '/' :: _ => .lineComment
  | '/' :: '*' :: _ => .blockComment
  | '=' :: '>' :: _ => .arrow
  | '@' :: '\x22' :: _ => .verbatimStr
  | '@' :: '$' :: _ | '$' :: '@' :: _ => .interpolatedVerbatimStr
  | '$' :: '\x22' :: _ => .interpolatedStr
  | c :: _ => ofChar c
  | [] => .punct

theorem ofHead_cons (h : c ∉ ['/', '=', '@', '$']) : ofHead (c :: s) = ofChar c := by
  simp only [List.mem_cons, List.not_mem_nil, or_false, not_or] at h
  obtain ⟨hslash, hequals, hat, hdollar⟩ := h
  unfold ofHead
  split <;> simp_all

/-- An at sign before what opens no string starts an identifier. -/
theorem ofHead_at (h : c ∉ ['\x22', '$']) : ofHead ('@' :: c :: s) = .identifier := by
  simp only [List.mem_cons, List.not_mem_nil, or_false, not_or] at h
  obtain ⟨hquote, hdollar⟩ := h
  have hchar : ofChar '@' = .identifier := by decide
  unfold ofHead
  split <;> grind

theorem ofChar_of_isDigit (h : c.isDigit) : ofChar c = .number := by
  have hspace : TokenRule.spaces.contains c = false := by
    simpa using TokenRule.notMem_of_class (by decide) h
  unfold ofChar
  rw [hspace, if_neg Bool.false_ne_true, if_pos h]

theorem ofChar_of_letter (h : Text.isIdentifierStart c || c == '_') : ofChar c = .identifier := by
  have hspace : TokenRule.spaces.contains c = false := by
    simpa using TokenRule.notMem_of_class
      (p := fun c => Text.isIdentifierStart c || c == '_') (by decide) h
  unfold ofChar
  rw [hspace, if_neg Bool.false_ne_true, if_neg (Text.not_isDigit_of_letter h), if_pos h]

theorem ofChar_of_punct (h : Matches TokenRule.punct [c]) : ofChar c = .punct := by
  obtain ⟨_, hc, heq⟩ := matches_char.1 h
  cases heq
  simp only [Bool.and_eq_true, Bool.not_eq_true', List.contains_eq_mem, List.mem_append, not_or,
    decide_eq_false_iff_not] at hc
  obtain ⟨⟨hspace, hopener⟩, hcontinue⟩ := hc
  have hdigit : ¬ c.isDigit := fun h =>
    Bool.eq_false_iff.1 hcontinue (Text.isIdentifierContinue_of_isDigit h)
  have hletter : ¬ (Text.isIdentifierStart c || c == '_') := fun h =>
    Bool.eq_false_iff.1 hcontinue (Text.isIdentifierContinue_of_letter h)
  unfold ofChar
  rw [if_neg (by simpa using hspace), if_neg hdigit, if_neg hletter]
  split <;> simp_all

theorem ofHead_of_whitespace (hu : Matches TokenRule.whitespace u) (z : List Char) :
    ofHead (u ++ z) = .whitespace := by
  obtain ⟨hne, hall⟩ := matches_plus_char.1 hu
  obtain ⟨c, u, rfl⟩ := List.exists_cons_of_ne_nil hne
  have hc := hall c List.mem_cons_self
  rw [List.cons_append, ofHead_cons (TokenRule.notMem_of_class (by decide) hc)]
  exact if_pos hc

theorem ofHead_of_identifier (hu : Matches TokenRule.identifier u) (z : List Char) :
    ofHead (u ++ z) = .identifier := by
  obtain ⟨sign, c, body, rfl, hsign, hc, _⟩ := TokenRule.matches_identifier.1 hu
  have hmem : c ∉ ['/', '=', '@', '$', '\x22'] :=
    TokenRule.notMem_of_class (p := fun c => Text.isIdentifierStart c || c == '_') (by decide) hc
  rcases hsign with rfl | rfl
  · exact (ofHead_cons fun h => hmem (by simp_all)).trans (ofChar_of_letter hc)
  · exact ofHead_at fun h => hmem (by simp_all)

theorem ofHead_of_number (hu : Matches TokenRule.number u) (z : List Char) :
    ofHead (u ++ z) = .number := by
  obtain ⟨x, y, rfl, hx, _⟩ := matches_seq.1 hu
  obtain ⟨c, hc, rfl⟩ := matches_char.1 hx
  exact (ofHead_cons (TokenRule.notMem_of_class (by decide) hc)).trans (ofChar_of_isDigit hc)

/-- A slash and an equals sign start longer tokens with the right second character only. -/
theorem ofHead_of_punct (hu : Matches TokenRule.punct u)
    (hz : ∀ c ∈ z.head?, punct.goesOn u c = false) : ofHead (u ++ z) = .punct := by
  obtain ⟨c, hc, rfl⟩ := matches_char.1 hu
  refine Eq.trans ?_ (ofChar_of_punct hu)
  have hsign : c ∉ ['@', '$'] := by
    rintro hmem
    simp only [List.mem_cons, List.not_mem_nil, or_false] at hmem
    rcases hmem with rfl | rfl <;> exact absurd hc (by decide)
  cases z with
  | nil =>
    unfold ofHead
    split <;> simp_all
  | cons d z =>
    have hd := hz d rfl
    simp only [goesOn, Bool.or_eq_false_iff, Bool.and_eq_false_iff] at hd
    unfold ofHead
    split <;> simp_all

/-- A text of a rule starts with the characters that its kind starts with, and what follows changes
nothing about it unless it goes on with the text. -/
theorem ofHead_append (hu : Matches kind.rule u) (hz : ∀ c ∈ z.head?, kind.goesOn u c = false) :
    ofHead (u ++ z) = if kind = .unterminatedComment then .blockComment else kind := by
  cases kind with
  | whitespace => exact ofHead_of_whitespace hu z
  | lineComment | blockComment | unterminatedComment | verbatimStr =>
    obtain ⟨v, rfl, _⟩ := matches_text_seq.1 hu
    rfl
  | str | char =>
    obtain ⟨v, rfl, _⟩ := matches_exactly_seq.1 hu
    rfl
  | interpolatedStr | arrow =>
    obtain rfl := matches_text.1 hu
    rfl
  | interpolatedVerbatimStr =>
    rcases matches_alt.1 hu with hu | hu <;>
    · obtain rfl := matches_text.1 hu
      rfl
  | identifier => exact ofHead_of_identifier hu z
  | number => exact ofHead_of_number hu z
  | dot | openParen | closeParen | comma =>
    obtain rfl := matches_exactly.1 hu
    rfl
  | punct => exact ofHead_of_punct hu hz

/-! ## The next character -/

/-- A letter goes on with names, numbers and line comments only. -/
theorem goesOn_letter (hkind : kind ∉ [.identifier, .number, .lineComment])
    (hc : Text.isIdentifierStart c || c == '_') : kind.goesOn u c = false := by
  have hmem : c ∉ TokenRule.spaces ++ ['\x22', '/', '*', '>'] :=
    TokenRule.notMem_of_class (p := fun c => Text.isIdentifierStart c || c == '_') (by decide) hc
  simp only [List.mem_append, List.mem_cons, List.not_mem_nil, or_false, not_or] at hmem
  obtain ⟨hspace, hquote, hslash, hstar, hmore⟩ := hmem
  cases kind with
  | whitespace => simpa [goesOn] using hspace
  | verbatimStr => simpa [goesOn] using hquote
  | punct => simp [goesOn, hslash, hstar, hmore]
  | identifier => exact absurd (by decide) hkind
  | number => exact absurd (by decide) hkind
  | lineComment => exact absurd (by decide) hkind
  | _ => rfl

theorem goesOn_of_isInterpolated (h : kind.isInterpolated) (u : List Char) (c : Char) :
    kind.goesOn u c = false := by
  cases kind <;> first | rfl | cases h

/-- A longer text of a repeating rule goes on with the shorter one. -/
theorem goesOn_of_matches_append {v : List Char}
    (hkind : kind ∈ [.whitespace, .lineComment, .identifier, .number])
    (hu : Matches kind.rule u) (h : Matches kind.rule (u ++ c :: v)) : kind.goesOn u c := by
  have hpos : 1 ≤ u.length := by
    refine List.length_pos_iff.2 ?_
    rintro rfl
    exact kind.not_matches_nil hu
  have single : ∀ {p : Char → Bool} {w : List Char}, 1 ≤ w.length →
      ∀ t, Matches (.char p) t → t.length ≤ w.length := by
    intro p w hw t ht
    obtain ⟨_, _, rfl⟩ := matches_char.1 ht
    exact hw
  simp only [List.mem_cons, List.not_mem_nil, or_false] at hkind
  rcases hkind with rfl | rfl | rfl | rfl
  · exact of_matches_seq_star_append h (single hpos)
  · obtain ⟨v, rfl, _⟩ := matches_text_seq.1 hu
    refine of_matches_seq_star_append h fun t ht => ?_
    rw [matches_text.1 ht]
    simp
  · -- All but the first character continue the identifier, be it a sign or not.
    obtain ⟨d, u, rfl⟩ := List.exists_cons_of_length_pos hpos
    have hc : c ∈ u ++ c :: v := by simp
    obtain ⟨sign, e, body, heq, rfl | rfl, he, hbody⟩ := TokenRule.matches_identifier.1 h
    · obtain ⟨_, htail⟩ := List.cons.inj heq
      exact hbody c (htail ▸ hc)
    · obtain ⟨_, htail⟩ : d = '@' ∧ u ++ c :: v = e :: body := List.cons.inj heq
      rcases List.mem_cons.1 (htail ▸ hc) with rfl | hc
      · exact Text.isIdentifierContinue_of_letter he
      · exact hbody c hc
  · exact of_matches_seq_star_append h (single hpos)

/-- No text of a rule starts another one that does not go on with it. -/
theorem eq_nil_of_matches_append (hkind : kind ≠ .unterminatedComment) (hu : Matches kind.rule u)
    (hz : ∀ c ∈ z.head?, kind.goesOn u c = false) (h : Matches kind.rule (u ++ z)) : z = [] := by
  have repeating : kind ∈ [.whitespace, .lineComment, .identifier, .number] → z = [] := by
    intro hkind
    cases z with
    | nil => rfl
    | cons c z =>
      have hc := hz c rfl
      rw [goesOn_of_matches_append hkind hu h] at hc
      cases hc
  have fixed : ∀ t, u = t → u ++ z = t → z = [] := by
    rintro _ rfl heq
    exact List.append_right_eq_self.1 heq
  have string : Literal.string? (u ++ z) = some ([.text u], z) →
      Literal.string? (u ++ z ++ []) = some ([.text (u ++ z)], []) → z = [] := by
    intro hshort hlong
    rw [List.append_nil, hshort] at hlong
    exact (Prod.mk.inj (Option.some.inj hlong)).2
  cases kind with
  | whitespace => exact repeating (by decide)
  | lineComment => exact repeating (by decide)
  | blockComment =>
    have hshort := Cell.next?_of_blockComment hu z
    have hlong := Cell.next?_of_blockComment h []
    rw [List.append_nil, hshort] at hlong
    exact (Prod.mk.inj (Option.some.inj hlong)).2
  | unterminatedComment => exact absurd rfl hkind
  | str => exact string (Literal.string?_of_str hu) (Literal.string?_of_str h)
  | verbatimStr =>
    exact string (Literal.string?_of_verbatimStr ⟨hu, hz⟩)
      (Literal.string?_of_verbatimStr ⟨h, nofun⟩)
  | interpolatedStr => exact fixed _ (matches_text.1 hu) (matches_text.1 h)
  | interpolatedVerbatimStr =>
    have length : ∀ t, Matches TokenRule.interpolatedVerbatimStr t → t.length = 3 := by
      intro t ht
      rcases matches_alt.1 ht with ht | ht <;> rw [matches_text.1 ht] <;> rfl
    have hlength := length _ h
    rw [List.length_append, length u hu] at hlength
    exact List.length_eq_zero_iff.1 (by omega)
  | char =>
    obtain ⟨body, rfl, hshort⟩ := Literal.char?_of_char hu z
    obtain ⟨body', heq, hlong⟩ := Literal.char?_of_char h []
    obtain rfl : body ++ z = body' := (List.cons.inj heq).2
    rw [List.append_nil, hshort] at hlong
    exact (Prod.mk.inj (Option.some.inj hlong)).2
  | identifier => exact repeating (by decide)
  | number => exact repeating (by decide)
  | arrow => exact fixed _ (matches_text.1 hu) (matches_text.1 h)
  | dot => exact fixed _ (matches_exactly.1 hu) (matches_exactly.1 h)
  | openParen => exact fixed _ (matches_exactly.1 hu) (matches_exactly.1 h)
  | closeParen => exact fixed _ (matches_exactly.1 hu) (matches_exactly.1 h)
  | comma => exact fixed _ (matches_exactly.1 hu) (matches_exactly.1 h)
  | punct =>
    obtain ⟨c, _, rfl⟩ := matches_char.1 hu
    obtain ⟨d, _, heq⟩ := matches_char.1 h
    exact (List.cons.inj heq).2

/-- A block comment does not start an unterminated one. -/
theorem not_unterminated_of_blockComment (hu : Matches TokenRule.blockComment u) :
    ¬ Matches TokenRule.unterminatedComment (u ++ z) := by
  intro h
  obtain ⟨body, heq, hnone⟩ := Boundary.commentTail?_of_unterminated h
  have hnext := Cell.next?_of_blockComment hu z
  rw [heq, Cell.next?_blockComment, hnone] at hnext
  cases hnext

/-- What starts with a text of a rule, and does not go on with it, is a text of no rule. -/
theorem eq_of_matches_append (hkind : kind ≠ .unterminatedComment) (hu : Matches kind.rule u)
    (hz : ∀ c ∈ z.head?, kind.goesOn u c = false) (h : Matches kind'.rule (u ++ z)) :
    kind' = kind ∧ z = [] := by
  have hhead := ofHead_append hu hz
  have hhead' := ofHead_append (z := []) h nofun
  rw [List.append_nil, hhead, if_neg hkind] at hhead'
  split at hhead'
  · rename_i hopen
    subst hopen
    subst hhead'
    exact absurd h (not_unterminated_of_blockComment hu)
  · subst hhead'
    exact ⟨rfl, eq_nil_of_matches_append hkind hu hz h⟩

end TokenKind

/-! ## Tokens -/

/-- A text of a rule that nothing goes on with is the longest match, and that of no other rule. -/
theorem IsToken.longestMatch?_eq (h : IsToken kind u rest) (hkind : kind ≠ .unterminatedComment) :
    longestMatch? (u ++ rest) TokenKind.all = some (kind, u.length) := by
  have spec := longestMatch?_spec (u ++ rest) TokenKind.all
  obtain ⟨n, hn, hle⟩ := exists_longest?_of_matches (u := rest) h.matches_rule
  cases hmatch : longestMatch? (u ++ rest) TokenKind.all with
  | none =>
    rw [hmatch] at spec
    rw [spec kind kind.mem_all] at hn
    cases hn
  | some found =>
    obtain ⟨kind', m⟩ := found
    rw [hmatch] at spec
    obtain ⟨_, hlongest, hmax⟩ := spec
    have hm := le_length_of_longest? hlongest
    have hlong := matches_of_longest? hlongest
    have hum : u.length ≤ m := Nat.le_trans hle (hmax kind kind.mem_all n hn)
    rw [List.take_append, List.take_of_length_le hum] at hlong
    have hz : ∀ c ∈ (rest.take (m - u.length)).head?, kind.goesOn u c = false := by
      intro c hc
      refine h.ends c ?_
      cases rest with
      | nil => rw [List.take_nil] at hc; exact hc
      | cons d rest =>
        cases hk : m - u.length with
        | zero => rw [hk] at hc; cases hc
        | succ k => rw [hk] at hc; exact hc
    obtain ⟨rfl, hnil⟩ := TokenKind.eq_of_matches_append hkind h.matches_rule hz hlong
    have hlen := congrArg List.length hnil
    rw [List.length_take, List.length_nil] at hlen
    rw [List.length_append] at hm
    have : m = u.length := by omega
    rw [this]

theorem IsToken.isLongest (h : IsToken kind u rest) (hkind : kind ≠ .unterminatedComment) :
    IsLongest kind u rest := by
  have hlongest := isLongest_of_longestMatch? (h.longestMatch?_eq hkind)
  rwa [List.take_left, List.drop_left] at hlongest

namespace Token

variable {t : Token}

/-- A text of a rule is taken as a token wherever nothing goes on with it. -/
theorem first?_of_isToken (h : IsToken kind u rest) (hinter : kind.isInterpolated = false)
    (hkind : kind ≠ .unterminatedComment) :
    first? (u ++ rest) = some (⟨kind, [.text u]⟩, rest) := by
  have hquote : ¬ (kind = .verbatimStr ∧ rest.head? = some '\x22') := by
    rintro ⟨rfl, hhead⟩
    exact absurd (h.ends _ hhead) (by simp [TokenKind.goesOn])
  rw [first?, h.longestMatch?_eq hkind]
  simp only [hinter, List.drop_left, List.take_left, Bool.and_eq_true, decide_eq_true_eq,
    if_neg hquote, Bool.false_eq_true, if_false]

/-- What an interpolated token starts with. -/
theorem exists_opener_of_first? (h : first? s = some (t, rest)) (hinter : t.kind.isInterpolated) :
    ∃ u v, s = u ++ v ∧ Matches t.kind.rule u := by
  rw [first?] at h
  split at h
  · cases h
  · cases h
  · rename_i kind n _ hmatch
    have hlongest := (isLongest_of_longestMatch? hmatch).matches_rule
    refine ⟨s.take n, s.drop n, (List.take_append_drop n s).symm, ?_⟩
    split at h
    · obtain ⟨_, _, heq⟩ := Option.map_eq_some_iff.1 h
      cases heq
      exact hlongest
    · split at h <;> cases h
      exact hlongest

/-- An opener is taken as such whatever follows it. -/
theorem first?_of_opener (hu : Matches kind.rule u) (hinter : kind.isInterpolated) :
    first? (u ++ rest) =
      (Literal.string? (u ++ rest)).map fun (pieces, rest) => (⟨kind, pieces⟩, rest) := by
  have hkind : kind ≠ .unterminatedComment := by
    rintro rfl
    cases hinter
  have hends : ∀ c ∈ rest.head?, kind.goesOn u c = false :=
    fun c _ => TokenKind.goesOn_of_isInterpolated hinter u c
  rw [first?, IsToken.longestMatch?_eq ⟨hu, hends⟩ hkind]
  simp only [hinter, if_true]

end Token
end Expr
end MapPlan
