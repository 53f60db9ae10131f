import MapPlan.Expr.Token
import MapPlan.Proofs.Regex
import MapPlan.Proofs.Expr.Literal

/-!
# Longest matches and tokens

A token that is no interpolated string is the longest start of the text that belongs to any rule, so
the character after it does not go on with it. An interpolated string is what the reader of literals
makes of it. Either way the token and the rest are the text, so the tokens of a text tile it.
-/

namespace MapPlan.Expr

variable {s u rest : List Char} {kind : TokenKind} {n : Nat}

theorem TokenKind.mem_all (kind : TokenKind) : kind ∈ TokenKind.all := by
  cases kind <;> decide

/-- No rule has the empty text. -/
theorem TokenKind.not_matches_nil (kind : TokenKind) : ¬ Regex.Matches kind.rule [] := by
  rw [← Regex.nullable_iff]
  cases kind <;> decide

theorem TokenKind.isInterpolated_of_identifier (h : kind = .identifier) :
    kind.isInterpolated = false := by
  rw [h]
  rfl

theorem TokenKind.ne_identifier (h : kind.isInterpolated) : kind ≠ .identifier := by
  rintro rfl
  cases h

/-! ## The longest match -/

/-- The match of some rule is found where there is one, and no rule has a longer one. -/
theorem longestMatch?_spec (s : List Char) (kinds : List TokenKind) :
    match longestMatch? s kinds with
    | some (kind, n) => kind ∈ kinds ∧ kind.rule.longest? s = some n ∧
        ∀ kind' ∈ kinds, ∀ m ∈ kind'.rule.longest? s, m ≤ n
    | none => ∀ kind ∈ kinds, kind.rule.longest? s = none := by
  induction kinds with
  | nil => exact nofun
  | cons first kinds ih =>
    rw [longestMatch?]
    cases hfirst : first.rule.longest? s with
    | none =>
      cases hothers : longestMatch? s kinds with
      | none =>
        rw [hothers] at ih
        exact List.forall_mem_cons.2 ⟨hfirst, ih⟩
      | some found =>
        rw [hothers] at ih
        obtain ⟨hmem, hlongest, hmax⟩ := ih
        refine ⟨List.mem_cons_of_mem _ hmem, hlongest, List.forall_mem_cons.2 ⟨?_, hmax⟩⟩
        rw [hfirst]
        exact nofun
    | some n =>
      have self : ∀ m ∈ first.rule.longest? s, m ≤ n := by
        rw [hfirst]
        rintro m ⟨⟩
        exact Nat.le_refl n
      cases hothers : longestMatch? s kinds with
      | none =>
        rw [hothers] at ih
        refine ⟨List.mem_cons_self, hfirst, List.forall_mem_cons.2 ⟨self, fun k hk => ?_⟩⟩
        rw [ih k hk]
        exact nofun
      | some found =>
        obtain ⟨kind, m⟩ := found
        rw [hothers] at ih
        obtain ⟨hmem, hlongest, hmax⟩ := ih
        change match if m ≤ n then some (first, n) else some (kind, m) with
          | some (kind, n) => _
          | none => _
        split
        · rename_i heq
          split at heq
          · rename_i hle
            cases heq
            refine ⟨List.mem_cons_self, hfirst, List.forall_mem_cons.2 ⟨self, ?_⟩⟩
            exact fun k hk l hl => Nat.le_trans (hmax k hk l hl) hle
          · rename_i hlt
            cases heq
            refine ⟨List.mem_cons_of_mem _ hmem, hlongest, List.forall_mem_cons.2 ⟨?_, hmax⟩⟩
            exact fun l hl => Nat.le_trans (self l hl) (Nat.le_of_not_le hlt)
        · rename_i heq
          split at heq <;> cases heq

/-- A text of some rule, and as long as any that starts the same text. -/
structure IsLongest (kind : TokenKind) (u rest : List Char) : Prop where
  matches_rule : Regex.Matches kind.rule u
  length_le : ∀ (kind' : TokenKind) (v w : List Char), u ++ rest = v ++ w →
    Regex.Matches kind'.rule v → v.length ≤ u.length

theorem isLongest_of_longestMatch? (h : longestMatch? s TokenKind.all = some (kind, n)) :
    IsLongest kind (s.take n) (s.drop n) := by
  have spec := longestMatch?_spec s TokenKind.all
  rw [h] at spec
  obtain ⟨_, hlongest, hmax⟩ := spec
  refine ⟨Regex.matches_of_longest? hlongest, fun kind' v w heq hv => ?_⟩
  rw [List.take_append_drop] at heq
  obtain ⟨m, hm, hle⟩ := Regex.exists_longest?_of_matches (u := w) hv
  rw [← heq] at hm
  rw [List.length_take_of_le (Regex.le_length_of_longest? hlongest)]
  exact Nat.le_trans hle (hmax kind' kind'.mem_all m hm)

/-! ## Where a token ends -/

/-- Does the character go on with the token of this kind and text? A quote goes on with a verbatim
string as the second of two, and two characters of punctuation start longer tokens. -/
def TokenKind.goesOn (kind : TokenKind) (u : List Char) (c : Char) : Bool :=
  match kind with
  | .whitespace => TokenRule.spaces.contains c
  | .lineComment => !TokenRule.lineEnd.contains c
  | .verbatimStr => c == '\x22'
  | .identifier => Text.isIdentifierContinue c
  | .number => c.isAlphanum || c == '_'
  | .punct => u == ['/'] && (c == '/' || c == '*') || u == ['='] && c == '>'
  | _ => false

/-- A character that goes on with a token makes it a longer text of some rule. Behind a verbatim
string it takes one more quote to close it again. -/
theorem TokenKind.exists_matches_of_goesOn {c : Char} (hu : Regex.Matches kind.rule u)
    (hkind : kind ≠ .verbatimStr) (hc : kind.goesOn u c) :
    ∃ kind' : TokenKind, Regex.Matches kind'.rule (u ++ [c]) := by
  cases kind with
  | whitespace => exact ⟨.whitespace, Regex.matches_seq_star_concat hu hc⟩
  | lineComment => exact ⟨.lineComment, Regex.matches_seq_star_concat hu hc⟩
  | verbatimStr => exact absurd rfl hkind
  | identifier =>
    obtain ⟨sign, name, rfl, hsign, hname⟩ := Regex.matches_seq.1 hu
    rw [List.append_assoc]
    exact ⟨.identifier, .seq hsign (Regex.matches_seq_star_concat hname hc)⟩
  | number => exact ⟨.number, Regex.matches_seq_star_concat hu hc⟩
  | punct =>
    simp only [goesOn, Bool.or_eq_true, Bool.and_eq_true, beq_iff_eq] at hc
    obtain ⟨rfl, rfl | rfl⟩ | ⟨rfl, rfl⟩ := hc
    · exact ⟨.lineComment, .seq (s := ['/', '/']) (Regex.matches_text.2 rfl) .starNil⟩
    · exact ⟨.unterminatedComment, .seq (s := ['/', '*']) (Regex.matches_text.2 rfl)
        (.seq (s := []) .starNil .starNil)⟩
    · exact ⟨.arrow, Regex.matches_text.2 rfl⟩
  | _ => cases hc

/-- A text of a rule that nothing behind it goes on with. -/
structure IsToken (kind : TokenKind) (u rest : List Char) : Prop where
  matches_rule : Regex.Matches kind.rule u
  ends : ∀ c ∈ rest.head?, kind.goesOn u c = false

theorem IsToken.ne_nil (h : IsToken kind u rest) : u ≠ [] := by
  rintro rfl
  exact kind.not_matches_nil h.matches_rule

theorem IsLongest.goesOn_eq_false (h : IsLongest kind u rest) (hkind : kind ≠ .verbatimStr) :
    ∀ c ∈ rest.head?, kind.goesOn u c = false := by
  intro c hc
  obtain ⟨rest, rfl⟩ := List.head?_eq_some_iff.1 hc
  refine Bool.eq_false_iff.2 fun hgoes => ?_
  obtain ⟨kind', hlonger⟩ := TokenKind.exists_matches_of_goesOn h.matches_rule hkind hgoes
  have hle := h.length_le kind' (u ++ [c]) rest (by simp) hlonger
  rw [List.length_append, List.length_singleton] at hle
  omega

/-! ## The first token -/

namespace Token

variable {t : Token} {tokens : List Token}

theorem text_eq_of_pieces (h : t.pieces = [.text u]) : t.text = u := by
  rw [text, h]
  exact List.append_nil u

/-- The first token is an interpolated string as the reader of literals reads it, or a text of
another rule that ends where the rest begins. -/
theorem first?_cases (h : first? s = some (t, rest)) :
    (t.kind.isInterpolated ∧ Literal.string? s = some (t.pieces, rest)) ∨
      ∃ u, t.pieces = [.text u] ∧ s = u ++ rest ∧ IsToken t.kind u rest ∧
        t.kind.isInterpolated = false ∧ t.kind ≠ .unterminatedComment := by
  rw [first?] at h
  split at h
  · cases h
  · cases h
  · rename_i kind n hkind hmatch
    split at h
    · rename_i hinter
      obtain ⟨⟨pieces, rest'⟩, hread, heq⟩ := Option.map_eq_some_iff.1 h
      cases heq
      exact .inl ⟨hinter, hread⟩
    · rename_i hinter
      split at h
      · cases h
      · rename_i hverbatim
        cases h
        have hlongest := isLongest_of_longestMatch? hmatch
        refine .inr ⟨s.take n, rfl, (List.take_append_drop n s).symm,
          ⟨hlongest.matches_rule, ?_⟩, Bool.eq_false_iff.2 hinter, ?_⟩
        · by_cases hkind : kind = .verbatimStr
          · subst hkind
            intro c hc
            refine beq_eq_false_iff_ne.2 ?_
            rintro rfl
            exact hverbatim (by simp [Option.mem_def.1 hc])
          · exact hlongest.goesOn_eq_false hkind
        · rintro rfl
          exact hkind rfl

theorem string?_of_first? (h : first? s = some (t, rest)) (hinter : t.kind.isInterpolated) :
    Literal.string? s = some (t.pieces, rest) := by
  obtain ⟨_, hread⟩ | ⟨_, _, _, _, hfalse, _⟩ := first?_cases h
  · exact hread
  · rw [hinter] at hfalse
    cases hfalse

theorem isToken_of_first? (h : first? s = some (t, rest))
    (hinter : t.kind.isInterpolated = false) :
    IsToken t.kind t.text rest ∧ t.kind ≠ .unterminatedComment := by
  obtain ⟨htrue, _⟩ | ⟨u, hpieces, _, htoken, _, hopen⟩ := first?_cases h
  · rw [hinter] at htrue
    cases htrue
  · rw [text_eq_of_pieces hpieces]
    exact ⟨htoken, hopen⟩

/-- Only an interpolated string has holes. -/
theorem pieces_eq_text_of_first? (h : first? s = some (t, rest))
    (hinter : t.kind.isInterpolated = false) : t.pieces = [.text t.text] := by
  obtain ⟨htrue, _⟩ | ⟨u, hpieces, _⟩ := first?_cases h
  · rw [hinter] at htrue
    cases htrue
  · rw [text_eq_of_pieces hpieces, hpieces]

theorem matches_identifier_of_first? (h : first? s = some (t, rest))
    (hkind : t.kind = .identifier) : Regex.Matches TokenRule.identifier t.text := by
  have hinter : t.kind.isInterpolated = false := TokenKind.isInterpolated_of_identifier hkind
  have htext := (isToken_of_first? h hinter).1.matches_rule
  rwa [hkind] at htext

theorem text_append_of_first? (h : first? s = some (t, rest)) : t.text ++ rest = s := by
  obtain ⟨_, hread⟩ | ⟨u, hpieces, rfl, _⟩ := first?_cases h
  · exact Literal.flatten_append_of_string? hread
  · rw [text_eq_of_pieces hpieces]

theorem length_rest_lt_of_first? (h : first? s = some (t, rest)) : rest.length < s.length := by
  obtain ⟨_, hread⟩ | ⟨u, _, rfl, htoken, _⟩ := first?_cases h
  · exact Literal.length_rest_lt_of_string? hread
  · have := List.length_pos_iff.2 htoken.ne_nil
    rw [List.length_append]
    omega

theorem text_ne_nil_of_first? (h : first? s = some (t, rest)) : t.text ≠ [] := by
  intro hnil
  have hlt := length_rest_lt_of_first? h
  rw [← text_append_of_first? h, hnil] at hlt
  exact Nat.lt_irrefl _ hlt

theorem exists_text_of_first? (h : first? s = some (t, rest)) :
    ∃ c u pieces, t.pieces = .text (c :: u) :: pieces := by
  obtain ⟨_, hread⟩ | ⟨u, hpieces, _, htoken, _⟩ := first?_cases h
  · exact Literal.exists_text_of_string? hread
  · obtain ⟨c, u, rfl⟩ := List.exists_cons_of_ne_nil htoken.ne_nil
    exact ⟨c, u, [], hpieces⟩

end Token

/-! ## All tokens -/

/-- Tokens are taken from the start of the text, again and again. -/
theorem tokenize_induction {P : List Char → List Token → Prop} (nil : P [] [])
    (cons : ∀ s t rest tokens, Token.first? s = some (t, rest) → tokenize rest = .ok tokens →
      P rest tokens → P s (t :: tokens))
    {tokens : List Token} (h : tokenize s = .ok tokens) : P s tokens := by
  fun_induction tokenize s generalizing tokens with
  | case1 => cases h; exact nil
  | case2 => cases h
  | case3 s hne t rest hfirst hlt tokens' hrest ih =>
    cases h
    exact cons s t rest tokens' hfirst hrest (ih hrest)
  | case4 => cases h
  | case5 => cases h

theorem tokenize_eq_cons_iff {t : Token} {tokens : List Token} :
    tokenize s = .ok (t :: tokens) ↔
      ∃ rest, Token.first? s = some (t, rest) ∧ tokenize rest = .ok tokens := by
  constructor
  · intro h
    refine tokenize_induction (P := fun s l => ∀ t tokens, l = t :: tokens →
      ∃ rest, Token.first? s = some (t, rest) ∧ tokenize rest = .ok tokens) nofun ?_ h t tokens rfl
    rintro s t rest tokens hfirst hrest _ _ _ ⟨⟩
    exact ⟨rest, hfirst, hrest⟩
  · rintro ⟨rest, hfirst, hrest⟩
    have hlt := Token.length_rest_lt_of_first? hfirst
    have hne : s ≠ [] := List.ne_nil_of_length_pos (Nat.zero_lt_of_lt hlt)
    rw [tokenize, if_neg hne, hfirst]
    simp only [if_pos hlt, hrest]

/-- The tokens tile the text. -/
theorem flatMap_text_of_tokenize {tokens : List Token} (h : tokenize s = .ok tokens) :
    tokens.flatMap Token.text = s := by
  refine tokenize_induction (P := fun s tokens => tokens.flatMap Token.text = s) rfl
    (fun s t rest tokens hfirst _ ih => ?_) h
  rw [List.flatMap_cons, ih, Token.text_append_of_first? hfirst]

end MapPlan.Expr
