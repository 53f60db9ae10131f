import Mathlib.Data.List.Forall2
import MapPlan.Proofs.Expr.Munch
import MapPlan.Proofs.Text.Slice

/-!
# Tokens tile a text

The tokens of a text stand side by side from its start to its end, each of them the longest match of
the rules where it stands. If there is an error, such tokens stand before it, and none can follow: no
rule matches there, or what does is the start of a comment or of a string literal that never closes.
-/

namespace MapPlan.Expr

open Regex

variable {s u v rest : List Char} {kind : TokenKind} {t : Token} {tokens : List Token}

/-! ## The longest token -/

namespace TokenKind

/-- An opener has one quote, at its end. -/
theorem exists_quote_of_opener (hu : Matches kind.rule u) (hinter : kind.isInterpolated) :
    ∃ w, u = w ++ ['\x22'] ∧ ∀ c ∈ w, mark c ≠ .quote := by
  have hat : mark '@' ≠ .quote := by decide
  have hdollar : mark '$' ≠ .quote := by decide
  cases kind with
  | interpolatedStr => exact ⟨['$'], matches_text.1 hu, by simp [hdollar]⟩
  | interpolatedVerbatimStr =>
    rcases matches_alt.1 hu with hu | hu
    · exact ⟨['$', '@'], matches_text.1 hu, by simp [hat, hdollar]⟩
    · exact ⟨['@', '$'], matches_text.1 hu, by simp [hat, hdollar]⟩
  | _ => cases hinter

end TokenKind

namespace Token

/-- The token is the longest match of the rules before the rest of the text, and no comment that
stays open. An interpolated string goes on from its opener to where the reader of literals ends
it. -/
def IsMaximal (t : Token) (rest : List Char) : Prop :=
  if t.kind.isInterpolated then
    (∃ opener body, t.text = opener ++ body ∧ IsLongest t.kind opener (body ++ rest)) ∧
      Literal.string? (t.text ++ rest) = some (t.pieces, rest)
  else IsLongest t.kind t.text rest ∧ t.kind ≠ .unterminatedComment

theorem exists_isLongest_of_first? (h : first? s = some (t, rest))
    (hinter : t.kind.isInterpolated) :
    ∃ opener body, t.text = opener ++ body ∧ IsLongest t.kind opener (body ++ rest) := by
  have hkind : t.kind ≠ .unterminatedComment := by
    intro hkind
    rw [hkind] at hinter
    cases hinter
  obtain ⟨u, v, rfl, hu⟩ := exists_opener_of_first? h hinter
  have hlongest : IsLongest t.kind u v :=
    IsToken.isLongest ⟨hu, fun c _ => TokenKind.goesOn_of_isInterpolated hinter u c⟩ hkind
  obtain ⟨w, rfl, hw⟩ := TokenKind.exists_quote_of_opener hu hinter
  obtain ⟨style, _, hread⟩ := Literal.string?_eq_some.1 (string?_of_first? h hinter)
  rw [List.append_assoc] at hread
  obtain ⟨tail, htail, hflatten⟩ := Literal.exists_tail_of_opener hw rfl hread
  refine ⟨w ++ ['\x22'], Piece.flatten tail, ?_, ?_⟩
  · rw [text, hflatten, List.append_assoc]
    rfl
  · rwa [Literal.flatten_append_of_readOpen? htail]

theorem isMaximal_of_first? (h : first? s = some (t, rest)) : t.IsMaximal rest := by
  rw [IsMaximal]
  split
  · rename_i hinter
    rw [text_append_of_first? h]
    exact ⟨exists_isLongest_of_first? h hinter, string?_of_first? h hinter⟩
  · rename_i hinter
    obtain ⟨htoken, hopen⟩ := isToken_of_first? h (Bool.eq_false_iff.2 hinter)
    exact ⟨htoken.isLongest hopen, hopen⟩

end Token

/-! ## Where no token starts -/

/-- No rule has a text that starts this one. -/
def Unmatched (s : List Char) : Prop :=
  ∀ (kind : TokenKind) (u v : List Char), s = u ++ v → ¬ Matches kind.rule u

/-- The longest match is a comment that stays open. -/
def OpenComment (s : List Char) : Prop :=
  ∃ u v, s = u ++ v ∧ IsLongest .unterminatedComment u v

/-- The longest match is of this kind, and the literal that the text starts with, or one of its
holes, never closes. -/
def OpenLiteral (kind : TokenKind) (s : List Char) : Prop :=
  ∃ u v, s = u ++ v ∧ IsLongest kind u v ∧ Literal.string? s = none

/-- No token starts the text. A verbatim string is open if its longest match stands before one more
quote: that quote and the last one of the match are a pair inside the string. -/
def Stuck (s : List Char) : Prop :=
  s ≠ [] ∧ (Unmatched s ∨ OpenComment s ∨ (∃ kind, kind.isInterpolated ∧ OpenLiteral kind s) ∨
    OpenLiteral .verbatimStr s)

/-- If a quote stands behind the longest match of a verbatim string, the string never closes: it
would be a longer match. -/
theorem IsLongest.string?_eq_none (h : IsLongest .verbatimStr u ('\x22' :: v)) :
    Literal.string? (u ++ '\x22' :: v) = none := by
  obtain ⟨y, rfl, _⟩ := matches_text_seq.1 h.matches_rule
  cases hread : Literal.string? (['@', '\x22'] ++ y ++ '\x22' :: v) with
  | none => rfl
  | some found =>
    obtain ⟨pieces, rest⟩ := found
    obtain ⟨w, hw, htoken⟩ : ∃ w, w ++ rest = ['@', '\x22'] ++ y ++ '\x22' :: v ∧
        IsToken .verbatimStr w rest := Literal.exists_isToken_of_string? hread
    -- The string that is read is no longer than the match, so it starts the match.
    have hle := h.length_le .verbatimStr w rest hw.symm htoken.matches_rule
    obtain ⟨z, hz⟩ := List.prefix_of_prefix_length_le ⟨rest, hw⟩ ⟨'\x22' :: v, rfl⟩ hle
    have hrest : rest = z ++ '\x22' :: v := by
      rw [← hz, List.append_assoc] at hw
      exact List.append_cancel_left hw
    have hends : ∀ c ∈ z.head?, TokenKind.verbatimStr.goesOn w c = false := by
      intro c hc
      refine htoken.ends c ?_
      rw [hrest, List.head?_append, Option.mem_def.1 hc]
      rfl
    have hlong := h.matches_rule
    rw [← hz] at hlong
    obtain rfl := TokenKind.eq_nil_of_matches_append (by decide) htoken.matches_rule hends hlong
    rw [hrest] at htoken
    exact absurd (htoken.ends '\x22' rfl) (by simp [TokenKind.goesOn])

theorem unmatched_of_longestMatch? (h : longestMatch? s TokenKind.all = none) : Unmatched s := by
  rintro kind u v rfl hu
  have spec := longestMatch?_spec (u ++ v) TokenKind.all
  rw [h] at spec
  obtain ⟨n, hn, _⟩ := exists_longest?_of_matches (u := v) hu
  rw [spec kind kind.mem_all] at hn
  cases hn

theorem stuck_of_first?_eq_none (hne : s ≠ []) (h : Token.first? s = none) : Stuck s := by
  refine ⟨hne, ?_⟩
  rw [Token.first?] at h
  split at h
  · rename_i hmatch
    exact .inl (unmatched_of_longestMatch? hmatch)
  · rename_i n hmatch
    exact .inr (.inl ⟨s.take n, s.drop n, (List.take_append_drop n s).symm,
      isLongest_of_longestMatch? hmatch⟩)
  · rename_i kind n _ hmatch
    have hlongest := isLongest_of_longestMatch? hmatch
    have hs := List.take_append_drop n s
    split at h
    · rename_i hinter
      exact .inr (.inr (.inl ⟨kind, hinter, s.take n, s.drop n, hs.symm, hlongest,
        Option.map_eq_none_iff.1 h⟩))
    · split at h
      · rename_i hverbatim
        simp only [Bool.and_eq_true, decide_eq_true_eq] at hverbatim
        obtain ⟨rfl, hquote⟩ := hverbatim
        obtain ⟨v, hv⟩ := List.head?_eq_some_iff.1 hquote
        rw [hv] at hlongest hs
        refine .inr (.inr (.inr ⟨s.take n, '\x22' :: v, hs.symm, hlongest, ?_⟩))
        rw [← hs]
        exact hlongest.string?_eq_none
      · cases h

/-! ## Tilings -/

/-- The spans follow one another from `lo` to `hi`, with nothing between them. -/
def Consecutive : Nat → List (Nat × Nat) → Nat → Prop
  | lo, [], hi => lo = hi
  | lo, span :: spans, hi => span.1 = lo ∧ Consecutive span.2 spans hi

/-- The token is what a text has in this span, and the longest match there. -/
structure Token.StandsAt (s : List Char) (t : Token) (span : Nat × Nat) : Prop where
  nonempty : span.1 < span.2
  starts : Text.IsBoundary s span.1
  ends : Text.IsBoundary s span.2
  slice_eq : Text.slice s span.1 span.2 = t.text
  maximal : t.IsMaximal (Text.slice s span.2 (Text.byteSize s))

/-- The tokens tile the text up to byte `stop`. -/
structure Tiling (s : List Char) (tokens : List Token) (stop : Nat) : Prop where
  consecutive : Consecutive 0 (Token.spans tokens) stop
  stands : List.Forall₂ (Token.StandsAt s) tokens (Token.spans tokens)
  whole : tokens.flatMap Token.text ++ Text.slice s stop (Text.byteSize s) = s

theorem consecutive_spansFrom (start : Nat) (tokens : List Token) :
    Consecutive start (Text.spansFrom start (tokens.map Token.text))
      (start + Text.byteSize (tokens.flatMap Token.text)) := by
  induction tokens generalizing start with
  | nil => rfl
  | cons t tokens ih =>
    have hrest := ih (start + Text.byteSize t.text)
    rw [Nat.add_assoc, ← Text.byteSize_append] at hrest
    exact ⟨rfl, hrest⟩

/-- A token stands where it was taken from the text. -/
theorem standsAt_of_first? (before : List Char) (h : Token.first? s = some (t, rest)) :
    t.StandsAt (before ++ s)
      (Text.byteSize before, Text.byteSize before + Text.byteSize t.text) := by
  have hs := Token.text_append_of_first? h
  have hpos := Text.byteSize_pos (Token.text_ne_nil_of_first? h)
  have hwhole : before ++ s = before ++ t.text ++ rest := by rw [← hs, List.append_assoc]
  rw [← Text.byteSize_append]
  constructor
  · rw [Text.byteSize_append]
    exact Nat.lt_add_of_pos_right hpos
  · exact Text.isBoundary_append_left before s
  · rw [hwhole]
    exact Text.isBoundary_append_left (before ++ t.text) rest
  · rw [hwhole, Text.byteSize_append]
    exact Text.slice_append before t.text rest
  · rw [hwhole, Text.slice_append_right]
    exact Token.isMaximal_of_first? h

/-! ## Taking tokens -/

/-- The tokens are taken from the text one after the other, and the rest is left. -/
inductive Taken : List Char → List Token → List Char → Prop where
  | nil (s : List Char) : Taken s [] s
  | cons {s rest left : List Char} {t : Token} {tokens : List Token}
      (first : Token.first? s = some (t, rest)) (others : Taken rest tokens left) :
      Taken s (t :: tokens) left

namespace Taken

theorem flatMap_text_append (h : Taken s tokens rest) : tokens.flatMap Token.text ++ rest = s := by
  induction h with
  | nil s => rfl
  | cons first _ ih =>
    rw [List.flatMap_cons, List.append_assoc, ih, Token.text_append_of_first? first]

theorem stands (h : Taken s tokens rest) (before : List Char) :
    List.Forall₂ (Token.StandsAt (before ++ s)) tokens
      (Text.spansFrom (Text.byteSize before) (tokens.map Token.text)) := by
  induction h generalizing before with
  | nil s => exact .nil
  | @cons s rest left t tokens first others ih =>
    have hrest := ih (before ++ t.text)
    rw [List.append_assoc, Token.text_append_of_first? first, Text.byteSize_append] at hrest
    exact .cons (standsAt_of_first? before first) hrest

theorem tiling (h : Taken s tokens rest) :
    let stop := Text.byteSize (tokens.flatMap Token.text)
    Tiling s tokens stop ∧ Text.slice s stop (Text.byteSize s) = rest := by
  intro stop
  have hs := h.flatMap_text_append
  have hrest : Text.slice s stop (Text.byteSize s) = rest := by
    rw [← hs, Text.slice_append_right]
  have hconsecutive := consecutive_spansFrom 0 tokens
  rw [Nat.zero_add] at hconsecutive
  exact ⟨⟨hconsecutive, h.stands [], by rw [hrest, hs]⟩, hrest⟩

end Taken

/-- The tokenizer takes tokens until nothing is left, or until none starts what is left. -/
theorem taken_of_tokenize (s : List Char) :
    match tokenize s with
    | .ok tokens => Taken s tokens []
    | .error e => ∃ tokens rest, Taken s tokens rest ∧
        Text.byteSize (tokens.flatMap Token.text) = e.offset ∧ Stuck rest := by
  fun_induction tokenize s with
  | case1 => exact .nil []
  | case2 s hne hfirst => exact ⟨[], s, .nil s, rfl, stuck_of_first?_eq_none hne hfirst⟩
  | case3 s hne t rest hfirst hlt tokens hrest ih =>
    rw [hrest] at ih
    exact .cons hfirst ih
  | case4 s hne t rest hfirst hlt e hrest ih =>
    rw [hrest] at ih
    obtain ⟨tokens, left, htaken, hsize, hstuck⟩ := ih
    refine ⟨t :: tokens, left, .cons hfirst htaken, ?_, hstuck⟩
    rw [List.flatMap_cons, Text.byteSize_append, hsize]
  | case5 s hne t rest hfirst hle => exact absurd (Token.length_rest_lt_of_first? hfirst) hle

/-- The tokens of a text tile it from its start to its end. Before an error tokens tile the text up
to it, and none starts what is left. -/
theorem tokenize_tiles (s : List Char) :
    match tokenize s with
    | .ok tokens => Tiling s tokens (Text.byteSize s)
    | .error e => (∃ tokens, Tiling s tokens e.offset) ∧
        Stuck (Text.slice s e.offset (Text.byteSize s)) := by
  have htaken := taken_of_tokenize s
  cases h : tokenize s with
  | ok tokens =>
    rw [h] at htaken
    have hs := htaken.flatMap_text_append
    rw [List.append_nil] at hs
    have htiling := htaken.tiling.1
    rwa [hs] at htiling
  | error e =>
    rw [h] at htaken
    obtain ⟨tokens, rest, htaken, hsize, hstuck⟩ := htaken
    obtain ⟨htiling, hrest⟩ := htaken.tiling
    rw [hsize] at htiling hrest
    exact ⟨⟨tokens, htiling⟩, hrest ▸ hstuck⟩

/-! A verbatim string that ends in a pair of quotes stays open. The tokenizer does not fall back on
the closed string before the second quote, which is the longest match. -/

def openVerbatim : List Char := ['@', '\x22', 'a', '\x22', '\x22']

theorem tokenize_openVerbatim :
    tokenize openVerbatim = .error ⟨0⟩ ∧
    ¬ (Unmatched openVerbatim ∨ OpenComment openVerbatim ∨
      ∃ kind : TokenKind, kind.isInterpolated ∧ OpenLiteral kind openVerbatim) := by
  have hclosed : Matches TokenRule.verbatimStr ['@', '\x22', 'a', '\x22'] :=
    .seq (s := ['@', '\x22']) (matches_text.2 rfl) (.seq (s := ['a']) (t := ['\x22'])
      (.starCons (s := ['a']) (.altLeft (matches_anyBut.2 ⟨'a', by decide, rfl⟩)) .starNil)
      (matches_exactly.2 rfl))
  have hfirst : Token.first? openVerbatim = none := by decide
  have hhead : TokenKind.ofHead openVerbatim = .verbatimStr := rfl
  refine ⟨by rw [tokenize, if_neg (by decide), hfirst], ?_⟩
  rintro (hnone | ⟨u, v, hs, hlongest⟩ | ⟨kind, hinter, u, v, hs, hlongest, _⟩)
  · exact hnone .verbatimStr _ ['\x22'] rfl hclosed
  · rw [hs, TokenKind.ofHead_append hlongest.matches_rule fun _ _ => rfl, if_pos rfl] at hhead
    cases hhead
  · rw [hs, TokenKind.ofHead_append hlongest.matches_rule
      fun c _ => TokenKind.goesOn_of_isInterpolated hinter u c] at hhead
    split at hhead
    · cases hhead
    · subst hhead
      cases hinter

end MapPlan.Expr
