import MapPlan.Proofs.Expr.Role
import MapPlan.Proofs.Expr.Token

/-!
# Roles of tokens

The tokenizer and the reading of roles take the same steps: each token is code, a comment or a
literal throughout, and where it ends, the reading of roles goes on. For the quoted tokens this says
that a text of the rule closes where the reader of literals closes it; for a slash, a line comment
and a verbatim string it rests on the character that follows.
-/

namespace MapPlan.Expr

open Regex

variable {s u v rest : List Char} {c : Char}

/-! ## Runs of characters -/

section
variable {p : Char → Bool} (hu : ∀ c ∈ u, p c) (hrest : ∀ c ∈ rest.head?, p c = false)
include hu hrest

theorem takeWhile_append_eq : (u ++ rest).takeWhile p = u := by
  rw [List.takeWhile_append_of_pos hu]
  cases rest with
  | nil => exact List.append_nil u
  | cons c rest => rw [List.takeWhile_cons, hrest c rfl, if_neg Bool.false_ne_true, List.append_nil]

theorem dropWhile_append_eq : (u ++ rest).dropWhile p = rest := by
  rw [List.dropWhile_append_of_pos hu]
  cases rest with
  | nil => rfl
  | cons c rest => rw [List.dropWhile_cons, hrest c rfl, if_neg Bool.false_ne_true]

end

/-! ## Quoted tokens -/

namespace Literal

/-- The body of a literal with escapes, which the frame `f` reads and `q` ends. -/
theorem readOpen?_escapedBody {f : Frame} {m : Mark} {q : Char} {t : List Char}
    {pieces : List (Piece Char)} {tail : List Char} (hf : f.isHole = false)
    (hq : m.char? = some q)
    (hstay : ∀ ahead k, k ≠ m → k ≠ .backslash → k ≠ .newline → f.next? [] ahead k = some [f])
    (hskip : ∀ ahead, f.next? [] ahead .backslash = some [.skip, f])
    (hu : Matches (.star (.alt (anyBut [q, '\\', '\n']) TokenRule.escapePair)) u)
    (h : readOpen? [f] tail = some (.text t :: pieces, rest)) :
    readOpen? [f] (u ++ tail) = some (.text (u ++ t) :: pieces, rest) := by
  have outside : [f].any (·.isHole) = false := by simp [hf]
  refine star_induction
    (P := fun u => readOpen? [f] (u ++ tail) = some (.text (u ++ t) :: pieces, rest))
    h (fun v w hv _ ih => ?_) hu
  rcases matches_alt.1 hv with hv | hv
  · obtain ⟨c, hc, rfl⟩ := matches_anyBut.1 hv
    simp only [List.mem_cons, List.not_mem_nil, or_false, not_or] at hc
    have hquote : mark c ≠ m := mt (mark_eq_iff hq).1 hc.1
    have hbackslash : mark c ≠ .backslash := mt (mark_eq_iff rfl).1 hc.2.1
    have hnewline : mark c ≠ .newline := mt (mark_eq_iff rfl).1 hc.2.2
    exact readOpen?_text outside outside (hstay _ _ hquote hbackslash hnewline) ih
  · obtain ⟨y, rfl, hy⟩ := matches_exactly_seq.1 hv
    obtain ⟨d, _, rfl⟩ := matches_anyBut.1 hy
    have skipping : [Frame.skip, f].any (·.isHole) = false := by
      rw [List.any_cons, outside]
      rfl
    refine readOpen?_text outside skipping (hskip _) ?_
    exact readOpen?_text skipping outside rfl ih

theorem string?_of_str (h : Matches TokenRule.str u) :
    string? (u ++ rest) = some ([.text u], rest) := by
  obtain ⟨y, rfl, hy⟩ := matches_exactly_seq.1 h
  obtain ⟨body, z, rfl, hbody, hz⟩ := matches_seq.1 hy
  obtain rfl := matches_exactly.1 hz
  have closed : readOpen? [.string ⟨false, false⟩] (body ++ '\x22' :: rest) =
      some ([.text (body ++ ['\x22'])], rest) := by
    refine readOpen?_escapedBody (m := .quote) rfl rfl
      (fun ahead k hquote hbackslash hnewline => ?_) (fun _ => rfl) hbody
      (readOpen?_close rfl rfl)
    cases k <;> first | rfl | contradiction
  rw [List.cons_append, List.append_assoc]
  exact string?_eq_some.2 ⟨⟨false, false⟩, rfl, readOpen?_text rfl rfl rfl closed⟩

/-- The body of a verbatim string, with quotes in pairs. -/
theorem readOpen?_verbatimBody {t : List Char} {pieces : List (Piece Char)} {tail : List Char}
    (hu : Matches (.star (.alt (anyBut ['\x22']) (text ['\x22', '\x22']))) u)
    (h : readOpen? [.string ⟨true, false⟩] tail = some (.text t :: pieces, rest)) :
    readOpen? [.string ⟨true, false⟩] (u ++ tail) = some (.text (u ++ t) :: pieces, rest) := by
  refine star_induction
    (P := fun u => readOpen? [.string ⟨true, false⟩] (u ++ tail) =
      some (.text (u ++ t) :: pieces, rest))
    h (fun v w hv _ ih => ?_) hu
  rcases matches_alt.1 hv with hv | hv
  · obtain ⟨c, hc, rfl⟩ := matches_anyBut.1 hv
    refine readOpen?_text rfl rfl ?_ ih
    have hquote : mark c ≠ .quote := mt (mark_eq_iff rfl).1 (mt List.mem_singleton.2 hc)
    rw [Frame.next?_verbatim, if_neg hquote]
  · rw [matches_text.1 hv]
    have skipped : readOpen? [.skip, .string ⟨true, false⟩] ('\x22' :: (w ++ tail)) =
        some (.text ('\x22' :: (w ++ t)) :: pieces, rest) := readOpen?_text rfl rfl rfl ih
    exact readOpen?_text rfl rfl rfl skipped

theorem string?_of_verbatimStr (h : IsToken .verbatimStr u rest) :
    string? (u ++ rest) = some ([.text u], rest) := by
  obtain ⟨y, rfl, hy⟩ := matches_text_seq.1 h.matches_rule
  obtain ⟨body, z, rfl, hbody, hz⟩ := matches_seq.1 hy
  obtain rfl := matches_exactly.1 hz
  have closed : readOpen? [.string ⟨true, false⟩] (body ++ '\x22' :: rest) =
      some ([.text (body ++ ['\x22'])], rest) := by
    refine readOpen?_verbatimBody hbody (readOpen?_close rfl ?_)
    -- A second quote would go on with the string.
    cases rest with
    | nil => rfl
    | cons c rest =>
      have hquote : mark c ≠ mark '\x22' :=
        mt (mark_eq_iff (m := .quote) rfl).1 (beq_eq_false_iff_ne.1 (h.ends c rfl))
      exact if_neg (by simpa using hquote)
  rw [List.append_assoc, List.append_assoc]
  exact string?_eq_some.2
    ⟨⟨true, false⟩, rfl, readOpen?_text rfl rfl rfl (readOpen?_text rfl rfl rfl closed)⟩

/-- What is read as the rest of a verbatim string belongs to its rule. After the first quote of a
pair the second one is skipped. -/
theorem exists_verbatimBody_of_readOpen? :
    (∀ pieces, readOpen? [.string ⟨true, false⟩] s = some (pieces, rest) →
      ∃ body, s = body ++ '\x22' :: rest ∧
        Matches (.star (.alt (anyBut ['\x22']) (text ['\x22', '\x22']))) body ∧
        rest.head? ≠ some '\x22') ∧
    ∀ pieces, readOpen? [.skip, .string ⟨true, false⟩] s = some (pieces, rest) →
      ∃ c body, s = c :: (body ++ '\x22' :: rest) ∧
        Matches (.star (.alt (anyBut ['\x22']) (text ['\x22', '\x22']))) body ∧
        rest.head? ≠ some '\x22' := by
  induction s with
  | nil => exact ⟨nofun, nofun⟩
  | cons c s ih =>
    obtain ⟨ihstring, ihskip⟩ := ih
    constructor
    · intro pieces h
      obtain ⟨stack', tail, hstep, htail, rfl⟩ := readOpen?_cons_eq_some.1 h
      rw [Frame.next?_verbatim, Option.some.injEq] at hstep
      by_cases hc : mark c = .quote
      · rw [if_pos hc] at hstep
        obtain rfl : c = '\x22' := (mark_eq_iff rfl).1 hc
        split at hstep
        · rename_i hdoubled
          subst hstep
          obtain ⟨d, body, rfl, hbody, hrest⟩ := ihskip tail htail
          obtain rfl : d = '\x22' := (mark_eq_iff rfl).1 (Option.some.inj hdoubled)
          exact ⟨'\x22' :: '\x22' :: body, rfl,
            .starCons (s := ['\x22', '\x22']) (.altRight (matches_text.2 rfl)) hbody, hrest⟩
        · rename_i hsingle
          subst hstep
          rw [readOpen?_nil] at htail
          cases htail
          refine ⟨[], rfl, .starNil, fun hquote => hsingle ?_⟩
          obtain ⟨s, rfl⟩ := List.head?_eq_some_iff.1 hquote
          rfl
      · rw [if_neg hc] at hstep
        subst hstep
        obtain ⟨body, rfl, hbody, hrest⟩ := ihstring tail htail
        have hquote : c ∉ ['\x22'] := fun h => hc ((mark_eq_iff rfl).2 (List.mem_singleton.1 h))
        exact ⟨c :: body, rfl,
          .starCons (s := [c]) (.altLeft (matches_anyBut.2 ⟨c, hquote, rfl⟩)) hbody, hrest⟩
    · intro pieces h
      obtain ⟨stack', tail, hstep, htail, rfl⟩ := readOpen?_cons_eq_some.1 h
      cases hstep
      obtain ⟨body, rfl, hbody, hrest⟩ := ihstring tail htail
      exact ⟨c, body, rfl, hbody, hrest⟩

/-- A verbatim string ends where its rule has it end. -/
theorem exists_isToken_of_string? {pieces : List (Piece Char)}
    (h : string? ('@' :: '\x22' :: s) = some (pieces, rest)) :
    ∃ u, u ++ rest = '@' :: '\x22' :: s ∧ IsToken .verbatimStr u rest := by
  obtain ⟨style, hstyle, hread⟩ := string?_eq_some.1 h
  cases hstyle
  obtain ⟨tail, htail, _⟩ := exists_tail_of_opener (w := ['@']) (q := '\x22')
    (List.forall_mem_singleton.2 (by decide)) rfl hread
  obtain ⟨body, rfl, hbody, hrest⟩ := exists_verbatimBody_of_readOpen?.1 tail htail
  refine ⟨['@', '\x22'] ++ (body ++ ['\x22']), by simp, ?_, fun c hc => ?_⟩
  · exact .seq (matches_text.2 rfl) (.seq hbody (matches_exactly.2 rfl))
  · refine beq_eq_false_iff_ne.2 ?_
    rintro rfl
    exact hrest hc

theorem char?_of_char (h : Matches TokenRule.char u) (rest : List Char) :
    ∃ body, u = '\x27' :: body ∧ char? (body ++ rest) = some (body, rest) := by
  obtain ⟨y, rfl, hy⟩ := matches_exactly_seq.1 h
  obtain ⟨body, z, rfl, hbody, hz⟩ := matches_seq.1 hy
  obtain rfl := matches_exactly.1 hz
  refine ⟨body ++ ['\x27'], rfl, char?_eq_some.2 ⟨[.text (body ++ ['\x27'])], ?_, ?_⟩⟩
  · rw [List.append_assoc]
    obtain ⟨v, w, rfl, hv, hw⟩ := matches_plus.1 hbody
    refine readOpen?_escapedBody (m := .apostrophe) rfl rfl
      (fun ahead k hquote hbackslash hnewline => ?_) (fun _ => rfl) (.starCons hv hw)
      (readOpen?_close rfl rfl)
    cases k <;> first | rfl | contradiction
  · simp [Piece.units]

end Literal

/-! ## Comments and character literals -/

namespace Boundary

variable {cs tail : List Char}

theorem commentTail?_cons (h : c = '*' → cs.head? ≠ some '/') :
    commentTail? (c :: cs) = (commentTail? cs).map fun (tail, rest) => (c :: tail, rest) := by
  rw [commentTail?]
  rintro rest rfl rfl
  exact h rfl rfl

/-- Stars stand before the end of a comment without being part of it. -/
theorem commentTail?_stars (hu : ∀ c ∈ u, c = '*') (hcs : cs.head? ≠ some '/') :
    commentTail? (u ++ cs) = (commentTail? cs).map fun (tail, rest) => (u ++ tail, rest) := by
  induction u with
  | nil => exact Option.map_id'.symm
  | cons c u ih =>
    obtain ⟨hc, hu⟩ := List.forall_mem_cons.1 hu
    have hhead : (u ++ cs).head? ≠ some '/' := by
      cases u with
      | nil => exact hcs
      | cons d u =>
        rw [hu d List.mem_cons_self]
        exact (by decide : some '*' ≠ some '/')
    rw [List.cons_append, commentTail?_cons fun _ => hhead, ih hu, Option.map_map]
    rfl

theorem commentTail?_body (hu : Matches TokenRule.commentBody u) :
    commentTail? (u ++ cs) = (commentTail? cs).map fun (tail, rest) => (u ++ tail, rest) := by
  refine star_induction
    (P := fun u => commentTail? (u ++ cs) =
      (commentTail? cs).map fun (tail, rest) => (u ++ tail, rest))
    Option.map_id'.symm (fun v w hv _ ih => ?_) hu
  rcases matches_alt.1 hv with hv | hv
  · obtain ⟨c, hc, rfl⟩ := matches_anyBut.1 hv
    have hstar : c ≠ '*' := mt List.mem_singleton.2 hc
    change commentTail? (c :: (w ++ cs)) = _
    rw [commentTail?_cons fun hc => absurd hc hstar, ih, Option.map_map]
    rfl
  · obtain ⟨stars, x, rfl, hstars, hx⟩ := matches_seq.1 hv
    obtain ⟨c, hc, rfl⟩ := matches_anyBut.1 hx
    simp only [List.mem_cons, List.not_mem_nil, or_false, not_or] at hc
    have hall : ∀ d ∈ stars, d = '*' := fun d hd => eq_of_beq ((matches_plus_char.1 hstars).2 d hd)
    have hhead : (c :: (w ++ cs)).head? ≠ some '/' := mt Option.some.inj hc.2
    rw [List.append_assoc, List.append_assoc, List.singleton_append, commentTail?_stars hall hhead,
      commentTail?_cons fun h => absurd h hc.1, ih, Option.map_map, Option.map_map]
    simp [Function.comp_def]

/-- A comment that its rule finds unterminated has no end. -/
theorem commentTail?_of_unterminated (h : Matches TokenRule.unterminatedComment u) :
    ∃ body, u = '/' :: '*' :: body ∧ commentTail? body = none := by
  obtain ⟨y, rfl, hy⟩ := matches_text_seq.1 h
  obtain ⟨body, stars, rfl, hbody, hstars⟩ := matches_seq.1 hy
  have hall : ∀ c ∈ stars, c = '*' := fun c hc => eq_of_beq (matches_star_char.1 hstars c hc)
  have hhead : ([] : List Char).head? ≠ some '/' := nofun
  have hnone : commentTail? (stars ++ []) = none := (commentTail?_stars hall hhead).trans rfl
  refine ⟨body ++ stars, rfl, ?_⟩
  rw [List.append_nil] at hnone
  rw [commentTail?_body hbody, hnone]
  rfl

end Boundary

namespace Cell

theorem next?_of_char (h : Matches TokenRule.char u) :
    next? (u ++ rest) = some (u.map (.char .charLiteral), rest) := by
  obtain ⟨body, rfl, hread⟩ := Literal.char?_of_char h rest
  rw [List.cons_append, next?_char, hread]
  rfl

/-- A block comment ends at its first star and slash. -/
theorem next?_of_blockComment (h : Matches TokenRule.blockComment u) (rest : List Char) :
    next? (u ++ rest) = some (u.map (.char .comment), rest) := by
  obtain ⟨y, rfl, hy⟩ := matches_text_seq.1 h
  obtain ⟨body, z, rfl, hbody, hz⟩ := matches_seq.1 hy
  obtain ⟨stars, w, rfl, hstars, hw⟩ := matches_seq.1 hz
  obtain rfl := matches_exactly.1 hw
  obtain ⟨hne, hall⟩ := matches_plus_char.1 hstars
  -- The last of the stars belongs to the end.
  have hall : ∀ d ∈ stars, d = '*' := fun d hd => eq_of_beq (hall d hd)
  obtain ⟨stars, rfl⟩ : ∃ before, stars = before ++ ['*'] :=
    ⟨stars.dropLast, by
      rw [← hall _ (List.getLast_mem hne), List.dropLast_concat_getLast]⟩
  have hclose : Boundary.commentTail? ('*' :: '/' :: rest) = some (['*', '/'], rest) := by
    rw [Boundary.commentTail?]
  have hhead : ('*' :: '/' :: rest).head? ≠ some '/' :=
    mt Option.some.inj (by decide : '*' ≠ '/')
  have hstars : ∀ d ∈ stars, d = '*' := fun d hd => hall d (List.mem_append_left _ hd)
  simp only [List.append_assoc, List.cons_append, List.nil_append]
  rw [next?_blockComment, Boundary.commentTail?_body hbody,
    Boundary.commentTail?_stars hstars hhead, hclose]
  rfl

/-- A line comment goes on to the end of its line. -/
theorem next?_of_lineComment (h : IsToken .lineComment u rest) :
    next? (u ++ rest) = some (u.map (.char .comment), rest) := by
  obtain ⟨body, rfl, hbody⟩ := matches_text_seq.1 h.matches_rule
  have hline : ∀ c ∈ body, decide (c ≠ '\n') = true := by
    intro c hc
    simpa [TokenRule.lineEnd] using matches_star_char.1 hbody c hc
  have hrest : ∀ c ∈ rest.head?, decide (c ≠ '\n') = false := by
    intro c hc
    simpa [TokenKind.goesOn, TokenRule.lineEnd] using h.ends c hc
  change next? ('/' :: '/' :: (body ++ rest)) = some (('/' :: '/' :: body).map _, rest)
  rw [next?_lineComment, takeWhile_append_eq hline hrest, dropWhile_append_eq hline hrest]

end Cell

/-! ## Code -/

/-- The role of a token's text, holes apart. -/
def TokenKind.role : TokenKind → Role
  | .lineComment | .blockComment | .unterminatedComment => .comment
  | .str | .verbatimStr | .interpolatedStr | .interpolatedVerbatimStr => .stringText
  | .char => .charLiteral
  | .whitespace | .identifier | .number | .arrow | .dot | .openParen | .closeParen | .comma
  | .punct => .code

def Token.cells (t : Token) : List Cell :=
  if t.kind.isInterpolated then t.pieces.flatMap Cell.ofPiece
  else t.text.map (.char t.kind.role)

namespace TokenRule

/-- A class of characters that none of the listed ones belongs to. -/
theorem notMem_of_class {p : Char → Bool} {l : List Char} (hp : l.any p = false) (hc : p c) :
    c ∉ l := by
  intro hmem
  rw [List.any_eq_true.2 ⟨c, hmem, hc⟩] at hp
  cases hp

theorem isPlain_of_class {p : Char → Bool}
    (hp : ['/', '\x22', '\x27', '@', '$'].any p = false) (hc : p c) : Cell.isPlain c := by
  rw [Cell.isPlain, List.contains_eq_mem, decide_eq_false (notMem_of_class hp hc)]
  rfl

theorem matches_identifier :
    Matches identifier u ↔ ∃ sign c body, u = sign ++ c :: body ∧ (sign = [] ∨ sign = ['@']) ∧
      (Text.isIdentifierStart c || c == '_') ∧ ∀ d ∈ body, Text.isIdentifierContinue d := by
  constructor
  · intro h
    obtain ⟨sign, name, rfl, hsign, hname⟩ := matches_seq.1 h
    obtain ⟨x, body, rfl, hx, hbody⟩ := matches_seq.1 hname
    obtain ⟨c, hc, rfl⟩ := matches_char.1 hx
    exact ⟨sign, c, body, rfl, (matches_optional.1 hsign).imp id matches_exactly.1, hc,
      matches_star_char.1 hbody⟩
  · rintro ⟨sign, c, body, rfl, hsign, hc, hbody⟩
    exact .seq (matches_optional.2 (hsign.imp id matches_exactly.2))
      (.seq (.char hc) (matches_star_char.2 hbody))

/-- An identifier starts with an at sign or with what may follow it. -/
theorem exists_cons_of_identifier (h : Matches identifier u) :
    ∃ d v, u = d :: v ∧ (d = '@' ∨ Text.isIdentifierStart d || d == '_') := by
  obtain ⟨sign, c, body, rfl, rfl | rfl, hc, _⟩ := matches_identifier.1 h
  · exact ⟨c, body, rfl, .inr hc⟩
  · exact ⟨'@', c :: body, rfl, .inl rfl⟩

/-- The characters of an identifier belong to no class without letters, digits and underscores. -/
theorem notMem_of_identifier {l : List Char}
    (hstart : l.any (fun c => Text.isIdentifierStart c || c == '_') = false)
    (hcontinue : l.any Text.isIdentifierContinue = false) (h : Matches identifier u) :
    ∃ sign name, u = sign ++ name ∧ (sign = [] ∨ sign = ['@']) ∧ name ≠ [] ∧
      ∀ c ∈ name, c ∉ l := by
  obtain ⟨sign, c, body, rfl, hsign, hc, hbody⟩ := matches_identifier.1 h
  exact ⟨sign, c :: body, rfl, hsign, List.cons_ne_nil c body, List.forall_mem_cons.2
    ⟨notMem_of_class hstart hc, fun d hd => notMem_of_class hcontinue (hbody d hd)⟩⟩

theorem isPlain_of_identifier (h : Matches identifier u) :
    ∃ sign name, u = sign ++ name ∧ (sign = [] ∨ sign = ['@']) ∧ name ≠ [] ∧
      ∀ c ∈ name, Cell.isPlain c := by
  obtain ⟨sign, name, hu, hsign, hne, hname⟩ :=
    notMem_of_identifier (l := ['/', '\x22', '\x27', '@', '$']) (by decide) (by decide) h
  refine ⟨sign, name, hu, hsign, hne, fun c hc => ?_⟩
  rw [Cell.isPlain, List.contains_eq_mem, decide_eq_false (hname c hc)]
  rfl

theorem isPlain_of_number (h : Matches number u) : ∀ c ∈ u, Cell.isPlain c := by
  obtain ⟨x, y, rfl, hx, hy⟩ := matches_seq.1 h
  obtain ⟨c, hc, rfl⟩ := matches_char.1 hx
  refine List.forall_mem_cons.2 ⟨?_, fun d hd => ?_⟩
  · exact isPlain_of_class (p := Char.isDigit) (by decide) hc
  · exact isPlain_of_class (p := fun c => c.isAlphanum || c == '_') (by decide)
      (matches_star_char.1 hy d hd)

theorem isPlain_of_whitespace (h : Matches whitespace u) : ∀ c ∈ u, Cell.isPlain c :=
  fun c hc => isPlain_of_class (by decide) ((matches_plus_char.1 h).2 c hc)

end TokenRule

namespace Cell

theorem segment?_of_identifier (h : Matches TokenRule.identifier u) :
    segment? (u ++ rest) = (segment? rest).map (u.map (.char .code) ++ ·) := by
  obtain ⟨sign, name, rfl, hsign, hne, hname⟩ := TokenRule.isPlain_of_identifier h
  exact segment?_append_name hsign hne hname

/-- A character of punctuation opens nothing: a slash that is a token of its own opens no
comment. -/
theorem next?_of_punct (h : IsToken .punct [c] rest) :
    next? (c :: rest) = some ([.char .code c], rest) := by
  obtain ⟨_, hc, heq⟩ := matches_char.1 h.matches_rule
  cases heq
  simp only [Bool.and_eq_true, Bool.not_eq_true', List.contains_eq_mem, decide_eq_false_iff_not]
    at hc
  have hstyle : Literal.style? (c :: rest) = none := by
    refine Literal.style?_eq_none ?_ ?_ ?_ <;>
      exact fun heq => hc.1 (by rw [heq]; decide)
  have hchar : c ≠ '\x27' := fun heq => hc.1 (by rw [heq]; decide)
  refine next?_code hstyle hchar ?_
  rintro rfl
  exact ⟨fun hd => absurd (h.ends '/' hd) (by decide), fun hd => absurd (h.ends '*' hd) (by decide)⟩

theorem segment?_of_isToken {kind : TokenKind} (h : IsToken kind u rest)
    (hinter : kind.isInterpolated = false) (hopen : kind ≠ .unterminatedComment) :
    segment? (u ++ rest) = (segment? rest).map (u.map (.char kind.role) ++ ·) := by
  have single : ∀ c, Matches (exactly c) u → isPlain c → ∀ d ∈ u, isPlain d := by
    intro c hu hc
    rw [matches_exactly.1 hu]
    exact List.forall_mem_singleton.2 hc
  have whole : Literal.string? (u ++ rest) = some ([.text u], rest) →
      segment? (u ++ rest) = (segment? rest).map (u.map (.char .stringText) ++ ·) := by
    intro hread
    rw [segment?_of_next? (next?_of_string hread), List.flatMap_singleton]
    rfl
  have hm := h.matches_rule
  cases kind with
  | whitespace => exact segment?_append_plain (TokenRule.isPlain_of_whitespace hm)
  | lineComment => exact segment?_of_next? (next?_of_lineComment h)
  | blockComment => exact segment?_of_next? (next?_of_blockComment hm rest)
  | unterminatedComment => exact absurd rfl hopen
  | str => exact whole (Literal.string?_of_str hm)
  | verbatimStr => exact whole (Literal.string?_of_verbatimStr h)
  | interpolatedStr => cases hinter
  | interpolatedVerbatimStr => cases hinter
  | char => exact segment?_of_next? (next?_of_char hm)
  | identifier => exact segment?_of_identifier hm
  | number => exact segment?_append_plain (TokenRule.isPlain_of_number hm)
  | arrow =>
    rw [matches_text.1 hm]
    exact segment?_append_plain (List.forall_mem_cons.2 ⟨rfl, List.forall_mem_singleton.2 rfl⟩)
  | dot => exact segment?_append_plain (single _ hm rfl)
  | openParen => exact segment?_append_plain (single _ hm rfl)
  | closeParen => exact segment?_append_plain (single _ hm rfl)
  | comma => exact segment?_append_plain (single _ hm rfl)
  | punct =>
    obtain ⟨c, _, rfl⟩ := matches_char.1 hm
    exact segment?_of_next? (next?_of_punct h)

/-- A token is read in its role as a whole, and what follows it as if it stood alone. -/
theorem segment?_of_first? {t : Token} (h : Token.first? s = some (t, rest)) :
    segment? s = (segment? rest).map (t.cells ++ ·) := by
  obtain ⟨hinter, hread⟩ | ⟨u, hpieces, rfl, htoken, hinter, hopen⟩ := Token.first?_cases h
  · rw [Token.cells, if_pos hinter]
    exact segment?_of_next? (next?_of_string hread)
  · rw [Token.cells, if_neg (Bool.eq_false_iff.1 hinter), Token.text_eq_of_pieces hpieces]
    exact segment?_of_isToken htoken hinter hopen

end Cell
end MapPlan.Expr
