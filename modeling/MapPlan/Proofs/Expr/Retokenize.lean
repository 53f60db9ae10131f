import Mathlib.Data.List.Chain
import MapPlan.Proofs.Expr.LiteralSafety
import MapPlan.Proofs.Expr.MarkupEdit

/-!
# Renaming keeps the token structure

A renamed text is tokenized as the text was, with other names. Outside literals this is so because
the tokenizer looks one character ahead: a token ends where it did, as long as what follows it does
not go on with it. The new name could do that to an identifier or a number only, and no name to be
renamed stands right behind one. Inside literals it is so because names mean nothing to their rules.
So a text can be renamed back.
-/

namespace MapPlan.Expr

open Regex

variable {s u rest name target : List Char} {m : Markup} {tokens : List Token} {t : Token}

/-! ## One token -/

/-- An opener consists of marks. -/
theorem TokenKind.marks_of_opener {kind : TokenKind} (hu : Matches kind.rule u)
    (hinter : kind.isInterpolated) : (∀ c ∈ u, mark c ≠ .other) ∧ u.getLast? ≠ some '@' := by
  have marks : ∀ v : List Char, v.all (fun c => mark c ≠ .other) → ∀ c ∈ v, mark c ≠ .other :=
    fun v hv c hc => of_decide_eq_true (List.all_eq_true.1 hv c hc)
  cases kind with
  | interpolatedStr =>
    rw [matches_text.1 hu]
    exact ⟨marks _ (by decide), by decide⟩
  | interpolatedVerbatimStr =>
    rcases matches_alt.1 hu with hu | hu <;>
    · rw [matches_text.1 hu]
      exact ⟨marks _ (by decide), by decide⟩
  | _ => cases hinter

namespace Token

variable {m₁ m₂ : Markup} {dot : Bool} {f : List Char → List Char}

theorem text_of_ownParts (h : Part.AreTokenized (t.ownParts dot tokens) m) : m.text = t.text := by
  rw [h.text_eq fun _ _ => Markup.text_of_tokenized?, flatMap_text_ownParts]

theorem rename_of_ownParts (ht : t.IsWhole) (hinter : t.kind.isInterpolated = false)
    (h : Part.AreTokenized (t.ownParts dot tokens) m) :
    m.rename name target = (t.rename name target f dot).text := by
  rw [ht.text_rename hinter]
  rw [ownParts] at h
  by_cases hkind : t.kind = .identifier
  · rw [if_pos hkind] at h
    cases h with
    | word _ h =>
      cases h
      have hrefers : (Fragment.word ⟨t.text, dot, startWithUse tokens⟩).refersTo name =
          t.refersTo name dot := by
        rw [refersTo_of_identifier hkind]
        rfl
      rw [← hrefers]
      exact List.append_nil _
  · rw [if_neg hkind, ht hinter] at h
    rw [refersTo_eq_false hkind, if_neg Bool.false_ne_true]
    cases h with
    | plain _ h =>
      cases h
      exact List.append_nil t.text

/-- A text of a rule is a token where the new text ends. -/
theorem first?_rename_whole (hfirst : first? s = some (t, rest))
    (hinter : t.kind.isInterpolated = false) (htarget : IsName target)
    (h : Part.AreTokenized (t.ownParts dot tokens) m₁)
    (hends : ∀ c ∈ (m₂.rename name target).head?, t.kind.goesOn t.text c = false) :
    first? ((m₁ ++ m₂).rename name target) =
      some (t.rename name target f dot, m₂.rename name target) := by
  obtain ⟨htoken, hopen⟩ := isToken_of_first? hfirst hinter
  have hwhole : t.IsWhole := pieces_eq_text_of_first? hfirst
  have hrenamed : IsToken t.kind (t.rename name target f dot).text (m₂.rename name target) := by
    rw [hwhole.text_rename hinter]
    split
    · rename_i hrefers
      obtain ⟨hkind, _⟩ := refersTo_iff.1 hrefers
      rw [hkind] at hends ⊢
      exact ⟨htarget.matches_identifier, hends⟩
    · exact ⟨htoken.matches_rule, hends⟩
  have heq : t.rename name target f dot = ⟨t.kind, [.text (t.rename name target f dot).text]⟩ := by
    cases hrefers : t.refersTo name dot with
    | false =>
      rw [hwhole.rename_eq hinter hrefers]
      exact congrArg (Token.mk t.kind) (hwhole hinter)
    | true =>
      rw [hwhole.text_rename hinter, rename, hrefers, if_pos rfl, if_pos rfl,
        (refersTo_iff.1 hrefers).1]
  rw [Markup.rename_append, rename_of_ownParts (f := f) hwhole hinter h,
    first?_of_isToken hrenamed hinter hopen, ← heq]

/-- An opener is kept, and the literal ends where it did. -/
theorem first?_rename_interpolated (hfirst : first? s = some (t, rest))
    (hinter : t.kind.isInterpolated) (htarget : IsName target)
    (h : Part.AreTokenized (t.ownParts dot tokens) m₁) (hrest : m₂.text = rest)
    (hwords : ∀ w, .word w ∈ m₁ ++ m₂ → Matches TokenRule.identifier w.text) :
    first? ((m₁ ++ m₂).rename name target) =
      some (t.rename name target (Markup.renameCode name target) dot,
        m₂.rename name target) := by
  have hkind := TokenKind.ne_identifier hinter
  have hs : (m₁ ++ m₂).text = s := by
    rw [Markup.text_append, text_of_ownParts h, hrest, text_append_of_first? hfirst]
  have hread := string?_of_first? hfirst hinter
  rw [← hs, ← hrest] at hread
  rw [ownParts, if_neg hkind] at h
  have hrenamed := Literal.string?_rename name htarget hwords h hread
  obtain ⟨u, v, hopener, hu⟩ := exists_opener_of_first? hfirst hinter
  obtain ⟨hmarks, hlast⟩ := TokenKind.marks_of_opener hu hinter
  obtain ⟨v', hv'⟩ := Markup.exists_rename_eq_append name target hwords hmarks hlast
    (hs.trans hopener)
  rw [hv'] at hrenamed ⊢
  rw [first?_of_opener hu hinter, hrenamed, rename, refersTo_eq_false hkind,
    if_neg Bool.false_ne_true]
  rfl

/-! ## All tokens -/

/-- A renamed text starts as the text does, unless its first token is renamed. -/
theorem head?_renameAfter (name : List Char) (h : tokenize s = .ok tokens)
    (htarget : IsName target) (dot : Bool) :
    ((renameAfter name target f dot tokens).flatMap text).head? = s.head? ∨
      ∃ t ∈ tokens.head?, t.refersTo name dot ∧
        ((renameAfter name target f dot tokens).flatMap text).head? = target.head? := by
  cases tokens with
  | nil =>
    have hs := flatMap_text_of_tokenize h
    exact .inl (congrArg List.head? hs)
  | cons t tokens =>
    obtain ⟨rest, hfirst, _⟩ := tokenize_eq_cons_iff.1 h
    rw [renameAfter, List.flatMap_cons]
    cases hrefers : t.refersTo name dot with
    | true =>
      obtain ⟨c, body, rfl, _⟩ := htarget
      refine .inr ⟨t, rfl, hrefers, ?_⟩
      rw [rename, hrefers, if_pos rfl]
      rfl
    | false =>
      obtain ⟨c, u, pieces, hpieces⟩ := exists_text_of_first? hfirst
      refine .inl ?_
      rw [rename, hrefers, if_neg Bool.false_ne_true, ← text_append_of_first? hfirst, text, text,
        hpieces]
      rfl

/-- What follows a token in a renamed text does not go on with it. -/
theorem ends_renameAfter (htoken : IsToken t.kind u rest) (hrest : tokenize rest = .ok tokens)
    (htarget : IsName target)
    (hapart : t.kind = .identifier ∨ t.kind = .number →
      ∀ t' ∈ tokens.head?, t'.refersTo name dot = false) :
    ∀ c ∈ ((renameAfter name target f dot tokens).flatMap text).head?,
      t.kind.goesOn u c = false := by
  intro c hc
  obtain hhead | ⟨t', ht', hrefers, hhead⟩ :=
    head?_renameAfter name (f := f) hrest htarget dot
  · rw [hhead] at hc
    exact htoken.ends c hc
  · rw [hhead] at hc
    obtain ⟨d, body, rfl, hd, _⟩ := htarget
    obtain rfl : d = c := Option.some.inj hc
    refine TokenKind.goesOn_letter (fun hmem => ?_) hd
    -- A line comment goes on until a line end, and no name starts with one.
    obtain ⟨tokens, rfl⟩ := List.head?_eq_some_iff.1 ht'
    obtain ⟨rest', hfirst, _⟩ := tokenize_eq_cons_iff.1 hrest
    obtain ⟨hkind, _⟩ := refersTo_iff.1 hrefers
    simp only [List.mem_cons, List.not_mem_nil, or_false] at hmem
    rcases hmem with hkind' | hkind' | hkind'
    · rw [hapart (.inl hkind') t' rfl] at hrefers
      cases hrefers
    · rw [hapart (.inr hkind') t' rfl] at hrefers
      cases hrefers
    · obtain ⟨x, v, hv, hx⟩ :=
        TokenRule.exists_cons_of_identifier (matches_identifier_of_first? hfirst hkind)
      have hline := htoken.ends x (by rw [← text_append_of_first? hfirst, hv]; rfl)
      rw [hkind'] at hline
      have hx' : x = '\n' := by simpa [TokenKind.goesOn, TokenRule.lineEnd] using hline
      rw [hx'] at hx
      exact absurd hx (by decide)

variable {inside : List Char → List Lexeme}

/-- A token that is to be renamed does not start where an identifier or a number ends. -/
theorem apart_of_isChain (h : ((lexemesAfter inside dot (t :: tokens)).IsChain (Lexeme.Apart name)))
    (hkind : t.kind = .identifier ∨ t.kind = .number) :
    ∀ t' ∈ tokens.head?, t'.refersTo name (t.leavesDot dot) = false := by
  intro t' ht'
  obtain ⟨tokens, rfl⟩ := List.head?_eq_some_iff.1 ht'
  have hinter : t.kind.isInterpolated = false := by
    rcases hkind with hkind | hkind <;> rw [hkind] <;> rfl
  by_cases hinter' : t'.kind.isInterpolated
  · exact refersTo_eq_false (TokenKind.ne_identifier hinter')
  · rw [lexemesAfter, lexemesAfter, lexemes, lexemes, if_neg (Bool.eq_false_iff.1 hinter),
      if_neg hinter'] at h
    exact (List.isChain_cons_cons.1 h).1 hkind

end Token

/-- The tokens of a renamed segment are the renamed tokens. -/
theorem tokenize_rename {inside : List Char → List Lexeme} (h : tokenize s = .ok tokens)
    (htarget : IsName target) (dot : Bool) (hm : Part.AreTokenized (Token.partsAfter dot tokens) m)
    (hapart : (Token.lexemesAfter inside dot tokens).IsChain (Lexeme.Apart name)) :
    tokenize (m.rename name target) =
      .ok (Token.renameAfter name target (Markup.renameCode name target) dot tokens) := by
  refine tokenize_induction (P := fun s tokens => ∀ dot m,
    Part.AreTokenized (Token.partsAfter dot tokens) m →
    (Token.lexemesAfter inside dot tokens).IsChain (Lexeme.Apart name) →
    tokenize (m.rename name target) =
      .ok (Token.renameAfter name target (Markup.renameCode name target) dot tokens))
    ?_ ?_ h dot m hm hapart
  · intro dot m hm _
    cases hm
    rw [Markup.rename, List.flatMap_nil, tokenize, if_pos rfl]
    rfl
  · intro s t rest tokens hfirst hrest ih dot m hm hapart
    have htokens : tokenize s = .ok (t :: tokens) := tokenize_eq_cons_iff.2 ⟨rest, hfirst, hrest⟩
    have hwords := hm.forall_word (Token.matches_identifier_of_partsAfter htokens dot)
      fun _ _ => Markup.matches_identifier_of_tokenized?
    rw [Token.partsAfter_cons] at hm
    obtain ⟨m₁, m₂, rfl, h₁, h₂⟩ := hm.append_left
    have hrenamed := ih (t.leavesDot dot) m₂ h₂ (List.IsChain.right_of_append hapart)
    refine tokenize_eq_cons_iff.2 ⟨m₂.rename name target, ?_, hrenamed⟩
    cases hinter : t.kind.isInterpolated with
    | true =>
      obtain ⟨cells, hcells, hcovers⟩ := Token.exists_covers_of_tokenize hrest (t.leavesDot dot)
      have htext := hcovers.text_eq (fun _ _ => Markup.text_of_tokenized?) hcells h₂
      exact Token.first?_rename_interpolated hfirst hinter htarget h₁ htext hwords
    | false =>
      obtain ⟨htoken, _⟩ := Token.isToken_of_first? hfirst hinter
      refine Token.first?_rename_whole hfirst hinter htarget h₁ ?_
      rw [← flatMap_text_of_tokenize hrenamed]
      exact Token.ends_renameAfter htoken hrest htarget (Token.apart_of_isChain hapart)

/-! ## All depths -/

/-- A renamed text has the markup and the token structure of the text, renamed. -/
theorem Markup.tokenized?_rename (h : tokenized? s = some m) (htarget : IsName target)
    (hapart : (lexemes s).IsChain (Lexeme.Apart name)) :
    tokenized? (m.rename name target) = some (m.map (Fragment.rename name target)) ∧
      lexemes (m.rename name target) = (lexemes s).map (Lexeme.rename name target) := by
  refine read?_induction (P := fun s m => (lexemes s).IsChain (Lexeme.Apart name) →
    tokenized? (m.rename name target) = some (m.map (Fragment.rename name target)) ∧
      lexemes (m.rename name target) = (lexemes s).map (Lexeme.rename name target)) ?_ h hapart
  intro s parts m hparts hfilled hapart
  obtain ⟨tokens, htokens, rfl⟩ := Token.parts?_eq_some.1 hparts
  have hwhole := isWhole_of_tokenize htokens
  rw [lexemes_eq htokens] at hapart ⊢
  have hholes : Filled (fun code inner => tokenized? code = some inner ∧
      tokenized? (renameCode name target code) = some (inner.map (Fragment.rename name target)) ∧
        lexemes (renameCode name target code) = (lexemes code).map (Lexeme.rename name target))
      (Token.partsAfter false tokens) m := by
    refine hfilled.mono fun code inner hmem ⟨_, hcode, ih⟩ => ?_
    obtain ⟨t, ht, hpiece⟩ := (Token.hole_mem_partsAfter_iff hwhole false).1 hmem
    rw [renameCode_eq hcode]
    have hinner := List.IsChain.infix hapart (Token.infix_lexemesAfter hwhole ht hpiece false)
    exact ⟨hcode, ih hinner⟩
  have hrenamed := tokenize_rename htokens htarget false
    (hholes.mono fun _ _ _ hcode => hcode.1) hapart
  constructor
  · refine read?_of_filled (Token.parts?_eq_some.2 ⟨_, hrenamed, rfl⟩) ?_
    rw [Token.partsAfter_renameAfter false hwhole]
    have hfilled' := hholes.rename (f := renameCode name target)
      (S := fun code inner => tokenized? code = some inner) fun _ _ hcode => hcode.2.1
    refine hfilled'.mono fun code inner hmem hcode => ⟨?_, hcode⟩
    rw [← Token.partsAfter_renameAfter false hwhole] at hmem
    obtain ⟨t, ht, hpiece⟩ :=
      (Token.hole_mem_partsAfter_iff (isWhole_of_tokenize hrenamed) false).1 hmem
    exact length_hole_lt_of_tokenize hrenamed t ht code hpiece
  · rw [lexemes_eq hrenamed]
    refine Token.lexemesAfter_renameAfter false hwhole fun t ht code hpiece => ?_
    have hmem := (Token.hole_mem_partsAfter_iff hwhole false).2 ⟨t, ht, hpiece⟩
    obtain ⟨inner, hcode⟩ := exists_filled_iff.1 ⟨m, hholes⟩ code hmem
    exact hcode.2.2

/-! ## Back again -/

/-- Renaming the new name to the old one undoes a renaming, if the new name was not there and no
at sign was lost. -/
theorem Markup.rename_map_rename (htarget : IsName target)
    (hfresh : ∀ w ∈ m.words, w.member = false → w.bare ≠ target)
    (hsign : ∀ w ∈ m.words, w.member = false → w.bare = name → w.text.head? ≠ some '@') :
    rename target name (m.map (Fragment.rename name target)) = m.text := by
  rw [rename, List.flatMap_map, text]
  refine congrArg List.flatten (List.map_congr_left fun f hf => ?_)
  cases f with
  | plain s => rfl
  | word w =>
    have hw : w ∈ m.words := List.mem_filterMap.2 ⟨.word w, hf, rfl⟩
    by_cases hrefers : w.member = false ∧ w.bare = name
    · obtain ⟨hmember, hbare⟩ := hrefers
      have htext : w.text = name := by
        rcases eq_bare_or_eq_cons w.text with htext | htext
        · exact htext.trans hbare
        · refine absurd ?_ (hsign w hw hmember hbare)
          rw [htext]
          rfl
      have hrenamed : w.rename name target = { w with text := target } := by
        rw [Word.rename, hmember, hbare]
        simp
      have hback : (Fragment.word { w with text := target }).refersTo target :=
        refersTo_word.2 ⟨hmember, htarget.bare_eq⟩
      rw [Fragment.rename, hrenamed, if_pos hback]
      exact htext.symm
    · have hsame : w.rename name target = w := by
        refine if_neg fun h => hrefers ?_
        simpa using h
      have hother : ¬ (Fragment.word w).refersTo target := by
        intro h
        obtain ⟨hmember, hbare⟩ := refersTo_word.1 h
        exact hfresh w hw hmember hbare
      rw [Fragment.rename, hsame, if_neg hother]

theorem Renamer.rename_of_tokenized? {text : String} (r : Renamer) (parameter : String)
    (h : Markup.tokenized? text.toList = some m) :
    r.rename text parameter =
      ⟨String.ofList (m.rename (bare parameter.toList) r.target.toList), some parameter,
        m.references (bare parameter.toList), .tokenized⟩ := by
  rw [rename, scan?_eq_some_tokenized.2 h]
  simp only [apply, String.ofList_toList]

theorem Renamer.text_rename_of_tokenized? {text parameter : String} (r : Renamer)
    (h : Markup.tokenized? text.toList = some m) :
    (r.rename text parameter).text =
      String.ofList (m.rename (bare parameter.toList) r.target.toList) := by
  rw [r.rename_of_tokenized? parameter h]

/-- Renaming to a plain identifier keeps the token structure, at every depth of holes, where no
token to be renamed starts at the end of an identifier or a number. If the new name was not there
and no at sign is lost, renaming it back restores the text. -/
theorem Renamer.rename_tokens (r : Renamer) (text parameter : String) (m : Markup)
    (hm : Markup.tokenized? text.toList = some m)
    (htarget : Options.isPlainIdentifier r.target.toList)
    (hapart : (lexemes text.toList).IsChain (Lexeme.Apart (bare parameter.toList))) :
    let name := bare parameter.toList
    let out := (r.rename text parameter).text
    (∃ m', Markup.tokenized? out.toList = some m') ∧
    lexemes out.toList = (lexemes text.toList).map (Lexeme.rename name r.target.toList) ∧
    ((∀ w ∈ m.words, w.member = false → w.bare ≠ r.target.toList) →
      (∀ w ∈ m.words, w.member = false → w.bare = name → w.text.head? ≠ some '@') →
      ∀ back : Renamer, back.target.toList = name → (back.rename out r.target).text = text) := by
  intro name out
  have hname := isName_of_isPlainIdentifier htarget
  have hout : out = String.ofList (m.rename name r.target.toList) :=
    r.text_rename_of_tokenized? hm
  obtain ⟨hrenamed, hlexemes⟩ := Markup.tokenized?_rename hm hname hapart
  rw [hout, String.toList_ofList]
  refine ⟨⟨_, hrenamed⟩, hlexemes, fun hfresh hsign back hback => ?_⟩
  rw [← String.toList_ofList (l := m.rename name r.target.toList)] at hrenamed
  rw [back.text_rename_of_tokenized? hrenamed, hname.bare_eq, hback,
    Markup.rename_map_rename hname hfresh hsign, Markup.text_of_tokenized? hm, String.ofList_toList]

theorem Renamer.rename_tokens_sample :
    let out := ((⟨"it", []⟩ : Renamer).rename "$\"\x7bs\x7d\".s" "s").text
    lexemes out.toList =
      [.openLiteral .interpolatedStr, .literalText ['$', '\x22', '{'], .openHole,
        .token .identifier ['i', 't'] false, .closeHole, .literalText ['}', '\x22'], .closeLiteral,
        .token .dot ['.'] false, .token .identifier ['s'] true] ∧
      ((⟨"s", []⟩ : Renamer).rename out "it").text = "$\"\x7bs\x7d\".s" := by
  have hm : Markup.tokenized? "$\"\x7bs\x7d\".s".toList =
      some [.plain ['$', '\x22', '{'], .word ⟨['s'], false, false⟩, .plain ['}', '\x22'],
        .plain ['.'], .word ⟨['s'], true, false⟩] := by decide +kernel
  have hlexemes : lexemes "$\"\x7bs\x7d\".s".toList =
      [.openLiteral .interpolatedStr, .literalText ['$', '\x22', '{'], .openHole,
        .token .identifier ['s'] false, .closeHole, .literalText ['}', '\x22'], .closeLiteral,
        .token .dot ['.'] false, .token .identifier ['s'] true] := by decide +kernel
  have hapart : (lexemes "$\"\x7bs\x7d\".s".toList).IsChain (Lexeme.Apart (bare "s".toList)) := by
    rw [hlexemes]
    decide
  obtain ⟨_, hrenamed, hback⟩ := rename_tokens ⟨"it", []⟩ _ "s" _ hm (by decide) hapart
  rw [hlexemes] at hrenamed
  exact ⟨hrenamed, hback (by decide) (by decide) ⟨"s", []⟩ rfl⟩

end MapPlan.Expr
