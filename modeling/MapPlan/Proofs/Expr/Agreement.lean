import Mathlib.Data.List.Chain
import MapPlan.Proofs.Expr.LiteralSafety
import MapPlan.Proofs.Expr.Munch

/-!
# The two scans agree

What the tokenizer accepts, the boundary scan accepts too: it reads the same comments, literals and
holes. So a text is malformed exactly where the boundary scan refuses it. In a text of ASCII where
no at sign stands directly behind a name or a number, the two scans also find the same words: the
boundary scan never starts a name in the middle of a token, and never fails to start one where a
token does.
-/

namespace MapPlan.Expr

variable {s u rest : List Char} {c : Char} {m : Markup}

/-! ## Acceptance -/

theorem Markup.exists_boundary?_of_tokenized? (h : tokenized? s = some m) :
    ∃ m', boundary? s = some m' := by
  refine read?_induction (P := fun s _ => ∃ m', boundary? s = some m')
    (fun s parts m hparts hm => ?_) h
  obtain ⟨cells, hcells, hcovers⟩ := Token.exists_covers_of_parts? hparts
  obtain ⟨parts', hparts', hcovers'⟩ :=
    Boundary.exists_partsAfter?_of_segment? hcells []
  have holes : ∀ code, .hole code ∈ parts' →
      ∃ inner, code.length < s.length ∧ boundary? code = some inner := by
    intro code hcode
    have hcode := hcovers.hole_mem_iff.2 (hcovers'.hole_mem_iff.1 hcode)
    obtain ⟨_, hlt, _, inner, hinner⟩ := exists_filled_iff.1 ⟨m, hm⟩ code hcode
    exact ⟨inner, hlt, hinner⟩
  obtain ⟨m', hm'⟩ := exists_filled_iff.2 holes
  exact ⟨m', read?_of_filled hparts' hm'⟩

theorem scan?_eq_none_iff : scan? s = none ↔ Markup.boundary? s = none := by
  rw [scan?]
  cases h : Markup.tokenized? s with
  | none => simp
  | some m =>
    obtain ⟨m', hm'⟩ := Markup.exists_boundary?_of_tokenized? h
    simp [hm']

/-! ## Grains -/

/-- A character outside all words, a word, or the code of a hole: what two ways to divide a text
have in common if they find the same words in it. -/
inductive Grain where
  | char (c : Char)
  | word (text : List Char)
  | hole (code : List Char)

namespace Grain

def ofCell : Cell → Grain
  | .char _ c => .char c
  | .hole code => .hole code

def ofPart : Part → List Grain
  | .plain s => s.map .char
  | .word w => [.word w.text]
  | .hole code => [.hole code]

def ofFragment : Fragment → List Grain
  | .plain s => s.map .char
  | .word w => [.word w.text]

/-- Put the grains of a hole in its place. -/
def fill (f : List Char → List Grain) : Grain → List Grain
  | .hole code => f code
  | g => [g]

/-- The bytes of each word and its text, the first grain at byte `start`. -/
def locatedFrom (start : Nat) : List Grain → List ((Nat × Nat) × List Char)
  | [] => []
  | .char c :: gs => locatedFrom (start + c.utf8Size) gs
  | .word t :: gs =>
    let stop := start + Text.byteSize t
    ((start, stop), t) :: locatedFrom stop gs
  | .hole code :: gs => locatedFrom (start + Text.byteSize code) gs

theorem locatedFrom_chars (start : Nat) (s : List Char) (gs : List Grain) :
    locatedFrom start (s.map .char ++ gs) = locatedFrom (start + Text.byteSize s) gs := by
  induction s generalizing start with
  | nil => rfl
  | cons c s ih =>
    rw [List.map_cons, List.cons_append, locatedFrom, ih, Text.byteSize_cons, Nat.add_assoc]

theorem fill_chars (f : List Char → List Grain) (s : List Char) :
    (s.map Grain.char).flatMap (fill f) = s.map .char := by
  rw [List.flatMap_map]
  exact List.map_eq_flatMap.symm

end Grain

namespace Markup

def grains (m : Markup) : List Grain :=
  m.flatMap Grain.ofFragment

/-- The bytes of each word of a markup and its text, the first fragment at byte `start`. -/
def locatedFrom (start : Nat) : Markup → List ((Nat × Nat) × List Char)
  | [] => []
  | .plain s :: m => locatedFrom (start + Text.byteSize s) m
  | .word w :: m =>
    let stop := start + Text.byteSize w.text
    ((start, stop), w.text) :: locatedFrom stop m

def located (m : Markup) : List ((Nat × Nat) × List Char) :=
  m.locatedFrom 0

theorem locatedFrom_eq (start : Nat) (m : Markup) :
    m.locatedFrom start = Grain.locatedFrom start m.grains := by
  induction m generalizing start with
  | nil => rfl
  | cons f m ih =>
    cases f with
    | plain s => exact (ih _).trans (Grain.locatedFrom_chars start s (grains m)).symm
    | word w => exact congrArg (_ :: ·) (ih _)

end Markup

/-- The grains of a markup are those of its parts, with those of each hole in its place. -/
theorem Filled.grains_eq {R : List Char → Markup → Prop} {f : List Char → List Grain}
    {parts : List Part} (hR : ∀ code inner, R code inner → inner.grains = f code)
    (h : Filled R parts m) :
    m.grains = (parts.flatMap Grain.ofPart).flatMap (Grain.fill f) := by
  induction h with
  | nil => rfl
  | plain s _ ih =>
    rw [List.flatMap_cons, List.flatMap_append, ← ih, Grain.ofPart, Grain.fill_chars]
    rfl
  | word w _ ih => exact congrArg (_ :: ·) ih
  | @hole code inner _ m hcode _ ih =>
    rw [List.flatMap_cons, List.flatMap_append, ← ih, Grain.ofPart, List.flatMap_singleton,
      Grain.fill, ← hR code inner hcode]
    exact List.flatMap_append

/-- Parts without a word have the grains of the cells that they cover. -/
theorem Covers.grains_eq {parts : List Part} {cells : List Cell} (h : Covers parts cells)
    (hword : ∀ w, .word w ∉ parts) : parts.flatMap Grain.ofPart = cells.map Grain.ofCell := by
  induction h with
  | nil => rfl
  | plain l _ ih =>
    rw [List.flatMap_cons, List.map_append, ih fun w hw => hword w (List.mem_cons_of_mem _ hw)]
    simp [Grain.ofPart, Grain.ofCell, Function.comp_def]
  | @word w _ _ _ _ _ => exact absurd List.mem_cons_self (hword w)
  | hole code _ ih =>
    rw [List.flatMap_cons, List.map_cons, ih fun w hw => hword w (List.mem_cons_of_mem _ hw)]
    rfl

/-! ## Names in ASCII -/

section
variable (hc : c.toNat < 128)
include hc

theorem isNameChar_eq_of_ascii : Boundary.isNameChar c = Text.isIdentifierContinue c :=
  Text.eq_of_ascii hc (by decide)

theorem isNameStart_eq_of_ascii :
    Boundary.isNameStart c = (Text.isIdentifierStart c || c == '_') :=
  Text.eq_of_ascii hc (q := fun c => Text.isIdentifierStart c || c == '_') (by decide)

theorem isNameChar_eq_alphanum : Boundary.isNameChar c = (c.isAlphanum || c == '_') :=
  Text.eq_of_ascii hc (q := fun c => c.isAlphanum || c == '_') (by decide)

end

/-! ## What the boundary scan reads -/

namespace Boundary

variable {before : List Char} {parts : List Part} {cells : List Cell} {gs : List Grain}

theorem name?_cons (hat : c ≠ '@') :
    name? (c :: s) =
      if isNameStart c then some (c :: s.takeWhile isNameChar, s.dropWhile isNameChar)
      else none := by
  unfold name?
  split
  rename_i sign body heq
  split at heq
  · rename_i heq'
    exact absurd (List.cons.inj heq').1 hat
  · cases heq
    rfl

theorem name?_at :
    name? ('@' :: c :: s) =
      if isNameStart c then some ('@' :: c :: s.takeWhile isNameChar, s.dropWhile isNameChar)
      else none := rfl

theorem name?_eq_none (hat : c ≠ '@') (hc : isNameStart c = false) : name? (c :: s) = none := by
  rw [name?_cons hat, hc, if_neg Bool.false_ne_true]

/-- What opens a string starts no name. -/
theorem name?_eq_none_of_string {pieces : List (Piece Char)}
    (h : Literal.string? s = some (pieces, rest)) : name? s = none := by
  obtain ⟨style, hstyle, _⟩ := Literal.string?_eq_some.1 h
  have open? : Literal.style? s ≠ none := Option.ne_none_iff_exists'.2 ⟨style, hstyle⟩
  cases s with
  | nil => cases hstyle
  | cons c s =>
    by_cases hat : c = '@'
    · subst hat
      cases s with
      | nil => cases hstyle
      | cons d s =>
        by_cases hd : d = '\x22' ∨ d = '$'
        · rw [name?_at]
          rcases hd with rfl | rfl <;> exact if_neg (by decide)
        · exact absurd (Literal.style?_at_eq_none (hd ∘ .inl) (hd ∘ .inr)) open?
    · by_cases hc : c = '\x22' ∨ c = '$'
      · rcases hc with rfl | rfl <;> exact name?_eq_none hat (by decide)
      · exact absurd (Literal.style?_eq_none (hc ∘ .inl) hat (hc ∘ .inr)) open?

/-- In ASCII an identifier is a name, and the name ends where it does. -/
theorem name?_of_identifier (h : IsToken .identifier u rest)
    (hascii : ∀ c ∈ u ++ rest, c.toNat < 128) : name? (u ++ rest) = some (u, rest) := by
  obtain ⟨sign, c, body, rfl, hsign, hc, hbody⟩ := TokenRule.matches_identifier.1 h.matches_rule
  have hstart : isNameStart c := (isNameStart_eq_of_ascii (hascii c (by simp))).trans hc
  have hat : c ≠ '@' := by
    rintro rfl
    exact absurd hc (by decide)
  have hbody : ∀ d ∈ body, isNameChar d := fun d hd =>
    (isNameChar_eq_of_ascii (hascii d (by simp [hd]))).trans (hbody d hd)
  have hrest : ∀ d ∈ rest.head?, isNameChar d = false := fun d hd =>
    (isNameChar_eq_of_ascii (hascii d (List.mem_append_right _ (List.mem_of_mem_head? hd)))).trans
      (h.ends d hd)
  rcases hsign with rfl | rfl
  · change name? (c :: (body ++ rest)) = some (c :: body, rest)
    rw [name?_cons hat, if_pos hstart, takeWhile_append_eq hbody hrest,
      dropWhile_append_eq hbody hrest]
  · change name? ('@' :: c :: (body ++ rest)) = some ('@' :: c :: body, rest)
    rw [name?_at, if_pos hstart, takeWhile_append_eq hbody hrest, dropWhile_append_eq hbody hrest]

theorem next?_code (hstyle : Literal.style? (c :: s) = none) (hchar : c ≠ '\x27')
    (hcomment : c = '/' → s.head? ≠ some '/' ∧ s.head? ≠ some '*') :
    next? before (c :: s) =
      if before.head?.any isNameChar then some ([.plain [c]], s)
      else
        match name? (c :: s) with
        | some (name, rest) => some ([.word (word before name rest)], rest)
        | none => some ([.plain [c]], s) := by
  have hline : ∀ tail, c = '/' → s = '/' :: tail → False := by
    rintro tail rfl rfl
    exact (hcomment rfl).1 rfl
  have hblock : ∀ tail, c = '/' → s = '*' :: tail → False := by
    rintro tail rfl rfl
    exact (hcomment rfl).2 rfl
  have hopen : ¬ (Literal.style? (c :: s)).isSome := by
    rw [hstyle]
    exact nofun
  exact (next?.eq_4 before c s hline hblock).trans ((if_neg hopen).trans (if_neg hchar))

/-- The scan divides a segment into these grains, given the text before in reverse. -/
def Reads (before s : List Char) (gs : List Grain) : Prop :=
  ∃ parts, partsAfter? before s = some parts ∧ parts.flatMap Grain.ofPart = gs

namespace Reads

theorem of_next? (hnext : next? before (u ++ rest) = some (parts, rest))
    (h : Reads (u.reverse ++ before) rest gs) :
    Reads before (u ++ rest) (parts.flatMap Grain.ofPart ++ gs) := by
  obtain ⟨more, hmore, rfl⟩ := h
  have hstep := partsAfter?_of_next? hnext
  rw [List.length_append, Nat.add_sub_cancel, List.take_left, hmore] at hstep
  exact ⟨parts ++ more, hstep, List.flatMap_append⟩

/-- Where no name starts, the scan reads the cells that come next. -/
theorem of_cells (hnext : Cell.next? (u ++ rest) = some (cells, rest))
    (hname : before.head?.any isNameChar ∨ name? (u ++ rest) = none)
    (h : Reads (u.reverse ++ before) rest gs) :
    Reads before (u ++ rest) (cells.map Grain.ofCell ++ gs) := by
  have hsome : (next? before (u ++ rest)).isSome := by
    rw [isSome_next?, hnext]
    rfl
  obtain ⟨⟨parts, rest'⟩, hparts⟩ := Option.isSome_iff_exists.1 hsome
  obtain ⟨cells', hcells, hcovers, hword⟩ | ⟨name, _, hname', hbefore⟩ := next?_cases hparts
  · rw [hnext] at hcells
    cases hcells
    rw [← hcovers.grains_eq hword]
    exact of_next? hparts h
  · rcases hname with hname | hname
    · rw [hbefore] at hname
      cases hname
    · rw [hname'] at hname
      cases hname

theorem of_plain (hc : Cell.isPlain c) (hname : before.head?.any isNameChar ∨ isNameStart c = false)
    (h : Reads (c :: before) rest gs) : Reads before (c :: rest) (.char c :: gs) := by
  have hat : c ≠ '@' := by
    rintro rfl
    exact absurd hc (by decide)
  exact of_cells (u := [c]) (Cell.next?_plain hc) (hname.imp_right (name?_eq_none hat)) h

/-- Characters that neither open anything nor start a name. -/
theorem of_plains (hu : ∀ c ∈ u, Cell.isPlain c ∧ isNameStart c = false)
    (h : Reads (u.reverse ++ before) rest gs) :
    Reads before (u ++ rest) (u.map .char ++ gs) := by
  induction u generalizing before with
  | nil => exact h
  | cons c u ih =>
    obtain ⟨⟨hc, hstart⟩, hu⟩ := List.forall_mem_cons.1 hu
    rw [List.reverse_cons, List.append_assoc] at h
    exact of_plain hc (.inr hstart) (ih hu h)

/-- What goes on with a name after a character that belongs to one. -/
theorem of_nameChars (hbefore : before.head?.any isNameChar) (hu : ∀ c ∈ u, isNameChar c)
    (h : Reads (u.reverse ++ before) rest gs) :
    Reads before (u ++ rest) (u.map .char ++ gs) := by
  induction u generalizing before with
  | nil => exact h
  | cons c u ih =>
    obtain ⟨hc, hu⟩ := List.forall_mem_cons.1 hu
    rw [List.reverse_cons, List.append_assoc] at h
    exact of_plain (isPlain_of_isNameChar hc) (.inl hbefore) (ih hc hu h)

/-- An identifier in ASCII, where no longer name goes on. -/
theorem of_identifier (h : IsToken .identifier u rest) (hascii : ∀ c ∈ u ++ rest, c.toNat < 128)
    (hbefore : before.head?.any isNameChar = false) (hrest : Reads (u.reverse ++ before) rest gs) :
    Reads before (u ++ rest) (.word u :: gs) := by
  have hname := name?_of_identifier h hascii
  obtain ⟨sign, name, rfl, hsign, hne, hplain⟩ := TokenRule.isPlain_of_identifier h.matches_rule
  have hstyle := Literal.style?_name_eq_none rest hsign hne fun c hc =>
    Cell.notMem_of_isPlain (hplain c hc)
  obtain ⟨c, s, heq⟩ : ∃ c s, sign ++ name ++ rest = c :: s :=
    List.exists_cons_of_ne_nil (by simp [hne])
  have hc : c ≠ '\x27' ∧ c ≠ '/' := by
    have hhead : c = '@' ∨ Cell.isPlain c := by
      rcases hsign with rfl | rfl
      · obtain ⟨d, name, rfl⟩ := List.exists_cons_of_ne_nil hne
        cases heq
        exact .inr (hplain c List.mem_cons_self)
      · cases heq
        exact .inl rfl
    constructor <;>
    · rintro rfl
      exact absurd hhead (by decide)
  have hnext : next? before (sign ++ name ++ rest) =
      some ([.word (word before (sign ++ name) rest)], rest) := by
    rw [heq] at hname hstyle ⊢
    rw [next?_code hstyle hc.1 fun hslash => absurd hslash hc.2, hbefore, hname]
    rfl
  exact of_next? hnext hrest

/-- What starts with a character that starts no name, and is of one role. -/
theorem of_opener {q : Char} {role : Role} (hat : q ≠ '@') (hstart : isNameStart q = false)
    (hnext : Cell.next? (q :: u ++ rest) = some ((q :: u).map (.char role), rest))
    (h : Reads ((q :: u).reverse ++ before) rest gs) :
    Reads before (q :: u ++ rest) ((q :: u).map .char ++ gs) := by
  have hcells : ((q :: u).map (Cell.char role)).map Grain.ofCell = (q :: u).map .char :=
    List.map_map
  rw [← hcells]
  exact of_cells hnext (.inr (name?_eq_none hat hstart)) h

/-- A string without holes. -/
theorem of_string (hread : Literal.string? (u ++ rest) = some ([.text u], rest))
    (h : Reads (u.reverse ++ before) rest gs) : Reads before (u ++ rest) (u.map .char ++ gs) := by
  have hcells : ([Piece.text u].flatMap Cell.ofPiece).map Grain.ofCell = u.map .char := by
    rw [List.flatMap_singleton, Cell.ofPiece, List.map_map]
    rfl
  rw [← hcells]
  exact of_cells (Cell.next?_of_string hread) (.inr (name?_eq_none_of_string hread)) h

theorem of_whitespace (hu : Regex.Matches TokenRule.whitespace u)
    (h : Reads (u.reverse ++ before) rest gs) : Reads before (u ++ rest) (u.map .char ++ gs) := by
  refine of_plains (fun c hc => ?_) h
  have hspace : c ∈ TokenRule.spaces := by simpa using (Regex.matches_plus_char.1 hu).2 c hc
  have hstart : ¬ isNameStart c := fun h => TokenRule.notMem_of_class (by decide) h hspace
  exact ⟨TokenRule.isPlain_of_whitespace hu c hc, Bool.eq_false_iff.2 hstart⟩

/-- No name starts with the first digit, and the rest could only go on with one. -/
theorem of_number (hu : Regex.Matches TokenRule.number u) (hascii : ∀ c ∈ u, c.toNat < 128)
    (h : Reads (u.reverse ++ before) rest gs) : Reads before (u ++ rest) (u.map .char ++ gs) := by
  have hplain := TokenRule.isPlain_of_number hu
  obtain ⟨x, y, rfl, hx, hy⟩ := Regex.matches_seq.1 hu
  obtain ⟨c, hc, rfl⟩ := Regex.matches_char.1 hx
  have hstart : isNameStart c = false := by
    rw [isNameStart_eq_of_ascii (hascii c List.mem_cons_self)]
    exact Bool.eq_false_iff.2 fun hletter => Text.not_isDigit_of_letter hletter hc
  have hall : ∀ d ∈ c :: y, isNameChar d := by
    intro d hd
    rw [isNameChar_eq_alphanum (hascii d hd)]
    rcases List.mem_cons.1 hd with rfl | hd
    · rw [Char.isAlphanum, hc, Bool.or_true, Bool.true_or]
    · exact Regex.matches_star_char.1 hy d hd
  obtain ⟨hfirst, hall⟩ := List.forall_mem_cons.1 hall
  rw [List.reverse_append, List.append_assoc] at h
  exact of_plain (hplain c List.mem_cons_self) (.inr hstart) (of_nameChars hfirst hall h)

theorem of_punct (hu : IsToken .punct u rest) (hascii : ∀ c ∈ u, c.toNat < 128)
    (h : Reads (u.reverse ++ before) rest gs) : Reads before (u ++ rest) (u.map .char ++ gs) := by
  obtain ⟨c, hc, rfl⟩ := Regex.matches_char.1 hu.matches_rule
  simp only [Bool.and_eq_true, Bool.not_eq_true', List.contains_eq_mem, decide_eq_false_iff_not]
    at hc
  have hat : c ≠ '@' := fun heq => hc.1 (by rw [heq]; decide)
  have hstart : isNameStart c = false := by
    rw [isNameStart_eq_of_ascii (hascii c List.mem_cons_self)]
    exact Bool.eq_false_iff.2 fun hletter =>
      Bool.eq_false_iff.1 hc.2 (Text.isIdentifierContinue_of_letter hletter)
  exact of_opener hat hstart (Cell.next?_of_punct hu) h

/-- A token that is neither an identifier nor an interpolated string is characters. -/
theorem of_isToken {kind : TokenKind} (h : IsToken kind u rest)
    (hascii : ∀ c ∈ u, c.toNat < 128) (hinter : kind.isInterpolated = false)
    (hopen : kind ≠ .unterminatedComment) (hkind : kind ≠ .identifier)
    (hrest : Reads (u.reverse ++ before) rest gs) :
    Reads before (u ++ rest) (u.map .char ++ gs) := by
  have hm := h.matches_rule
  cases kind with
  | whitespace => exact of_whitespace hm hrest
  | lineComment =>
    obtain ⟨v, rfl, _⟩ := Regex.matches_text_seq.1 hm
    exact of_opener (by decide) (by decide) (Cell.next?_of_lineComment h) hrest
  | blockComment =>
    obtain ⟨v, rfl, _⟩ := Regex.matches_text_seq.1 hm
    exact of_opener (by decide) (by decide) (Cell.next?_of_blockComment hm rest) hrest
  | unterminatedComment => exact absurd rfl hopen
  | str => exact of_string (Literal.string?_of_str hm) hrest
  | verbatimStr => exact of_string (Literal.string?_of_verbatimStr h) hrest
  | interpolatedStr => cases hinter
  | interpolatedVerbatimStr => cases hinter
  | char =>
    obtain ⟨v, rfl, _⟩ := Regex.matches_exactly_seq.1 hm
    exact of_opener (by decide) (by decide) (Cell.next?_of_char hm) hrest
  | identifier => exact absurd rfl hkind
  | number => exact of_number hm hascii hrest
  | arrow =>
    obtain rfl := Regex.matches_text.1 hm
    exact of_plain (by decide) (.inr (by decide)) (of_plain (by decide) (.inr (by decide)) hrest)
  | dot | openParen | closeParen | comma =>
    obtain rfl := Regex.matches_exactly.1 hm
    exact of_plain (by decide) (.inr (by decide)) hrest
  | punct => exact of_punct h hascii hrest

theorem of_first? {t : Token} (h : Token.first? s = some (t, rest))
    (hascii : ∀ c ∈ s, c.toNat < 128)
    (hbefore : t.kind = .identifier → before.head?.any isNameChar = false) (dot : Bool)
    (tokens : List Token) (hrest : Reads (t.text.reverse ++ before) rest gs) :
    Reads before s ((t.ownParts dot tokens).flatMap Grain.ofPart ++ gs) := by
  have hs := Token.text_append_of_first? h
  obtain ⟨hinter, hread⟩ | ⟨u, hpieces, rfl, htoken, hinter, hopen⟩ := Token.first?_cases h
  · have hkind := TokenKind.ne_identifier hinter
    have hword : ∀ w, .word w ∉ t.pieces.map Part.ofPiece := Part.word_notMem_map_ofPiece t.pieces
    have hnext := Cell.next?_of_string hread
    have hname := name?_eq_none_of_string hread
    rw [Token.ownParts, if_neg hkind, (Covers.pieces t.pieces).grains_eq hword]
    rw [← hs] at hnext hname ⊢
    exact of_cells hnext (.inr hname) hrest
  · have htext : t.text = u := List.append_cancel_right hs
    rw [htext] at hrest
    by_cases hkind : t.kind = .identifier
    · rw [Token.ownParts, if_pos hkind, htext]
      rw [hkind] at htoken
      exact of_identifier htoken hascii (hbefore hkind) hrest
    · rw [Token.ownParts, if_neg hkind, hpieces]
      have hgrains : ([Piece.text u].map Part.ofPiece).flatMap Grain.ofPart = u.map .char :=
        List.append_nil _
      rw [hgrains]
      exact of_isToken htoken (fun c hc => hascii c (List.mem_append_left _ hc)) hinter hopen hkind
        hrest

end Reads
end Boundary

/-! ## Signs apart from names -/

/-- Where both characters are code, the second is no at sign behind a letter, a digit or an
underscore. -/
def Role.Apart (p q : Char × Role) : Prop :=
  p.2 = .code → q.2 = .code → (p.1.isAlphanum || p.1 == '_') → q.1 ≠ '@'

/-- No at sign stands directly behind a letter, a digit or an underscore outside literals and
comments, at any depth of holes. -/
def Role.SignsApart (s : List Char) : Prop :=
  ∀ roles ∈ Role.ofText? s, (s.zip roles).IsChain Role.Apart

instance : DecidableRel Role.Apart := fun p q =>
  inferInstanceAs (Decidable (p.2 = .code → q.2 = .code → _ → q.1 ≠ '@'))

def Cell.Apart : Cell → Cell → Prop
  | .char r c, .char r' c' => Role.Apart (c, r) (c', r')
  | _, _ => True

namespace Role

variable {R : List Char → List Role → Prop} {cells : List Cell} {roles : List Role}

theorem Filled.length_eq (hR : ∀ code inner, R code inner → inner.length = code.length)
    (h : Filled R cells roles) : roles.length = (cells.flatMap Cell.text).length := by
  induction h with
  | nil => rfl
  | char role c _ ih => simp [Cell.text, ih]
  | hole hcode _ ih => simp [Cell.text, ih, hR _ _ hcode]

theorem length_eq_of_ofText? {s : List Char} {roles : List Role} (h : ofText? s = some roles) :
    roles.length = s.length := by
  obtain ⟨cells, hcells, hfilled⟩ := filled_of_ofText? h
  rw [← Cell.flatMap_text_of_segment? hcells]
  exact hfilled.length_eq fun code inner hcode => length_eq_of_ofText? hcode.2
termination_by s.length
decreasing_by exact hcode.1

/-- Signs that are apart are so in each segment, and in each of its holes. -/
theorem Filled.apart (hR : ∀ code inner, R code inner → inner.length = code.length)
    (h : Filled R cells roles) (hchain : ((cells.flatMap Cell.text).zip roles).IsChain Apart) :
    cells.IsChain Cell.Apart ∧
      ∀ code, .hole code ∈ cells → ∃ inner, R code inner ∧ (code.zip inner).IsChain Apart := by
  induction h with
  | nil => exact ⟨.nil, nofun⟩
  | @char role c cells roles h ih =>
    obtain ⟨hhead, hrest⟩ := List.isChain_cons.1 hchain
    obtain ⟨ihchain, ihholes⟩ := ih hrest
    refine ⟨List.isChain_cons.2 ⟨fun cell hcell => ?_, ihchain⟩, fun code hcode =>
      ihholes code ((List.mem_cons.1 hcode).resolve_left nofun)⟩
    cases cell with
    | hole code => trivial
    | char role' c' =>
      obtain ⟨cells, rfl⟩ := List.head?_eq_some_iff.1 hcell
      cases h
      exact hhead _ rfl
  | @hole code inner cells roles hcode h ih =>
    change (((code ++ cells.flatMap Cell.text).zip (inner ++ roles))).IsChain Apart at hchain
    rw [List.zip_append (hR _ _ hcode).symm] at hchain
    obtain ⟨hinner, hrest, _⟩ := List.isChain_append.1 hchain
    obtain ⟨ihchain, ihholes⟩ := ih hrest
    refine ⟨List.isChain_cons.2 ⟨fun cell _ => ?_, ihchain⟩, fun code' hcode' => ?_⟩
    · cases cell <;> trivial
    · rcases List.mem_cons.1 hcode' with heq | hcode'
      · cases heq
        exact ⟨inner, hcode, hinner⟩
      · exact ihholes code' hcode'

end Role

/-! ## Token by token -/

/-- A literal ends with its quote, which belongs to no name. -/
theorem Literal.isNameChar_last_eq_false {pieces : List (Piece Char)}
    (h : string? s = some (pieces, rest)) (hlast : Piece.flatten pieces = u ++ [c]) :
    Boundary.isNameChar c = false := by
  obtain ⟨v, q, heq, hq⟩ := exists_quote_of_string? h
  rw [(mark_eq_iff (m := .quote) rfl).1 hq] at heq
  obtain rfl : c = '\x22' :=
    List.head_eq_of_cons_eq (List.append_inj_right' (hlast.symm.trans heq) rfl)
  decide

/-- Only identifiers, numbers and line comments end with a character that belongs to names. -/
theorem IsToken.isNameChar_last_eq_false {kind : TokenKind} (h : IsToken kind (u ++ [c]) rest)
    (hc : c.toNat < 128) (hinter : kind.isInterpolated = false)
    (hopen : kind ≠ .unterminatedComment)
    (hkind : kind ∉ [.identifier, .number, .lineComment]) : Boundary.isNameChar c = false := by
  have last : ∀ q, (∃ v, u ++ [c] = v ++ [q]) → Boundary.isNameChar q = false →
      Boundary.isNameChar c = false := by
    rintro q ⟨v, heq⟩ hq
    rwa [List.head_eq_of_cons_eq (List.append_inj_right' heq rfl)]
  have string : Literal.string? (u ++ [c] ++ rest) = some ([.text (u ++ [c])], rest) →
      Boundary.isNameChar c = false := by
    intro hread
    exact Literal.isNameChar_last_eq_false hread (List.append_nil _)
  have hm := h.matches_rule
  cases kind with
  | whitespace =>
    have hspace : c ∈ TokenRule.spaces := by
      simpa using (Regex.matches_plus_char.1 hm).2 c (by simp)
    exact Bool.eq_false_iff.2 fun h => TokenRule.notMem_of_class (by decide) h hspace
  | lineComment => exact absurd (by decide) hkind
  | blockComment =>
    obtain ⟨x, y, heq, _, hy⟩ := Regex.matches_seq.1 hm
    obtain ⟨body, z, rfl, _, hz⟩ := Regex.matches_seq.1 hy
    obtain ⟨stars, w, rfl, _, hw⟩ := Regex.matches_seq.1 hz
    rw [Regex.matches_exactly.1 hw] at heq
    exact last '/' ⟨x ++ (body ++ stars), by simpa using heq⟩ (by decide)
  | unterminatedComment => exact absurd rfl hopen
  | str => exact string (Literal.string?_of_str hm)
  | verbatimStr => exact string (Literal.string?_of_verbatimStr h)
  | interpolatedStr => cases hinter
  | interpolatedVerbatimStr => cases hinter
  | char =>
    obtain ⟨x, y, heq, _, hy⟩ := Regex.matches_seq.1 hm
    obtain ⟨body, z, rfl, _, hz⟩ := Regex.matches_seq.1 hy
    rw [Regex.matches_exactly.1 hz] at heq
    exact last '\x27' ⟨x ++ body, by simpa using heq⟩ (by decide)
  | identifier => exact absurd (by decide) hkind
  | number => exact absurd (by decide) hkind
  | arrow => exact last '>' ⟨['='], Regex.matches_text.1 hm⟩ (by decide)
  | dot => exact last '.' ⟨[], Regex.matches_exactly.1 hm⟩ (by decide)
  | openParen => exact last '(' ⟨[], Regex.matches_exactly.1 hm⟩ (by decide)
  | closeParen => exact last ')' ⟨[], Regex.matches_exactly.1 hm⟩ (by decide)
  | comma => exact last ',' ⟨[], Regex.matches_exactly.1 hm⟩ (by decide)
  | punct =>
    obtain ⟨q, hq, heq⟩ := Regex.matches_char.1 hm
    obtain ⟨rfl, hcq⟩ := List.append_eq_singleton_iff.1 heq |>.resolve_right (by simp)
    cases hcq
    rw [isNameChar_eq_of_ascii hc]
    simpa using (Bool.and_eq_true_iff.1 hq).2

theorem Token.cells_of_code {t : Token} (hinter : t.kind.isInterpolated = false)
    (hrole : t.kind.role = .code) : t.cells = t.text.map (.char .code) := by
  rw [cells, hinter, if_neg Bool.false_ne_true, hrole]

/-- Where two stretches of code meet, no at sign stands behind the end of a name. -/
theorem Cell.ne_at_of_isChain {v w : List Char} {c d : Char} {more : List Cell}
    (h : ((v ++ [c]).map (char .code) ++ ((d :: w).map (char .code) ++ more)).IsChain Apart)
    (hc : c.isAlphanum || c == '_') : d ≠ '@' := by
  rintro rfl
  obtain ⟨_, _, hmeet⟩ := List.isChain_append.1 h
  refine hmeet (.char .code c) ?_ (.char .code '@') rfl rfl rfl hc rfl
  rw [List.map_append]
  exact List.getLast?_concat

/-- Behind code that ends like a name, an identifier starts with a letter: a sign would not be
apart. -/
theorem Token.isIdentifierContinue_of_isChain {t t' : Token} {rest' v w : List Char} {d : Char}
    {cells : List Cell} (h : first? s = some (t, rest)) (h' : first? rest = some (t', rest'))
    (hcells : Cell.segment? s = some cells) (hapart : cells.IsChain Cell.Apart)
    (hinter : t.kind.isInterpolated = false) (hrole : t.kind.role = .code)
    (hkind' : t'.kind = .identifier) (hv : t.text = v ++ [c]) (hw : t'.text = d :: w)
    (hname : c.isAlphanum || c == '_') (hd : d = '@' ∨ Text.isIdentifierStart d || d == '_') :
    Text.isIdentifierContinue d := by
  rw [Cell.segment?_of_first? h] at hcells
  obtain ⟨more, hmore, rfl⟩ := Option.map_eq_some_iff.1 hcells
  rw [Cell.segment?_of_first? h'] at hmore
  obtain ⟨more, _, rfl⟩ := Option.map_eq_some_iff.1 hmore
  have hrole' : t'.kind.role = .code := by
    rw [hkind']
    rfl
  rw [cells_of_code hinter hrole, hv,
    cells_of_code (TokenKind.isInterpolated_of_identifier hkind') hrole', hw] at hapart
  exact Text.isIdentifierContinue_of_letter
    (hd.resolve_left (Cell.ne_at_of_isChain hapart hname))

/-- Behind a token that ends like a name, only an at sign could start an identifier. -/
theorem Token.kind_ne_identifier {t t' : Token} {rest' before : List Char} {cells : List Cell}
    (h : first? s = some (t, rest)) (h' : first? rest = some (t', rest'))
    (hascii : ∀ c ∈ s, c.toNat < 128) (hcells : Cell.segment? s = some cells)
    (hapart : cells.IsChain Cell.Apart)
    (hlast : (t.text.reverse ++ before).head?.any Boundary.isNameChar) :
    t'.kind ≠ .identifier := by
  intro hkind'
  obtain ⟨v, c, hv⟩ : ∃ v c, t.text = v ++ [c] :=
    ⟨_, _, (List.dropLast_concat_getLast (text_ne_nil_of_first? h)).symm⟩
  have hname : Boundary.isNameChar c := by
    rw [hv, List.reverse_append, List.append_assoc] at hlast
    exact hlast
  -- The character that the identifier starts with.
  obtain ⟨d, w, hw, hd⟩ :=
    TokenRule.exists_cons_of_identifier (matches_identifier_of_first? h' hkind')
  have hs : v ++ [c] ++ (d :: w ++ rest') = s := by
    rw [← hv, ← hw, text_append_of_first? h', text_append_of_first? h]
  have hc : c.toNat < 128 := hascii c (by rw [← hs]; simp)
  have hd' : d.toNat < 128 := hascii d (by rw [← hs]; simp)
  cases hinter : t.kind.isInterpolated with
  | true =>
    rw [Literal.isNameChar_last_eq_false (string?_of_first? h hinter) hv] at hname
    cases hname
  | false =>
    obtain ⟨htoken, hopen⟩ := isToken_of_first? h hinter
    have hends : t.kind.goesOn t.text d = false :=
      htoken.ends d (by rw [← text_append_of_first? h', hw]; rfl)
    have hcontinue : t.kind.role = .code → Text.isIdentifierContinue d := by
      intro hrole
      rw [isNameChar_eq_alphanum hc] at hname
      exact isIdentifierContinue_of_isChain h h' hcells hapart hinter hrole hkind' hv hw hname hd
    by_cases hkind : t.kind ∈ [.identifier, .number, .lineComment]
    · simp only [List.mem_cons, List.not_mem_nil, or_false] at hkind
      rcases hkind with hkind | hkind | hkind <;> rw [hkind] at hends hcontinue
      · exact Bool.eq_false_iff.1 hends (hcontinue rfl)
      · have halphanum := hcontinue rfl
        rw [← isNameChar_eq_of_ascii hd', isNameChar_eq_alphanum hd'] at halphanum
        exact Bool.eq_false_iff.1 hends halphanum
      · have hnewline : d = '\n' := by simpa [TokenKind.goesOn, TokenRule.lineEnd] using hends
        rw [hnewline] at hd
        exact absurd hd (by decide)
    · rw [hv] at htoken
      rw [htoken.isNameChar_last_eq_false hc hinter hopen hkind] at hname
      cases hname

namespace Boundary

/-- The boundary scan reads the grains of the tokens. -/
theorem Reads.of_tokenize {tokens : List Token} (before : List Char) {cells : List Cell}
    (h : tokenize s = .ok tokens) (hascii : ∀ c ∈ s, c.toNat < 128)
    (hcells : Cell.segment? s = some cells) (hapart : cells.IsChain Cell.Apart)
    (hbefore : before.head?.any isNameChar → ∀ t ∈ tokens.head?, t.kind ≠ .identifier)
    (dot : Bool) : Reads before s ((Token.partsAfter dot tokens).flatMap Grain.ofPart) := by
  refine tokenize_induction (P := fun s tokens => ∀ before cells, (∀ c ∈ s, c.toNat < 128) →
    Cell.segment? s = some cells → cells.IsChain Cell.Apart →
    (before.head?.any isNameChar → ∀ t ∈ tokens.head?, t.kind ≠ .identifier) →
    ∀ dot, Reads before s ((Token.partsAfter dot tokens).flatMap Grain.ofPart))
    (fun before _ _ _ _ _ _ => ⟨[], by rw [partsAfter?, if_pos rfl], rfl⟩) ?_ h before cells
    hascii hcells hapart hbefore dot
  intro s t rest tokens hfirst hrest ih before cells hascii hcells hapart hbefore dot
  have hs := Token.text_append_of_first? hfirst
  have hcells' := hcells
  rw [Cell.segment?_of_first? hfirst] at hcells'
  obtain ⟨more, hmore, rfl⟩ := Option.map_eq_some_iff.1 hcells'
  rw [Token.partsAfter_cons, List.flatMap_append]
  refine Reads.of_first? hfirst hascii ?_ dot tokens ?_
  · intro hkind
    exact Bool.eq_false_iff.2 fun hname => hbefore hname t rfl hkind
  · refine ih _ more (fun c hc => hascii c ?_) hmore (List.isChain_append.1 hapart).2.1 ?_ _
    · rw [← hs]
      exact List.mem_append_right _ hc
    · intro hlast t' ht'
      obtain ⟨tokens', rfl⟩ := List.head?_eq_some_iff.1 ht'
      obtain ⟨rest', hfirst', _⟩ := tokenize_eq_cons_iff.1 hrest
      exact Token.kind_ne_identifier hfirst hfirst' hascii hcells hapart hlast

end Boundary

/-! ## Text by text -/

theorem Grain.hole_mem_flatMap_iff {parts : List Part} {code : List Char} :
    .hole code ∈ parts.flatMap ofPart ↔ .hole code ∈ parts := by
  rw [List.mem_flatMap]
  constructor
  · rintro ⟨p, hp, hmem⟩
    cases p with
    | plain s => simp [ofPart] at hmem
    | word w => simp [ofPart] at hmem
    | hole code' =>
      cases List.mem_singleton.1 hmem
      exact hp
  · intro h
    exact ⟨_, h, List.mem_singleton_self _⟩

namespace Markup

/-- In ASCII, and with signs apart from names, both scans divide a text into the same grains. -/
theorem exists_boundary?_grains_eq {roles : List Role} (h : tokenized? s = some m)
    (hascii : ∀ c ∈ s, c.toNat < 128) (hroles : Role.ofText? s = some roles)
    (hapart : (s.zip roles).IsChain Role.Apart) :
    ∃ m', boundary? s = some m' ∧ m'.grains = m.grains := by
  refine read?_induction (P := fun s m => ∀ roles, (∀ c ∈ s, c.toNat < 128) →
    Role.ofText? s = some roles → (s.zip roles).IsChain Role.Apart →
    ∃ m', boundary? s = some m' ∧ grains m' = grains m) ?_ h roles hascii hroles hapart
  intro s parts m hparts hm roles hascii hroles hapart
  obtain ⟨tokens, htokens, rfl⟩ := Token.parts?_eq_some.1 hparts
  obtain ⟨cells, hcells, hcovers⟩ := Token.exists_covers_of_parts? hparts
  obtain ⟨_, heq, hfilled⟩ := Role.filled_of_ofText? hroles
  rw [hcells] at heq
  cases heq
  have hs := Cell.flatMap_text_of_segment? hcells
  rw [← hs] at hapart
  obtain ⟨hchain, hholes⟩ :=
    hfilled.apart (fun code inner h => Role.length_eq_of_ofText? h.2) hapart
  obtain ⟨parts', hparts', hgrains⟩ :=
    Boundary.Reads.of_tokenize [] htokens hascii hcells hchain nofun false
  -- The grains of a hole are those that the boundary scan finds in it.
  let f : List Char → List Grain := fun code => ((boundary? code).map grains).getD []
  have hinner : ∀ code inner, .hole code ∈ Token.partsAfter false tokens →
      (code.length < s.length ∧ tokenized? code = some inner ∧ ∀ roles,
        (∀ c ∈ code, c.toNat < 128) → Role.ofText? code = some roles →
        (code.zip roles).IsChain Role.Apart →
        ∃ m', boundary? code = some m' ∧ grains m' = grains inner) →
      code.length < s.length ∧ ∃ m', boundary? code = some m' ∧ grains m' = grains inner := by
    rintro code inner hcode ⟨hlt, _, ih⟩
    have hmem := hcovers.hole_mem_iff.1 hcode
    obtain ⟨roles', ⟨_, hroles'⟩, hapart'⟩ := hholes code hmem
    refine ⟨hlt, ih roles' (fun c hc => hascii c ?_) hroles' hapart'⟩
    rw [← hs]
    exact List.mem_flatMap.2 ⟨_, hmem, hc⟩
  have hm := hm.mono hinner
  have holes : ∀ code, .hole code ∈ parts' →
      ∃ inner, code.length < s.length ∧ boundary? code = some inner := by
    intro code hcode
    rw [← Grain.hole_mem_flatMap_iff, hgrains, Grain.hole_mem_flatMap_iff] at hcode
    obtain ⟨_, hlt, inner, hinner, _⟩ := exists_filled_iff.1 ⟨m, hm⟩ code hcode
    exact ⟨inner, hlt, hinner⟩
  obtain ⟨m', hm'⟩ := exists_filled_iff.2 holes
  refine ⟨m', read?_of_filled hparts' hm', ?_⟩
  have hgrains' : grains m' = (parts'.flatMap Grain.ofPart).flatMap (Grain.fill f) := by
    refine hm'.grains_eq ?_
    rintro code inner ⟨_, hcode⟩
    simp only [f, hcode, Option.map_some, Option.getD_some]
  rw [hgrains', hgrains]
  refine (hm.grains_eq ?_).symm
  rintro code inner ⟨_, m', hcode, heq⟩
  simp only [f, hcode, heq, Option.map_some, Option.getD_some]

theorem located_eq_of_grains_eq {m m' : Markup} (h : m'.grains = m.grains) :
    m'.located = m.located := by
  rw [located, located, locatedFrom_eq, locatedFrom_eq, h]

end Markup

/-- What the tokenizer accepts, the boundary scan accepts, so a text is malformed exactly where the
boundary scan refuses it. In an ASCII text with signs apart from names, both find the same words at
the same bytes. -/
theorem boundary_agrees (text : String) :
    (∀ m, Markup.tokenized? text.toList = some m → ∃ m', Markup.boundary? text.toList = some m') ∧
    (∀ (r : Renamer) (parameter : String),
      (r.rename text parameter).mode = .malformed ↔ Markup.boundary? text.toList = none) ∧
    (∀ (r : Renamer), (r.renameParameter text).mode = .malformed ↔
      Markup.boundary? (((Lambda.ofText? text.toList).map Lambda.body).getD text.toList) = none) ∧
    (∀ m, Markup.tokenized? text.toList = some m → (∀ c ∈ text.toList, c.toNat < 128) →
      Role.SignsApart text.toList →
      ∃ m', Markup.boundary? text.toList = some m' ∧ m'.located = m.located) := by
  refine ⟨fun m => Markup.exists_boundary?_of_tokenized?, fun r parameter => ?_, fun r => ?_,
    fun m hm hascii hapart => ?_⟩
  · rw [← scan?_eq_none_iff, Renamer.rename]
    cases hscan : scan? text.toList with
    | none => exact ⟨fun _ => rfl, fun _ => rfl⟩
    | some found =>
      exact iff_of_false (Renamer.apply_mode_ne_malformed hscan) (Option.some_ne_none found)
  · rw [← scan?_eq_none_iff, Renamer.renameParameter]
    cases hscan : scan? (((Lambda.ofText? text.toList).map Lambda.body).getD text.toList) with
    | none => exact ⟨fun _ => rfl, fun _ => rfl⟩
    | some found =>
      exact iff_of_false (Renamer.apply_mode_ne_malformed hscan) (Option.some_ne_none found)
  · have hparts := fun s parts => @Token.exists_covers_of_parts? s parts
    obtain ⟨roles, hroles, _⟩ := Markup.exists_roles_of_read? hparts hm
    obtain ⟨m', hm', hgrains⟩ :=
      Markup.exists_boundary?_grains_eq hm hascii hroles (hapart roles hroles)
    exact ⟨m', hm', Markup.located_eq_of_grains_eq hgrains⟩

theorem boundary_agrees_sample :
    ∃ m', Markup.boundary? "$\"\x7ba\x7d\"+@b".toList = some m' ∧
      m'.located = [((3, 4), ['a']), ((7, 9), ['@', 'b'])] := by
  have hm : Markup.tokenized? "$\"\x7ba\x7d\"+@b".toList =
      some [.plain ['$', '\x22', '{'], .word ⟨['a'], false, false⟩, .plain ['}', '\x22'],
        .plain ['+'], .word ⟨['@', 'b'], false, false⟩] := by decide +kernel
  have hroles : Role.ofText? "$\"\x7ba\x7d\"+@b".toList =
      some [.stringText, .stringText, .stringText, .code, .stringText, .stringText, .code, .code,
        .code] := by decide +kernel
  have hapart : Role.SignsApart "$\"\x7ba\x7d\"+@b".toList := by
    intro roles h
    rw [hroles] at h
    cases h
    decide
  have hascii : "$\"\x7ba\x7d\"+@b".toList.all (fun c => c.toNat < 128) := by decide
  exact (boundary_agrees "$\"\x7ba\x7d\"+@b").2.2.2 _ hm
    (fun c hc => of_decide_eq_true (List.all_eq_true.1 hascii c hc)) hapart

end MapPlan.Expr
