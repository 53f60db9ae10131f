import MapPlan.Proofs.Expr.Markup
import MapPlan.Proofs.Expr.TokenRole

/-!
# The scans for names and the roles

The boundary scan and the tokenizer read a segment as the roles of its characters do: they agree on
where comments and literals start and end, they find the same holes, and each of their words is
code.
-/

namespace MapPlan.Expr

variable {s rest : List Char}

/-! ## The boundary scan -/

namespace Boundary

variable {before : List Char} {parts : List Part}

theorem isPlain_of_isNameChar {c : Char} (h : isNameChar c) : Cell.isPlain c :=
  TokenRule.isPlain_of_class (by decide) h

theorem isPlain_of_isNameStart {c : Char} (h : isNameStart c) : Cell.isPlain c :=
  TokenRule.isPlain_of_class (by decide) h

/-- A name is characters that open nothing, perhaps behind an at sign. -/
theorem exists_plain_of_name? {name : List Char} (h : name? s = some (name, rest)) :
    ∃ sign body, name = sign ++ body ∧ s = name ++ rest ∧ (sign = [] ∨ sign = ['@']) ∧ body ≠ [] ∧
      ∀ c ∈ body, Cell.isPlain c := by
  unfold name? at h
  split at h
  rename_i x sign body hsplit
  have hs : s = sign ++ body ∧ (sign = [] ∨ sign = ['@']) := by
    split at hsplit
    · cases hsplit
      exact ⟨rfl, .inr rfl⟩
    · cases hsplit
      exact ⟨rfl, .inl rfl⟩
  cases body with
  | nil => cases h
  | cons c cs =>
    obtain ⟨hc, heq⟩ := Option.ite_none_right_eq_some.1 h
    cases heq
    refine ⟨sign, c :: cs.takeWhile isNameChar, rfl, ?_, hs.2, List.cons_ne_nil _ _,
      List.forall_mem_cons.2 ⟨isPlain_of_isNameStart hc, fun d hd => ?_⟩⟩
    · rw [List.append_assoc, List.cons_append, List.takeWhile_append_dropWhile, hs.1]
    · exact isPlain_of_isNameChar (List.all_eq_true.1 List.all_takeWhile d hd)

/-- A name ends where no name character follows. -/
theorem head?_of_name? {name : List Char} (h : name? s = some (name, rest)) :
    ∀ c ∈ rest.head?, isNameChar c = false := by
  unfold name? at h
  split at h
  rename_i x sign body hsplit
  cases body with
  | nil => cases h
  | cons c cs =>
    obtain ⟨_, heq⟩ := Option.ite_none_right_eq_some.1 h
    cases heq
    intro d hd
    have := List.head?_dropWhile_not isNameChar cs
    rw [Option.mem_def.1 hd] at this
    simpa using this

/-- What comes next are the cells that come next, without a word, or it is a name. -/
theorem next?_cases (h : next? before s = some (parts, rest)) :
    (∃ cells, Cell.next? s = some (cells, rest) ∧ Covers parts cells ∧ ∀ w, .word w ∉ parts) ∨
      ∃ name, parts = [.word (word before name rest)] ∧ name? s = some (name, rest) ∧
        before.head?.any isNameChar = false := by
  have single : ∀ (role : Role) (t : List Char), Covers [.plain t] (t.map (.char role)) ∧
      ∀ w : Word, Part.word w ∉ [Part.plain t] :=
    fun role t => ⟨.single_role role t, by simp⟩
  unfold next? at h
  split at h
  · cases h
  · rename_i cs
    cases h
    exact .inl ⟨_, Cell.next?_lineComment, single .comment _⟩
  · rename_i cs
    obtain ⟨⟨tail, rest'⟩, htail, heq⟩ := Option.map_eq_some_iff.1 h
    cases heq
    refine .inl ⟨_, ?_, single .comment _⟩
    rw [Cell.next?_blockComment, htail]
    rfl
  · rename_i c cs hline hblock
    split at h
    · obtain ⟨⟨pieces, rest'⟩, hread, heq⟩ := Option.map_eq_some_iff.1 h
      cases heq
      exact .inl ⟨_, Cell.next?_of_string hread, Covers.pieces pieces,
        Part.word_notMem_map_ofPiece pieces⟩
    · rename_i hstyle
      split at h
      · rename_i hchar
        subst hchar
        obtain ⟨⟨tail, rest'⟩, hread, heq⟩ := Option.map_eq_some_iff.1 h
        cases heq
        refine .inl ⟨_, ?_, single .charLiteral _⟩
        rw [Cell.next?_char, hread]
        rfl
      · rename_i hchar
        have hnext : Cell.next? (c :: cs) = some ([.char .code c], cs) := by
          refine Cell.next?_code (Option.not_isSome_iff_eq_none.1 hstyle) hchar fun hc => ?_
          constructor
          · intro hhead
            obtain ⟨tail, rfl⟩ := List.head?_eq_some_iff.1 hhead
            exact hline tail hc rfl
          · intro hhead
            obtain ⟨tail, rfl⟩ := List.head?_eq_some_iff.1 hhead
            exact hblock tail hc rfl
        split at h
        · cases h
          exact .inl ⟨_, hnext, single .code [c]⟩
        · rename_i hbefore
          split at h
          · rename_i name rest' hname
            cases h
            exact .inr ⟨name, rfl, hname, Bool.eq_false_iff.2 hbefore⟩
          · cases h
            exact .inl ⟨_, hnext, single .code [c]⟩

/-- Something comes next where cells do. -/
theorem isSome_next? (before s : List Char) : (next? before s).isSome = (Cell.next? s).isSome := by
  unfold next? Cell.next?
  split
  · rfl
  · rfl
  · simp only [Option.isSome_map]
  · rename_i c cs _ _
    by_cases hstyle : (Literal.style? (c :: cs)).isSome
    · simp only [if_pos hstyle, Option.isSome_map]
    · by_cases hchar : c = '\x27'
      · simp only [if_neg hstyle, if_pos hchar, Option.isSome_map]
      · simp only [if_neg hstyle, if_neg hchar]
        split
        · rfl
        · split <;> rfl

/-- What comes next covers its cells, and is not empty. -/
theorem exists_covers_of_next? (h : next? before s = some (parts, rest)) :
    rest.length < s.length ∧ ∃ cells, Covers parts cells ∧
      Cell.segment? s = (Cell.segment? rest).map (cells ++ ·) := by
  obtain ⟨cells, hnext, hcovers, _⟩ | ⟨name, rfl, hname, _⟩ := next?_cases h
  · exact ⟨Cell.length_rest_lt_of_next? hnext, cells, hcovers, Cell.segment?_of_next? hnext⟩
  · obtain ⟨sign, body, rfl, hs, hsign, hne, hplain⟩ := exists_plain_of_name? hname
    have htext : sign ++ body ≠ [] := List.append_ne_nil_of_right_ne_nil sign hne
    have hpos := List.length_pos_iff.2 htext
    rw [hs]
    refine ⟨by rw [List.length_append]; omega, _, .word htext .nil, ?_⟩
    rw [List.append_nil]
    exact Cell.segment?_append_name hsign hne hplain

/-- Nothing is lost. -/
theorem text_append_of_next? (h : next? before s = some (parts, rest)) :
    parts.flatMap Part.text ++ rest = s := by
  obtain ⟨cells, hnext, hcovers, _⟩ | ⟨name, rfl, hname, _⟩ := next?_cases h
  · rw [hcovers.flatMap_text_eq, Cell.text_append_of_next? hnext]
  · obtain ⟨_, _, _, hs, _⟩ := exists_plain_of_name? hname
    rw [List.flatMap_singleton]
    exact hs.symm

/-- Parts are taken from the start of a text, again and again, with what is taken before the
rest. -/
theorem partsAfter?_induction {P : List Char → List Char → List Part → Prop}
    (nil : ∀ before, P before [] [])
    (cons : ∀ before s first rest more, next? before s = some (first, rest) →
      P ((first.flatMap Part.text).reverse ++ before) rest more → P before s (first ++ more))
    (h : partsAfter? before s = some parts) : P before s parts := by
  fun_induction partsAfter? before s generalizing parts with
  | case1 before =>
    cases h
    exact nil before
  | case2 before s hne ih =>
    simp only [Option.bind_eq_bind, Option.bind_eq_some_iff, Prod.exists] at h
    obtain ⟨first, rest, hfirst, h⟩ := h
    obtain ⟨hlt, h⟩ := Option.ite_none_right_eq_some.1 h
    obtain ⟨more, hmore, heq⟩ := Option.bind_eq_some_iff.1 h
    cases heq
    have htaken : s.take (s.length - rest.length) = first.flatMap Part.text := by
      rw [← text_append_of_next? hfirst, List.length_append, Nat.add_sub_cancel, List.take_left]
    have hrest := ih rest hlt hmore
    rw [htaken] at hrest
    exact cons before s first rest more hfirst hrest

theorem exists_covers_of_partsAfter? (h : partsAfter? before s = some parts) :
    ∃ cells, Cell.segment? s = some cells ∧ Covers parts cells := by
  refine partsAfter?_induction (P := fun _ s parts => ∃ cells, Cell.segment? s = some cells ∧
    Covers parts cells) (fun _ => ⟨[], Cell.segment?_nil, .nil⟩) ?_ h
  rintro before s first rest more hfirst ⟨others, hothers, hmoreCovers⟩
  obtain ⟨_, cells, hcovers, hsegment⟩ := exists_covers_of_next? hfirst
  rw [hothers] at hsegment
  exact ⟨cells ++ others, hsegment, hcovers.append hmoreCovers⟩

theorem exists_covers_of_parts? (h : parts? s = some parts) :
    ∃ cells, Cell.segment? s = some cells ∧ Covers parts cells :=
  exists_covers_of_partsAfter? h

theorem partsAfter?_of_next? (h : next? before s = some (parts, rest)) :
    partsAfter? before s =
      (partsAfter? ((s.take (s.length - rest.length)).reverse ++ before) rest).map
        (parts ++ ·) := by
  have hlt := (exists_covers_of_next? h).1
  have hne : s ≠ [] := List.ne_nil_of_length_pos (Nat.zero_lt_of_lt hlt)
  rw [partsAfter?, if_neg hne, h]
  simp only [Option.bind_eq_bind, Option.bind_some, if_pos hlt]
  cases partsAfter? ((s.take (s.length - rest.length)).reverse ++ before) rest <;> rfl

/-- A segment that has cells has parts over them. -/
theorem exists_partsAfter?_of_segment? {cells : List Cell} (h : Cell.segment? s = some cells)
    (before : List Char) :
    ∃ parts, partsAfter? before s = some parts ∧ Covers parts cells := by
  have parts : ∃ parts, partsAfter? before s = some parts := by
    fun_induction partsAfter? before s generalizing cells with
    | case1 before => exact ⟨[], rfl⟩
    | case2 before s hne ih =>
      have hnext : (next? before s).isSome := by
        rw [isSome_next?, Option.isSome_iff_ne_none]
        intro hnone
        rw [Cell.segment?, if_neg hne, hnone] at h
        cases h
      obtain ⟨⟨first, rest⟩, hfirst⟩ := Option.isSome_iff_exists.1 hnext
      obtain ⟨hlt, cells', _, hsegment⟩ := exists_covers_of_next? hfirst
      rw [hsegment] at h
      obtain ⟨more, hmore, _⟩ := Option.map_eq_some_iff.1 h
      obtain ⟨others, hothers⟩ := ih rest hlt hmore
      refine ⟨first ++ others, ?_⟩
      rw [hfirst]
      simp only [Option.bind_eq_bind, Option.bind_some, if_pos hlt, hothers]
      rfl
  obtain ⟨parts, hparts⟩ := parts
  obtain ⟨cells', hcells, hcovers⟩ := exists_covers_of_partsAfter? hparts
  rw [h] at hcells
  cases hcells
  exact ⟨parts, hparts, hcovers⟩

end Boundary

/-! ## The tokenizer -/

namespace Token

variable {t : Token} {tokens : List Token}

/-- The parts of one token, given whether a dot precedes it and what follows it. -/
def ownParts (dot : Bool) (rest : List Token) (t : Token) : List Part :=
  if t.kind = .identifier then [.word ⟨t.text, dot, startWithUse rest⟩]
  else t.pieces.map Part.ofPiece

theorem flatMap_text_ownParts (dot : Bool) (rest : List Token) (t : Token) :
    (t.ownParts dot rest).flatMap Part.text = t.text := by
  have htext : ∀ p : Piece Char, (Part.ofPiece p).text = p.units := by
    intro p
    cases p <;> rfl
  rw [ownParts]
  split
  · exact List.append_nil t.text
  · rw [List.flatMap_map]
    exact congrArg (t.pieces.flatMap ·) (funext htext)

theorem covers_of_first? (h : first? s = some (t, rest)) (dot : Bool) (tokens : List Token) :
    Covers (ownParts dot tokens t) t.cells := by
  rw [ownParts, cells]
  cases hinter : t.kind.isInterpolated with
  | true =>
    rw [if_pos rfl, if_neg (TokenKind.ne_identifier hinter)]
    exact Covers.pieces t.pieces
  | false =>
    have hpieces := pieces_eq_text_of_first? h hinter
    split
    · rename_i hkind
      have hne := text_ne_nil_of_first? h
      have := Covers.word (w := ⟨t.text, dot, startWithUse tokens⟩) hne .nil
      rw [List.append_nil] at this
      rw [if_neg Bool.false_ne_true, hkind]
      exact this
    · rw [if_neg Bool.false_ne_true, hpieces]
      exact .single_role t.kind.role t.text

theorem partsAfter_cons (dot : Bool) (t : Token) (tokens : List Token) :
    partsAfter dot (t :: tokens) =
      t.ownParts dot tokens ++
        partsAfter (if t.kind.isTrivia then dot else t.kind = .dot) tokens := rfl

theorem exists_covers_of_tokenize (h : tokenize s = .ok tokens) (dot : Bool) :
    ∃ cells, Cell.segment? s = some cells ∧ Covers (partsAfter dot tokens) cells := by
  refine tokenize_induction (P := fun s tokens => ∀ dot, ∃ cells, Cell.segment? s = some cells ∧
    Covers (partsAfter dot tokens) cells) (fun dot => ⟨[], Cell.segment?_nil, .nil⟩)
    (fun s t rest tokens hfirst _ ih dot => ?_) h dot
  obtain ⟨more, hmore, hcovers⟩ := ih (if t.kind.isTrivia then dot else t.kind = .dot)
  have hsegment := Cell.segment?_of_first? hfirst
  rw [hmore] at hsegment
  refine ⟨t.cells ++ more, hsegment, ?_⟩
  rw [partsAfter_cons]
  exact (covers_of_first? hfirst dot tokens).append hcovers

theorem parts?_eq_some {parts : List Part} :
    parts? s = some parts ↔
      ∃ tokens, tokenize s = .ok tokens ∧ partsAfter false tokens = parts := by
  rw [parts?, Option.map_eq_some_iff]
  refine exists_congr fun tokens => and_congr_left fun _ => ?_
  cases tokenize s <;> simp [Except.toOption]

theorem exists_covers_of_parts? {parts : List Part} (h : parts? s = some parts) :
    ∃ cells, Cell.segment? s = some cells ∧ Covers parts cells := by
  obtain ⟨tokens, htokens, rfl⟩ := parts?_eq_some.1 h
  exact exists_covers_of_tokenize htokens false

end Token

theorem Markup.text_of_boundary? {m : Markup} (h : boundary? s = some m) : m.text = s :=
  text_of_read? (fun _ _ => Boundary.exists_covers_of_parts?) h

theorem Markup.text_of_tokenized? {m : Markup} (h : tokenized? s = some m) : m.text = s :=
  text_of_read? (fun _ _ => Token.exists_covers_of_parts?) h

end MapPlan.Expr
