import MapPlan.Expr.Literal

/-!
# Reading literals

A reader of literals loses nothing: the pieces it gives and the rest are the text it was given. It
starts a string literal with text, so each hole is shorter than the literal, and ends it with a
quote.
-/

namespace MapPlan.Expr

variable {α : Type}

/-! ## Pieces -/

namespace Piece

@[simp] theorem flatten_nil : flatten ([] : List (Piece α)) = [] := rfl

@[simp] theorem flatten_cons (p : Piece α) (pieces : List (Piece α)) :
    flatten (p :: pieces) = p.units ++ flatten pieces := rfl

@[simp] theorem flatten_append (pieces pieces' : List (Piece α)) :
    flatten (pieces ++ pieces') = flatten pieces ++ flatten pieces' :=
  List.flatMap_append

theorem flatten_consText (u : α) (pieces : List (Piece α)) :
    flatten (consText u pieces) = u :: flatten pieces := by
  cases pieces with
  | nil => rfl
  | cons p pieces => cases p <;> rfl

theorem flatten_consHole (u : α) (pieces : List (Piece α)) :
    flatten (consHole u pieces) = u :: flatten pieces := by
  cases pieces with
  | nil => rfl
  | cons p pieces => cases p <;> rfl

@[simp] theorem flatten_consUnit (before after : Bool) (u : α) (pieces : List (Piece α)) :
    flatten (consUnit before after u pieces) = u :: flatten pieces := by
  cases before <;> cases after
  · exact flatten_consText u pieces
  · rfl
  · exact flatten_consText u pieces
  · exact flatten_consHole u pieces

/-- A unit read outside all holes is text. -/
theorem consUnit_outside (after : Bool) (u : α) (pieces : List (Piece α)) :
    ∃ s tail, consUnit false after u pieces = .text (u :: s) :: tail := by
  cases after with
  | false =>
    cases pieces with
    | nil => exact ⟨[], [], rfl⟩
    | cons p pieces => cases p <;> exact ⟨_, _, rfl⟩
  | true => exact ⟨[], pieces, rfl⟩

/-- A unit before other pieces leaves the end of a text as it is. -/
theorem exists_consUnit_concat (before after : Bool) (u : α) (init : List (Piece α)) (v : List α)
    (w : α) :
    ∃ init' v', consUnit before after u (init ++ [.text (v ++ [w])]) =
      init' ++ [.text (v' ++ [w])] := by
  have text : ∃ init' v',
      consText u (init ++ [.text (v ++ [w])]) = init' ++ [.text (v' ++ [w])] := by
    cases init with
    | nil => exact ⟨[], u :: v, rfl⟩
    | cons p init =>
      cases p with
      | text s => exact ⟨.text (u :: s) :: init, v, rfl⟩
      | hole s => exact ⟨.text [u] :: .hole s :: init, v, rfl⟩
  have hole : ∃ init' v',
      consHole u (init ++ [.text (v ++ [w])]) = init' ++ [.text (v' ++ [w])] := by
    cases init with
    | nil => exact ⟨[.hole [u]], v, rfl⟩
    | cons p init =>
      cases p with
      | text s => exact ⟨.hole [u] :: .text s :: init, v, rfl⟩
      | hole s => exact ⟨.hole (u :: s) :: init, v, rfl⟩
  cases before <;> cases after
  · exact text
  · exact ⟨.text [u] :: init, v, rfl⟩
  · obtain ⟨init', v', heq⟩ := text
    exact ⟨.hole [] :: init', v', congrArg (Piece.hole [] :: ·) heq⟩
  · exact hole

end Piece

/-! ## Frames -/

namespace Frame

/-- The mark that closes a frame, which for a skipped unit is any. -/
def closer? : Frame → Option Mark
  | .opener _ | .string _ => some .quote
  | .char => some .apostrophe
  | .hole _ => some .closeBrace
  | .skip => none

theorem isHole_eq_false {f : Frame} {q : Mark} (hf : f.closer? = some q) (hq : q ≠ .closeBrace) :
    f.isHole = false := by
  cases f with
  | hole depth => exact absurd (Option.some.inj hf).symm hq
  | _ => rfl

/-- A unit closes the frame it is read in, if it has the mark for that, or leaves it open, perhaps
changed and with another one above it. -/
theorem next?_cases {f : Frame} {stack stack' : List Frame} {ahead : List Mark} {m : Mark}
    (h : f.next? stack ahead m = some stack') :
    stack' = stack ∧ (∀ q, f.closer? = some q → m = q) ∨
      ∃ f', f' ≠ .skip ∧ f'.closer? = f.closer? ∧
        (stack' = f' :: stack ∨ ∃ g, stack' = g :: f' :: stack) := by
  have stays : ∀ f', some (f' :: stack) = some stack' → f' ≠ .skip → f'.closer? = f.closer? →
      ∃ f', f' ≠ .skip ∧ f'.closer? = f.closer? ∧
        (stack' = f' :: stack ∨ ∃ g, stack' = g :: f' :: stack) := by
    rintro f' ⟨⟩ hskip hcloser
    exact ⟨f', hskip, hcloser, .inl rfl⟩
  have opens : ∀ g f', some (g :: f' :: stack) = some stack' → f' ≠ .skip →
      f'.closer? = f.closer? →
      ∃ f', f' ≠ .skip ∧ f'.closer? = f.closer? ∧
        (stack' = f' :: stack ∨ ∃ g, stack' = g :: f' :: stack) := by
    rintro g f' ⟨⟩ hskip hcloser
    exact ⟨f', hskip, hcloser, .inr ⟨g, rfl⟩⟩
  have closes : ∀ q, f.closer? = some q → ∀ q', f.closer? = some q' → q = q' :=
    fun q hq q' hq' => Option.some.inj (hq.symm.trans hq')
  cases f with
  | skip =>
    cases h
    exact .inl ⟨rfl, nofun⟩
  | opener style =>
    refine .inr (stays _ h ?_ ?_) <;> split <;> first | rfl | exact nofun
  | char =>
    cases m with
    | backslash => exact .inr (opens .skip .char h nofun rfl)
    | apostrophe =>
      cases h
      exact .inl ⟨rfl, closes _ rfl⟩
    | newline => cases h
    | _ => exact .inr (stays .char h nofun rfl)
  | hole depth =>
    simp only [next?] at h
    split at h
    · exact .inr (stays (.hole (depth + 1)) h nofun rfl)
    · cases h
      exact .inl ⟨rfl, closes _ rfl⟩
    · rename_i outer
      exact .inr (stays (.hole outer) h nofun rfl)
    · exact .inr (opens .char (.hole depth) h nofun rfl)
    · split at h
      · exact .inr (opens _ (.hole depth) h nofun rfl)
      · exact .inr (stays (.hole depth) h nofun rfl)
  | string style =>
    simp only [next?] at h
    split at h
    · exact .inr (opens .skip (.string style) h nofun rfl)
    · split at h
      · exact .inr (opens .skip (.string style) h nofun rfl)
      · cases h
        exact .inl ⟨rfl, closes _ rfl⟩
    · cases h
    · split at h
      · exact .inr (opens .skip (.string style) h nofun rfl)
      · exact .inr (opens (.hole 0) (.string style) h nofun rfl)
    · split at h
      · exact .inr (opens .skip (.string style) h nofun rfl)
      · exact .inr (stays (.string style) h nofun rfl)
    · exact .inr (stays (.string style) h nofun rfl)

/-- Only quotes mean something to a verbatim string without holes. -/
theorem next?_verbatim (stack : List Frame) (ahead : List Mark) (m : Mark) :
    (string ⟨true, false⟩).next? stack ahead m =
      some (if m = .quote then
          if ahead.head? = some .quote then .skip :: .string ⟨true, false⟩ :: stack else stack
        else .string ⟨true, false⟩ :: stack) := by
  cases m with
  | quote =>
    rw [if_pos rfl]
    simp only [next?, Bool.true_and, decide_eq_true_eq]
    split <;> rfl
  | _ => rfl

end Frame

/-! ## Readers -/

namespace Literal

variable [Marked α] {frame : Frame} {stack : List Frame} {u : α} {us rest : List α}
  {pieces : List (Piece α)}

theorem readOpen?_nil (us : List α) : readOpen? [] us = some ([], us) := by
  rw [readOpen?]

/-- One step of a reader. -/
theorem readOpen?_cons :
    readOpen? (frame :: stack) (u :: us) =
      (frame.next? stack ((us.take 2).map mark) (mark u)).bind fun stack' =>
        (readOpen? stack' us).map fun (pieces, rest) =>
          (Piece.consUnit ((frame :: stack).any (·.isHole)) (stack'.any (·.isHole)) u pieces,
            rest) := by
  rw [readOpen?]
  cases frame.next? stack ((us.take 2).map mark) (mark u) with
  | none => rfl
  | some stack' =>
    simp only [Option.bind_eq_bind, Option.bind_some]
    cases readOpen? stack' us <;> rfl

theorem readOpen?_cons_eq_some :
    readOpen? (frame :: stack) (u :: us) = some (pieces, rest) ↔
      ∃ stack' tail, frame.next? stack ((us.take 2).map mark) (mark u) = some stack' ∧
        readOpen? stack' us = some (tail, rest) ∧
        pieces =
          Piece.consUnit ((frame :: stack).any (·.isHole)) (stack'.any (·.isHole)) u tail := by
  simp only [readOpen?_cons, Option.bind_eq_some_iff, Option.map_eq_some_iff, Prod.exists,
    Prod.mk.injEq]
  constructor
  · rintro ⟨stack', hstep, tail, rest', htail, rfl, rfl⟩
    exact ⟨stack', tail, hstep, htail, rfl⟩
  · rintro ⟨stack', tail, hstep, htail, rfl⟩
    exact ⟨stack', hstep, tail, rest, htail, rfl, rfl⟩

/-- A step that stays outside all holes puts its unit before the text that follows. -/
theorem readOpen?_text {stack' : List Frame} {t : List α}
    (hbefore : (frame :: stack).any (·.isHole) = false) (hafter : stack'.any (·.isHole) = false)
    (hstep : frame.next? stack ((us.take 2).map mark) (mark u) = some stack')
    (h : readOpen? stack' us = some (.text t :: pieces, rest)) :
    readOpen? (frame :: stack) (u :: us) = some (.text (u :: t) :: pieces, rest) := by
  rw [readOpen?_cons_eq_some]
  refine ⟨stack', _, hstep, h, ?_⟩
  rw [hbefore, hafter]
  rfl

/-- The step that closes all. -/
theorem readOpen?_close (hbefore : frame.isHole = false)
    (hstep : frame.next? [] ((us.take 2).map mark) (mark u) = some []) :
    readOpen? [frame] (u :: us) = some ([.text [u]], us) := by
  rw [readOpen?_cons_eq_some]
  refine ⟨[], [], hstep, readOpen?_nil us, ?_⟩
  rw [List.any_cons, hbefore]
  rfl

/-- An opener is read as text, up to its quote. -/
theorem exists_tail_of_opener {style : Style} {w : List α} {q : α}
    (hw : ∀ u ∈ w, mark u ≠ .quote) (hq : mark q = .quote)
    (h : readOpen? [.opener style] (w ++ q :: us) = some (pieces, rest)) :
    ∃ tail, readOpen? [.string style] us = some (tail, rest) ∧
      Piece.flatten pieces = w ++ q :: Piece.flatten tail := by
  induction w generalizing pieces with
  | nil =>
    obtain ⟨stack', tail, hstep, htail, rfl⟩ := readOpen?_cons_eq_some.1 h
    rw [Frame.next?, if_pos hq] at hstep
    cases hstep
    exact ⟨tail, htail, Piece.flatten_consUnit _ _ q tail⟩
  | cons u w ih =>
    obtain ⟨hu, hw⟩ := List.forall_mem_cons.1 hw
    obtain ⟨stack', tail, hstep, htail, rfl⟩ := readOpen?_cons_eq_some.1 h
    rw [Frame.next?, if_neg hu] at hstep
    cases hstep
    obtain ⟨tail', hread, hflatten⟩ := ih hw htail
    refine ⟨tail', hread, ?_⟩
    rw [Piece.flatten_consUnit, hflatten]
    rfl

/-- Nothing is lost. -/
theorem flatten_append_of_readOpen? (h : readOpen? stack us = some (pieces, rest)) :
    Piece.flatten pieces ++ rest = us := by
  induction us generalizing stack pieces with
  | nil =>
    cases stack with
    | nil => cases h; rfl
    | cons frame stack => cases h
  | cons u us ih =>
    cases stack with
    | nil => cases h; rfl
    | cons frame stack =>
      obtain ⟨stack', tail, _, htail, rfl⟩ := readOpen?_cons_eq_some.1 h
      rw [Piece.flatten_consUnit, List.cons_append, ih htail]

/-- A reader that is outside all holes starts with text. -/
theorem exists_text_of_readOpen? (hout : (frame :: stack).any (·.isHole) = false)
    (h : readOpen? (frame :: stack) us = some (pieces, rest)) :
    ∃ u s tail, pieces = .text (u :: s) :: tail := by
  cases us with
  | nil => cases h
  | cons u us =>
    obtain ⟨stack', tail, _, _, rfl⟩ := readOpen?_cons_eq_some.1 h
    rw [hout]
    obtain ⟨s, tail', heq⟩ := Piece.consUnit_outside (stack'.any (·.isHole)) u tail
    exact ⟨u, s, tail', heq⟩

theorem string?_eq_some :
    string? us = some (pieces, rest) ↔
      ∃ style, style? us = some style ∧ readOpen? [.opener style] us = some (pieces, rest) :=
  Option.bind_eq_some_iff

theorem flatten_append_of_string? (h : string? us = some (pieces, rest)) :
    Piece.flatten pieces ++ rest = us := by
  obtain ⟨style, _, hread⟩ := string?_eq_some.1 h
  exact flatten_append_of_readOpen? hread

theorem exists_text_of_string? (h : string? us = some (pieces, rest)) :
    ∃ u s tail, pieces = .text (u :: s) :: tail := by
  obtain ⟨style, _, hread⟩ := string?_eq_some.1 h
  exact exists_text_of_readOpen? rfl hread

theorem length_rest_lt_of_string? (h : string? us = some (pieces, rest)) :
    rest.length < us.length := by
  obtain ⟨u, s, tail, rfl⟩ := exists_text_of_string? h
  rw [← flatten_append_of_string? h]
  simp only [Piece.flatten_cons, Piece.units, List.length_append, List.length_cons]
  omega

/-- What closes all is the last unit of a text. -/
theorem exists_close_of_readOpen? {f : Frame} {q : Mark} (hf : f.closer? = some q)
    (hq : q ≠ .closeBrace) (hlast : stack.getLast? = some f)
    (h : readOpen? stack us = some (pieces, rest)) :
    ∃ init v u, pieces = init ++ [.text (v ++ [u])] ∧ mark u = q := by
  induction us generalizing stack pieces f with
  | nil =>
    cases stack with
    | nil => cases hlast
    | cons frame stack => cases h
  | cons u us ih =>
    cases stack with
    | nil => cases hlast
    | cons frame stack =>
      obtain ⟨stack', tail, hstep, htail, rfl⟩ := readOpen?_cons_eq_some.1 h
      have later : ∀ f, f.closer? = some q → stack'.getLast? = some f →
          ∃ init v w, Piece.consUnit ((frame :: stack).any (·.isHole)) (stack'.any (·.isHole)) u
            tail = init ++ [.text (v ++ [w])] ∧ mark w = q := by
        intro f hf hlast
        obtain ⟨init, v, w, rfl, hw⟩ := ih hf hlast htail
        obtain ⟨init', v', heq⟩ := Piece.exists_consUnit_concat
          ((frame :: stack).any (·.isHole)) (stack'.any (·.isHole)) u init v w
        exact ⟨init', v', w, heq, hw⟩
      cases stack with
      | nil =>
        obtain rfl : frame = f := Option.some.inj hlast
        obtain ⟨rfl, hclose⟩ | ⟨f', _, hf', rfl | ⟨g, rfl⟩⟩ := Frame.next?_cases hstep
        · rw [readOpen?_nil] at htail
          cases htail
          rw [List.any_cons, Frame.isHole_eq_false hf hq]
          exact ⟨[], [], u, rfl, hclose q hf⟩
        · exact later f' (hf'.trans hf) rfl
        · exact later f' (hf'.trans hf) rfl
      | cons below stack =>
        refine later f hf ?_
        obtain ⟨rfl, _⟩ | ⟨f', _, _, rfl | ⟨g, rfl⟩⟩ := Frame.next?_cases hstep <;> exact hlast

/-- A string ends with a quote, which stands outside all holes. -/
theorem exists_close_of_string? (h : string? us = some (pieces, rest)) :
    ∃ init v q, pieces = init ++ [.text (v ++ [q])] ∧ mark q = .quote := by
  obtain ⟨style, _, hread⟩ := string?_eq_some.1 h
  exact exists_close_of_readOpen? (f := .opener style) rfl nofun rfl hread

theorem exists_quote_of_string? (h : string? us = some (pieces, rest)) :
    ∃ v q, Piece.flatten pieces = v ++ [q] ∧ mark q = .quote := by
  obtain ⟨init, v, q, rfl, hq⟩ := exists_close_of_string? h
  refine ⟨Piece.flatten init ++ v, q, ?_, hq⟩
  rw [Piece.flatten_append, Piece.flatten_cons, Piece.flatten_nil, List.append_nil,
    List.append_assoc]
  rfl

theorem char?_eq_some {body : List α} :
    char? us = some (body, rest) ↔
      ∃ pieces, readOpen? [.char] us = some (pieces, rest) ∧ body = Piece.flatten pieces := by
  simp only [char?, Option.bind_eq_bind, Option.bind_eq_some_iff, Option.pure_def,
    Option.some.injEq, Prod.exists, Prod.mk.injEq]
  constructor
  · rintro ⟨pieces, rest', h, rfl, rfl⟩
    exact ⟨pieces, h, rfl⟩
  · rintro ⟨pieces, h, rfl⟩
    exact ⟨pieces, rest, h, rfl, rfl⟩

theorem append_of_char? {body : List α} (h : char? us = some (body, rest)) : body ++ rest = us := by
  obtain ⟨pieces, hread, rfl⟩ := char?_eq_some.1 h
  exact flatten_append_of_readOpen? hread

/-- A character literal ends with an apostrophe. -/
theorem exists_close_of_char? {body : List α} (h : char? us = some (body, rest)) :
    ∃ v q, body = v ++ [q] ∧ mark q = .apostrophe := by
  obtain ⟨pieces, hread, rfl⟩ := char?_eq_some.1 h
  obtain ⟨init, v, q, rfl, hq⟩ :=
    exists_close_of_readOpen? (f := .char) rfl nofun rfl hread
  refine ⟨Piece.flatten init ++ v, q, ?_, hq⟩
  rw [Piece.flatten_append, Piece.flatten_cons, Piece.flatten_nil, List.append_nil,
    List.append_assoc]
  rfl

end Literal
end MapPlan.Expr
