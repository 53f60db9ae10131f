import MapPlan.Proofs.Expr.Edit
import MapPlan.Proofs.Expr.LiteralGrammar

/-!
# The reader of literals and their grammar

The reader accepts just the literals of the grammar, and its pieces are those of their items. What
is open while it reads says what is still asked of the text, frame by frame, and each of its steps
goes from one such demand to the next.
-/

namespace MapPlan.Expr

variable {α : Type}

/-! ## Pieces -/

namespace Item

/-- The pieces that the items are read as, before the given pieces, outside all holes or inside
one. -/
def assemble (inside : Bool) (items : List (Item α)) (pieces : List (Piece α)) : List (Piece α) :=
  items.foldr (fun
    | hole opening code closing => fun pieces =>
      Piece.consUnit inside true opening
        (Piece.consUnits true code (Piece.consUnit true inside closing pieces))
    | item => Piece.consUnits inside item.units) pieces

variable {items : List (Item α)} {pieces : List (Piece α)}

theorem assemble_cons (inside : Bool) (item : Item α) :
    assemble inside (item :: items) pieces = assemble inside [item] (assemble inside items pieces) :=
  rfl

theorem assemble_text (inside : Bool) (us : List α) :
    assemble inside (.text us :: items) pieces =
      Piece.consUnits inside us (assemble inside items pieces) :=
  rfl

/-- Outside all holes, the braces of a hole are text. -/
theorem assemble_hole (opening closing : α) (code : List α) :
    assemble false (.hole opening code closing :: items) pieces =
      .text [opening] :: .hole code :: Piece.consText closing (assemble false items pieces) := by
  change _ :: Piece.consUnits true code (.hole [] :: _) = _
  rw [Piece.consUnits_hole, List.append_nil]
  rfl

/-- Inside a hole all units go to its code. -/
theorem assemble_inside (items : List (Item α)) (pieces : List (Piece α)) :
    assemble true items pieces = Piece.consUnits true (flatten items) pieces := by
  induction items with
  | nil => rfl
  | cons item items ih =>
    rw [assemble_cons, ih, flatten_cons, Piece.consUnits_append]
    cases item with
    | hole opening code closing =>
      rw [units, List.cons_append, Piece.consUnits_cons, Piece.consUnits_append]
      rfl
    | _ => rfl

/-- A literal of the code of a hole is read as the code that it is. -/
theorem assemble_literal (opener : List α) (inner : List (Item α)) (q : α) :
    assemble true (.text (opener ++ flatten inner ++ [q]) :: items) pieces =
      Piece.consUnits true opener
        (assemble true inner (Piece.consUnit true true q (assemble true items pieces))) := by
  rw [assemble_text, Piece.consUnits_append, Piece.consUnits_append, ← assemble_inside inner]
  rfl

end Item

/-! ## Frames -/

namespace Frame

section
variable {style : Style} {stack stack' : List Frame} {ahead : List Mark} {m : Mark}

theorem next?_string_escape (hverbatim : style.verbatim = false) :
    (string style).next? stack ahead .backslash = some (.skip :: .string style :: stack) := by
  simp only [next?, hverbatim]

theorem next?_string_quotes (hverbatim : style.verbatim) (hahead : ahead.head? = some .quote) :
    (string style).next? stack ahead .quote = some (.skip :: .string style :: stack) := by
  simp [next?, hverbatim, hahead]

theorem next?_string_close (hsingle : style.verbatim → ahead.head? ≠ some .quote) :
    (string style).next? stack ahead .quote = some stack := by
  have hdoubled : (style.verbatim && decide (ahead.head? = some .quote)) = false := by
    rw [Bool.and_eq_false_iff, decide_eq_false_iff_not, ← Bool.not_eq_true]
    exact (Classical.em _).elim (.inr ∘ hsingle) .inl
  simp only [next?, hdoubled, if_neg Bool.false_ne_true]

theorem next?_string_braces (hinter : style.interpolated) (hm : m = .openBrace ∨ m = .closeBrace)
    (hahead : ahead.head? = some m) :
    (string style).next? stack ahead m = some (.skip :: .string style :: stack) := by
  rcases hm with rfl | rfl <;> simp [next?, hinter, hahead]

theorem next?_string_hole (hinter : style.interpolated) (hahead : ahead.head? ≠ some .openBrace) :
    (string style).next? stack ahead .openBrace = some (.hole 0 :: .string style :: stack) := by
  simp [next?, hinter, hahead]

theorem next?_string_pass (hquote : m ≠ .quote)
    (hescape : style.verbatim = false → m ≠ .backslash ∧ m ≠ .newline)
    (hbrace : style.interpolated →
      m ≠ .openBrace ∧ (m = .closeBrace → ahead.head? ≠ some .closeBrace)) :
    (string style).next? stack ahead m = some (.string style :: stack) := by
  obtain ⟨verbatim, interpolated⟩ := style
  cases m <;> cases verbatim <;> cases interpolated <;> simp_all [next?]

/-- The ways to go on in a string. -/
theorem next?_string_cases (h : (string style).next? stack ahead m = some stack') :
    (style.verbatim = false ∧ m = .backslash ∧ stack' = .skip :: .string style :: stack) ∨
    (style.verbatim ∧ m = .quote ∧ ahead.head? = some .quote ∧
      stack' = .skip :: .string style :: stack) ∨
    (m = .quote ∧ (style.verbatim → ahead.head? ≠ some .quote) ∧ stack' = stack) ∨
    (style.interpolated ∧ (m = .openBrace ∨ m = .closeBrace) ∧ ahead.head? = some m ∧
      stack' = .skip :: .string style :: stack) ∨
    (style.interpolated ∧ m = .openBrace ∧ ahead.head? ≠ some .openBrace ∧
      stack' = .hole 0 :: .string style :: stack) ∨
    (m ≠ .quote ∧ (style.verbatim = false → m ≠ .backslash ∧ m ≠ .newline) ∧
      (style.interpolated → m ≠ .openBrace ∧ (m = .closeBrace → ahead.head? ≠ some .closeBrace)) ∧
      stack' = .string style :: stack) := by
  obtain ⟨verbatim, interpolated⟩ := style
  cases m <;> cases verbatim <;> cases interpolated <;> simp_all [next?] <;> grind

/-- The ways to go on in a hole. -/
theorem next?_hole_cases {depth : Nat}
    (h : (hole depth).next? stack ahead m = some stack') :
    (m = .openBrace ∧ stack' = .hole (depth + 1) :: stack) ∨
    (m = .closeBrace ∧ depth = 0 ∧ stack' = stack) ∨
    (∃ outer, m = .closeBrace ∧ depth = outer + 1 ∧ stack' = .hole outer :: stack) ∨
    (m = .apostrophe ∧ stack' = .char :: .hole depth :: stack) ∨
    (∃ style, Style.ofMarks? (m :: ahead) = some style ∧
      stack' = (if m = .quote then .string style else .opener style) :: .hole depth :: stack) ∨
    (m ∉ [.openBrace, .closeBrace, .apostrophe] ∧ Style.ofMarks? (m :: ahead) = none ∧
      stack' = .hole depth :: stack) := by
  simp only [next?] at h
  split at h
  · exact .inl ⟨rfl, (Option.some.inj h).symm⟩
  · exact .inr (.inl ⟨rfl, rfl, (Option.some.inj h).symm⟩)
  · exact .inr (.inr (.inl ⟨_, rfl, rfl, (Option.some.inj h).symm⟩))
  · exact .inr (.inr (.inr (.inl ⟨rfl, (Option.some.inj h).symm⟩)))
  · rename_i hopen hchar hzero hsucc
    cases hstyle : Style.ofMarks? (m :: ahead) with
    | some style =>
      rw [hstyle] at h
      exact .inr (.inr (.inr (.inr (.inl ⟨style, rfl, (Option.some.inj h).symm⟩))))
    | none =>
      rw [hstyle] at h
      refine .inr (.inr (.inr (.inr (.inr ⟨?_, rfl, (Option.some.inj h).symm⟩))))
      simp only [List.mem_cons, List.not_mem_nil, or_false]
      rintro (rfl | rfl | rfl)
      · exact hopen rfl
      · cases depth with
        | zero => exact hzero rfl rfl
        | succ outer => exact hsucc outer rfl rfl
      · exact hchar rfl

theorem next?_hole_string {depth : Nat} (h : Style.ofMarks? (m :: ahead) = some style) :
    (hole depth).next? stack ahead m =
      some ((if m = .quote then .string style else .opener style) :: .hole depth :: stack) := by
  have hm : m ∉ [.openBrace, .closeBrace, .apostrophe] := by
    simp only [List.mem_cons, List.not_mem_nil, or_false]
    rintro (rfl | rfl | rfl) <;> cases h
  simp only [next?, h]
  split <;> first | rfl | exact absurd (by decide) hm

theorem next?_hole_other {depth : Nat} (hm : m ∉ [.openBrace, .closeBrace, .apostrophe])
    (h : Style.ofMarks? (m :: ahead) = none) :
    (hole depth).next? stack ahead m = some (.hole depth :: stack) := by
  simp only [next?, h]
  split <;> first | rfl | exact absurd (by decide) hm

/-- The ways to go on in a character literal. -/
theorem next?_char_cases (h : char.next? stack ahead m = some stack') :
    (m = .backslash ∧ stack' = .skip :: .char :: stack) ∨ (m = .apostrophe ∧ stack' = stack) ∨
    (m ∉ [.backslash, .apostrophe, .newline] ∧ stack' = .char :: stack) := by
  cases m with
  | backslash => exact .inl ⟨rfl, (Option.some.inj h).symm⟩
  | apostrophe => exact .inr (.inl ⟨rfl, (Option.some.inj h).symm⟩)
  | newline => cases h
  | _ => exact .inr (.inr ⟨by decide, (Option.some.inj h).symm⟩)

theorem next?_char_other (hm : m ∉ [.backslash, .apostrophe, .newline]) :
    char.next? stack ahead m = some (.char :: stack) := by
  cases m <;> first | rfl | exact absurd (by decide) hm

end

variable [Marked α]

/-- What a string asks of the text behind its opener, and which pieces that gives, up to its closing
quote; `K` is asked of what follows. -/
def TakesString (inside : Bool) (K : List α → List (Piece α) → Prop) (style : Style) (us : List α)
    (pieces : List (Piece α)) : Prop :=
  ∃ items q us' pieces', us = Item.flatten items ++ q :: us' ∧
    Derives (.string style) items (q :: us') ∧ style.Closes q us' ∧
    pieces = Item.assemble inside items (Piece.consUnit inside inside q pieces') ∧ K us' pieces'

/-- What a frame asks of the text, and which pieces that gives, up to where it closes. -/
def Takes (inside : Bool) (K : List α → List (Piece α) → Prop) :
    Frame → List α → List (Piece α) → Prop
  | skip, us, pieces => ∃ u us' pieces', us = u :: us' ∧
      pieces = Piece.consUnit inside inside u pieces' ∧ K us' pieces'
  | char, us, pieces => ∃ body a us' pieces', us = body ++ a :: us' ∧ CharBody body ∧
      mark a = .apostrophe ∧ pieces = Piece.consUnits inside (body ++ [a]) pieces' ∧ K us' pieces'
  | string style, us, pieces => TakesString inside K style us pieces
  | opener style, us, pieces => ∃ w q us' pieces', us = w ++ q :: us' ∧
      (∀ u ∈ w, mark u ≠ .quote) ∧ mark q = .quote ∧
      pieces = Piece.consUnits inside (w ++ [q]) pieces' ∧ TakesString inside K style us' pieces'
  | hole depth, us, pieces => ∃ items c us' pieces', us = Item.flatten items ++ c :: us' ∧
      Derives .code items (c :: us') ∧ Item.Balanced depth items ∧ mark c = .closeBrace ∧
      pieces = Item.assemble true items (Piece.consUnit true inside c pieces') ∧ K us' pieces'

end Frame

namespace Literal

variable [Marked α] {frame : Frame} {stack stack' : List Frame} {style : Style} {u : α}
  {us rest : List α} {pieces : List (Piece α)}

/-- What is asked of a text by all that is open, the innermost first, with `rest` behind it. -/
def Closes (rest : List α) : List Frame → List α → List (Piece α) → Prop
  | [], us, pieces => us = rest ∧ pieces = []
  | frame :: stack, us, pieces =>
    frame.Takes (stack.any (·.isHole)) (Closes rest stack) us pieces

theorem head?_marks (us : List α) : ((us.take 2).map mark).head? = us.head?.map mark := by
  cases us <;> rfl

theorem style?_eq_some_iff :
    style? us = some style ↔ ∃ opener ∈ style.openers, opener <+: us.map mark := by
  rw [style?, Style.ofMarks?_eq_some_iff, List.map_take]
  refine exists_congr fun opener => and_congr_right fun hmem => ?_
  obtain ⟨w, rfl, hlen, _⟩ := Style.exists_concat_of_mem_openers hmem
  rw [List.prefix_take_iff, List.length_append, List.length_singleton]
  exact and_iff_left (by omega)

theorem not_opens_iff : ¬ Opens us ↔ style? us = none := by
  rw [Option.eq_none_iff_forall_ne_some, Opens, not_exists]
  exact forall_congr' fun style => not_congr style?_eq_some_iff.symm

theorem exists_concat_of_map_mem_openers {opener : List α} (h : opener.map mark ∈ style.openers) :
    ∃ w x, opener = w ++ [x] ∧ mark x = .quote ∧ ∀ u ∈ w, mark u ≠ .quote := by
  obtain ⟨marks, heq, _, hmarks⟩ := Style.exists_concat_of_mem_openers h
  obtain ⟨w, xs, rfl, rfl, hxs⟩ := List.map_eq_append_iff.1 heq
  obtain ⟨x, rfl, hx⟩ := List.map_eq_singleton_iff.1 hxs
  refine ⟨w, x, rfl, hx, fun u hu hquote => ?_⟩
  rcases hmarks _ (List.mem_map_of_mem hu) with hat | hdollar
  · exact absurd (hquote.symm.trans hat) nofun
  · exact absurd (hquote.symm.trans hdollar) nofun

/-- An opener that a text starts with ends at the first quote. -/
theorem eq_map_of_prefix {opener : List Mark} {w : List α} {x : α} (hopener : opener ∈ style.openers)
    (hw : ∀ u ∈ w, mark u ≠ .quote) (hx : mark x = .quote)
    (hstarts : opener <+: (w ++ x :: us).map mark) : opener = (w ++ [x]).map mark := by
  have hquote : .quote ∉ w.map mark := by
    intro hmem
    obtain ⟨u, hu, heq⟩ := List.mem_map.1 hmem
    exact hw u hu heq
  rw [List.map_append, List.map_cons, hx] at hstarts
  rw [List.map_append, List.map_singleton, hx]
  exact Style.eq_concat_of_prefix hopener hquote hstarts

/-! ## Literals behind their openers -/

/-- A string literal of the items, with `rest` behind it. -/
structure IsString (style : Style) (opener : List α) (items : List (Item α)) (q : α)
    (rest : List α) : Prop where
  opener : opener.map mark ∈ style.openers
  items : Derives (.string style) items (q :: rest)
  closes : style.Closes q rest

theorem IsString.style?_eq {opener : List α} {items : List (Item α)} {q : α}
    (h : IsString style opener items q us) :
    style? (opener ++ Item.flatten items ++ q :: us) = some style := by
  refine style?_eq_some_iff.2 ⟨_, h.opener, ?_⟩
  rw [List.append_assoc, List.map_append]
  exact List.prefix_append _ _

/-- In front of an opener, a literal is asked for and then what is open around it. -/
theorem closes_opener_iff (hstyle : style? us = some style) :
    Closes rest (.opener style :: stack) us pieces ↔
      ∃ opener items q us' tail, us = opener ++ Item.flatten items ++ q :: us' ∧
        IsString style opener items q us' ∧ Closes rest stack us' tail ∧
        pieces = Piece.consUnits (stack.any (·.isHole)) opener
          (Item.assemble (stack.any (·.isHole)) items
            (Piece.consUnit (stack.any (·.isHole)) (stack.any (·.isHole)) q tail)) := by
  constructor
  · rintro ⟨w, x, _, _, rfl, hw, hx, rfl, items, q, us', tail, rfl, hitems, hclose, rfl, htail⟩
    obtain ⟨marks, hmarks, hstarts⟩ := style?_eq_some_iff.1 hstyle
    have heq := eq_map_of_prefix hmarks hw hx hstarts
    exact ⟨w ++ [x], items, q, us', tail, by simp, ⟨heq ▸ hmarks, hitems, hclose⟩, htail, rfl⟩
  · rintro ⟨opener, items, q, us', tail, rfl, hliteral, htail, rfl⟩
    obtain ⟨w, x, rfl, hx, hw⟩ := exists_concat_of_map_mem_openers hliteral.opener
    exact ⟨w, x, _, _, by simp, hw, hx, rfl, items, q, us', tail, rfl, hliteral.items,
      hliteral.closes, rfl, htail⟩

/-! ## One step -/

/-- From the first unit of a string. -/
theorem closes_string_cons (h : Closes rest (.string style :: stack) (u :: us) pieces) :
    ∃ stack' tail, (Frame.string style).next? stack ((us.take 2).map mark) (mark u) = some stack' ∧
      Closes rest stack' us tail ∧
      pieces = Piece.consUnit ((Frame.string style :: stack).any (·.isHole))
        (stack'.any (·.isHole)) u tail := by
  obtain ⟨items, q, us', tail, hus, hitems, hclose, rfl, htail⟩ := h
  cases hitems with
  | nil =>
    cases hus
    refine ⟨stack, tail, ?_, htail, rfl⟩
    rw [hclose.quote]
    exact Frame.next?_string_close (by rw [head?_marks]; exact hclose.single)
  | @escape _ b x items _ hverbatim hb hitems =>
    cases hus
    refine ⟨.skip :: .string style :: stack, _, ?_, ⟨x, _, _, rfl, rfl, items, q, us', tail, rfl,
      hitems, hclose, rfl, htail⟩, rfl⟩
    rw [hb]
    exact Frame.next?_string_escape hverbatim
  | @quotes _ q₁ q₂ items _ hverbatim hq₁ hq₂ hitems =>
    cases hus
    refine ⟨.skip :: .string style :: stack, _, ?_, ⟨q₂, _, _, rfl, rfl, items, q, us', tail, rfl,
      hitems, hclose, rfl, htail⟩, rfl⟩
    rw [hq₁]
    exact Frame.next?_string_quotes hverbatim (congrArg some hq₂)
  | @braces _ b b' items _ hinter hb hb' hitems =>
    cases hus
    refine ⟨.skip :: .string style :: stack, _, ?_, ⟨b', _, _, rfl, rfl, items, q, us', tail, rfl,
      hitems, hclose, rfl, htail⟩, rfl⟩
    exact Frame.next?_string_braces hinter hb (congrArg some hb')
  | @hole _ o c code items _ hinter ho hc hfirst hcode hbalanced hitems =>
    have hus : u :: us = o :: (Item.flatten code ++ c :: (Item.flatten items ++ q :: us')) := by
      simpa [Item.units] using hus
    cases hus
    refine ⟨.hole 0 :: .string style :: stack, _, ?_, ⟨code, c, _, _, rfl, hcode, hbalanced, hc,
      rfl, items, q, us', tail, rfl, hitems, hclose, rfl, htail⟩, ?_⟩
    · rw [ho]
      refine Frame.next?_string_hole hinter ?_
      rw [head?_marks]
      cases hflatten : Item.flatten code with
      | nil => simp [hc]
      | cons x xs =>
        rw [hflatten] at hfirst
        simpa using hfirst x rfl
    · rw [Item.assemble_inside]
      rfl
  | @pass _ x items _ hpass hitems =>
    cases hus
    refine ⟨.string style :: stack, _, ?_, ⟨items, q, us', tail, rfl, hitems, hclose, rfl, htail⟩,
      rfl⟩
    exact Frame.next?_string_pass hpass.quote hpass.escape
      (by rw [head?_marks]; exact hpass.brace)

/-- Back to the unit before. -/
theorem closes_string_of_next? {tail : List (Piece α)}
    (hstep : (Frame.string style).next? stack ((us.take 2).map mark) (mark u) = some stack')
    (h : Closes rest stack' us tail) :
    Closes rest (.string style :: stack) (u :: us)
      (Piece.consUnit ((Frame.string style :: stack).any (·.isHole)) (stack'.any (·.isHole)) u
        tail) := by
  have hhead := head?_marks us
  rcases Frame.next?_string_cases hstep with ⟨hverbatim, hu, rfl⟩ | ⟨hverbatim, hu, hahead, rfl⟩ |
    ⟨hu, hsingle, rfl⟩ | ⟨hinter, hu, hahead, rfl⟩ | ⟨hinter, hu, hahead, rfl⟩ |
    ⟨hquote, hescape, hbrace, rfl⟩
  · obtain ⟨x, _, _, rfl, rfl, items, q, us', tail, rfl, hitems, hclose, rfl, htail⟩ := h
    exact ⟨.text [u, x] :: items, q, us', tail, rfl, .escape hverbatim hu hitems, hclose, rfl,
      htail⟩
  · obtain ⟨x, _, _, rfl, rfl, items, q, us', tail, rfl, hitems, hclose, rfl, htail⟩ := h
    have hx : mark x = .quote := Option.some.inj hahead
    exact ⟨.text [u, x] :: items, q, us', tail, rfl, .quotes hverbatim hu hx hitems, hclose, rfl,
      htail⟩
  · rw [hhead] at hsingle
    exact ⟨[], u, us, tail, rfl, .nil _ _, ⟨hu, hsingle⟩, rfl, h⟩
  · obtain ⟨x, _, _, rfl, rfl, items, q, us', tail, rfl, hitems, hclose, rfl, htail⟩ := h
    have hx : mark x = mark u := Option.some.inj hahead
    exact ⟨.text [u, x] :: items, q, us', tail, rfl, .braces hinter hu hx hitems, hclose, rfl,
      htail⟩
  · obtain ⟨code, c, _, _, rfl, hcode, hbalanced, hc, rfl, items, q, us', tail, rfl, hitems, hclose,
      rfl, htail⟩ := h
    have hfirst : ∀ x ∈ (Item.flatten code).head?, mark x ≠ .openBrace := by
      intro x hx hopen
      rw [hhead, List.head?_append, hx] at hahead
      exact hahead (congrArg some hopen)
    refine ⟨.hole u (Item.flatten code) c :: items, q, us', tail, ?_,
      .hole hinter hu hc hfirst hcode hbalanced hitems, hclose, ?_, htail⟩
    · simp [Item.units]
    · rw [Item.assemble_inside]
      rfl
  · obtain ⟨items, q, us', tail, rfl, hitems, hclose, rfl, htail⟩ := h
    rw [hhead] at hbrace
    exact ⟨.text [u] :: items, q, us', tail, rfl, .pass ⟨hquote, hescape, hbrace⟩ hitems, hclose,
      rfl, htail⟩

theorem any_isHole_opened {m : Mark} :
    ((if m = .quote then Frame.string style else .opener style) :: stack).any (·.isHole) =
      stack.any (·.isHole) := by
  split <;> rfl

/-- An opener goes on to its quote. -/
theorem closes_opener_cons_iff :
    Closes rest (.opener style :: stack) (u :: us) pieces ↔
      ∃ tail, Closes rest ((if mark u = .quote then .string style else .opener style) :: stack) us
          tail ∧
        pieces = Piece.consUnit (stack.any (·.isHole)) (stack.any (·.isHole)) u tail := by
  by_cases hu : mark u = .quote
  · rw [if_pos hu]
    constructor
    · rintro ⟨w, q, us', tail, hus, hw, hq, rfl, htail⟩
      cases w with
      | nil =>
        cases hus
        exact ⟨tail, htail, rfl⟩
      | cons x w =>
        cases hus
        exact absurd hu (hw u List.mem_cons_self)
    · rintro ⟨tail, htail, rfl⟩
      exact ⟨[], u, us, tail, rfl, nofun, hu, rfl, htail⟩
  · rw [if_neg hu]
    constructor
    · rintro ⟨w, q, us', tail, hus, hw, hq, rfl, htail⟩
      cases w with
      | nil =>
        cases hus
        exact absurd hq hu
      | cons x w =>
        cases hus
        exact ⟨_, ⟨w, q, us', tail, rfl, (List.forall_mem_cons.1 hw).2, hq, rfl, htail⟩, rfl⟩
    · rintro ⟨_, ⟨w, q, us', tail, rfl, hw, hq, rfl, htail⟩, rfl⟩
      exact ⟨u :: w, q, us', tail, rfl, List.forall_mem_cons.2 ⟨hu, hw⟩, hq, rfl, htail⟩

/-- From the first unit of a literal of the code of a hole. -/
theorem closes_literal_cons {depth : Nat} {opener us' : List α} {inner : List (Item α)} {q : α}
    {tail : List (Piece α)} (hus : u :: us = opener ++ Item.flatten inner ++ q :: us')
    (hliteral : IsString style opener inner q us')
    (htail : Closes rest (.hole depth :: stack) us' tail) :
    ∃ stack' tail', (Frame.hole depth).next? stack ((us.take 2).map mark) (mark u) = some stack' ∧
      Closes rest stack' us tail' ∧
      Piece.consUnits true opener (Item.assemble true inner (Piece.consUnit true true q tail)) =
        Piece.consUnit true (stack'.any (·.isHole)) u tail' := by
  have hstyle : style? (u :: us) = some style := hus ▸ hliteral.style?_eq
  obtain ⟨tail', hopened, heq⟩ := closes_opener_cons_iff.1
    ((closes_opener_iff hstyle).2 ⟨opener, inner, q, us', tail, hus, hliteral, htail, rfl⟩)
  refine ⟨_, tail', Frame.next?_hole_string hstyle, hopened, ?_⟩
  rw [any_isHole_opened]
  exact heq

/-- From the first unit of the code of a hole. -/
theorem closes_hole_cons {depth : Nat} (h : Closes rest (.hole depth :: stack) (u :: us) pieces) :
    ∃ stack' tail, (Frame.hole depth).next? stack ((us.take 2).map mark) (mark u) = some stack' ∧
      Closes rest stack' us tail ∧
      pieces = Piece.consUnit true (stack'.any (·.isHole)) u tail := by
  obtain ⟨items, c, us', tail, hus, hitems, hbalanced, hc, rfl, htail⟩ := h
  cases hitems with
  | nil =>
    cases hus
    obtain rfl := Item.balanced_nil_iff.1 hbalanced
    refine ⟨stack, tail, ?_, htail, rfl⟩
    rw [hc]
    rfl
  | @openBrace x items _ hx hitems =>
    cases hus
    have hbalanced := (Item.balanced_cons_iff (depth + 1) rfl).1 hbalanced
    refine ⟨.hole (depth + 1) :: stack, _, ?_, ⟨items, c, us', tail, rfl, hitems, hbalanced, hc,
      rfl, htail⟩, rfl⟩
    rw [hx]
    rfl
  | @closeBrace x items _ hx hitems =>
    cases hus
    obtain ⟨outer, rfl, houter⟩ := hbalanced.exists_succ
    refine ⟨.hole outer :: stack, _, ?_, ⟨items, c, us', tail, rfl, hitems, houter, hc,
      rfl, htail⟩, rfl⟩
    rw [hx]
    rfl
  | @char a a' body items _ ha hbody ha' hitems =>
    have hus : u :: us = a :: (body ++ a' :: (Item.flatten items ++ c :: us')) := by
      simpa [Item.units] using hus
    cases hus
    have hbalanced := (Item.balanced_cons_iff depth (Int.add_zero _).symm).1 hbalanced
    refine ⟨.char :: .hole depth :: stack, _, ?_, ⟨body, a', _, _, rfl, hbody, ha', rfl,
      items, c, us', tail, rfl, hitems, hbalanced, hc, rfl, htail⟩, rfl⟩
    rw [ha]
    rfl
  | @string style opener q inner items _ hopener hinner hclose hitems =>
    have hus : u :: us =
        opener ++ Item.flatten inner ++ q :: (Item.flatten items ++ c :: us') := by
      simp [hus, Item.units]
    have hbalanced := (Item.balanced_cons_iff depth (Int.add_zero _).symm).1 hbalanced
    rw [Item.assemble_literal]
    exact closes_literal_cons hus ⟨hopener, hinner, hclose⟩
      ⟨items, c, us', tail, rfl, hitems, hbalanced, hc, rfl, htail⟩
  | @other x items _ hx hopens hitems =>
    cases hus
    have hbalanced := (Item.balanced_cons_iff depth (Int.add_zero _).symm).1 hbalanced
    exact ⟨.hole depth :: stack, _, Frame.next?_hole_other hx (not_opens_iff.1 hopens),
      ⟨items, c, us', tail, rfl, hitems, hbalanced, hc, rfl, htail⟩, rfl⟩

/-- Back to the unit before. -/
theorem closes_hole_of_next? {depth : Nat} {tail : List (Piece α)}
    (hstep : (Frame.hole depth).next? stack ((us.take 2).map mark) (mark u) = some stack')
    (h : Closes rest stack' us tail) :
    Closes rest (.hole depth :: stack) (u :: us)
      (Piece.consUnit true (stack'.any (·.isHole)) u tail) := by
  rcases Frame.next?_hole_cases hstep with ⟨hu, rfl⟩ | ⟨hu, rfl, rfl⟩ | ⟨outer, hu, rfl, rfl⟩ |
    ⟨hu, rfl⟩ | ⟨style, hstyle, rfl⟩ | ⟨hu, hstyle, rfl⟩
  · obtain ⟨items, c, us', tail, rfl, hitems, hbalanced, hc, rfl, htail⟩ := h
    exact ⟨.openBrace u :: items, c, us', tail, rfl, .openBrace hu hitems,
      (Item.balanced_cons_iff (depth + 1) rfl).2 hbalanced, hc, rfl, htail⟩
  · exact ⟨[], u, us, tail, rfl, .nil _ _, Item.balanced_nil_iff.2 rfl, hu, rfl, h⟩
  · obtain ⟨items, c, us', tail, rfl, hitems, hbalanced, hc, rfl, htail⟩ := h
    exact ⟨.closeBrace u :: items, c, us', tail, rfl, .closeBrace hu hitems,
      (Item.balanced_cons_iff outer (by simp only [Item.rise]; omega)).2 hbalanced, hc, rfl, htail⟩
  · obtain ⟨body, a, _, _, rfl, hbody, ha, rfl, items, c, us', tail, rfl, hitems, hbalanced, hc,
      rfl, htail⟩ := h
    refine ⟨.text (u :: body ++ [a]) :: items, c, us', tail, ?_, .char hu hbody ha hitems,
      (Item.balanced_cons_iff depth (Int.add_zero _).symm).2 hbalanced, hc, rfl, htail⟩
    simp [Item.units]
  · have hstyle : style? (u :: us) = some style := hstyle
    obtain ⟨opener, inner, q, _, _, hus, hliteral,
      ⟨items, c, us', tail, rfl, hitems, hbalanced, hc, rfl, htail⟩, heq⟩ :=
      (closes_opener_iff hstyle).1 (closes_opener_cons_iff.2 ⟨_, h, rfl⟩)
    refine ⟨.text (opener ++ Item.flatten inner ++ [q]) :: items, c, us', tail, ?_,
      .string hliteral.opener hliteral.items hliteral.closes hitems,
      (Item.balanced_cons_iff depth (Int.add_zero _).symm).2 hbalanced, hc, ?_, htail⟩
    · simpa [Item.units] using hus
    · rw [any_isHole_opened]
      exact heq.trans (Item.assemble_literal opener inner q).symm
  · obtain ⟨items, c, us', tail, rfl, hitems, hbalanced, hc, rfl, htail⟩ := h
    exact ⟨.text [u] :: items, c, us', tail, rfl, .other hu (not_opens_iff.2 hstyle) hitems,
      (Item.balanced_cons_iff depth (Int.add_zero _).symm).2 hbalanced, hc, rfl, htail⟩

/-- From the first unit of what follows the first apostrophe. -/
theorem closes_char_cons (h : Closes rest (.char :: stack) (u :: us) pieces) :
    ∃ stack' tail, Frame.char.next? stack ((us.take 2).map mark) (mark u) = some stack' ∧
      Closes rest stack' us tail ∧
      pieces = Piece.consUnit (stack.any (·.isHole)) (stack'.any (·.isHole)) u tail := by
  obtain ⟨body, a, us', tail, hus, hbody, ha, rfl, htail⟩ := h
  cases hbody with
  | nil =>
    cases hus
    refine ⟨stack, tail, ?_, htail, rfl⟩
    rw [ha]
    rfl
  | @escape b x body hb hbody =>
    cases hus
    refine ⟨.skip :: .char :: stack, _, ?_, ⟨x, _, _, rfl, rfl, body, a, us', tail, rfl, hbody, ha,
      rfl, htail⟩, rfl⟩
    rw [hb]
    rfl
  | @other x body hx hbody =>
    cases hus
    exact ⟨.char :: stack, _, Frame.next?_char_other hx,
      ⟨body, a, us', tail, rfl, hbody, ha, rfl, htail⟩, rfl⟩

/-- Back to the unit before. -/
theorem closes_char_of_next? {tail : List (Piece α)}
    (hstep : Frame.char.next? stack ((us.take 2).map mark) (mark u) = some stack')
    (h : Closes rest stack' us tail) :
    Closes rest (.char :: stack) (u :: us)
      (Piece.consUnit (stack.any (·.isHole)) (stack'.any (·.isHole)) u tail) := by
  rcases Frame.next?_char_cases hstep with ⟨hu, rfl⟩ | ⟨hu, rfl⟩ | ⟨hu, rfl⟩
  · obtain ⟨x, _, _, rfl, rfl, body, a, us', tail, rfl, hbody, ha, rfl, htail⟩ := h
    exact ⟨u :: x :: body, a, us', tail, rfl, .escape hu hbody, ha, rfl, htail⟩
  · exact ⟨[], u, us, tail, rfl, .nil, hu, rfl, h⟩
  · obtain ⟨body, a, us', tail, rfl, hbody, ha, rfl, htail⟩ := h
    exact ⟨u :: body, a, us', tail, rfl, .other hu hbody, ha, rfl, htail⟩

/-- What is asked of a text goes on as the reader does. -/
theorem closes_cons_iff :
    Closes rest (frame :: stack) (u :: us) pieces ↔
      ∃ stack' tail, frame.next? stack ((us.take 2).map mark) (mark u) = some stack' ∧
        Closes rest stack' us tail ∧
        pieces =
          Piece.consUnit ((frame :: stack).any (·.isHole)) (stack'.any (·.isHole)) u tail := by
  cases frame with
  | skip =>
    constructor
    · rintro ⟨x, us', tail, hus, rfl, htail⟩
      cases hus
      exact ⟨stack, tail, rfl, htail, rfl⟩
    · rintro ⟨stack', tail, hstep, htail, rfl⟩
      cases hstep
      exact ⟨u, us, tail, rfl, rfl, htail⟩
  | opener style =>
    rw [closes_opener_cons_iff]
    constructor
    · rintro ⟨tail, htail, rfl⟩
      refine ⟨_, tail, rfl, htail, ?_⟩
      rw [any_isHole_opened]
      rfl
    · rintro ⟨stack', tail, hstep, htail, rfl⟩
      cases hstep
      refine ⟨tail, htail, ?_⟩
      rw [any_isHole_opened]
      rfl
  | string style =>
    refine ⟨closes_string_cons, ?_⟩
    rintro ⟨stack', tail, hstep, htail, rfl⟩
    exact closes_string_of_next? hstep htail
  | char =>
    refine ⟨closes_char_cons, ?_⟩
    rintro ⟨stack', tail, hstep, htail, rfl⟩
    exact closes_char_of_next? hstep htail
  | hole depth =>
    refine ⟨closes_hole_cons, ?_⟩
    rintro ⟨stack', tail, hstep, htail, rfl⟩
    exact closes_hole_of_next? hstep htail

/-- Something that is open asks for a unit. -/
theorem not_closes_nil : ¬ Closes rest (frame :: stack) ([] : List α) pieces := by
  intro h
  cases frame with
  | skip =>
    obtain ⟨_, _, _, hus, _⟩ := h
    cases hus
  | opener style =>
    obtain ⟨w, _, _, _, hus, _⟩ := h
    exact absurd hus.symm (List.append_ne_nil_of_right_ne_nil w (List.cons_ne_nil _ _))
  | string style =>
    obtain ⟨items, _, _, _, hus, _⟩ := h
    exact absurd hus.symm (List.append_ne_nil_of_right_ne_nil _ (List.cons_ne_nil _ _))
  | char =>
    obtain ⟨body, _, _, _, hus, _⟩ := h
    exact absurd hus.symm (List.append_ne_nil_of_right_ne_nil body (List.cons_ne_nil _ _))
  | hole depth =>
    obtain ⟨items, _, _, _, hus, _⟩ := h
    exact absurd hus.symm (List.append_ne_nil_of_right_ne_nil _ (List.cons_ne_nil _ _))

/-! ## The whole reader -/

/-- The reader finds just what the grammar asks for. -/
theorem readOpen?_eq_some_iff :
    readOpen? stack us = some (pieces, rest) ↔ Closes rest stack us pieces := by
  induction us generalizing stack pieces with
  | nil =>
    cases stack with
    | nil => exact ⟨by rintro ⟨⟩; exact ⟨rfl, rfl⟩, by rintro ⟨rfl, rfl⟩; rfl⟩
    | cons frame stack => exact ⟨nofun, fun h => absurd h not_closes_nil⟩
  | cons u us ih =>
    cases stack with
    | nil => exact ⟨by rintro ⟨⟩; exact ⟨rfl, rfl⟩, by rintro ⟨rfl, rfl⟩; rfl⟩
    | cons frame stack =>
      rw [readOpen?_cons_eq_some, closes_cons_iff]
      simp only [ih]

theorem string?_eq_some_iff :
    string? us = some (pieces, rest) ↔
      ∃ style opener items q, us = opener ++ Item.flatten items ++ q :: rest ∧
        IsString style opener items q rest ∧
        pieces = Piece.consUnits false opener
          (Item.assemble false items (Piece.consUnit false false q [])) := by
  have hopened : string? us = some (pieces, rest) ↔
      ∃ style, style? us = some style ∧ Closes rest [.opener style] us pieces := by
    simp only [string?_eq_some, readOpen?_eq_some_iff]
  rw [hopened]
  constructor
  · rintro ⟨style, hstyle, h⟩
    obtain ⟨opener, items, q, _, _, rfl, hliteral, ⟨rfl, rfl⟩, rfl⟩ :=
      (closes_opener_iff hstyle).1 h
    exact ⟨style, opener, items, q, rfl, hliteral, rfl⟩
  · rintro ⟨style, opener, items, q, rfl, hliteral, rfl⟩
    refine ⟨style, hliteral.style?_eq, (closes_opener_iff hliteral.style?_eq).2 ?_⟩
    exact ⟨opener, items, q, rest, [], rfl, hliteral, ⟨rfl, rfl⟩, rfl⟩

end Literal

/-! ## Braces -/

/-- Each hole of the pieces stands between two braces. -/
theorem Derives.braces_of_assemble [Marked α] {style : Style} {items : List (Item α)}
    {rest s code : List α} {q : α} {ps qs : List (Piece α)} (h : Derives (.string style) items rest)
    (heq : Piece.consUnits false s (Item.assemble false items [.text [q]]) =
      ps ++ .hole code :: qs) :
    (∃ o ∈ (Piece.flatten ps).getLast?, mark o = .openBrace) ∧
      ∃ c ∈ (Piece.flatten qs).head?, mark c = .closeBrace := by
  induction items generalizing s ps with
  | nil =>
    change Piece.consUnits false s [.text [q]] = _ at heq
    rw [Piece.consUnits_text] at heq
    rcases List.append_eq_cons_iff.1 heq.symm with ⟨_, htail⟩ | ⟨ps', _, htail⟩
    · cases htail
    · cases ps' <;> cases htail
  | cons item items ih =>
    cases item with
    | text us =>
      rw [Item.assemble_text, ← Piece.consUnits_append] at heq
      exact ih h.tail heq
    | hole o us c =>
      obtain ⟨ho, hc, _⟩ := h.exists_code
      rw [Item.assemble_hole, Piece.consUnits_text] at heq
      cases ps with
      | nil => cases heq
      | cons p ps =>
        obtain ⟨rfl, htail⟩ := List.cons.inj heq
        cases ps with
        | nil =>
          obtain ⟨_, rfl⟩ := List.cons.inj htail
          refine ⟨⟨o, ?_, ho⟩, c, ?_, hc⟩
          · rw [Piece.flatten_cons, Piece.flatten_nil, List.append_nil, Piece.units,
              List.getLast?_concat]
            rfl
          · rw [Piece.flatten_consText]
            rfl
        | cons p ps =>
          obtain ⟨rfl, hmore⟩ := List.cons.inj htail
          obtain ⟨⟨o', ho', hopen⟩, hclose⟩ := ih (s := [c]) h.tail hmore
          refine ⟨⟨o', ?_, hopen⟩, hclose⟩
          rw [Option.mem_def] at ho'
          simp [ho', List.getLast?_append]
    | openBrace u | closeBrace u => cases h

theorem Literal.braces_of_string? [Marked α] {us rest code : List α} {ps qs : List (Piece α)}
    (h : string? us = some (ps ++ .hole code :: qs, rest)) :
    (∃ o ∈ (Piece.flatten ps).getLast?, mark o = .openBrace) ∧
      ∃ c ∈ (Piece.flatten qs).head?, mark c = .closeBrace := by
  obtain ⟨style, opener, items, q, _, hliteral, heq⟩ := string?_eq_some_iff.1 h
  exact hliteral.items.braces_of_assemble heq.symm

end MapPlan.Expr
