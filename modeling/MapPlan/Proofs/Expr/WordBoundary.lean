import MapPlan.Proofs.Expr.LiteralReader
import MapPlan.Proofs.Expr.Member

/-!
# Word boundaries in the boundary scan

The boundary scan takes names whole: no letter, digit or underscore stands right before or right
behind a word that it finds, at any depth of holes. The tokenizer's names may go on with other
characters too, such as combining marks, so a word of the scan may be the start or the end of a
longer name.
-/

namespace MapPlan.Expr

/-- The last character of the first text and the first one of the second are not in the class. -/
structure Apart (p : Char → Bool) (before after : List Char) : Prop where
  last : ∀ c ∈ before.getLast?, p c = false
  first : ∀ c ∈ after.head?, p c = false

theorem Apart.append {p : Char → Bool} {u u' v v' : List Char} (h : Apart p u v)
    (h' : Apart p u' v') : Apart p (u ++ u') (v' ++ v) where
  last c hc := by
    rw [List.getLast?_append, Option.mem_def, Option.or_eq_some_iff] at hc
    exact hc.elim (h'.last c) fun hc => h.last c hc.2
  first c hc := by
    rw [List.head?_append, Option.mem_def, Option.or_eq_some_iff] at hc
    exact hc.elim (h'.first c) fun hc => h.first c hc.2

/-- Two ways to cut a text at the same byte are one. -/
theorem append_inj_of_byteSize {u v u' v' : List Char} (h : u ++ v = u' ++ v')
    (hsize : Text.byteSize u = Text.byteSize u') : u = u' ∧ v = v' :=
  append_inj_of_size Text.byteSize Text.byteSize_append h (fun c _ => c.utf8Size_pos) hsize

/-- Right before the bytes of the range and right behind them there is no character of the
class. -/
def StandsApart (p : Char → Bool) (s : List Char) (range : Nat × Nat) : Prop :=
  ∃ before within after, s = before ++ within ++ after ∧ Text.byteSize before = range.1 ∧
    range.2 = range.1 + Text.byteSize within ∧ Apart p before after

namespace StandsApart

variable {p q : Char → Bool} {s : List Char} {range : Nat × Nat}

theorem apart {before within after : List Char} (h : StandsApart p s range)
    (hs : s = before ++ within ++ after) (hlo : Text.byteSize before = range.1)
    (hhi : range.2 = range.1 + Text.byteSize within) : Apart p before after := by
  obtain ⟨before', within', after', hs', hlo', hhi', happart⟩ := h
  rw [hs, List.append_assoc, List.append_assoc] at hs'
  obtain ⟨rfl, hrest⟩ := append_inj_of_byteSize hs' (hlo.trans hlo'.symm)
  obtain ⟨rfl, rfl⟩ := append_inj_of_byteSize hrest (by omega)
  exact happart

/-- What stands apart from one class touches another only through what is not in the first. -/
theorem iff_of_apart (h : StandsApart p s range) :
    StandsApart q s range ↔ StandsApart (fun c => q c && !p c) s range := by
  obtain ⟨before, within, after, hs, hlo, hhi, hlast, hfirst⟩ := h
  have only : ∀ c, p c = false → (q c && !p c) = false → q c = false := by
    intro c hp hq
    rwa [hp, Bool.not_false, Bool.and_true] at hq
  constructor
  · intro hq
    obtain ⟨hlast', hfirst'⟩ := hq.apart hs hlo hhi
    refine ⟨before, within, after, hs, hlo, hhi, fun c hc => ?_, fun c hc => ?_⟩
    · rw [hlast' c hc, Bool.false_and]
    · rw [hfirst' c hc, Bool.false_and]
  · intro hq
    obtain ⟨hlast', hfirst'⟩ := hq.apart hs hlo hhi
    exact ⟨before, within, after, hs, hlo, hhi, fun c hc => only c (hlast c hc) (hlast' c hc),
      fun c hc => only c (hfirst c hc) (hfirst' c hc)⟩

end StandsApart

namespace Boundary

variable {before s rest name code : List Char} {parts ps qs : List Part}

/-- Holes are those of string literals. -/
theorem exists_string_of_hole_mem (h : next? before s = some (parts, rest))
    (hhole : .hole code ∈ parts) :
    ∃ pieces, Literal.string? s = some (pieces, rest) ∧ parts = pieces.map Part.ofPiece := by
  have single : ∀ p, (∀ code, p ≠ Part.hole code) → .hole code ∉ [p] :=
    fun p hp hmem => hp code (List.mem_singleton.1 hmem).symm
  unfold next? at h
  split at h
  · cases h
  · cases h
    exact absurd hhole (single _ nofun)
  · obtain ⟨_, _, heq⟩ := Option.map_eq_some_iff.1 h
    cases heq
    exact absurd hhole (single _ nofun)
  · split at h
    · obtain ⟨⟨pieces, _⟩, hstring, heq⟩ := Option.map_eq_some_iff.1 h
      cases heq
      exact ⟨pieces, hstring, rfl⟩
    · split at h
      · obtain ⟨_, _, heq⟩ := Option.map_eq_some_iff.1 h
        cases heq
        exact absurd hhole (single _ nofun)
      · split at h
        · cases h
          exact absurd hhole (single _ nofun)
        · split at h <;> cases h <;> exact absurd hhole (single _ nofun)

/-- A word stands apart from name characters, and so does a hole, whose braces are none. -/
theorem apart_of_next? {p : Part} (h : next? before s = some (ps ++ p :: qs, rest))
    (hp : ∀ t, p ≠ .plain t) :
    Apart isNameChar (before.reverse ++ ps.flatMap Part.text) (qs.flatMap Part.text ++ rest) := by
  cases p with
  | plain t => exact absurd rfl (hp t)
  | word w =>
    obtain ⟨_, _, _, hword⟩ | ⟨name, heq, hname, hlast⟩ := next?_cases h
    · exact absurd List.mem_append_cons_self (hword w)
    · obtain ⟨rfl, htail⟩ | ⟨_, hnil⟩ := List.append_eq_singleton_iff.1 heq
      · obtain ⟨_, rfl⟩ := List.cons.inj htail
        refine ⟨fun c hc => ?_, head?_of_name? hname⟩
        rw [List.flatMap_nil, List.append_nil, List.getLast?_reverse] at hc
        rw [Option.mem_def.1 hc] at hlast
        exact hlast
      · cases hnil
  | hole code =>
    obtain ⟨pieces, hstring, heq⟩ := exists_string_of_hole_mem h List.mem_append_cons_self
    obtain ⟨ps', qs', rfl, rfl, hcons⟩ := List.map_eq_append_iff.1 heq.symm
    obtain ⟨p, qs', rfl, hp, rfl⟩ := List.map_eq_cons_iff.1 hcons
    have htext : ∀ pieces : List (Piece Char),
        (pieces.map Part.ofPiece).flatMap Part.text = Piece.flatten pieces := by
      intro pieces
      rw [List.flatMap_map]
      exact congrArg (pieces.flatMap ·) (funext fun p => by cases p <;> rfl)
    cases p with
    | text u => cases hp
    | hole u =>
      obtain ⟨⟨o, ho, hopen⟩, c, hc, hclose⟩ := Literal.braces_of_string? hstring
      rw [(mark_eq_iff rfl).1 hopen, Option.mem_def] at ho
      rw [(mark_eq_iff rfl).1 hclose, Option.mem_def] at hc
      rw [htext, htext]
      refine ⟨fun d hd => ?_, fun d hd => ?_⟩
      · rw [List.getLast?_append, ho] at hd
        cases hd
        decide
      · rw [List.head?_append, hc] at hd
        cases hd
        decide

/-- The same for all that the scan finds in a segment. -/
theorem apart_of_partsAfter? {p : Part} (h : partsAfter? before s = some (ps ++ p :: qs))
    (hp : ∀ t, p ≠ .plain t) :
    Apart isNameChar (before.reverse ++ ps.flatMap Part.text) (qs.flatMap Part.text) := by
  refine partsAfter?_induction (P := fun before s all => all.flatMap Part.text = s ∧
    ∀ ps p qs, all = ps ++ p :: qs → (∀ t, p ≠ .plain t) →
      Apart isNameChar (before.reverse ++ ps.flatMap Part.text) (qs.flatMap Part.text))
    ?_ ?_ h |>.2 ps p qs rfl hp
  · intro before
    refine ⟨rfl, fun ps p qs hall => ?_⟩
    exact absurd hall.symm (List.append_ne_nil_of_right_ne_nil _ (List.cons_ne_nil _ _))
  · rintro before s first rest more hfirst ⟨hmore, ih⟩
    refine ⟨by rw [List.flatMap_append, hmore, text_append_of_next? hfirst], ?_⟩
    intro ps p qs hall hp
    have later : ∀ ps', ps = first ++ ps' → more = ps' ++ p :: qs →
        Apart isNameChar (before.reverse ++ ps.flatMap Part.text) (qs.flatMap Part.text) := by
      rintro ps' rfl hmore'
      have := ih ps' p qs hmore' hp
      rwa [List.reverse_append, List.reverse_reverse, List.append_assoc,
        ← List.flatMap_append] at this
    rcases List.append_eq_append_iff.1 hall with ⟨ps', rfl, htail⟩ | ⟨first', rfl, htail⟩
    · exact later ps' rfl htail
    · cases first' with
      | nil => exact later [] (by simp only [List.append_nil]) htail.symm
      | cons p' first' =>
        obtain ⟨rfl, hqs⟩ := List.cons.inj htail
        have hafter : qs = first' ++ more := hqs
        rw [hafter, List.flatMap_append, hmore]
        exact apart_of_next? hfirst hp

end Boundary

/-! ## All words -/

namespace Markup

variable {s : List Char} {m₁ m₂ : Markup} {w : Word}

/-- No word of the boundary scan stands right beside a name character. -/
theorem apart_of_boundary? (h : boundary? s = some (m₁ ++ .word w :: m₂)) :
    Apart Boundary.isNameChar m₁.text m₂.text := by
  refine read?_induction (P := fun _ m => ∀ m₁ m₂ : Markup, m = m₁ ++ .word w :: m₂ →
    Apart Boundary.isNameChar m₁.text m₂.text) ?_ h m₁ m₂ rfl
  rintro s parts _ hparts hfilled m₁ m₂ rfl
  have htext := hfilled.text_eq fun _ _ hcode => text_of_boundary? hcode.2.1
  rw [text_append, text_cons] at htext
  cases hfilled.reaches with
  | @word parts₁ parts₂ _ hm₁ =>
    have hword : ∀ t, Part.word w ≠ .plain t := fun t => Part.noConfusion
    have hbefore := hm₁.text_eq fun _ _ hcode => text_of_boundary? hcode.2.1
    rw [List.flatMap_append, List.flatMap_cons, ← hbefore] at htext
    have hafter := List.append_cancel_left (List.append_cancel_left htext)
    rw [hbefore, hafter]
    exact Boundary.apart_of_partsAfter? hparts hword
  | @hole parts₁ parts₂ code m inner₁ inner₂ hm hcode =>
    have hhole : ∀ t, Part.hole code ≠ .plain t := fun t => Part.noConfusion
    have hbefore := hm.text_eq fun _ _ hcode => text_of_boundary? hcode.2.1
    have hinner := text_of_boundary? hcode.2.1
    rw [text_append, text_cons] at hinner
    have hafter : m₂.text = inner₂.text ++ parts₂.flatMap Part.text := by
      rw [List.flatMap_append, List.flatMap_cons, ← hbefore, text_append, Part.text, ← hinner]
        at htext
      simpa using htext
    rw [text_append, hbefore, hafter]
    exact (Boundary.apart_of_partsAfter? hparts hhole).append (hcode.2.2 inner₁ inner₂ rfl)

theorem standsApart_of_mem_ranges {m : Markup} {name : List Char} {range : Nat × Nat}
    (h : boundary? s = some m) (hrange : range ∈ m.ranges name) :
    StandsApart Boundary.isNameChar s range := by
  obtain ⟨before, w, after, rfl, _, _, hlo, hhi⟩ := exists_word_of_mem_rangesFrom hrange
  refine ⟨text before, w.text, text after, ?_, ?_, hhi, apart_of_boundary? h⟩
  · rw [← text_of_boundary? h, text_append, text_cons, List.append_assoc]
    rfl
  · rw [hlo, Nat.zero_add]

end Markup

/-- May the character go on with an identifier, as the tokenizer has it? -/
def continuesIdentifier (c : Char) : Bool :=
  Text.isIdentifierContinue c || c == '_'

namespace Renamer

/-- In a text that cannot be tokenized, renaming replaces no word right beside a letter, a digit or
an underscore. So it replaces a part of a longer identifier just where the character beside it goes
on with an identifier and is none of these. -/
theorem rename_fallback_apart (r : Renamer) (text parameter : String)
    (hmode : (r.rename text parameter).mode = .fallback) :
    let out := r.rename text parameter
    ∃ m, scan? text.toList = some (m, .fallback) ∧
      let ranges := m.ranges (bare parameter.toList)
      out.text.toList = Text.replace text.toList r.target.toList ranges ∧
      out.renamed = ranges.length ∧
      ∀ range ∈ ranges, StandsApart Boundary.isNameChar text.toList range ∧
        (StandsApart continuesIdentifier text.toList range ↔
          StandsApart (fun c => continuesIdentifier c && !Boundary.isNameChar c) text.toList
            range) := by
  intro out
  cases hscan : scan? text.toList with
  | none =>
    rw [rename, hscan] at hmode
    cases hmode
  | some found =>
    obtain ⟨m, mode⟩ := found
    have hout : out = r.apply m mode (some parameter.toList) := by
      simp only [out, rename, hscan]
    obtain rfl : mode = .fallback := by
      rw [rename, hscan] at hmode
      exact hmode
    have hboundary : Markup.boundary? text.toList = some m := by
      rw [scan?] at hscan
      split at hscan
      · cases hscan
      · obtain ⟨m', hm', heq⟩ := Option.map_eq_some_iff.1 hscan
        cases heq
        exact hm'
    refine ⟨m, rfl, ?_, ?_, fun range hrange => ?_⟩
    · rw [hout, ← Markup.text_of_boundary? hboundary, Markup.replace_ranges]
      exact String.toList_ofList
    · rw [hout]
      exact (m.length_rangesFrom _ 0).symm
    · have happart := Markup.standsApart_of_mem_ranges hboundary hrange
      exact ⟨happart, happart.iff_of_apart⟩

theorem rename_fallback_apart_sample :
    ({} : Renamer).rename "''+s" "s" = ⟨"''+source", some "s", 1, .fallback⟩ ∧
      StandsApart Boundary.isNameChar "''+s".toList (3, 4) := by
  have hout : ({} : Renamer).rename "''+s" "s" = ⟨"''+source", some "s", 1, .fallback⟩ := by
    decide +kernel
  have hscan : scan? "''+s".toList = some ([.plain ['\x27', '\x27'], .plain ['+'],
      .word ⟨['s'], false, false⟩], .fallback) := by decide +kernel
  obtain ⟨m, hm, -, -, hranges⟩ :=
    rename_fallback_apart {} "''+s" "s" (congrArg Renaming.mode hout)
  rw [hscan] at hm
  cases hm
  exact ⟨hout, (hranges (3, 4) (by decide)).1⟩

/-- A combining mark goes on with an identifier and is no letter, so the word before it is replaced,
and so is the word behind it. -/
theorem rename_beside_mark :
    ({} : Renamer).rename "''+s\u0301" "s" = ⟨"''+source\u0301", some "s", 1, .fallback⟩ ∧
    ({} : Renamer).rename "''+a\u0301s" "s" = ⟨"''+a\u0301source", some "s", 1, .fallback⟩ ∧
    ¬ ∀ (text parameter : String) (m : Markup), scan? text.toList = some (m, .fallback) →
      ∀ range ∈ m.ranges (bare parameter.toList),
        StandsApart continuesIdentifier text.toList range := by
  refine ⟨by decide +kernel, by decide +kernel, fun h => ?_⟩
  have hscan : scan? "''+s\u0301".toList = some ([.plain ['\x27', '\x27'], .plain ['+'],
      .word ⟨['s'], false, false⟩, .plain ['\u0301']], .fallback) := by decide +kernel
  have happart := h _ "s" _ hscan (3, 4) (by decide)
  have hs : "''+s\u0301".toList = ['\x27', '\x27', '+'] ++ ['s'] ++ ['\u0301'] := by decide
  have hmark := (happart.apart hs rfl rfl).first '\u0301' rfl
  exact absurd hmark (by decide)

end Renamer
end MapPlan.Expr
