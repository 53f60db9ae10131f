import Mathlib.Algebra.Group.Nat.Defs
import Mathlib.Data.List.Chain
import MapPlan.Proofs.Expr.LiteralSafety

/-!
# Members in the boundary scan

The tokenizer takes a word for a member by the last token with meaning before it, whatever comments
stand between. The boundary scan looks at the text instead: a word is a member if the last character
before it that is not blank is a dot, of code or of a comment. The two differ only where a comment
comes right before the word.
-/

namespace MapPlan.Expr

variable {s name : List Char} {before before' cells : List Cell} {parts : List Part} {m m' : Markup}

/-! ## What stands before a character -/

namespace Cell

/-- Does the cell mean nothing to a reader of code, as a comment or a blank between two tokens? -/
def isTrivia : Cell → Bool
  | .char .comment _ => true
  | .char .code c => Text.isBlank c
  | _ => false

/-- Is the last cell with meaning a dot? -/
def endWithDot (cells : List Cell) : Bool :=
  cells.reverse.find? (!·.isTrivia) = some (.char .code '.')

/-- A blank of code or of a comment. -/
def isBlank : Cell → Bool
  | .char .code c | .char .comment c => Text.isBlank c
  | _ => false

/-- The last cell that is not blank. -/
def lastVisible? (cells : List Cell) : Option Cell :=
  cells.reverse.find? (!·.isBlank)

/-- Is the last cell that is not blank a dot, of code or of a comment? -/
def endWithVisibleDot (cells : List Cell) : Bool :=
  lastVisible? cells = some (.char .code '.') || lastVisible? cells = some (.char .comment '.')

/-- The cells that stand in its segment before the character at byte `start`, at any depth of
holes. -/
inductive Before : List Char → Nat → List Cell → Prop where
  | char {s : List Char} {before after : List Cell} {role : Role} {c : Char} :
      segment? s = some (before ++ .char role c :: after) →
      Before s (Text.byteSize (before.flatMap text)) before
  | hole {s code : List Char} {before after inner : List Cell} {start : Nat} :
      segment? s = some (before ++ .hole code :: after) → Before code start inner →
      Before s (Text.byteSize (before.flatMap text) + start) inner

theorem byteSize_char_pos (role : Role) (c : Char) : 0 < Text.byteSize (text (.char role c)) :=
  Text.byteSize_pos (List.cons_ne_nil c [])

/-- A byte lies in one cell of a list. -/
theorem eq_of_byteSize_eq {u v u' v' : List Cell} {x x' : Cell} {i i' : Nat}
    (h : u ++ x :: v = u' ++ x' :: v') (hi : i < Text.byteSize x.text)
    (hi' : i' < Text.byteSize x'.text)
    (hsize : Text.byteSize (u.flatMap text) + i = Text.byteSize (u'.flatMap text) + i') :
    u = u' ∧ x = x' ∧ i = i' := by
  induction u generalizing u' with
  | nil =>
    cases u' with
    | nil =>
      cases h
      exact ⟨rfl, rfl, by simpa using hsize⟩
    | cons y u' =>
      cases h
      simp only [List.flatMap_nil, List.flatMap_cons, Text.byteSize_nil, Text.byteSize_append]
        at hsize
      omega
  | cons y u ih =>
    cases u' with
    | nil =>
      cases h
      simp only [List.flatMap_nil, List.flatMap_cons, Text.byteSize_nil, Text.byteSize_append]
        at hsize
      omega
    | cons y' u' =>
      obtain ⟨rfl, htail⟩ := List.cons.inj h
      simp only [List.flatMap_cons, Text.byteSize_append, Nat.add_assoc, Nat.add_left_cancel_iff]
        at hsize
      obtain ⟨rfl, rfl, rfl⟩ := ih htail hsize
      exact ⟨rfl, rfl, rfl⟩

namespace Before

variable {start : Nat}

theorem lt_byteSize (h : Before s start before) : start < Text.byteSize s := by
  induction h with
  | @char s before after role c hs =>
    have := byteSize_char_pos role c
    rw [← flatMap_text_of_segment? hs, List.flatMap_append, List.flatMap_cons,
      Text.byteSize_append, Text.byteSize_append]
    omega
  | @hole s code before after inner start hs _ ih =>
    rw [← flatMap_text_of_segment? hs, List.flatMap_append, List.flatMap_cons,
      Text.byteSize_append, Text.byteSize_append, text]
    omega

/-- Only one list of cells stands before a character. -/
theorem unique (h : Before s start before) (h' : Before s start before') : before = before' := by
  induction h with
  | @char s before after role c hs =>
    generalize hstart : Text.byteSize (before.flatMap text) = start at h'
    cases h' with
    | @char _ before' after' role' c' hs' =>
      exact (eq_of_byteSize_eq (Option.some.inj (hs.symm.trans hs')) (byteSize_char_pos role c)
        (byteSize_char_pos role' c') (congrArg (· + 0) hstart)).1
    | @hole _ code before' after' inner start' hs' hinner =>
      have heq := eq_of_byteSize_eq (Option.some.inj (hs.symm.trans hs'))
        (byteSize_char_pos role c) hinner.lt_byteSize hstart
      exact absurd heq.2.1 nofun
  | @hole s code before after inner start hs hinner ih =>
    generalize hstart : Text.byteSize (before.flatMap text) + start = start' at h'
    cases h' with
    | @char _ before' after' role' c' hs' =>
      have heq := eq_of_byteSize_eq (Option.some.inj (hs.symm.trans hs')) hinner.lt_byteSize
        (byteSize_char_pos role' c') hstart
      exact absurd heq.2.1 nofun
    | @hole _ code' before' after' inner' start' hs' hinner' =>
      obtain ⟨_, hcode, rfl⟩ := eq_of_byteSize_eq (Option.some.inj (hs.symm.trans hs'))
        hinner.lt_byteSize hinner'.lt_byteSize hstart
      cases hcode
      exact ih hinner'

end Before

/-! ## The end of a literal -/

/-- Is the cell outside all literals? -/
def isOutside : Cell → Bool
  | .char .code _ | .char .comment _ => true
  | _ => false

/-- May what follows the cell be outside all literals? It is outside itself, or closes one. -/
def isClosing : Cell → Bool
  | .char .code _ | .char .comment _ => true
  | .char .charLiteral c => c = '\x27'
  | .char .stringText c => c = '\x22'
  | .hole _ => false

def Joins (x y : Cell) : Prop :=
  y.isOutside → x.isClosing

theorem isChain_of_isClosing (h : ∀ x ∈ cells, x.isClosing) : cells.IsChain Joins :=
  List.Pairwise.isChain (List.pairwise_of_forall_mem_list fun x hx _ _ (_ : isOutside _) => h x hx)

theorem isChain_of_isOutside_eq_false (h : ∀ y ∈ cells, y.isOutside = false) :
    cells.IsChain Joins :=
  List.Pairwise.isChain (List.pairwise_of_forall_mem_list fun _ _ y hy hout =>
    absurd (h y hy) (Bool.eq_false_iff.not_left.2 hout))

theorem isOutside_ofPiece {p : Piece Char} {x : Cell} (hx : x ∈ ofPiece p) :
    x.isOutside = false := by
  cases p with
  | text s =>
    obtain ⟨c, _, rfl⟩ := List.mem_map.1 hx
    rfl
  | hole code =>
    obtain rfl := List.mem_singleton.1 hx
    rfl

/-- A comment or a literal ends where code may follow. -/
theorem isChain_of_next? {rest : List Char} (h : next? s = some (cells, rest)) :
    cells.IsChain Joins ∧ ∀ x ∈ cells.getLast?, x.isClosing := by
  obtain ⟨role, t, _, _, hcells, hrole, hlast⟩ | ⟨pieces, hread, rfl⟩ := next?_cases h
  · have hmem : ∀ x ∈ cells, ∃ c, x = .char role c := by
      intro x hx
      rw [hcells] at hx
      obtain ⟨c, _, rfl⟩ := List.mem_map.1 hx
      exact ⟨c, rfl⟩
    cases role with
    | stringText => exact absurd rfl hrole
    | charLiteral =>
      refine ⟨isChain_of_isOutside_eq_false fun x hx => ?_, fun x hx => ?_⟩
      · obtain ⟨c, rfl⟩ := hmem x hx
        rfl
      · rw [hcells, List.getLast?_map, hlast rfl] at hx
        cases hx
        rfl
    | code | comment =>
      have hclosing : ∀ x ∈ cells, x.isClosing := by
        intro x hx
        obtain ⟨c, rfl⟩ := hmem x hx
        rfl
      exact ⟨isChain_of_isClosing hclosing, fun x hx => hclosing x (List.mem_of_getLast? hx)⟩
  · obtain ⟨init, v, q, rfl, hq⟩ := Literal.exists_close_of_string? hread
    refine ⟨isChain_of_isOutside_eq_false fun x hx => ?_, fun x hx => ?_⟩
    · obtain ⟨p, _, hx⟩ := List.mem_flatMap.1 hx
      exact isOutside_ofPiece hx
    · rw [List.flatMap_append, List.flatMap_singleton, ofPiece, List.map_append,
        ← List.append_assoc, List.map_singleton, List.getLast?_concat] at hx
      cases hx
      exact decide_eq_true ((mark_eq_iff rfl).1 hq)

theorem isChain_of_segment? (h : segment? s = some cells) : cells.IsChain Joins := by
  refine segment?_induction (P := fun _ cells => cells.IsChain Joins) .nil ?_ h
  intro s first rest more hfirst ih
  obtain ⟨hchain, hlast⟩ := isChain_of_next? hfirst
  exact hchain.append ih fun x hx _ _ _ => hlast x hx

theorem find?_reverse_concat (p : Cell → Bool) (cells : List Cell) (x : Cell) :
    (cells ++ [x]).reverse.find? p = if p x then some x else cells.reverse.find? p := by
  rw [List.reverse_append, List.reverse_singleton, List.singleton_append, List.find?_cons]
  cases p x <;> rfl

theorem lastVisible?_concat (cells : List Cell) (x : Cell) :
    lastVisible? (cells ++ [x]) = if x.isBlank then lastVisible? cells else some x := by
  rw [lastVisible?, find?_reverse_concat]
  cases x.isBlank <;> rfl

theorem endWithVisibleDot_concat (cells : List Cell) (x : Cell) :
    endWithVisibleDot (cells ++ [x]) =
      if x.isBlank then endWithVisibleDot cells
      else x = .char .code '.' || x = .char .comment '.' := by
  rw [endWithVisibleDot, lastVisible?_concat]
  cases x.isBlank <;> simp [endWithVisibleDot]

theorem endWithDot_concat (cells : List Cell) (x : Cell) :
    endWithDot (cells ++ [x]) =
      if x.isTrivia then endWithDot cells else x = .char .code '.' := by
  rw [endWithDot, find?_reverse_concat]
  cases x.isTrivia <;> simp [endWithDot]

/-- Behind the cells of a segment, up to one that is outside all literals, the last character that
is not blank is the last cell that is not. -/
theorem head?_dropWhile_isBlank_eq_dot_iff {y : Cell} (hchain : (before ++ [y]).IsChain Joins)
    (hy : y.isOutside) :
    ((before.flatMap text).reverse.dropWhile Text.isBlank).head? = some '.' ↔
      endWithVisibleDot before := by
  induction before using List.reverseRecOn generalizing y with
  | nil => exact iff_of_false nofun nofun
  | append_singleton before x ih =>
    obtain ⟨hbefore, _, hjoins⟩ := List.isChain_append.1 hchain
    have hx : x.isClosing := hjoins x (by simp) y (by simp) hy
    rw [endWithVisibleDot_concat, List.flatMap_append, List.flatMap_singleton, List.reverse_append]
    cases x with
    | hole code => cases hx
    | char role c =>
      rw [text, List.reverse_singleton, List.singleton_append, List.dropWhile_cons]
      cases role with
      | code | comment =>
        rw [isBlank]
        split
        · exact ih hbefore rfl
        · simp
      | charLiteral =>
        obtain rfl : c = '\x27' := of_decide_eq_true hx
        exact iff_of_false (by simp [show Text.isBlank '\x27' = false by decide]) Bool.false_ne_true
      | stringText =>
        obtain rfl : c = '\x22' := of_decide_eq_true hx
        exact iff_of_false (by simp [show Text.isBlank '\x22' = false by decide]) Bool.false_ne_true

/-- Where no comment comes last, the last cell that is not blank is the last one with meaning. -/
theorem endWithVisibleDot_eq_endWithDot (h : ∀ c, lastVisible? cells ≠ some (.char .comment c)) :
    endWithVisibleDot cells = endWithDot cells := by
  induction cells using List.reverseRecOn with
  | nil => rfl
  | append_singleton cells x ih =>
    rw [lastVisible?_concat] at h
    rw [endWithVisibleDot_concat, endWithDot_concat]
    cases x with
    | hole code => rfl
    | char role c =>
      cases role with
      | code =>
        rw [isBlank] at h ⊢
        rw [isTrivia]
        cases hblank : Text.isBlank c with
        | true =>
          rw [hblank] at h
          exact ih h
        | false => simp
      | comment =>
        rw [isBlank] at h ⊢
        cases hblank : Text.isBlank c with
        | true =>
          rw [hblank] at h
          exact ih h
        | false =>
          rw [hblank] at h
          exact absurd rfl (h c)
      | charLiteral | stringText => simp [isBlank, isTrivia]

end Cell

/-! ## Where a word stands -/

/-- In a segment with the given parts, the word stands behind some markup: as a part of the segment,
or in one of its holes. -/
inductive Reaches (R : List Char → Markup → Prop) (w : Word) : List Part → Markup → Prop where
  | word {parts₁ parts₂ : List Part} {m : Markup} :
      Filled R parts₁ m → Reaches R w (parts₁ ++ .word w :: parts₂) m
  | hole {parts₁ parts₂ : List Part} {code : List Char} {m inner₁ inner₂ : Markup} :
      Filled R parts₁ m → R code (inner₁ ++ .word w :: inner₂) →
      Reaches R w (parts₁ ++ .hole code :: parts₂) (m ++ inner₁)

theorem Reaches.append_left {R : List Char → Markup → Prop} {w : Word} {parts' : List Part}
    (h : Reaches R w parts' m') (hm : Filled R parts m) :
    Reaches R w (parts ++ parts') (m ++ m') := by
  cases h with
  | word h =>
    rw [← List.append_assoc]
    exact .word (hm.append h)
  | hole h hcode =>
    rw [← List.append_assoc, ← List.append_assoc]
    exact .hole (hm.append h) hcode

theorem Filled.reaches {R : List Char → Markup → Prop} {w : Word}
    (h : Filled R parts (m ++ .word w :: m')) : Reaches R w parts m := by
  generalize hm : m ++ .word w :: m' = whole at h
  induction h generalizing m with
  | nil => exact absurd hm (List.append_ne_nil_of_right_ne_nil _ (List.cons_ne_nil _ _))
  | @plain s parts _ _ ih =>
    cases m with
    | nil => cases hm
    | cons f m =>
      obtain ⟨rfl, htail⟩ := List.cons.inj hm
      exact (ih htail).append_left (.plain s .nil)
  | @word w' parts _ _ ih =>
    cases m with
    | nil =>
      cases hm
      exact (.word .nil : Reaches R w ([] ++ .word w :: parts) [])
    | cons f m =>
      obtain ⟨rfl, htail⟩ := List.cons.inj hm
      exact (ih htail).append_left (.word w' .nil)
  | @hole code inner parts _ hcode _ ih =>
    have hhole : Filled R [.hole code] inner := by
      have := Filled.hole hcode .nil
      rwa [List.append_nil] at this
    rcases List.append_eq_append_iff.1 hm with ⟨inner', rfl, htail⟩ | ⟨more, rfl, htail⟩
    · cases inner' with
      | nil =>
        rw [List.append_nil] at hhole
        have := (ih (m := []) htail).append_left hhole
        rwa [List.append_nil] at this
      | cons f inner' =>
        cases htail
        exact (.hole .nil hcode : Reaches R w ([] ++ .hole code :: parts) ([] ++ m))
    · exact (ih htail.symm).append_left hhole

/-! ## The boundary scan -/

namespace Boundary

variable {before s rest : List Char} {w : Word} {qs : List Part}

/-- A word is a member if a dot is the last character before it that is not blank. -/
theorem member_iff_of_partsAfter? (h : partsAfter? before s = some (parts ++ .word w :: qs)) :
    w.member ↔
      (((parts.flatMap Part.text).reverse ++ before).dropWhile Text.isBlank).head? = some '.' := by
  refine partsAfter?_induction (P := fun before _ all => ∀ parts, all = parts ++ .word w :: qs →
    (w.member ↔
      (((parts.flatMap Part.text).reverse ++ before).dropWhile Text.isBlank).head? = some '.'))
    ?_ ?_ h parts rfl
  · intro before parts hall
    exact absurd hall.symm (List.append_ne_nil_of_right_ne_nil _ (List.cons_ne_nil _ _))
  · intro before s first rest more hfirst ih parts hall
    have later : ∀ parts', parts = first ++ parts' → more = parts' ++ .word w :: qs →
        (w.member ↔ (((parts.flatMap Part.text).reverse ++ before).dropWhile Text.isBlank).head? =
          some '.') := by
      rintro parts' rfl hmore
      rw [List.flatMap_append, List.reverse_append, List.append_assoc]
      exact ih parts' hmore
    rcases List.append_eq_append_iff.1 hall with ⟨parts', rfl, htail⟩ | ⟨first', rfl, htail⟩
    · exact later parts' rfl htail
    · cases first' with
      | nil => exact later [] (by simp only [List.append_nil]) htail.symm
      | cons p first' =>
        cases htail
        obtain ⟨_, _, _, hword⟩ | ⟨name, heq, _, _⟩ := next?_cases hfirst
        · exact absurd List.mem_append_cons_self (hword w)
        · obtain ⟨rfl, hw⟩ | ⟨_, hnil⟩ := List.append_eq_singleton_iff.1 heq
          · cases hw
            exact decide_eq_true_iff
          · cases hnil

end Boundary

namespace Markup

/-- A word of the boundary scan is code, and stands behind the cells by which it is a member. -/
theorem exists_before_of_boundary? {m₁ m₂ : Markup} {w : Word}
    (h : boundary? s = some (m₁ ++ .word w :: m₂)) :
    ∃ before, Cell.Before s (Text.byteSize m₁.text) before ∧
      (w.member ↔ Cell.endWithVisibleDot before) := by
  refine read?_induction (P := fun s m => ∀ m₁ m₂, m = m₁ ++ .word w :: m₂ →
    ∃ before, Cell.Before s (Text.byteSize m₁.text) before ∧
      (w.member ↔ Cell.endWithVisibleDot before)) ?_ h m₁ m₂ rfl
  rintro s parts _ hparts hfilled m₁ m₂ rfl
  obtain ⟨cells, hcells, hcovers⟩ := Boundary.exists_covers_of_parts? hparts
  cases hfilled.reaches with
  | @word parts₁ parts₂ _ hm₁ =>
    obtain ⟨cells₁, _, rfl, hcovers₁, hword⟩ := hcovers.exists_append
    cases hword with
    | @word _ _ cells₂ hne _ =>
      obtain ⟨c, cs, hw⟩ := List.exists_cons_of_ne_nil hne
      rw [hw, List.map_cons, List.cons_append] at hcells
      refine ⟨cells₁, ?_, ?_⟩
      · rw [hcovers₁.text_eq_flatMap (fun _ _ hcode => text_of_boundary? hcode.2.1) hm₁]
        exact .char hcells
      · have hchain := Cell.isChain_of_segment? hcells
        rw [List.append_cons, List.isChain_append] at hchain
        rw [Boundary.member_iff_of_partsAfter? hparts, List.append_nil, hcovers₁.flatMap_text_eq,
          Cell.head?_dropWhile_isBlank_eq_dot_iff hchain.1 rfl]
  | @hole parts₁ parts₂ code m inner₁ inner₂ hm hcode =>
    obtain ⟨cells₁, _, rfl, hcovers₁, hhole⟩ := hcovers.exists_append
    cases hhole with
    | hole _ _ =>
      obtain ⟨before, hbefore, hmember⟩ := hcode.2.2 inner₁ inner₂ rfl
      refine ⟨before, ?_, hmember⟩
      rw [text_append, Text.byteSize_append,
        hcovers₁.text_eq_flatMap (fun _ _ hcode => text_of_boundary? hcode.2.1) hm]
      exact .hole hcells hbefore

/-- Of all words that the boundary scan finds, at any depth, those are members that stand behind a
dot of code or of a comment with only blanks between. So where no comment comes right before a word,
it is a member just if the last thing with meaning before it is a dot. -/
theorem member_iff_of_boundary? {m₁ m₂ : Markup} {w : Word}
    (h : boundary? s = some (m₁ ++ .word w :: m₂)) :
    ∃ before, Cell.Before s (Text.byteSize m₁.text) before ∧
      (∀ before', Cell.Before s (Text.byteSize m₁.text) before' → before' = before) ∧
      (w.member ↔ Cell.endWithVisibleDot before) ∧
      ((∀ c, Cell.lastVisible? before ≠ some (.char .comment c)) →
        (w.member ↔ Cell.endWithDot before)) := by
  obtain ⟨before, hbefore, hmember⟩ := exists_before_of_boundary? h
  refine ⟨before, hbefore, fun _ h => h.unique hbefore, hmember, fun hcomment => ?_⟩
  rw [hmember, Cell.endWithVisibleDot_eq_endWithDot hcomment]

theorem boundary?_behind_comment : boundary? "''+a./**/s".toList =
    some ([.plain ['\x27', '\x27'], .plain ['+'], .word ⟨['a'], false, true⟩, .plain ['.'],
      .plain ['/', '*', '*', '/']] ++ .word ⟨['s'], false, false⟩ :: []) := by
  decide +kernel

theorem member_iff_sample : ∃ before, Cell.Before "''+a./**/s".toList 9 before ∧
    Cell.endWithVisibleDot before = false := by
  obtain ⟨before, hbefore, _, hmember, _⟩ := member_iff_of_boundary? boundary?_behind_comment
  exact ⟨before, hbefore, Bool.eq_false_iff.2 (mt hmember.2 Bool.false_ne_true)⟩

end Markup

theorem scan?_eq_some_fallback (htokenized : Markup.tokenized? s = none)
    (hboundary : Markup.boundary? s = some m) : scan? s = some (m, .fallback) := by
  rw [scan?, htokenized, hboundary]
  rfl

/-- A comment hides the dot before it, and a dot at the end of a comment passes for one of code. -/
theorem Renamer.rename_behind_comment :
    ({} : Renamer).rename "''+a./**/s" "s" = ⟨"''+a./**/source", some "s", 1, .fallback⟩ ∧
    ({} : Renamer).rename "''+//x.\ns" "s" = ⟨"''+//x.\ns", some "s", 0, .fallback⟩ ∧
    ¬ ∀ (s : List Char) (m₁ m₂ : Markup) (w : Word) (before : List Cell),
      Markup.boundary? s = some (m₁ ++ .word w :: m₂) →
      Cell.Before s (Text.byteSize m₁.text) before → (w.member ↔ Cell.endWithDot before) := by
  have htokenized : Markup.tokenized? "''+a./**/s".toList = none := by decide +kernel
  have hscan := scan?_eq_some_fallback htokenized Markup.boundary?_behind_comment
  refine ⟨?_, by decide +kernel, fun h => ?_⟩
  · rw [rename, hscan]
    rfl
  · have hcells : Cell.segment? "''+a./**/s".toList =
        some (([.char .charLiteral '\x27', .char .charLiteral '\x27'] ++
          "+a.".toList.map (.char .code) ++ "/**/".toList.map (.char .comment)) ++
            .char .code 's' :: []) := by decide +kernel
    have hmember := h _ _ _ _ _ Markup.boundary?_behind_comment (.char hcells)
    exact Bool.false_ne_true (hmember.2 (by decide))

end MapPlan.Expr
