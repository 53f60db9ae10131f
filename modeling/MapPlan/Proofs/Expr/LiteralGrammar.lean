import MapPlan.Expr.Literal

/-!
# The grammar of string literals

What a string literal is, said without a stack of what is open: an opener, items one after the
other, and a closing quote. An item of a string is an escape, a doubled quote or brace, a hole, or a
unit without a meaning. The code of a hole is a list of items as well: braces that balance, whole
literals, and units that open nothing.
-/

namespace MapPlan.Expr

variable {α : Type}

/-! ## Openers -/

namespace Style

/-- The marks that open a string of the style. -/
def openers : Style → List (List Mark)
  | ⟨false, false⟩ => [[.quote]]
  | ⟨true, false⟩ => [[.at, .quote]]
  | ⟨false, true⟩ => [[.dollar, .quote]]
  | ⟨true, true⟩ => [[.dollar, .at, .quote], [.at, .dollar, .quote]]

variable {style : Style} {opener ms : List Mark}

theorem ofMarks?_eq_some_iff :
    ofMarks? ms = some style ↔ ∃ opener ∈ style.openers, opener <+: ms := by
  constructor
  · intro h
    unfold ofMarks? at h
    split at h <;> cases h <;> simp [openers]
  · rintro ⟨opener, hmem, tail, rfl⟩
    obtain ⟨verbatim, interpolated⟩ := style
    cases verbatim <;> cases interpolated <;>
      simp only [openers, List.mem_cons, List.not_mem_nil, or_false] at hmem
    · subst hmem; rfl
    · subst hmem; rfl
    · subst hmem; rfl
    · rcases hmem with rfl | rfl <;> rfl

/-- An opener ends with its only quote. -/
theorem exists_concat_of_mem_openers (h : opener ∈ style.openers) :
    ∃ w, opener = w ++ [.quote] ∧ w.length ≤ 2 ∧ ∀ m ∈ w, m = .at ∨ m = .dollar := by
  obtain ⟨verbatim, interpolated⟩ := style
  cases verbatim <;> cases interpolated <;>
    simp only [openers, List.mem_cons, List.not_mem_nil, or_false] at h
  · exact ⟨[], h, by simp⟩
  · exact ⟨[.dollar], h, by simp⟩
  · exact ⟨[.at], h, by simp⟩
  · rcases h with rfl | rfl
    · exact ⟨[.dollar, .at], rfl, by simp⟩
    · exact ⟨[.at, .dollar], rfl, by simp⟩

/-- An opener ends at the first quote. -/
theorem eq_concat_of_prefix {w : List Mark} (h : opener ∈ style.openers) (hw : .quote ∉ w)
    (hstarts : opener <+: w ++ .quote :: ms) : opener = w ++ [.quote] := by
  obtain ⟨w', rfl, _, hw'⟩ := exists_concat_of_mem_openers h
  have htake : ∀ w ms, Mark.quote ∉ w → (w ++ .quote :: ms).takeWhile (· ≠ .quote) = w := by
    intro w ms hw
    rw [List.takeWhile_append_of_pos fun m hm => decide_eq_true (ne_of_mem_of_not_mem hm hw)]
    exact List.append_nil w
  obtain ⟨tail, heq⟩ := hstarts
  have hquote : .quote ∉ w' := fun hmem => by rcases hw' _ hmem with heq | heq <;> cases heq
  have := htake w' tail hquote
  rw [List.append_assoc, List.singleton_append] at heq
  rw [heq, htake w ms hw] at this
  rw [this]

end Style

/-! ## Items -/

/-- A part of what stands in a string or in the code of a hole. -/
inductive Item (α : Type) where
  /-- Units that belong together and neither open nor close a hole or a brace. -/
  | text (units : List α)
  /-- A brace of the code of a hole. -/
  | openBrace (u : α)
  | closeBrace (u : α)
  /-- A hole of a string, with the braces around it. -/
  | hole (opening : α) (code : List α) (closing : α)

namespace Item

def units : Item α → List α
  | text us => us
  | openBrace u | closeBrace u => [u]
  | hole opening code closing => opening :: code ++ [closing]

def flatten (items : List (Item α)) : List α :=
  items.flatMap units

@[simp] theorem flatten_nil : flatten ([] : List (Item α)) = [] := rfl

@[simp] theorem flatten_cons (item : Item α) (items : List (Item α)) :
    flatten (item :: items) = item.units ++ flatten items := rfl

/-- By how much the item raises the depth of the open braces. -/
def rise : Item α → Int
  | openBrace _ => 1
  | closeBrace _ => -1
  | _ => 0

/-- How many more braces the items open than close. -/
def depth : List (Item α) → Int
  | [] => 0
  | item :: items => item.rise + depth items

@[simp] theorem depth_nil : depth ([] : List (Item α)) = 0 := rfl

@[simp] theorem depth_cons (item : Item α) (items : List (Item α)) :
    depth (item :: items) = item.rise + depth items := rfl

/-- Behind so many open braces, the braces of the items match. -/
structure Balanced (before : Nat) (items : List (Item α)) : Prop where
  /-- No brace closes that is not open: the depth never falls below zero. -/
  nonneg : ∀ p, p <+: items → 0 ≤ before + depth p
  /-- No brace stays open. -/
  settled : before + depth items = 0

variable {before : Nat} {item : Item α} {items : List (Item α)}

theorem balanced_nil_iff : Balanced before ([] : List (Item α)) ↔ before = 0 := by
  constructor
  · intro h
    have := h.settled
    simp only [depth_nil] at this
    omega
  · rintro rfl
    refine ⟨fun p hp => ?_, rfl⟩
    rw [List.prefix_nil.1 hp]
    exact Int.le_refl 0

theorem balanced_cons_iff (behind : Nat) (h : (behind : Int) = before + item.rise) :
    Balanced before (item :: items) ↔ Balanced behind items := by
  constructor
  · intro hb
    refine ⟨fun p hp => ?_, ?_⟩
    · have := hb.nonneg (item :: p) (List.prefix_cons_inj item |>.2 hp)
      rw [depth_cons] at this
      omega
    · have := hb.settled
      rw [depth_cons] at this
      omega
  · intro hb
    refine ⟨fun p hp => ?_, ?_⟩
    · rcases List.prefix_cons_iff.1 hp with rfl | ⟨tail, rfl, htail⟩
      · exact Int.natCast_nonneg before
      · have := hb.nonneg tail htail
        rw [depth_cons]
        omega
    · have := hb.settled
      rw [depth_cons]
      omega

/-- A closing brace comes only behind an open one. -/
theorem Balanced.exists_succ {u : α} (h : Balanced before (closeBrace u :: items)) :
    ∃ behind, before = behind + 1 ∧ Balanced behind items := by
  have hpos := h.nonneg [closeBrace u] (List.prefix_cons_inj _ |>.2 (List.nil_prefix))
  simp only [depth_cons, depth_nil, rise] at hpos
  obtain ⟨behind, rfl⟩ : ∃ behind, before = behind + 1 := ⟨before - 1, by omega⟩
  exact ⟨behind, rfl, (balanced_cons_iff behind (by simp only [rise]; omega)).1 h⟩

end Item

/-! ## The grammar -/

section
variable [Marked α]

/-- What stands between the apostrophes of a character literal. -/
inductive CharBody : List α → Prop where
  | nil : CharBody []
  | escape {b u : α} {s : List α} :
      mark b = .backslash → CharBody s → CharBody (b :: u :: s)
  | other {u : α} {s : List α} :
      mark u ∉ [.backslash, .apostrophe, .newline] → CharBody s → CharBody (u :: s)

/-- Does a string start here? -/
def Literal.Opens (us : List α) : Prop :=
  ∃ style : Style, ∃ opener ∈ style.openers, opener <+: us.map mark

/-- A unit that means nothing in a string, with what follows it. -/
structure Style.Passes (style : Style) (u : α) (rest : List α) : Prop where
  quote : mark u ≠ .quote
  escape : style.verbatim = false → mark u ≠ .backslash ∧ mark u ≠ .newline
  /-- A closing brace alone means nothing. -/
  brace : style.interpolated →
    mark u ≠ .openBrace ∧ (mark u = .closeBrace → rest.head?.map mark ≠ some .closeBrace)

/-- A quote that closes a string, with what follows it. -/
structure Style.Closes (style : Style) (u : α) (rest : List α) : Prop where
  quote : mark u = .quote
  single : style.verbatim → rest.head?.map mark ≠ some .quote

/-- Where items stand. -/
inductive Place where
  | string (style : Style)
  | code

/-- The items stand one after the other at the place, with `rest` behind them. -/
inductive Derives : Place → List (Item α) → List α → Prop where
  | nil (place : Place) (rest : List α) : Derives place [] rest
  | escape {style : Style} {b u : α} {items : List (Item α)} {rest : List α} :
      style.verbatim = false → mark b = .backslash →
      Derives (.string style) items rest → Derives (.string style) (.text [b, u] :: items) rest
  | quotes {style : Style} {q q' : α} {items : List (Item α)} {rest : List α} :
      style.verbatim → mark q = .quote → mark q' = .quote →
      Derives (.string style) items rest → Derives (.string style) (.text [q, q'] :: items) rest
  | braces {style : Style} {b b' : α} {items : List (Item α)} {rest : List α} :
      style.interpolated → mark b = .openBrace ∨ mark b = .closeBrace → mark b' = mark b →
      Derives (.string style) items rest → Derives (.string style) (.text [b, b'] :: items) rest
  | hole {style : Style} {o c : α} {code items : List (Item α)} {rest : List α} :
      style.interpolated → mark o = .openBrace → mark c = .closeBrace →
      (∀ u ∈ (Item.flatten code).head?, mark u ≠ .openBrace) →
      Derives .code code (c :: (Item.flatten items ++ rest)) → Item.Balanced 0 code →
      Derives (.string style) items rest →
      Derives (.string style) (.hole o (Item.flatten code) c :: items) rest
  | pass {style : Style} {u : α} {items : List (Item α)} {rest : List α} :
      style.Passes u (Item.flatten items ++ rest) →
      Derives (.string style) items rest → Derives (.string style) (.text [u] :: items) rest
  | openBrace {u : α} {items : List (Item α)} {rest : List α} :
      mark u = .openBrace → Derives .code items rest → Derives .code (.openBrace u :: items) rest
  | closeBrace {u : α} {items : List (Item α)} {rest : List α} :
      mark u = .closeBrace → Derives .code items rest → Derives .code (.closeBrace u :: items) rest
  | char {a a' : α} {body : List α} {items : List (Item α)} {rest : List α} :
      mark a = .apostrophe → CharBody body → mark a' = .apostrophe →
      Derives .code items rest → Derives .code (.text (a :: body ++ [a']) :: items) rest
  | string {style : Style} {opener : List α} {q : α} {inner items : List (Item α)}
      {rest : List α} :
      opener.map mark ∈ style.openers →
      Derives (.string style) inner (q :: (Item.flatten items ++ rest)) →
      style.Closes q (Item.flatten items ++ rest) →
      Derives .code items rest →
      Derives .code (.text (opener ++ Item.flatten inner ++ [q]) :: items) rest
  | other {u : α} {items : List (Item α)} {rest : List α} :
      mark u ∉ [.openBrace, .closeBrace, .apostrophe] →
      ¬ Literal.Opens (u :: (Item.flatten items ++ rest)) →
      Derives .code items rest → Derives .code (.text [u] :: items) rest

end

namespace Derives

variable [Marked α] {place : Place} {item : Item α} {items : List (Item α)} {rest us : List α}
  {o c : α}

theorem tail (h : Derives place (item :: items) rest) : Derives place items rest := by
  cases h <;> assumption

/-- Balanced code stands in a hole. -/
theorem exists_code (h : Derives place (.hole o us c :: items) rest) :
    mark o = .openBrace ∧ mark c = .closeBrace ∧
      ∃ code, us = Item.flatten code ∧ Derives .code code (c :: (Item.flatten items ++ rest)) ∧
        Item.Balanced 0 code := by
  cases h with
  | hole _ ho hc _ hcode hbalanced _ => exact ⟨ho, hc, _, rfl, hcode, hbalanced⟩

end Derives

/-! ## What follows

What closes a string or a hole is all that matters of what follows it.
-/

/-- The mark of what stands behind the items of a place. -/
def Place.closer : Place → Mark
  | .string _ => .quote
  | .code => .closeBrace

section
variable [Marked α] {place : Place} {items : List (Item α)} {w rest rest' : List α}

theorem head?_append_congr (h : rest.head?.map mark = rest'.head?.map mark) :
    (w ++ rest).head?.map mark = (w ++ rest').head?.map mark := by
  rw [List.head?_append, List.head?_append, Option.map_or, Option.map_or, h]

theorem Style.Closes.congr_rest {style : Style} {q : α} (h : style.Closes q rest)
    (hrest : rest.head?.map mark = rest'.head?.map mark) : style.Closes q rest' :=
  ⟨h.quote, fun hverbatim => hrest ▸ h.single hverbatim⟩

theorem Style.Passes.congr_rest {style : Style} {u : α} (h : style.Passes u rest)
    (hrest : rest.head?.map mark = rest'.head?.map mark) : style.Passes u rest' :=
  ⟨h.quote, h.escape, fun hinter => hrest ▸ h.brace hinter⟩

/-- No opener goes over a closing brace. -/
theorem Literal.opens_append_iff (hrest : rest.head?.map mark = some .closeBrace) :
    Opens (w ++ rest) ↔ Opens w := by
  refine exists_congr fun style => exists_congr fun opener => and_congr_right fun hopener => ?_
  rw [List.map_append]
  refine ⟨fun h => ?_, fun h => h.trans (List.prefix_append _ _)⟩
  rcases List.prefix_or_prefix_of_prefix h (List.prefix_append _ _) with h' | ⟨t, rfl⟩
  · exact h'
  · obtain ⟨c, x, rfl⟩ : ∃ c x, rest = c :: x := by
      cases rest with
      | nil => cases hrest
      | cons c x => exact ⟨c, x, rfl⟩
    rcases List.prefix_cons_iff.1 ((List.prefix_append_right_inj _).1 h) with rfl | ⟨t, rfl, _⟩
    · exact List.append_nil _ ▸ List.prefix_rfl
    · rw [Option.some.inj hrest] at hopener
      obtain ⟨v, hv, _, hmarks⟩ := Style.exists_concat_of_mem_openers hopener
      have hmem : Mark.closeBrace ∈ v ++ [.quote] := by
        rw [← hv]
        simp
      rcases List.mem_append.1 hmem with hmem | hmem
      · rcases hmarks _ hmem with heq | heq <;> cases heq
      · cases List.mem_singleton.1 hmem

theorem Derives.congr_rest (h : Derives place items rest)
    (hrest : rest.head?.map mark = some place.closer)
    (hrest' : rest'.head?.map mark = some place.closer) : Derives place items rest' := by
  have hsame := hrest.trans hrest'.symm
  induction h generalizing rest' with
  | nil => exact .nil _ _
  | escape hverbatim hb _ ih => exact .escape hverbatim hb (ih hrest hrest' hsame)
  | quotes hverbatim hq hq' _ ih => exact .quotes hverbatim hq hq' (ih hrest hrest' hsame)
  | braces hinter hb hb' _ ih => exact .braces hinter hb hb' (ih hrest hrest' hsame)
  | hole hinter ho hc hfirst _ hbalanced _ ihcode ih =>
    have hclose := congrArg some hc
    exact .hole hinter ho hc hfirst (ihcode hclose hclose rfl) hbalanced (ih hrest hrest' hsame)
  | pass hpass _ ih =>
    exact .pass (hpass.congr_rest (head?_append_congr hsame)) (ih hrest hrest' hsame)
  | openBrace hu _ ih => exact .openBrace hu (ih hrest hrest' hsame)
  | closeBrace hu _ ih => exact .closeBrace hu (ih hrest hrest' hsame)
  | char ha hbody ha' _ ih => exact .char ha hbody ha' (ih hrest hrest' hsame)
  | string hopener _ hclose _ ihinner ih =>
    have hquote := congrArg some hclose.quote
    exact .string hopener (ihinner hquote hquote rfl)
      (hclose.congr_rest (head?_append_congr hsame)) (ih hrest hrest' hsame)
  | other hu hopens _ ih =>
    refine .other hu ?_ (ih hrest hrest' hsame)
    rw [← List.cons_append, Literal.opens_append_iff hrest] at hopens
    rwa [← List.cons_append, Literal.opens_append_iff hrest']

end

end MapPlan.Expr
