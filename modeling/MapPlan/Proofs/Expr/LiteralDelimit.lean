import MapPlan.Proofs.Expr.LiteralReader

/-!
# Where literals stand

The offsets at which a literal of a text stops and its holes start and end. Counted in the bytes of
a text, they are what delimits a literal: its holes stand one behind the other, each between two
braces, and the braces in the code of a hole match.
-/

namespace MapPlan.Expr

variable {α : Type}

/-! ## Positions -/

/-- Where the holes stand in a text whose pieces these are, the first piece at `start`. -/
def Piece.ranges (start : Nat) : List (Piece α) → List (Nat × Nat)
  | [] => []
  | .text s :: pieces => ranges (start + s.length) pieces
  | .hole s :: pieces => (start, start + s.length) :: ranges (start + s.length) pieces

namespace Piece

variable {pieces : List (Piece α)}

theorem ranges_consText (start : Nat) (u : α) (pieces : List (Piece α)) :
    ranges start (consText u pieces) = ranges (start + 1) pieces := by
  rcases pieces with _ | ⟨s | s, pieces⟩
  · rfl
  · change ranges (start + (s.length + 1)) pieces = ranges (start + 1 + s.length) pieces
    rw [Nat.add_right_comm, Nat.add_assoc]
  · rfl

theorem ranges_consUnits (us : List α) (start : Nat) (pieces : List (Piece α)) :
    ranges start (consUnits false us pieces) = ranges (start + us.length) pieces := by
  induction us generalizing start with
  | nil => rfl
  | cons u us ih =>
    rw [consUnits_cons]
    change ranges start (consText u _) = _
    rw [ranges_consText, ih, List.length_cons, Nat.add_assoc, Nat.add_comm 1]

end Piece

namespace Item

/-- The ranges of the holes, the first item at `start`. -/
def ranges (start : Nat) : List (Item α) → List (Nat × Nat)
  | [] => []
  | hole _ code _ :: items =>
    (start + 1, start + 1 + code.length) :: ranges (start + code.length + 2) items
  | item :: items => ranges (start + item.units.length) items

end Item

theorem Item.ranges_assemble (items : List (Item α)) (start : Nat) (pieces : List (Piece α)) :
    Piece.ranges start (assemble false items pieces) =
      ranges start items ++ Piece.ranges (start + (flatten items).length) pieces := by
  induction items generalizing start with
  | nil => rfl
  | cons item items ih =>
    cases item with
    | hole o code c =>
      have hlength : (flatten (.hole o code c :: items)).length =
          code.length + 2 + (flatten items).length := by
        simp only [flatten_cons, units, List.length_append, List.length_cons, List.length_nil]
      have hbehind : start + 1 + code.length + 1 = start + (code.length + 2) := by omega
      rw [assemble_hole, hlength, ← Nat.add_assoc start]
      change _ :: Piece.ranges (start + 1 + code.length) (Piece.consText c _) = _
      rw [Piece.ranges_consText, ih, hbehind]
      rfl
    | text us =>
      rw [assemble_text, Piece.ranges_consUnits, ih, flatten_cons, List.length_append,
        ← Nat.add_assoc]
      rfl
    | openBrace u | closeBrace u =>
      change Piece.ranges start (Piece.consUnits false [u] (assemble false items pieces)) = _
      rw [Piece.ranges_consUnits, ih, flatten_cons, List.length_append, ← Nat.add_assoc]
      rfl

namespace Literal

/-- The string literal that starts at an offset: where it stops, and where its holes are. -/
def delimit? [Marked α] (us : List α) (start : Nat) : Option (Nat × List (Nat × Nat)) :=
  (string? (us.drop start)).map fun (pieces, rest) =>
    (us.length - rest.length, Piece.ranges start pieces)

/-- A string literal stands from `start` to `stop`, with its outermost holes where the ranges say. -/
def IsLiteral [Marked α] (us : List α) (start stop : Nat) (holes : List (Nat × Nat)) : Prop :=
  ∃ style before opener items q rest, us = before ++ (opener ++ Item.flatten items ++ [q]) ++ rest ∧
    IsString style opener items q rest ∧ before.length = start ∧
    stop = start + (opener ++ Item.flatten items ++ [q]).length ∧
    holes = Item.ranges (start + opener.length) items

variable [Marked α] {us : List α} {start stop : Nat} {holes : List (Nat × Nat)}

theorem delimit?_eq_some_iff :
    delimit? us start = some (stop, holes) ↔ IsLiteral us start stop holes := by
  have hpieces : ∀ opener (items : List (Item α)) q, Piece.ranges start (Piece.consUnits false opener
      (Item.assemble false items (Piece.consUnit false false q []))) =
        Item.ranges (start + opener.length) items := by
    intro opener items q
    rw [Piece.ranges_consUnits, Item.ranges_assemble]
    exact List.append_nil _
  rw [delimit?, Option.map_eq_some_iff]
  constructor
  · rintro ⟨⟨pieces, rest⟩, hstring, heq⟩
    obtain ⟨style, opener, items, q, hus, hliteral, rfl⟩ := string?_eq_some_iff.1 hstring
    obtain ⟨hstop, rfl⟩ := Prod.mk.inj heq
    rw [hpieces]
    have hdrop := congrArg List.length hus
    rw [List.length_drop] at hdrop
    simp only [List.length_append, List.length_cons] at hdrop
    refine ⟨style, us.take start, opener, items, q, rest, ?_, hliteral, ?_, ?_, rfl⟩
    · rw [List.append_assoc, List.append_assoc, List.singleton_append, ← hus,
        List.take_append_drop]
    · rw [List.length_take]
      omega
    · simp only [List.length_append, List.length_singleton]
      omega
  · rintro ⟨style, before, opener, items, q, rest, rfl, hliteral, rfl, rfl, rfl⟩
    refine ⟨(_, rest), string?_eq_some_iff.2 ⟨style, opener, items, q, ?_, hliteral, rfl⟩, ?_⟩
    · rw [List.append_assoc before, List.drop_left, List.append_assoc _ [q], List.singleton_append]
    · refine Prod.ext ?_ (hpieces _ _ _)
      simp only [List.length_append]
      omega

end Literal

/-! ## Holes -/

namespace Item

variable {items : List (Item α)} {start : Nat} {r : Nat × Nat}

theorem lt_of_mem_ranges (h : r ∈ ranges start items) : start < r.1 := by
  induction items generalizing start with
  | nil => cases h
  | cons item items ih =>
    cases item with
    | hole o code c =>
      rcases List.mem_cons.1 h with rfl | h
      · exact Nat.lt_succ_self start
      · exact Nat.lt_of_le_of_lt (by omega) (ih h)
    | text us => exact Nat.lt_of_le_of_lt (Nat.le_add_right _ _) (ih h)
    | openBrace u | closeBrace u => exact Nat.lt_of_le_of_lt (Nat.le_add_right _ _) (ih h)

theorem pairwise_ranges (items : List (Item α)) (start : Nat) :
    (ranges start items).Pairwise fun r r' => r.2 < r'.1 := by
  induction items generalizing start with
  | nil => exact .nil
  | cons item items ih =>
    cases item with
    | hole o code c =>
      refine .cons (fun r hr => ?_) (ih _)
      have := lt_of_mem_ranges hr
      simp only
      omega
    | text us => exact ih _
    | openBrace u | closeBrace u => exact ih _

end Item

section
variable [Marked α] {place : Place} {items : List (Item α)} {us rest : List α} {start : Nat}
  {r : Nat × Nat}

/-- Between two braces, code with matching braces stands in the range, in a text that starts at
`start` and that `rest` follows. -/
def HasHole (start : Nat) (us rest : List α) (r : Nat × Nat) : Prop :=
  ∃ before o code c behind, us = before ++ o :: (Item.flatten code ++ c :: behind) ∧
    mark o = .openBrace ∧ mark c = .closeBrace ∧ Derives .code code (c :: (behind ++ rest)) ∧
    Item.Balanced 0 code ∧ r.1 = start + before.length + 1 ∧
    r.2 = r.1 + (Item.flatten code).length

theorem HasHole.append_left (w : List α) (h : HasHole (start + w.length) us rest r) :
    HasHole start (w ++ us) rest r := by
  obtain ⟨before, o, code, c, behind, rfl, ho, hc, hcode, hbalanced, hfirst, hsecond⟩ := h
  refine ⟨w ++ before, o, code, c, behind, (List.append_assoc _ _ _).symm, ho, hc, hcode,
    hbalanced, ?_, hsecond⟩
  rw [hfirst, List.length_append, Nat.add_assoc start]

theorem Derives.hasHole (h : Derives place items rest) (hr : r ∈ Item.ranges start items) :
    HasHole start (Item.flatten items) rest r := by
  induction items generalizing start with
  | nil => cases hr
  | cons item items ih =>
    cases item with
    | hole o us c =>
      rcases List.mem_cons.1 hr with rfl | hr
      · obtain ⟨ho, hc, code, rfl, hcode, hbalanced⟩ := h.exists_code
        refine ⟨[], o, code, c, Item.flatten items, ?_, ho, hc, hcode, hbalanced, rfl, rfl⟩
        simp [Item.units]
      · have hlength : start + us.length + 2 = start + (Item.hole o us c).units.length := by
          simp only [Item.units, List.length_append, List.length_cons, List.length_nil]
          omega
        rw [hlength] at hr
        exact (ih h.tail hr).append_left _
    | text us => exact (ih h.tail hr).append_left _
    | openBrace u | closeBrace u => exact (ih h.tail hr).append_left _

end

namespace Literal

section
variable [Marked α] {us : List α} {start stop : Nat} {holes : List (Nat × Nat)}

/-- A hole of a literal holds code with matching braces and stands between two braces. -/
structure IsHole (us : List α) (start stop : Nat) (hole : Nat × Nat) : Prop where
  start : start < hole.1
  stop : hole.2 + 1 < stop
  le : hole.1 ≤ hole.2
  opening : us[hole.1 - 1]?.map mark = some .openBrace
  closing : us[hole.2]?.map mark = some .closeBrace
  code : ∃ items, Item.flatten items = (us.drop hole.1).take (hole.2 - hole.1) ∧
    Derives .code items (us.drop hole.2) ∧ Item.Balanced 0 items

theorem isHole_append {before behind : List α} {o c : α} {code : List (Item α)}
    (hstart : start ≤ before.length) (hstop : before.length + (Item.flatten code).length + 2 < stop)
    (ho : mark o = .openBrace) (hc : mark c = .closeBrace) (hcode : Derives .code code (c :: behind))
    (hbalanced : Item.Balanced 0 code) :
    IsHole (before ++ o :: (Item.flatten code ++ c :: behind)) start stop
      (before.length + 1, before.length + 1 + (Item.flatten code).length) := by
  have hfirst : (before ++ o :: (Item.flatten code ++ c :: behind)).drop (before.length + 1) =
      Item.flatten code ++ c :: behind := by
    rw [List.drop_length_add_append, List.drop_one, List.tail_cons]
  have hsecond : (before ++ o :: (Item.flatten code ++ c :: behind)).drop
      (before.length + 1 + (Item.flatten code).length) = c :: behind := by
    rw [← List.drop_drop, hfirst, List.drop_left]
  refine ⟨Nat.lt_succ_of_le hstart, ?_, Nat.le_add_right _ _, ?_, ?_, code, ?_, ?_, hbalanced⟩
  · simp only
    omega
  · rw [Nat.add_sub_cancel, List.getElem?_append_right (Nat.le_refl _), Nat.sub_self]
    exact congrArg some ho
  · rw [← List.head?_drop, hsecond]
    exact congrArg some hc
  · rw [hfirst, Nat.add_sub_cancel_left, List.take_left]
  · rw [hsecond]
    exact hcode

theorem IsLiteral.isHole {r : Nat × Nat} (h : IsLiteral us start stop holes) (hr : r ∈ holes) :
    IsHole us start stop r := by
  obtain ⟨style, ahead, opener, items, q, rest, rfl, hliteral, rfl, rfl, rfl⟩ := h
  obtain ⟨before, o, code, c, behind, hflatten, ho, hc, hcode, hbalanced, hfirst, hsecond⟩ :=
    hliteral.items.hasHole hr
  have hus : ahead ++ (opener ++ Item.flatten items ++ [q]) ++ rest =
      ahead ++ opener ++ before ++ o :: (Item.flatten code ++ c :: (behind ++ q :: rest)) := by
    simp [hflatten]
  have hrange : r = ((ahead ++ opener ++ before).length + 1,
      (ahead ++ opener ++ before).length + 1 + (Item.flatten code).length) := by
    refine Prod.ext ?_ (hsecond.trans (congrArg (· + _) ?_)) <;>
      simp only [hfirst, List.length_append]
  have hlength := congrArg List.length hflatten
  simp only [List.length_append, List.length_cons] at hlength
  rw [hus, hrange]
  refine isHole_append ?_ ?_ ho hc hcode hbalanced
  · simp only [List.length_append]
    omega
  · simp only [List.length_append, List.length_singleton]
    omega

theorem IsLiteral.unique {stop' : Nat} {holes' : List (Nat × Nat)}
    (h : IsLiteral us start stop holes) (h' : IsLiteral us start stop' holes') :
    stop' = stop ∧ holes' = holes := by
  rw [← delimit?_eq_some_iff] at h h'
  rw [h] at h'
  cases h'
  exact ⟨rfl, rfl⟩

theorem IsLiteral.pairwise (h : IsLiteral us start stop holes) :
    holes.Pairwise fun r r' => r.2 < r'.1 := by
  obtain ⟨_, _, _, items, _, _, _, _, _, _, rfl⟩ := h
  exact Item.pairwise_ranges items _

end

theorem toNat_eq_of_mark {m : Mark} {d : Char} {b : UInt8} (hm : m.char? = some d)
    (h : mark b = m) : b.toNat = d.toNat := by
  change Mark.ofCode b.toNat = m at h
  cases m <;> cases hm <;> grind [Mark.ofCode]

/-- A literal is found at an offset of the bytes just if one of the grammar stands there. Then it
stops at one place only, its holes stand one behind the other, each between two braces, and the
braces in the code of a hole match. -/
theorem delimit?_accepts_grammar (b : List UInt8) (start stop : Nat) (holes : List (Nat × Nat)) :
    (delimit? b start = some (stop, holes) ↔ IsLiteral b start stop holes) ∧
    (IsLiteral b start stop holes →
      (∀ stop' holes', IsLiteral b start stop' holes' → stop' = stop ∧ holes' = holes) ∧
      holes.Pairwise (fun r r' => r.2 < r'.1) ∧
      ∀ r ∈ holes, start < r.1 ∧ r.1 ≤ r.2 ∧ r.2 + 1 < stop ∧
        b[r.1 - 1]? = some 0x7B ∧ b[r.2]? = some 0x7D ∧
        ∃ items, Item.flatten items = (b.drop r.1).take (r.2 - r.1) ∧
          Derives .code items (b.drop r.2) ∧ Item.Balanced 0 items) := by
  refine ⟨delimit?_eq_some_iff, fun h => ⟨fun _ _ h' => h.unique h', h.pairwise, fun r hr => ?_⟩⟩
  have hhole := h.isHole hr
  obtain ⟨opening, hopening, hmark⟩ := Option.map_eq_some_iff.1 hhole.opening
  obtain ⟨closing, hclosing, hmark'⟩ := Option.map_eq_some_iff.1 hhole.closing
  have hopen : opening = 0x7B := UInt8.toNat_inj.1 (toNat_eq_of_mark (d := '{') rfl hmark)
  have hclose : closing = 0x7D := UInt8.toNat_inj.1 (toNat_eq_of_mark (d := '}') rfl hmark')
  exact ⟨hhole.start, hhole.le, hhole.stop, hopen ▸ hopening, hclose ▸ hclosing, hhole.code⟩

-- Braces and quotes of the code do not end the literal.
example : delimit? "x $\"\x7ba(\"\x7d\")\x7d\x7b\x7b\x7bb\x7d\" + y".toUTF8.toList 2 =
    some (18, [(5, 11), (15, 16)]) := by
  cbv

end Literal
end MapPlan.Expr