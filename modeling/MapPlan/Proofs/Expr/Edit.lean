import MapPlan.Proofs.Expr.Role

/-!
# Literals after an edit

Names in the holes of a literal are replaced by other names. A name means nothing to the rules of
literals, whatever stands around it, so the literal ends where it did and has the same holes: the
reader finds in the edited text what it found before, edited.

The rules of literals only ask for the mark of a unit. So they read a list of units as they read a
text that spells it: each unit as one of its mark, or as some without a mark if it has none itself.
An edited text is a list of characters that stay and of names with their replacements, and the texts
before and after the edit are both spellings of it.
-/

namespace MapPlan.Expr

variable {α β : Type} [Marked α] [Marked β]

/-! ## Names -/

/-- Units without a mark of their own, perhaps behind an at sign. -/
def IsUnmarked (u : List β) : Prop :=
  ∃ sign name, u = sign ++ name ∧ (sign = [] ∨ ∃ c, sign = [c] ∧ mark c = .at) ∧ name ≠ [] ∧
    ∀ c ∈ name, mark c = .other

theorem IsUnmarked.ne_nil {u : List β} (h : IsUnmarked u) : u ≠ [] := by
  obtain ⟨sign, name, rfl, _, hne, _⟩ := h
  exact List.append_ne_nil_of_right_ne_nil sign hne

/-- A unit is spelled by one of its mark, or by some without a mark. -/
def Spelling (u : List β) (a : α) : Prop :=
  (∃ b, u = [b] ∧ mark b = mark a) ∨ mark a = .other ∧ IsUnmarked u

theorem Spelling.ne_nil {u : List β} {a : α} (h : Spelling u a) : u ≠ [] := by
  obtain ⟨b, rfl, _⟩ | ⟨_, hu⟩ := h
  · exact List.cons_ne_nil b []
  · exact hu.ne_nil

/-- A character that stays, or a name and its replacement. -/
inductive Edit where
  | keep (c : Char)
  | swap (old new : List Char)

namespace Edit

def old : Edit → List Char
  | keep c => [c]
  | swap old _ => old

def new : Edit → List Char
  | keep c => [c]
  | swap _ new => new

instance : Marked Edit where
  mark
    | keep c => mark c
    | swap _ _ => .other

/-- A character is spelled as it is, a name without marks. -/
def IsSpelled (e : Edit → List Char) : Edit → Prop
  | keep c => e (keep c) = [c]
  | swap old new => IsUnmarked (e (swap old new))

theorem IsSpelled.spelling {e : Edit → List Char} {a : Edit} (h : IsSpelled e a) :
    Spelling (e a) a := by
  cases a with
  | keep c => exact .inl ⟨c, h, rfl⟩
  | swap old new => exact .inr ⟨rfl, h⟩

end Edit

/-! ## Looking ahead -/

namespace Style

/-- Of the third mark it matters only whether it is a quote. -/
theorem ofMarks?_third {m k : Mark} {x y : List Mark}
    (h : x.head? = some .quote ↔ y.head? = some .quote) :
    ofMarks? (m :: k :: x) = ofMarks? (m :: k :: y) := by
  have verbatim : ∀ m k, (m, k) = (.at, .dollar) ∨ (m, k) = (.dollar, .at) → ∀ x,
      ofMarks? (m :: k :: x) = if x.head? = some .quote then some ⟨true, true⟩ else none := by
    rintro m k hmk x
    rcases x with _ | ⟨_ | _, x⟩ <;> rcases hmk with heq | heq <;> cases heq <;> rfl
  by_cases hmk : (m, k) = (.at, .dollar) ∨ (m, k) = (.dollar, .at)
  · simp only [verbatim m k hmk, h]
  · cases m <;> cases k <;> first | rfl | exact absurd (by decide) hmk

end Style

/-- Marks that follow a unit and are the same to it. -/
structure Mark.Alike (x y : List Mark) : Prop where
  style : ∀ m, Style.ofMarks? (m :: x) = Style.ofMarks? (m :: y)
  head : ∀ m ∈ [quote, openBrace, closeBrace], x.head? = some m ↔ y.head? = some m

namespace Frame

variable {f : Frame} {stack : List Frame} {x y : List Mark} {m : Mark}

theorem next?_congr (h : Mark.Alike x y) : f.next? stack x m = f.next? stack y m := by
  cases f with
  | skip => rfl
  | opener style => rfl
  | char => rfl
  | hole depth => simp only [next?, h.style]
  | string style =>
    obtain ⟨verbatim, interpolated⟩ := style
    cases m with
    | quote => simp only [next?, h.head .quote (by decide)]
    | openBrace => simp only [next?, h.head .openBrace (by decide)]
    | closeBrace => simp only [next?, h.head .closeBrace (by decide)]
    | _ => cases verbatim <;> rfl

/-- What is open after a unit without a mark. -/
def pass : List Frame → List Frame
  | .skip :: stack => stack
  | stack => stack

theorem next?_other : f.next? stack x .other = some (pass (f :: stack)) := by
  cases f <;> rfl

theorem next?_at (h : Style.ofMarks? (.at :: x) = none) :
    f.next? stack x .at = some (pass (f :: stack)) := by
  cases f with
  | hole depth => simp only [next?, h, pass]
  | _ => rfl

end Frame

/-- A name, or a unit without a mark, opens nothing, whatever is read before it. -/
def Mark.IsBlind (x : List Mark) : Prop :=
  (∀ m, m ≠ .quote → Style.ofMarks? (m :: x) = none) ∧
    ∀ m ∈ [quote, openBrace, closeBrace], x.head? ≠ some m

namespace Mark

variable {x y : List Mark}

theorem IsBlind.alike (hx : IsBlind x) (hy : IsBlind y) : Alike x y where
  style m := by
    by_cases hm : m = .quote
    · rw [hm]
      rfl
    · rw [hx.1 m hm, hy.1 m hm]
  head m hm := iff_of_false (hx.2 m hm) (hy.2 m hm)

theorem isBlind_other : IsBlind (.other :: x) :=
  ⟨fun m hm => by cases m <;> first | rfl | exact absurd rfl hm, fun m hm => by
    rintro ⟨⟩
    exact absurd hm (by decide)⟩

theorem isBlind_at (h : x.head? ≠ some .quote) : IsBlind (.at :: x) := by
  refine ⟨fun m hm => ?_, fun m hm => ?_⟩
  · have hquote : x.head? = some .quote ↔ [].head? = some Mark.quote := iff_of_false h nofun
    rw [Style.ofMarks?_third hquote]
    cases m <;> first | rfl | exact absurd rfl hm
  · rintro ⟨⟩
    exact absurd hm (by decide)

/-- Behind a unit that is the same. -/
theorem Alike.cons {k : Mark} (h : x.head? = some .quote ↔ y.head? = some .quote) :
    Alike (k :: x) (k :: y) :=
  ⟨fun _ => Style.ofMarks?_third h, fun _ _ => Iff.rfl⟩

end Mark

theorem IsUnmarked.isBlind {u : List β} (h : IsUnmarked u) (rest : List β) :
    Mark.IsBlind (((u ++ rest).take 2).map mark) := by
  obtain ⟨sign, name, rfl, hsign, hne, hname⟩ := h
  obtain ⟨c, name, rfl⟩ := List.exists_cons_of_ne_nil hne
  have hc := hname c List.mem_cons_self
  rcases hsign with rfl | ⟨d, rfl, hd⟩
  · change Mark.IsBlind (mark c :: ((name ++ rest).take 1).map mark)
    rw [hc]
    exact Mark.isBlind_other
  · change Mark.IsBlind [mark d, mark c]
    rw [hc, hd]
    exact Mark.isBlind_at nofun

/-- The marks ahead in a spelled text are as good as those ahead in the list of units. -/
theorem alike_marks {e : α → List β} {A : List α} (hA : ∀ a ∈ A, Spelling (e a) a) :
    Mark.Alike (((A.flatMap e).take 2).map mark) ((A.take 2).map mark) := by
  induction A with
  | nil => exact ⟨fun _ => rfl, fun _ _ => Iff.rfl⟩
  | cons a A ih =>
    obtain ⟨ha, htail⟩ := List.forall_mem_cons.1 hA
    rw [List.flatMap_cons]
    obtain ⟨b, hspell, hb⟩ | ⟨hother, hu⟩ := ha
    · have hquote := (ih htail).head .quote (by decide)
      rw [hspell]
      change Mark.Alike (mark b :: ((A.flatMap e).take 1).map mark) (mark a :: (A.take 1).map mark)
      rw [hb]
      refine Mark.Alike.cons ?_
      simpa [List.head?_take] using hquote
    · refine (hu.isBlind _).alike ?_
      change Mark.IsBlind (mark a :: (A.take 1).map mark)
      rw [hother]
      exact Mark.isBlind_other

/-! ## Spelling pieces -/

namespace Piece

variable {e : α → List β} {a : α} {b : β} {pieces : List (Piece α)}

omit [Marked α] [Marked β]

def spell (e : α → List β) : Piece α → Piece β
  | .text us => .text (us.flatMap e)
  | .hole us => .hole (us.flatMap e)

/-- Put units before the pieces, all inside or all outside a hole. -/
def consUnits (hole : Bool) (us : List β) (pieces : List (Piece β)) : List (Piece β) :=
  us.foldr (consUnit hole hole) pieces

theorem map_spell_consUnit (h : e a = [b]) (before after : Bool) (pieces : List (Piece α)) :
    (consUnit before after a pieces).map (spell e) =
      consUnit before after b (pieces.map (spell e)) := by
  cases before <;> cases after <;> rcases pieces with _ | ⟨_ | _, _⟩ <;>
    simp [consUnit, consText, consHole, spell, h]

theorem consUnits_cons (hole : Bool) (u : β) (us : List β) (pieces : List (Piece β)) :
    consUnits hole (u :: us) pieces = consUnit hole hole u (consUnits hole us pieces) := rfl

theorem consUnits_append (hole : Bool) (us vs : List β) (pieces : List (Piece β)) :
    consUnits hole (us ++ vs) pieces = consUnits hole us (consUnits hole vs pieces) :=
  List.foldr_append

theorem consUnits_text (us s : List β) (pieces : List (Piece β)) :
    consUnits false us (.text s :: pieces) = .text (us ++ s) :: pieces := by
  induction us with
  | nil => rfl
  | cons u us ih =>
    change consText u (consUnits false us _) = _
    rw [ih]
    rfl

theorem consUnits_hole (us s : List β) (pieces : List (Piece β)) :
    consUnits true us (.hole s :: pieces) = .hole (us ++ s) :: pieces := by
  induction us with
  | nil => rfl
  | cons u us ih =>
    change consHole u (consUnits true us _) = _
    rw [ih]
    rfl

/-- A unit that is spelled by several goes where they go. -/
theorem map_spell_consUnits (h : e a ≠ []) (hole : Bool) (pieces : List (Piece α)) :
    (consUnit hole hole a pieces).map (spell e) = consUnits hole (e a) (pieces.map (spell e)) := by
  obtain ⟨us, b, hb⟩ : ∃ us b, e a = us ++ [b] := ⟨_, _, (List.dropLast_concat_getLast h).symm⟩
  rw [hb, consUnits_append, consUnits_cons]
  change _ = consUnits hole us (consUnit hole hole b (pieces.map (spell e)))
  cases hole <;> rcases pieces with _ | ⟨_ | _, _⟩ <;>
    simp [consUnit, consText, consHole, spell, hb, consUnits_text, consUnits_hole]

end Piece

/-! ## Reading a spelled text -/

namespace Literal

variable {e : α → List β} {A : List α} {frame : Frame} {stack : List Frame} {u rest : List β}

/-- Nothing is skipped but by what is open last, and something is open below it. -/
def IsSettled (stack : List Frame) : Prop :=
  Frame.skip ∉ stack.tail ∧ stack ≠ [.skip]

theorem IsSettled.next? {stack' : List Frame} {ahead : List Mark} {m : Mark}
    (h : IsSettled (frame :: stack)) (hstep : frame.next? stack ahead m = some stack') :
    IsSettled stack' := by
  obtain ⟨htail, hne⟩ := h
  replace htail : Frame.skip ∉ stack := htail
  obtain ⟨rfl, _⟩ | ⟨f', hf', _, rfl | ⟨g, rfl⟩⟩ := Frame.next?_cases hstep
  · refine ⟨fun hmem => htail (List.mem_of_mem_tail hmem), ?_⟩
    rintro rfl
    exact htail List.mem_cons_self
  · refine ⟨htail, ?_⟩
    rintro ⟨⟩
    exact hf' rfl
  · refine ⟨fun hmem => ?_, nofun⟩
    rcases List.mem_cons.1 hmem with heq | hmem
    · exact hf' heq.symm
    · exact htail hmem

/-- A stretch of units without a mark changes nothing that is open. -/
theorem readOpen?_append_unmarked (hskip : frame ≠ .skip) (hu : ∀ c ∈ u, mark c = .other) :
    readOpen? (frame :: stack) (u ++ rest) =
      (readOpen? (frame :: stack) rest).map fun (pieces, rest) =>
        (Piece.consUnits ((frame :: stack).any (·.isHole)) u pieces, rest) := by
  induction u with
  | nil => exact Option.map_id'.symm
  | cons c u ih =>
    obtain ⟨hc, hu⟩ := List.forall_mem_cons.1 hu
    have hpass : Frame.pass (frame :: stack) = frame :: stack := by
      cases frame <;> first | rfl | exact absurd rfl hskip
    rw [List.cons_append, readOpen?_cons, hc, Frame.next?_other, hpass, Option.bind_some, ih hu,
      Option.map_map]
    rfl

theorem exists_pass_eq (h : IsSettled (frame :: stack)) :
    ∃ g below, Frame.pass (frame :: stack) = g :: below ∧ g ≠ .skip := by
  obtain ⟨htail, hne⟩ := h
  by_cases hskip : frame = .skip
  · subst hskip
    cases stack with
    | nil => exact absurd rfl hne
    | cons g below => exact ⟨g, below, rfl, fun hg => htail (hg ▸ List.mem_cons_self)⟩
  · refine ⟨frame, stack, ?_, hskip⟩
    cases frame <;> first | rfl | exact absurd rfl hskip

theorem any_isHole_pass (stack : List Frame) :
    (Frame.pass stack).any (·.isHole) = stack.any (·.isHole) := by
  unfold Frame.pass
  split <;> rfl

/-- A name changes nothing that is open, except that it can be what is skipped. -/
theorem readOpen?_append_name (hs : IsSettled (frame :: stack)) (hu : IsUnmarked u) :
    readOpen? (frame :: stack) (u ++ rest) =
      (readOpen? (Frame.pass (frame :: stack)) rest).map fun (pieces, rest) =>
        (Piece.consUnits ((frame :: stack).any (·.isHole)) u pieces, rest) := by
  obtain ⟨g, below, hpass, hg⟩ := exists_pass_eq hs
  have hhole : (g :: below).any (·.isHole) = (frame :: stack).any (·.isHole) := by
    rw [← hpass, any_isHole_pass]
  have first : ∀ x name, (∀ c ∈ name, mark c = .other) →
      frame.next? stack (((name ++ rest).take 2).map mark) (mark x) =
        some (Frame.pass (frame :: stack)) →
      readOpen? (frame :: stack) (x :: name ++ rest) =
        (readOpen? (Frame.pass (frame :: stack)) rest).map fun (pieces, rest) =>
          (Piece.consUnits ((frame :: stack).any (·.isHole)) (x :: name) pieces, rest) := by
    intro x name hname hstep
    rw [List.cons_append, readOpen?_cons, hstep, Option.bind_some, hpass,
      readOpen?_append_unmarked hg hname, Option.map_map, hhole]
    rfl
  obtain ⟨sign, name, rfl, hsign, hne, hname⟩ := hu
  obtain ⟨c, body, rfl⟩ := List.exists_cons_of_ne_nil hne
  obtain ⟨hc, hbody⟩ := List.forall_mem_cons.1 hname
  rcases hsign with rfl | ⟨d, rfl, hd⟩
  · refine first c body hbody ?_
    rw [hc]
    exact Frame.next?_other
  · have hblind := IsUnmarked.isBlind ⟨[], c :: body, rfl, .inl rfl, hne, hname⟩ rest
    refine first d (c :: body) hname ?_
    rw [hd]
    exact Frame.next?_at (hblind.1 .at nofun)

/-- A reader of the units finds what it finds in the text that they spell. -/
theorem readOpen?_flatMap (hA : ∀ a ∈ A, Spelling (e a) a) (hs : IsSettled stack) :
    readOpen? stack (A.flatMap e) =
      (readOpen? stack A).map fun (pieces, rest) =>
        (pieces.map (Piece.spell e), rest.flatMap e) := by
  induction A generalizing stack with
  | nil =>
    cases stack with
    | nil => rfl
    | cons frame stack => rfl
  | cons a A ih =>
    obtain ⟨ha, htail⟩ := List.forall_mem_cons.1 hA
    cases stack with
    | nil =>
      rw [readOpen?_nil, readOpen?_nil]
      rfl
    | cons frame stack =>
      have hne := ha.ne_nil
      obtain ⟨b, hspell, hb⟩ | ⟨hother, hu⟩ := ha
      · rw [List.flatMap_cons, hspell, List.singleton_append, readOpen?_cons, readOpen?_cons,
          Frame.next?_congr (alike_marks htail), hb]
        cases hstep : frame.next? stack ((A.take 2).map mark) (mark a) with
        | none => rfl
        | some stack' =>
          rw [Option.bind_some, Option.bind_some, ih htail (hs.next? hstep), Option.map_map,
            Option.map_map]
          simp only [Function.comp_def, Piece.map_spell_consUnit hspell]
      · have hpass : frame.next? stack ((A.take 2).map mark) (mark a) =
            some (Frame.pass (frame :: stack)) := by
          rw [hother]
          exact Frame.next?_other
        rw [List.flatMap_cons, readOpen?_append_name hs hu, readOpen?_cons, hpass, Option.bind_some,
          ih htail (hs.next? hpass), Option.map_map, Option.map_map, any_isHole_pass]
        simp only [Function.comp_def, Piece.map_spell_consUnits hne]

theorem style?_append_unmarked (hu : IsUnmarked u) : style? (u ++ rest) = none := by
  obtain ⟨sign, name, rfl, hsign, hne, hname⟩ := hu
  have hblind := IsUnmarked.isBlind ⟨[], name, rfl, .inl rfl, hne, hname⟩ rest
  obtain ⟨c, body, rfl⟩ := List.exists_cons_of_ne_nil hne
  rcases hsign with rfl | ⟨d, rfl, hd⟩
  · change Style.ofMarks? (mark c :: ((body ++ rest).take 2).map mark) = none
    rw [hname c List.mem_cons_self]
    rfl
  · change Style.ofMarks? (mark d :: ((c :: body ++ rest).take 2).map mark) = none
    rw [hd]
    exact hblind.1 .at nofun

theorem style?_flatMap (hA : ∀ a ∈ A, Spelling (e a) a) : style? (A.flatMap e) = style? A := by
  cases A with
  | nil => rfl
  | cons a A =>
    obtain ⟨ha, htail⟩ := List.forall_mem_cons.1 hA
    rw [List.flatMap_cons]
    change _ = Style.ofMarks? (mark a :: (A.take 2).map mark)
    obtain ⟨b, hspell, hb⟩ | ⟨hother, hu⟩ := ha
    · rw [hspell, ← hb]
      exact (alike_marks htail).style (mark b)
    · rw [style?_append_unmarked hu, hother]
      rfl

theorem string?_flatMap (hA : ∀ a ∈ A, Spelling (e a) a) :
    string? (A.flatMap e) =
      (string? A).map fun (pieces, rest) => (pieces.map (Piece.spell e), rest.flatMap e) := by
  rw [string?, string?, style?_flatMap hA]
  cases style? A with
  | none => rfl
  | some style => exact readOpen?_flatMap hA ⟨nofun, nofun⟩

end Literal

/-! ## Edited literals -/

omit [Marked α] in
/-- The size of a start of a list tells where it ends. -/
theorem append_inj_of_size (size : List α → Nat) {u v u' v' : List α}
    (happend : ∀ x y, size (x ++ y) = size x + size y) (h : u ++ v = u' ++ v')
    (hpos : ∀ a ∈ u ++ v, 0 < size [a]) (hsize : size u = size u') : u = u' ∧ v = v' := by
  have nil : ∀ x : List α, (∀ a ∈ x, 0 < size [a]) → size x = 0 → x = [] := by
    intro x hx hzero
    cases x with
    | nil => rfl
    | cons a x =>
      have hcons := happend [a] x
      have := hx a List.mem_cons_self
      rw [List.singleton_append] at hcons
      omega
  rcases List.append_eq_append_iff.1 h with ⟨x, rfl, rfl⟩ | ⟨x, rfl, rfl⟩
  · rw [happend, Nat.left_eq_add] at hsize
    rw [nil x (fun a ha => hpos a (by simp [ha])) hsize]
    exact ⟨(List.append_nil u).symm, rfl⟩
  · rw [happend, Nat.add_eq_left] at hsize
    rw [nil x (fun a ha => hpos a (by simp [ha])) hsize]
    exact ⟨List.append_nil u', rfl⟩

section
variable {e : Edit → List Char}

theorem append_inj_of_spelled {u v u' v' : List Edit} (h : u ++ v = u' ++ v')
    (hne : ∀ a ∈ u ++ v, e a ≠ []) (hspell : u.flatMap e = u'.flatMap e) : u = u' ∧ v = v' := by
  refine append_inj_of_size (fun x => (x.flatMap e).length) (fun x y => ?_) h
    (fun a ha => ?_) (congrArg List.length hspell)
  · rw [List.flatMap_append, List.length_append]
  · rw [List.flatMap_singleton]
    exact List.length_pos_iff.2 (hne a ha)

theorem Piece.append_inj_of_spelled {P Q : List (Piece Edit)} {R S : List Edit}
    (h : flatten P ++ R = flatten Q ++ S) (hne : ∀ a ∈ flatten P ++ R, e a ≠ [])
    (hspell : P.map (spell e) = Q.map (spell e)) : P = Q ∧ R = S := by
  induction P generalizing Q with
  | nil =>
    rw [List.map_nil, eq_comm, List.map_eq_nil_iff] at hspell
    subst hspell
    exact ⟨rfl, h⟩
  | cons p P ih =>
    cases Q with
    | nil => cases hspell
    | cons q Q =>
      obtain ⟨hpq, hrest⟩ := List.cons.inj hspell
      rw [flatten_cons, flatten_cons, List.append_assoc, List.append_assoc] at h
      rw [flatten_cons, List.append_assoc] at hne
      have hunits : p.units.flatMap e = q.units.flatMap e ∧ (p.units = q.units → p = q) := by
        cases p with
        | text us =>
          cases q with
          | text vs => exact ⟨Piece.text.inj hpq, congrArg Piece.text⟩
          | hole vs => cases hpq
        | hole us =>
          cases q with
          | text vs => cases hpq
          | hole vs => exact ⟨Piece.hole.inj hpq, congrArg Piece.hole⟩
      obtain ⟨hp, htail⟩ := MapPlan.Expr.append_inj_of_spelled h hne hunits.1
      obtain ⟨rfl, rfl⟩ := ih htail (fun a ha => hne a (List.mem_append_right _ ha)) hrest
      exact ⟨congrArg (· :: P) (hunits.2 hp), rfl⟩

/-- A literal has the same pieces after an edit, each of them edited. -/
theorem Literal.string?_edit {e' : Edit → List Char} {Q : List (Piece Edit)} {B : List Edit}
    (hold : ∀ a ∈ Piece.flatten Q ++ B, Edit.IsSpelled e a)
    (hnew : ∀ a ∈ Piece.flatten Q ++ B, Edit.IsSpelled e' a)
    (h : string? ((Piece.flatten Q ++ B).flatMap e) = some (Q.map (Piece.spell e), B.flatMap e)) :
    string? ((Piece.flatten Q ++ B).flatMap e') =
      some (Q.map (Piece.spell e'), B.flatMap e') := by
  rw [string?_flatMap fun a ha => (hold a ha).spelling] at h
  obtain ⟨⟨P, R⟩, hread, heq⟩ := Option.map_eq_some_iff.1 h
  have hflatten := flatten_append_of_string? hread
  have hne : ∀ a ∈ Piece.flatten P ++ R, e a ≠ [] :=
    fun a ha => (hold a (hflatten ▸ ha)).spelling.ne_nil
  obtain ⟨rfl, rfl⟩ := Piece.append_inj_of_spelled hflatten hne (Prod.mk.inj heq).1
  rw [string?_flatMap fun a ha => (hnew a ha).spelling, hread]
  rfl

end
end MapPlan.Expr
