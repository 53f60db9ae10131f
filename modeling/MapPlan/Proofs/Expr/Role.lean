import MapPlan.Expr.Boundary
import MapPlan.Proofs.Expr.Literal

/-!
# Roles

What each character of a text is: code, or part of a comment, of a character literal or of a string
literal. A segment is read from left to right, and what opens first hides what stands in it. The
code of a hole is a segment again, at any depth.

Nothing here knows about names or tokens, so that the two scans for names can be measured by it.
-/

namespace MapPlan.Expr

/-- What a character of a text is to a reader of code. -/
inductive Role where
  | code
  | comment
  | charLiteral
  /-- A string literal without the code of its holes. -/
  | stringText
deriving DecidableEq, Repr

/-- A character of a segment in its role, or the code of a hole. -/
inductive Cell where
  | char (role : Role) (c : Char)
  | hole (code : List Char)
deriving DecidableEq, Repr

namespace Cell

def text : Cell → List Char
  | .char _ c => [c]
  | .hole code => code

def ofPiece : Piece Char → List Cell
  | .text s => s.map (.char .stringText)
  | .hole code => [.hole code]

/-- A comment or a literal at the start of a segment, or else one character of code, and the
rest. -/
def next? : List Char → Option (List Cell × List Char)
  | [] => none
  | '/' :: '/' :: cs =>
    some (('/' :: '/' :: cs.takeWhile (· ≠ '\n')).map (.char .comment), cs.dropWhile (· ≠ '\n'))
  | '/' :: '*' :: cs =>
    (Boundary.commentTail? cs).map fun (tail, rest) =>
      (('/' :: '*' :: tail).map (.char .comment), rest)
  | c :: cs =>
    if (Literal.style? (c :: cs)).isSome then
      (Literal.string? (c :: cs)).map fun (pieces, rest) => (pieces.flatMap ofPiece, rest)
    else if c = '\x27' then
      (Literal.char? cs).map fun (tail, rest) => ((c :: tail).map (.char .charLiteral), rest)
    else some ([.char .code c], cs)

/-- The cells of a segment. There are none where a comment, a literal or a hole stays open. -/
def segment? (s : List Char) : Option (List Cell) :=
  if s = [] then some []
  else do
    let (cells, rest) ← next? s
    if rest.length < s.length then
      let more ← segment? rest
      return cells ++ more
    else none
termination_by s.length

end Cell

/-- The role of each character of a text, with the holes of its literals read as segments. -/
def Role.ofText? (s : List Char) : Option (List Role) := do
  let roles ← (← Cell.segment? s).mapM fun
    | .char role _ => some [role]
    | .hole inside => if inside.length < s.length then ofText? inside else none
  return roles.flatten
termination_by s.length

example : (Role.ofText? "a//b".toList).map (·.map (· == .code)) =
    some [true, false, false, false] := by
  cbv

/-! ## Marks of characters -/

/-- The character that has a mark of its own. -/
def Mark.char? : Mark → Option Char
  | .quote => some '\x22'
  | .apostrophe => some '\x27'
  | .backslash => some '\\'
  | .at => some '@'
  | .dollar => some '$'
  | .openBrace => some '{'
  | .closeBrace => some '}'
  | .newline => some '\n'
  | .other => none

theorem mark_eq_iff {m : Mark} {c d : Char} (h : m.char? = some d) : mark c = m ↔ c = d := by
  rw [← Char.toNat_inj]
  change Mark.ofCode c.toNat = m ↔ _
  cases m <;> cases h <;> grind [Mark.ofCode]

/-- All other characters are the same to the rules of literals. -/
theorem mark_eq_other {c : Char} (h : c ∉ ['\x22', '\x27', '\\', '@', '$', '{', '}', '\n']) :
    mark c = .other := by
  simp only [List.mem_cons, List.not_mem_nil, or_false, not_or] at h
  obtain ⟨hquote, happostrophe, hbackslash, hat, hdollar, hopen, hclose, hnewline⟩ := h
  cases hm : mark c with
  | quote => exact absurd ((mark_eq_iff rfl).1 hm) hquote
  | apostrophe => exact absurd ((mark_eq_iff rfl).1 hm) happostrophe
  | backslash => exact absurd ((mark_eq_iff rfl).1 hm) hbackslash
  | «at» => exact absurd ((mark_eq_iff rfl).1 hm) hat
  | dollar => exact absurd ((mark_eq_iff rfl).1 hm) hdollar
  | openBrace => exact absurd ((mark_eq_iff rfl).1 hm) hopen
  | closeBrace => exact absurd ((mark_eq_iff rfl).1 hm) hclose
  | newline => exact absurd ((mark_eq_iff rfl).1 hm) hnewline
  | other => rfl

theorem Style.ofMarks?_eq_none {m : Mark} {ms : List Mark} (hquote : m ≠ .quote) (hat : m ≠ .at)
    (hdollar : m ≠ .dollar) : Style.ofMarks? (m :: ms) = none := by
  unfold Style.ofMarks?
  split <;> simp_all

namespace Literal

variable {c d : Char} {cs : List Char}

theorem style?_eq_none (hquote : c ≠ '\x22') (hat : c ≠ '@') (hdollar : c ≠ '$') :
    style? (c :: cs) = none :=
  Style.ofMarks?_eq_none (mt (mark_eq_iff rfl).1 hquote) (mt (mark_eq_iff rfl).1 hat)
    (mt (mark_eq_iff rfl).1 hdollar)

/-- An at sign opens a string only before a quote or a dollar sign. -/
theorem style?_at_eq_none (hquote : d ≠ '\x22') (hdollar : d ≠ '$') :
    style? ('@' :: d :: cs) = none := by
  have hq : mark d ≠ .quote := mt (mark_eq_iff rfl).1 hquote
  have hd : mark d ≠ .dollar := mt (mark_eq_iff rfl).1 hdollar
  change Style.ofMarks? (.at :: mark d :: (cs.take 1).map mark) = none
  unfold Style.ofMarks?
  split <;> simp_all

/-- A name opens no string, nor does an at sign before it. -/
theorem style?_name_eq_none {sign name : List Char} (rest : List Char)
    (hsign : sign = [] ∨ sign = ['@']) (hne : name ≠ []) (hname : ∀ c ∈ name, c ∉ ['\x22', '@', '$']) :
    style? (sign ++ name ++ rest) = none := by
  obtain ⟨c, name, rfl⟩ := List.exists_cons_of_ne_nil hne
  have hc := hname c List.mem_cons_self
  simp only [List.mem_cons, List.not_mem_nil, or_false, not_or] at hc
  obtain ⟨hquote, hat, hdollar⟩ := hc
  rcases hsign with rfl | rfl
  · exact style?_eq_none hquote hat hdollar
  · exact style?_at_eq_none hquote hdollar

end Literal

theorem Boundary.append_of_commentTail? {cs tail rest : List Char}
    (h : commentTail? cs = some (tail, rest)) : tail ++ rest = cs := by
  fun_induction commentTail? cs generalizing tail with
  | case1 => cases h; rfl
  | case2 c cs _ ih =>
    obtain ⟨⟨tail', rest'⟩, htail, heq⟩ := Option.map_eq_some_iff.1 h
    cases heq
    rw [List.cons_append, ih htail]
  | case3 => cases h

/-! ## Cells of a segment -/

namespace Cell

variable {c : Char} {cs s u rest : List Char} {cells more : List Cell}

/-- A character that opens nothing, whatever follows it. -/
def isPlain (c : Char) : Bool :=
  !(['/', '\x22', '\x27', '@', '$'].contains c)

theorem notMem_of_isPlain (h : isPlain c) : c ∉ ['\x22', '@', '$'] := by
  intro hc
  simp only [List.mem_cons, List.not_mem_nil, or_false] at hc
  rcases hc with rfl | rfl | rfl <;> exact absurd h (by decide)

theorem next?_lineComment :
    next? ('/' :: '/' :: cs) =
      some (('/' :: '/' :: cs.takeWhile (· ≠ '\n')).map (.char .comment),
        cs.dropWhile (· ≠ '\n')) := rfl

theorem next?_blockComment :
    next? ('/' :: '*' :: cs) =
      (Boundary.commentTail? cs).map fun (tail, rest) =>
        (('/' :: '*' :: tail).map (.char .comment), rest) := rfl

theorem next?_string (h : (Literal.style? (c :: cs)).isSome) :
    next? (c :: cs) =
      (Literal.string? (c :: cs)).map fun (pieces, rest) => (pieces.flatMap ofPiece, rest) := by
  have hslash : c ≠ '/' := by
    rintro rfl
    rw [Literal.style?_eq_none (by decide) (by decide) (by decide)] at h
    cases h
  rw [next?, if_pos h]
  · exact fun _ hc => absurd hc hslash
  · exact fun _ hc => absurd hc hslash

theorem next?_char :
    next? ('\x27' :: cs) =
      (Literal.char? cs).map fun (tail, rest) =>
        (('\x27' :: tail).map (.char .charLiteral), rest) := by
  have hstyle : Literal.style? ('\x27' :: cs) = none :=
    Literal.style?_eq_none (by decide) (by decide) (by decide)
  rw [next?, hstyle, if_neg nofun, if_pos rfl]
  · exact fun _ hc => absurd hc (by decide)
  · exact fun _ hc => absurd hc (by decide)

theorem next?_code (hstyle : Literal.style? (c :: cs) = none) (hchar : c ≠ '\x27')
    (hcomment : c = '/' → cs.head? ≠ some '/' ∧ cs.head? ≠ some '*') :
    next? (c :: cs) = some ([.char .code c], cs) := by
  rw [next?, hstyle, if_neg nofun, if_neg hchar]
  · rintro tail rfl rfl
    exact (hcomment rfl).1 rfl
  · rintro tail rfl rfl
    exact (hcomment rfl).2 rfl

theorem next?_plain (h : isPlain c) : next? (c :: cs) = some ([.char .code c], cs) := by
  simp only [isPlain, List.contains_eq_mem, List.mem_cons, List.not_mem_nil, or_false,
    not_or, Bool.not_eq_true', decide_eq_false_iff_not] at h
  obtain ⟨hslash, hquote, hchar, hat, hdollar⟩ := h
  exact next?_code (Literal.style?_eq_none hquote hat hdollar) hchar fun hc => absurd hc hslash

/-- What comes next is a stretch of one role, at the end of which a character literal closes, or a
string literal. -/
theorem next?_cases (h : next? s = some (cells, rest)) :
    (∃ role t, t ≠ [] ∧ s = t ++ rest ∧ cells = t.map (.char role) ∧ role ≠ .stringText ∧
        (role = .charLiteral → t.getLast? = some '\x27')) ∨
      ∃ pieces, Literal.string? s = some (pieces, rest) ∧ cells = pieces.flatMap ofPiece := by
  unfold next? at h
  split at h
  · cases h
  · rename_i cs
    cases h
    refine .inl ⟨.comment, _, List.cons_ne_nil _ _, ?_, rfl, nofun, nofun⟩
    rw [List.cons_append, List.cons_append, List.takeWhile_append_dropWhile]
  · obtain ⟨⟨tail, rest'⟩, htail, heq⟩ := Option.map_eq_some_iff.1 h
    cases heq
    refine .inl ⟨.comment, _, List.cons_ne_nil _ _, ?_, rfl, nofun, nofun⟩
    rw [List.cons_append, List.cons_append, Boundary.append_of_commentTail? htail]
  · rename_i c cs _ _
    split at h
    · obtain ⟨⟨pieces, rest'⟩, hread, heq⟩ := Option.map_eq_some_iff.1 h
      cases heq
      exact .inr ⟨pieces, hread, rfl⟩
    · split at h
      · obtain ⟨⟨tail, rest'⟩, hread, heq⟩ := Option.map_eq_some_iff.1 h
        cases heq
        refine .inl ⟨.charLiteral, c :: tail, List.cons_ne_nil _ _, ?_, rfl, nofun, fun _ => ?_⟩
        · rw [List.cons_append, Literal.append_of_char? hread]
        · obtain ⟨v, q, rfl, hq⟩ := Literal.exists_close_of_char? hread
          rw [(mark_eq_iff rfl).1 hq, ← List.cons_append, List.getLast?_concat]
      · cases h
        exact .inl ⟨.code, [c], List.cons_ne_nil _ _, rfl, rfl, nofun, nofun⟩

@[simp] theorem flatMap_text_map_char (role : Role) (t : List Char) :
    (t.map (.char role)).flatMap text = t := by
  rw [List.flatMap_map]
  exact List.flatMap_singleton' t

@[simp] theorem flatMap_text_ofPiece (p : Piece Char) : (ofPiece p).flatMap text = p.units := by
  cases p with
  | text s => exact flatMap_text_map_char .stringText s
  | hole code => exact List.append_nil code

theorem flatMap_text_pieces (pieces : List (Piece Char)) :
    (pieces.flatMap ofPiece).flatMap text = Piece.flatten pieces := by
  rw [List.flatMap_assoc]
  exact congrArg (pieces.flatMap ·) (funext flatMap_text_ofPiece)

/-- Nothing is lost. -/
theorem text_append_of_next? (h : next? s = some (cells, rest)) :
    cells.flatMap text ++ rest = s := by
  obtain ⟨role, t, _, rfl, rfl, _⟩ | ⟨pieces, hread, rfl⟩ := next?_cases h
  · rw [flatMap_text_map_char]
  · rw [flatMap_text_pieces, Literal.flatten_append_of_string? hread]

theorem length_rest_lt_of_next? (h : next? s = some (cells, rest)) : rest.length < s.length := by
  obtain ⟨role, t, hne, rfl, rfl, _⟩ | ⟨pieces, hread, rfl⟩ := next?_cases h
  · have := List.length_pos_iff.2 hne
    rw [List.length_append]
    omega
  · exact Literal.length_rest_lt_of_string? hread

theorem segment?_nil : segment? [] = some [] := by
  rw [segment?, if_pos rfl]

theorem segment?_of_next? (h : next? s = some (cells, rest)) :
    segment? s = (segment? rest).map (cells ++ ·) := by
  have hlt := length_rest_lt_of_next? h
  have hne : s ≠ [] := List.ne_nil_of_length_pos (Nat.zero_lt_of_lt hlt)
  rw [segment?, if_neg hne, h]
  simp only [Option.bind_eq_bind, Option.bind_some, if_pos hlt]
  cases segment? rest <;> rfl

/-- Cells are taken from the start of a segment, again and again. -/
theorem segment?_induction {P : List Char → List Cell → Prop} (nil : P [] [])
    (cons : ∀ s first rest more, next? s = some (first, rest) → P rest more → P s (first ++ more))
    (h : segment? s = some cells) : P s cells := by
  fun_induction segment? s generalizing cells with
  | case1 => cases h; exact nil
  | case2 s hne ih =>
    simp only [Option.bind_eq_bind, Option.bind_eq_some_iff, Prod.exists] at h
    obtain ⟨first, rest, hfirst, h⟩ := h
    obtain ⟨hlt, h⟩ := Option.ite_none_right_eq_some.1 h
    obtain ⟨more, hmore, heq⟩ := Option.bind_eq_some_iff.1 h
    cases heq
    exact cons s first rest more hfirst (ih rest hlt hmore)

/-- The cells of a segment hold its text. -/
theorem flatMap_text_of_segment? (h : segment? s = some cells) : cells.flatMap text = s := by
  refine segment?_induction (P := fun s cells => cells.flatMap text = s) rfl ?_ h
  intro s first rest more hfirst ih
  rw [List.flatMap_append, ih, text_append_of_next? hfirst]

/-- A stretch of characters that open nothing is code. -/
theorem segment?_append_plain (hu : ∀ c ∈ u, isPlain c) :
    segment? (u ++ rest) = (segment? rest).map (u.map (.char .code) ++ ·) := by
  induction u with
  | nil => exact Option.map_id'.symm
  | cons c u ih =>
    obtain ⟨hc, hu⟩ := List.forall_mem_cons.1 hu
    rw [List.cons_append, segment?_of_next? (next?_plain hc), ih hu, Option.map_map]
    rfl

/-- A name is code, and so is an at sign before it. -/
theorem segment?_append_name {sign name : List Char} (hsign : sign = [] ∨ sign = ['@'])
    (hne : name ≠ []) (hname : ∀ c ∈ name, isPlain c) :
    segment? (sign ++ name ++ rest) =
      (segment? rest).map ((sign ++ name).map (.char .code) ++ ·) := by
  have hstyle := Literal.style?_name_eq_none rest hsign hne fun c hc =>
    (notMem_of_isPlain (hname c hc))
  rcases hsign with rfl | rfl
  · exact segment?_append_plain hname
  · have hnext : next? ('@' :: (name ++ rest)) = some ([.char .code '@'], name ++ rest) :=
      next?_code hstyle (by decide) (fun h => absurd h (by decide))
    change segment? ('@' :: (name ++ rest)) = _
    rw [segment?_of_next? hnext, segment?_append_plain hname, Option.map_map]
    rfl

theorem next?_of_string {pieces : List (Piece Char)}
    (h : Literal.string? s = some (pieces, rest)) :
    next? s = some (pieces.flatMap ofPiece, rest) := by
  obtain ⟨style, hstyle, _⟩ := Literal.string?_eq_some.1 h
  have hlt := Literal.length_rest_lt_of_string? h
  obtain ⟨c, cs, rfl⟩ := List.exists_cons_of_length_pos (Nat.zero_lt_of_lt hlt)
  rw [next?_string (Option.isSome_of_eq_some hstyle), h]
  rfl

end Cell

/-! ## Roles -/

namespace Role

/-- The roles of a segment, from its cells: a hole becomes roles that `R` relates to its code. -/
inductive Filled (R : List Char → List Role → Prop) : List Cell → List Role → Prop where
  | nil : Filled R [] []
  | char (role : Role) (c : Char) {cells : List Cell} {roles : List Role} :
      Filled R cells roles → Filled R (.char role c :: cells) (role :: roles)
  | hole {code : List Char} {inner : List Role} {cells : List Cell} {roles : List Role} :
      R code inner → Filled R cells roles → Filled R (.hole code :: cells) (inner ++ roles)

variable {s : List Char} {cells : List Cell} {roles : List Role}

theorem Filled.map_char {R : List Char → List Role → Prop} (l : List (Role × Char))
    (h : Filled R cells roles) :
    Filled R (l.map (fun p => Cell.char p.1 p.2) ++ cells) (l.map Prod.fst ++ roles) := by
  induction l with
  | nil => exact h
  | cons p l ih => exact .char p.1 p.2 ih

/-- One level of roles. -/
theorem filled_of_ofText? (h : ofText? s = some roles) :
    ∃ cells, Cell.segment? s = some cells ∧
      Filled (fun code inner => code.length < s.length ∧ ofText? code = some inner) cells
        roles := by
  rw [ofText?] at h
  simp only [Option.bind_eq_bind, Option.bind_eq_some_iff, Option.pure_def, Option.some.injEq] at h
  obtain ⟨cells, hcells, roles, hmap, rfl⟩ := h
  refine ⟨cells, hcells, ?_⟩
  clear hcells
  induction cells generalizing roles with
  | nil =>
    cases hmap
    exact .nil
  | cons cell cells ih =>
    simp only [List.mapM_cons, Option.bind_eq_bind, Option.bind_eq_some_iff, Option.pure_def,
      Option.some.injEq] at hmap
    obtain ⟨first, hfirst, others, hothers, rfl⟩ := hmap
    rw [List.flatten_cons]
    cases cell with
    | char role c =>
      cases hfirst
      exact .char role c (ih others hothers)
    | hole code => exact .hole (Option.ite_none_right_eq_some.1 hfirst) (ih others hothers)

theorem ofText?_of_filled (hs : Cell.segment? s = some cells)
    (h : Filled (fun code inner => code.length < s.length ∧ ofText? code = some inner) cells
      roles) :
    ofText? s = some roles := by
  rw [ofText?, hs]
  simp only [Option.bind_eq_bind, Option.bind_some, Option.bind_eq_some_iff, Option.pure_def,
    Option.some.injEq]
  clear hs
  induction h with
  | nil => exact ⟨[], rfl, rfl⟩
  | char role c _ ih =>
    obtain ⟨more, hmore, rfl⟩ := ih
    refine ⟨[role] :: more, ?_, rfl⟩
    rw [List.mapM_cons, hmore]
    rfl
  | @hole code inner _ _ hcode _ ih =>
    obtain ⟨more, hmore, rfl⟩ := ih
    refine ⟨inner :: more, ?_, rfl⟩
    rw [List.mapM_cons, hmore]
    simp [hcode.1, hcode.2]

end Role
end MapPlan.Expr
