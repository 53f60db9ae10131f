import MapPlan.Expr.Rename
import MapPlan.Proofs.Expr.Role
import MapPlan.Proofs.Text.Slice

/-!
# Reading and renaming a markup

What holds of the holes of a segment's parts and passes from them to the whole holds of every markup
that is read, at any depth. Two such facts: the markup has the characters of the text, and its words
are code.

Renaming in a markup replaces the byte ranges of the words it renames, and nothing else.
-/

namespace MapPlan.Expr

variable {name target s : List Char} {parts : List Part} {m m' : Markup}

theorem eq_bare_or_eq_cons (s : List Char) : s = bare s ∨ s = '@' :: bare s := by
  unfold bare
  split
  · exact .inr rfl
  · exact .inl rfl

def Part.text : Part → List Char
  | .plain s | .hole s => s
  | .word w => w.text

theorem Part.word_notMem_map_ofPiece (pieces : List (Piece Char)) (w : Word) :
    .word w ∉ pieces.map Part.ofPiece := by
  rintro hw
  obtain ⟨p, _, hp⟩ := List.mem_map.1 hw
  cases p <;> cases hp

/-! ## Reading -/

/-- The markup of a segment, from its parts: a hole becomes a markup that `R` relates to its
code. -/
inductive Filled (R : List Char → Markup → Prop) : List Part → Markup → Prop where
  | nil : Filled R [] []
  | plain (s : List Char) {parts : List Part} {m : Markup} :
      Filled R parts m → Filled R (.plain s :: parts) (.plain s :: m)
  | word (w : Word) {parts : List Part} {m : Markup} :
      Filled R parts m → Filled R (.word w :: parts) (.word w :: m)
  | hole {code : List Char} {inner : Markup} {parts : List Part} {m : Markup} :
      R code inner → Filled R parts m → Filled R (.hole code :: parts) (inner ++ m)

theorem Filled.mono {R R' : List Char → Markup → Prop} (h : Filled R parts m)
    (hR : ∀ code inner, .hole code ∈ parts → R code inner → R' code inner) :
    Filled R' parts m := by
  induction h with
  | nil => exact .nil
  | plain s _ ih => exact .plain s (ih fun _ _ hmem => hR _ _ (List.mem_cons_of_mem _ hmem))
  | word w _ ih => exact .word w (ih fun _ _ hmem => hR _ _ (List.mem_cons_of_mem _ hmem))
  | hole hcode _ ih =>
    exact .hole (hR _ _ List.mem_cons_self hcode)
      (ih fun _ _ hmem => hR _ _ (List.mem_cons_of_mem _ hmem))

/-- Parts have a markup where their holes have one, and only there. -/
theorem exists_filled_iff {R : List Char → Markup → Prop} :
    (∃ m, Filled R parts m) ↔ ∀ code, .hole code ∈ parts → ∃ inner, R code inner := by
  constructor
  · rintro ⟨m, h⟩ code hmem
    induction h with
    | nil => cases hmem
    | plain s _ ih => exact ih ((List.mem_cons.1 hmem).resolve_left nofun)
    | word w _ ih => exact ih ((List.mem_cons.1 hmem).resolve_left nofun)
    | hole hcode _ ih =>
      rcases List.mem_cons.1 hmem with heq | hmem
      · cases heq
        exact ⟨_, hcode⟩
      · exact ih hmem
  · intro h
    induction parts with
    | nil => exact ⟨[], .nil⟩
    | cons p parts ih =>
      obtain ⟨m, hm⟩ := ih fun code hmem => h code (List.mem_cons_of_mem _ hmem)
      cases p with
      | plain s => exact ⟨_, .plain s hm⟩
      | word w => exact ⟨_, .word w hm⟩
      | hole code =>
        obtain ⟨inner, hinner⟩ := h code List.mem_cons_self
        exact ⟨_, .hole hinner hm⟩

theorem Filled.forall_word {R : List Char → Markup → Prop} {parts : List Part} {P : Word → Prop}
    (h : Filled R parts m) (hparts : ∀ w, Part.word w ∈ parts → P w)
    (hR : ∀ code inner, R code inner → ∀ w, Fragment.word w ∈ inner → P w) :
    ∀ w, Fragment.word w ∈ m → P w := by
  induction h with
  | nil => exact fun w hw => absurd hw List.not_mem_nil
  | plain s _ ih =>
    intro w hw
    exact ih (fun w hw => hparts w (List.mem_cons_of_mem _ hw)) w
      ((List.mem_cons.1 hw).resolve_left nofun)
  | word w' _ ih =>
    intro w hw
    rcases List.mem_cons.1 hw with heq | hw
    · cases heq
      exact hparts w' List.mem_cons_self
    · exact ih (fun w hw => hparts w (List.mem_cons_of_mem _ hw)) w hw
  | hole hcode _ ih =>
    intro w hw
    rcases List.mem_append.1 hw with hw | hw
    · exact hR _ _ hcode w hw
    · exact ih (fun w hw => hparts w (List.mem_cons_of_mem _ hw)) w hw

theorem Filled.append {R : List Char → Markup → Prop} {parts' : List Part}
    (h : Filled R parts m) (h' : Filled R parts' m') : Filled R (parts ++ parts') (m ++ m') := by
  induction h with
  | nil => exact h'
  | plain s _ ih => exact .plain s ih
  | word w _ ih => exact .word w ih
  | hole hcode _ ih =>
    rw [List.append_assoc]
    exact .hole hcode ih

theorem Filled.append_left {R : List Char → Markup → Prop} {parts' : List Part}
    (h : Filled R (parts ++ parts') m) :
    ∃ m₁ m₂, m = m₁ ++ m₂ ∧ Filled R parts m₁ ∧ Filled R parts' m₂ := by
  induction parts generalizing m with
  | nil => exact ⟨[], m, rfl, .nil, h⟩
  | cons p parts ih =>
    cases h with
    | plain s h =>
      obtain ⟨m₁, m₂, rfl, h₁, h₂⟩ := ih h
      exact ⟨_, m₂, rfl, .plain s h₁, h₂⟩
    | word w h =>
      obtain ⟨m₁, m₂, rfl, h₁, h₂⟩ := ih h
      exact ⟨_, m₂, rfl, .word w h₁, h₂⟩
    | hole hcode h =>
      obtain ⟨m₁, m₂, rfl, h₁, h₂⟩ := ih h
      exact ⟨_, m₂, (List.append_assoc _ _ _).symm, .hole hcode h₁, h₂⟩

namespace Markup

variable {parts? : List Char → Option (List Part)}

/-- One level of reading. -/
theorem filled_of_read? (h : read? parts? s = some m) :
    ∃ parts, parts? s = some parts ∧
      Filled (fun code inner => code.length < s.length ∧ read? parts? code = some inner) parts
        m := by
  rw [read?] at h
  simp only [Option.bind_eq_bind, Option.bind_eq_some_iff, Option.pure_def, Option.some.injEq] at h
  obtain ⟨parts, hparts, fragments, hmap, rfl⟩ := h
  refine ⟨parts, hparts, ?_⟩
  clear hparts
  induction parts generalizing fragments with
  | nil =>
    cases hmap
    exact .nil
  | cons p parts ih =>
    simp only [List.mapM_cons, Option.bind_eq_bind, Option.bind_eq_some_iff, Option.pure_def,
      Option.some.injEq] at hmap
    obtain ⟨first, hfirst, others, hothers, rfl⟩ := hmap
    rw [List.flatten_cons]
    cases p with
    | plain t =>
      cases hfirst
      exact .plain t (ih others hothers)
    | word w =>
      cases hfirst
      exact .word w (ih others hothers)
    | hole code => exact .hole (Option.ite_none_right_eq_some.1 hfirst) (ih others hothers)

theorem read?_of_filled (hparts : parts? s = some parts)
    (h : Filled (fun code inner => code.length < s.length ∧ read? parts? code = some inner) parts
      m) :
    read? parts? s = some m := by
  rw [read?, hparts]
  simp only [Option.bind_eq_bind, Option.bind_some, Option.bind_eq_some_iff, Option.pure_def,
    Option.some.injEq]
  clear hparts
  induction h with
  | nil => exact ⟨[], rfl, rfl⟩
  | plain s _ ih =>
    obtain ⟨fragments, hmap, rfl⟩ := ih
    refine ⟨[.plain s] :: fragments, ?_, rfl⟩
    rw [List.mapM_cons, hmap]
    rfl
  | word w _ ih =>
    obtain ⟨fragments, hmap, rfl⟩ := ih
    refine ⟨[.word w] :: fragments, ?_, rfl⟩
    rw [List.mapM_cons, hmap]
    rfl
  | @hole code inner _ _ hcode _ ih =>
    obtain ⟨fragments, hmap, rfl⟩ := ih
    refine ⟨inner :: fragments, ?_, rfl⟩
    rw [List.mapM_cons, hmap]
    simp [hcode.1, hcode.2]

/-- What passes from the holes of a segment to the segment holds of all markup that is read. -/
theorem read?_induction {P : List Char → Markup → Prop}
    (step : ∀ s parts m, parts? s = some parts →
      Filled (fun code inner => code.length < s.length ∧ read? parts? code = some inner ∧
        P code inner) parts m → P s m)
    {s : List Char} {m : Markup} (h : read? parts? s = some m) : P s m := by
  obtain ⟨parts, hparts, hfilled⟩ := filled_of_read? h
  refine step s parts m hparts (hfilled.mono fun code inner _ hcode => ?_)
  exact ⟨hcode.1, hcode.2, read?_induction step hcode.2⟩
termination_by s.length
decreasing_by exact hcode.1

/-! ## Text -/

@[simp] theorem text_nil : text [] = [] := rfl

@[simp] theorem text_cons (f : Fragment) (m : Markup) : text (f :: m) = f.text ++ text m := rfl

@[simp] theorem text_append (m m' : Markup) : text (m ++ m') = text m ++ text m' :=
  List.flatMap_append

@[simp] theorem rename_append (m m' : Markup) :
    rename name target (m ++ m') = rename name target m ++ rename name target m' :=
  List.flatMap_append

end Markup

theorem Filled.text_eq {R : List Char → Markup → Prop}
    (hR : ∀ code inner, R code inner → inner.text = code) (h : Filled R parts m) :
    m.text = parts.flatMap Part.text := by
  induction h with
  | nil => rfl
  | plain s _ ih => exact congrArg (s ++ ·) ih
  | word w _ ih => exact congrArg (w.text ++ ·) ih
  | hole hcode _ ih =>
    rw [Markup.text_append, hR _ _ hcode, ih]
    rfl

/-! ## Roles -/

/-- The parts of a segment lie over its cells: each word over code, each hole over itself. -/
inductive Covers : List Part → List Cell → Prop where
  | nil : Covers [] []
  | plain (l : List (Role × Char)) {parts : List Part} {cells : List Cell} :
      Covers parts cells →
      Covers (.plain (l.map Prod.snd) :: parts) (l.map (fun p => .char p.1 p.2) ++ cells)
  | word {w : Word} {parts : List Part} {cells : List Cell} :
      w.text ≠ [] → Covers parts cells →
      Covers (.word w :: parts) (w.text.map (.char .code) ++ cells)
  | hole (code : List Char) {parts : List Part} {cells : List Cell} :
      Covers parts cells → Covers (.hole code :: parts) (.hole code :: cells)

/-- The fragments of a markup lie over the roles of its characters: each word over code. -/
inductive Shown : Markup → List Role → Prop where
  | nil : Shown [] []
  | plain {s : List Char} {roles : List Role} {m : Markup} {more : List Role} :
      roles.length = s.length → Shown m more → Shown (.plain s :: m) (roles ++ more)
  | word {w : Word} {m : Markup} {more : List Role} :
      w.text ≠ [] → Shown m more →
      Shown (.word w :: m) (List.replicate w.text.length .code ++ more)

namespace Covers

variable {cells cells' : List Cell} {parts' : List Part}

theorem append (h : Covers parts cells) (h' : Covers parts' cells') :
    Covers (parts ++ parts') (cells ++ cells') := by
  induction h with
  | nil => exact h'
  | plain l _ ih =>
    rw [List.append_assoc]
    exact .plain l ih
  | word hne _ ih =>
    rw [List.append_assoc]
    exact .word hne ih
  | hole code _ ih => exact .hole code ih

theorem exists_append (h : Covers (parts ++ parts') cells) :
    ∃ cells₁ cells₂, cells = cells₁ ++ cells₂ ∧ Covers parts cells₁ ∧ Covers parts' cells₂ := by
  induction parts generalizing cells with
  | nil => exact ⟨[], cells, rfl, .nil, h⟩
  | cons p parts ih =>
    cases h with
    | plain l h =>
      obtain ⟨cells₁, cells₂, rfl, h₁, h₂⟩ := ih h
      exact ⟨_, cells₂, (List.append_assoc _ _ _).symm, .plain l h₁, h₂⟩
    | word hne h =>
      obtain ⟨cells₁, cells₂, rfl, h₁, h₂⟩ := ih h
      exact ⟨_, cells₂, (List.append_assoc _ _ _).symm, .word hne h₁, h₂⟩
    | hole code h =>
      obtain ⟨cells₁, cells₂, rfl, h₁, h₂⟩ := ih h
      exact ⟨_, cells₂, rfl, .hole code h₁, h₂⟩

/-- Text of one role. -/
theorem plain_role (role : Role) (s : List Char) (h : Covers parts cells) :
    Covers (.plain s :: parts) (s.map (.char role) ++ cells) := by
  have := Covers.plain (s.map (role, ·)) h
  simpa [List.map_map, Function.comp_def] using this

theorem single_role (role : Role) (s : List Char) :
    Covers [.plain s] (s.map (.char role)) := by
  have := plain_role role s .nil
  rwa [List.append_nil] at this

theorem pieces (pieces : List (Piece Char)) :
    Covers (pieces.map Part.ofPiece) (pieces.flatMap Cell.ofPiece) := by
  induction pieces with
  | nil => exact .nil
  | cons p pieces ih =>
    cases p with
    | text s => exact plain_role .stringText s ih
    | hole code => exact .hole code ih

end Covers

theorem Shown.append {roles roles' : List Role} (h : Shown m roles) (h' : Shown m' roles') :
    Shown (m ++ m') (roles ++ roles') := by
  induction h with
  | nil => exact h'
  | plain hlen _ ih =>
    rw [List.append_assoc]
    exact .plain hlen ih
  | word hne _ ih =>
    rw [List.append_assoc]
    exact .word hne ih

theorem Shown.length_eq {roles : List Role} (h : Shown m roles) :
    roles.length = m.text.length := by
  induction h with
  | nil => rfl
  | plain hlen _ ih => simp [Fragment.text, hlen, ih]
  | word _ _ ih => simp [Fragment.text, ih]

namespace Covers

variable {cells : List Cell}

theorem flatMap_text_eq (h : Covers parts cells) :
    parts.flatMap Part.text = cells.flatMap Cell.text := by
  induction h with
  | nil => rfl
  | plain l _ ih => simp [Part.text, Cell.text, List.flatMap_map, ih, ← List.map_eq_flatMap]
  | word _ _ ih => rw [List.flatMap_cons, List.flatMap_append, Cell.flatMap_text_map_char, ih]; rfl
  | hole code _ ih => rw [List.flatMap_cons, List.flatMap_cons, ih]; rfl

theorem hole_mem_iff (h : Covers parts cells) {code : List Char} :
    .hole code ∈ parts ↔ .hole code ∈ cells := by
  induction h with
  | nil => simp
  | plain l _ ih => simp [ih]
  | word _ _ ih => simp [ih]
  | hole code' _ ih => simp [ih]

theorem text_eq_flatMap {R : List Char → Markup → Prop}
    (hR : ∀ code inner, R code inner → inner.text = code) (h : Covers parts cells)
    (hm : Filled R parts m) : m.text = cells.flatMap Cell.text := by
  rw [hm.text_eq hR, h.flatMap_text_eq]

/-- Nothing is lost from the cells of a segment to the markup of the parts over them. -/
theorem text_eq {R : List Char → Markup → Prop}
    (hR : ∀ code inner, R code inner → inner.text = code) (hcells : Cell.segment? s = some cells)
    (h : Covers parts cells) (hm : Filled R parts m) : m.text = s := by
  rw [h.text_eq_flatMap hR hm, Cell.flatMap_text_of_segment? hcells]

/-- Where parts lie over cells, and the markup of each hole over its roles, the markup of the parts
lies over the roles of the cells. -/
theorem exists_shown {R : List Char → Markup → Prop} {R' : List Char → List Role → Prop}
    (hR : ∀ code inner, R code inner → ∃ roles, R' code roles ∧ Shown inner roles)
    (h : Covers parts cells) (hm : Filled R parts m) :
    ∃ roles, Role.Filled R' cells roles ∧ Shown m roles := by
  induction h generalizing m with
  | nil =>
    cases hm
    exact ⟨[], .nil, .nil⟩
  | plain l _ ih =>
    cases hm with
    | plain _ hm =>
      obtain ⟨roles, hfilled, hshown⟩ := ih hm
      exact ⟨l.map Prod.fst ++ roles, .map_char l hfilled, .plain (by simp) hshown⟩
  | @word w _ _ hne _ ih =>
    cases hm with
    | word _ hm =>
      obtain ⟨roles, hfilled, hshown⟩ := ih hm
      refine ⟨List.replicate w.text.length .code ++ roles, ?_, .word hne hshown⟩
      have := hfilled.map_char (w.text.map (Role.code, ·))
      simpa [List.map_map, Function.comp_def, ← List.map_const'] using this
  | hole code _ ih =>
    cases hm with
    | hole hcode hm =>
      obtain ⟨inner, hinner, hinnerShown⟩ := hR _ _ hcode
      obtain ⟨roles, hfilled, hshown⟩ := ih hm
      exact ⟨inner ++ roles, .hole hinner hfilled, hinnerShown.append hshown⟩

end Covers

namespace Markup

variable {parts? : List Char → Option (List Part)}

/-- A reader whose parts lie over the cells of every segment loses nothing. -/
theorem text_of_read?
    (hparts : ∀ s parts, parts? s = some parts → ∃ cells, Cell.segment? s = some cells ∧
      Covers parts cells)
    (h : read? parts? s = some m) : m.text = s := by
  refine read?_induction (P := fun s m => m.text = s) (fun s parts m hs hm => ?_) h
  obtain ⟨cells, hcells, hcovers⟩ := hparts s parts hs
  exact hcovers.text_eq (fun code inner h => h.2.2) hcells hm

/-- Such a reader gives words that are code, at any depth. -/
theorem exists_roles_of_read?
    (hparts : ∀ s parts, parts? s = some parts → ∃ cells, Cell.segment? s = some cells ∧
      Covers parts cells)
    (h : read? parts? s = some m) : ∃ roles, Role.ofText? s = some roles ∧ Shown m roles := by
  refine read?_induction (P := fun s m => ∃ roles, Role.ofText? s = some roles ∧ Shown m roles)
    (fun s parts m hs hm => ?_) h
  obtain ⟨cells, hcells, hcovers⟩ := hparts s parts hs
  have hR : ∀ code inner, (code.length < s.length ∧ read? parts? code = some inner ∧
        ∃ roles, Role.ofText? code = some roles ∧ Shown inner roles) →
      ∃ roles, (code.length < s.length ∧ Role.ofText? code = some roles) ∧ Shown inner roles :=
    fun code inner ⟨hlt, _, roles, hroles, hshown⟩ => ⟨roles, ⟨hlt, hroles⟩, hshown⟩
  obtain ⟨roles, hfilled, hshown⟩ := hcovers.exists_shown hR hm
  exact ⟨roles, Role.ofText?_of_filled hcells hfilled, hshown⟩

/-! ## Ranges -/

/-- The bytes of the words that stand for `name`, the first fragment at byte `start`. -/
def rangesFrom (name : List Char) (start : Nat) : Markup → List (Nat × Nat)
  | [] => []
  | f :: m =>
    let stop := start + Text.byteSize f.text
    if f.refersTo name then (start, stop) :: rangesFrom name stop m else rangesFrom name stop m

def ranges (name : List Char) (m : Markup) : List (Nat × Nat) :=
  m.rangesFrom name 0

theorem rangesFrom_append (name : List Char) (start : Nat) (m m' : Markup) :
    rangesFrom name start (m ++ m') =
      rangesFrom name start m ++ rangesFrom name (start + Text.byteSize m.text) m' := by
  induction m generalizing start with
  | nil => rfl
  | cons f m ih =>
    rw [List.cons_append, rangesFrom, rangesFrom, ih, text_cons, Text.byteSize_append,
      ← Nat.add_assoc]
    split <;> rfl

theorem length_rangesFrom (name : List Char) (start : Nat) (m : Markup) :
    (rangesFrom name start m).length = m.references name := by
  induction m generalizing start with
  | nil => rfl
  | cons f m ih =>
    rw [rangesFrom, references, List.countP_cons]
    split
    · exact congrArg (· + 1) (ih _)
    · exact ih _

theorem refersTo_word {w : Word} :
    (Fragment.word w).refersTo name ↔ w.member = false ∧ w.bare = name := by
  simp [Fragment.refersTo]

theorem mem_rangesFrom_cons {f : Fragment} {start : Nat} {r : Nat × Nat} :
    r ∈ rangesFrom name start (f :: m) ↔
      (f.refersTo name ∧ r = (start, start + Text.byteSize f.text)) ∨
        r ∈ rangesFrom name (start + Text.byteSize f.text) m := by
  rw [rangesFrom]
  split
  · simp [*]
  · simp [*]

/-- A range holds a word that stands for the name. -/
theorem exists_word_of_mem_rangesFrom {start : Nat} {r : Nat × Nat}
    (h : r ∈ rangesFrom name start m) :
    ∃ before w after, m = before ++ .word w :: after ∧ w.member = false ∧ w.bare = name ∧
      r.1 = start + Text.byteSize (text before) ∧ r.2 = r.1 + Text.byteSize w.text := by
  induction m generalizing start with
  | nil => cases h
  | cons f m ih =>
    rcases mem_rangesFrom_cons.1 h with ⟨href, rfl⟩ | h
    · cases f with
      | plain s => cases href
      | word w =>
        obtain ⟨hmember, hbare⟩ := refersTo_word.1 href
        exact ⟨[], w, m, rfl, hmember, hbare, rfl, rfl⟩
    · obtain ⟨before, w, after, rfl, hmember, hbare, hlo, hhi⟩ := ih h
      refine ⟨f :: before, w, after, rfl, hmember, hbare, ?_, hhi⟩
      rw [hlo, text_cons, Text.byteSize_append, Nat.add_assoc]

theorem le_of_mem_rangesFrom {start : Nat} {r : Nat × Nat} (h : r ∈ rangesFrom name start m) :
    start ≤ r.1 := by
  obtain ⟨before, w, after, _, _, _, hlo, _⟩ := exists_word_of_mem_rangesFrom h
  omega

theorem pairwise_rangesFrom (name : List Char) (start : Nat) (m : Markup) :
    (rangesFrom name start m).Pairwise fun r r' => r.2 ≤ r'.1 := by
  induction m generalizing start with
  | nil => exact .nil
  | cons f m ih =>
    rw [rangesFrom]
    split
    · exact List.pairwise_cons.2 ⟨fun r hr => le_of_mem_rangesFrom hr, ih _⟩
    · exact ih _

/-- Renaming replaces the ranges and keeps all else. The text up to byte `cursor` is dealt with, and
the markup starts behind `before`. -/
theorem replaceFrom_rangesFrom (name target : List Char) {s before : List Char} {cursor : Nat}
    (hs : s = before ++ text m) (hcursor : cursor ≤ Text.byteSize before) :
    Text.replaceFrom s target cursor (rangesFrom name (Text.byteSize before) m) =
      Text.slice s cursor (Text.byteSize before) ++ rename name target m := by
  induction m generalizing before cursor with
  | nil =>
    rw [text_nil, List.append_nil] at hs
    rw [rangesFrom, Text.replaceFrom, hs]
    exact (List.append_nil _).symm
  | cons f m ih =>
    have hs' : s = (before ++ f.text) ++ text m := by rw [hs, text_cons, List.append_assoc]
    have hstop : Text.byteSize (before ++ f.text) = Text.byteSize before + Text.byteSize f.text :=
      Text.byteSize_append _ _
    have hself : Text.slice s (Text.byteSize before) (Text.byteSize before + Text.byteSize f.text) =
        f.text := by rw [hs', Text.slice_append]
    rw [rangesFrom, ← hstop]
    change _ = _ ++ ((if f.refersTo name then target else f.text) ++ rename name target m)
    split
    · rw [Text.replaceFrom, ih hs' (Nat.le_refl _), Text.slice_self, List.append_assoc]
      rfl
    · rw [ih hs' (by omega), hstop, ← Text.slice_trans hcursor (Nat.le_add_right _ _), hself,
        List.append_assoc]

theorem replace_ranges (name target : List Char) (m : Markup) :
    Text.replace m.text target (m.ranges name) = m.rename name target := by
  have hs : m.text = [] ++ m.text := rfl
  have := replaceFrom_rangesFrom name target hs (Nat.le_refl 0)
  rwa [Text.byteSize_nil, Text.slice_self] at this

/-- The ranges of a markup are ranges of its text. -/
theorem areRanges_ranges (hne : ∀ w, .word w ∈ m → w.text ≠ []) :
    Text.AreRanges m.text (m.ranges name) where
  ordered := pairwise_rangesFrom name 0 m
  nonempty := by
    intro r hr
    obtain ⟨before, w, after, rfl, _, _, _, hhi⟩ := exists_word_of_mem_rangesFrom hr
    have := Text.byteSize_pos (hne w (by simp))
    omega
  boundary := by
    intro r hr
    obtain ⟨before, w, after, rfl, _, _, hlo, hhi⟩ := exists_word_of_mem_rangesFrom hr
    rw [Nat.zero_add] at hlo
    rw [text_append, text_cons, hhi, hlo]
    refine ⟨Text.isBoundary_append_left _ _, ?_⟩
    rw [← List.append_assoc, ← Text.byteSize_append]
    exact Text.isBoundary_append_left _ _

/-- The slice of a range is the name, perhaps behind an at sign. -/
theorem slice_of_mem_ranges {r : Nat × Nat} (hr : r ∈ m.ranges name) :
    Text.slice m.text r.1 r.2 = name ∨ Text.slice m.text r.1 r.2 = '@' :: name := by
  obtain ⟨before, w, after, rfl, _, hbare, hlo, hhi⟩ := exists_word_of_mem_rangesFrom hr
  rw [Nat.zero_add] at hlo
  have hslice : Text.slice (text (before ++ .word w :: after)) r.1 r.2 = w.text := by
    rw [hhi, hlo, text_append, text_cons, ← List.append_assoc]
    exact Text.slice_append _ _ _
  rw [hslice, ← hbare]
  exact eq_bare_or_eq_cons w.text

end Markup

theorem Shown.text_ne_nil {roles : List Role} (h : Shown m roles) {w : Word}
    (hw : .word w ∈ m) : w.text ≠ [] := by
  induction h with
  | nil => cases hw
  | plain _ _ ih => exact ih ((List.mem_cons.1 hw).resolve_left nofun)
  | word hne _ ih =>
    rcases List.mem_cons.1 hw with heq | hw
    · cases heq
      exact hne
    · exact ih hw

/-- All characters that start in the bytes of a range are code. -/
def Role.AreCode (s : List Char) (roles : List Role) (r : Nat × Nat) : Prop :=
  ∀ p ∈ (Text.offsetsFrom 0 s).zip roles, r.1 ≤ p.1 → p.1 < r.2 → p.2 = .code

/-- The ranges of the words of a markup lie in the code of its text. -/
theorem Shown.code_of_mem_rangesFrom {roles : List Role} {start : Nat} {r : Nat × Nat}
    (h : Shown m roles) (hr : r ∈ m.rangesFrom name start) :
    ∀ p ∈ (Text.offsetsFrom start m.text).zip roles, r.1 ≤ p.1 → p.1 < r.2 → p.2 = .code := by
  induction h generalizing start with
  | nil => exact nofun
  | @plain s roles m more hlen _ ih =>
    intro p hp hlo hhi
    rw [Markup.text_cons, Text.offsetsFrom_append,
      List.zip_append (by rw [Text.length_offsetsFrom]; exact hlen.symm)] at hp
    replace hr : r ∈ m.rangesFrom name (start + Text.byteSize s) := hr
    rcases List.mem_append.1 hp with hp | hp
    · have hbound := (Text.bounds_of_mem_offsetsFrom (List.of_mem_zip hp).1).2
      have hstart := Markup.le_of_mem_rangesFrom hr
      exact absurd (Nat.lt_of_lt_of_le hbound hstart) (Nat.not_lt_of_le hlo)
    · exact ih hr p hp hlo hhi
  | @word w m more _ hshown ih =>
    intro p hp hlo hhi
    rw [Markup.text_cons, Text.offsetsFrom_append,
      List.zip_append (by rw [Text.length_offsetsFrom, List.length_replicate]; rfl)] at hp
    rcases List.mem_append.1 hp with hp | hp
    · exact List.eq_of_mem_replicate (List.of_mem_zip hp).2
    · rcases Markup.mem_rangesFrom_cons.1 hr with ⟨_, rfl⟩ | hr
      · have := (Text.bounds_of_mem_offsetsFrom (List.of_mem_zip hp).1).1
        exact absurd hhi (Nat.not_lt_of_le this)
      · exact ih hr p hp hlo hhi

end MapPlan.Expr
