import MapPlan.Expr.Rename
import MapPlan.Proofs.Expr.Scan

/-!
# Token structure

The tokens of a text at every depth of holes, as one list: the tokens of a hole stand between
brackets, among the text of the literal that holds it. Renaming acts on such a list one entry at a
time, and on the tokens and the parts of a segment, and the three actions agree.
-/

namespace MapPlan.Expr

variable {s rest : List Char} {name target : List Char} {tokens : List Token} {t : Token}
  {f : List Char → List Char}

/-! ## Lexemes -/

/-- An entry of the token structure of a text. -/
inductive Lexeme where
  /-- A token without holes, and whether it stands behind a dot. -/
  | token (kind : TokenKind) (text : List Char) (member : Bool)
  /-- The start of a token with holes. -/
  | openLiteral (kind : TokenKind)
  | literalText (s : List Char)
  | openHole
  | closeHole
  | closeLiteral
deriving DecidableEq, Repr

namespace Lexeme

def text : Lexeme → List Char
  | token _ s _ | literalText s => s
  | _ => []

/-- Does the lexeme stand for the parameter `name`? -/
def refersTo (name : List Char) : Lexeme → Bool
  | token kind text member => kind = .identifier && !member && bare text = name
  | _ => false

def rename (name target : List Char) : Lexeme → Lexeme
  | token kind text member =>
    token kind (if (token kind text member).refersTo name then target else text) member
  | l => l

/-- The second lexeme is not to be renamed if it starts where an identifier or a number ends. -/
def Apart (name : List Char) : Lexeme → Lexeme → Prop
  | token kind _ _, l => kind = .identifier ∨ kind = .number → l.refersTo name = false
  | _, _ => True

instance (name : List Char) : DecidableRel (Apart name) := fun l _ => by
  cases l <;> unfold Apart <;> infer_instance

end Lexeme

namespace Piece

/-- The lexemes of a piece of a literal, given those of the code of a hole. -/
def lexemes (inside : List Char → List Lexeme) : Piece Char → List Lexeme
  | .text s => [.literalText s]
  | .hole code => .openHole :: inside code ++ [.closeHole]

end Piece

namespace Token

/-- Given whether the last token with meaning before the token is a dot: is it one behind it? -/
def leavesDot (dot : Bool) (t : Token) : Bool :=
  if t.kind.isTrivia then dot else t.kind = .dot

/-- The lexemes of a token, given those of the code of a hole. -/
def lexemes (inside : List Char → List Lexeme) (dot : Bool) (t : Token) : List Lexeme :=
  if t.kind.isInterpolated then
    .openLiteral t.kind :: t.pieces.flatMap (Piece.lexemes inside) ++ [.closeLiteral]
  else [.token t.kind t.text dot]

def lexemesAfter (inside : List Char → List Lexeme) (dot : Bool) : List Token → List Lexeme
  | [] => []
  | t :: rest => t.lexemes inside dot ++ lexemesAfter inside (t.leavesDot dot) rest

end Token

/-- The token structure of a text. A segment that cannot be tokenized has none. -/
def lexemes (s : List Char) : List Lexeme :=
  match tokenize s with
  | .ok tokens =>
    Token.lexemesAfter (fun code => if code.length < s.length then lexemes code else []) false
      tokens
  | .error _ => []
termination_by s.length

/-! ## One level of holes -/

/-- A hole is shorter than the text. -/
theorem length_hole_lt_of_tokenize (h : tokenize s = .ok tokens) :
    ∀ t ∈ tokens, ∀ code, .hole code ∈ t.pieces → code.length < s.length := by
  refine tokenize_induction (P := fun s tokens =>
    ∀ t ∈ tokens, ∀ code, .hole code ∈ t.pieces → code.length < s.length) nofun ?_ h
  intro s t rest tokens hfirst _ ih
  refine List.forall_mem_cons.2 ⟨fun code hcode => ?_, fun t' ht' code hcode =>
    Nat.lt_trans (ih t' ht' code hcode) (Token.length_rest_lt_of_first? hfirst)⟩
  obtain ⟨_, hread⟩ | ⟨u, hpieces, _⟩ := Token.first?_cases hfirst
  · obtain ⟨c, v, tail, hpieces⟩ := Literal.exists_text_of_string? hread
    have hs := Literal.flatten_append_of_string? hread
    rw [hpieces] at hcode hs
    have hcode := (List.mem_cons.1 hcode).resolve_left nofun
    obtain ⟨before, after, rfl⟩ := List.append_of_mem hcode
    rw [← hs]
    simp only [Piece.flatten_cons, Piece.flatten_append, Piece.units, List.length_append,
      List.length_cons]
    omega
  · rw [hpieces] at hcode
    cases List.mem_singleton.1 hcode

namespace Token

theorem lexemesAfter_congr {inside inside' : List Char → List Lexeme} (dot : Bool)
    (h : ∀ t ∈ tokens, ∀ code, .hole code ∈ t.pieces → inside code = inside' code) :
    lexemesAfter inside dot tokens = lexemesAfter inside' dot tokens := by
  induction tokens generalizing dot with
  | nil => rfl
  | cons t tokens ih =>
    obtain ⟨ht, htokens⟩ := List.forall_mem_cons.1 h
    have hpieces : t.pieces.flatMap (Piece.lexemes inside) =
        t.pieces.flatMap (Piece.lexemes inside') := by
      refine congrArg List.flatten (List.map_congr_left fun p hp => ?_)
      cases p with
      | text s => rfl
      | hole code => rw [Piece.lexemes, Piece.lexemes, ht code hp]
    rw [lexemesAfter, lexemesAfter, ih _ htokens, lexemes, lexemes, hpieces]

end Token

theorem lexemes_eq (h : tokenize s = .ok tokens) :
    lexemes s = Token.lexemesAfter lexemes false tokens := by
  rw [lexemes, h]
  refine Token.lexemesAfter_congr false fun t ht code hcode => ?_
  exact if_pos (length_hole_lt_of_tokenize h t ht code hcode)

/-! ## Renaming -/

def Word.rename (name target : List Char) (w : Word) : Word :=
  if !w.member && w.bare = name then { w with text := target } else w

def Fragment.rename (name target : List Char) : Fragment → Fragment
  | .plain s => .plain s
  | .word w => .word (w.rename name target)

/-- Rename a part, given what becomes of a hole. -/
def Part.rename (name target : List Char) (f : List Char → List Char) : Part → Part
  | .plain s => .plain s
  | .word w => .word (w.rename name target)
  | .hole code => .hole (f code)

namespace Piece

def mapHole (f : List Char → List Char) : Piece Char → Piece Char
  | .text s => .text s
  | .hole code => .hole (f code)

end Piece

namespace Token

/-- Does the token stand for the parameter `name`, given whether it follows a dot? -/
def refersTo (name : List Char) (dot : Bool) (t : Token) : Bool :=
  t.kind = .identifier && !dot && bare t.text = name

/-- Rename a token, given what becomes of a hole. -/
def rename (name target : List Char) (f : List Char → List Char) (dot : Bool) (t : Token) : Token :=
  if t.refersTo name dot then ⟨.identifier, [.text target]⟩
  else ⟨t.kind, t.pieces.map (Piece.mapHole f)⟩

def renameAfter (name target : List Char) (f : List Char → List Char) (dot : Bool) :
    List Token → List Token
  | [] => []
  | t :: rest =>
    t.rename name target f dot :: renameAfter name target f (t.leavesDot dot) rest

theorem refersTo_iff {dot : Bool} :
    t.refersTo name dot ↔ t.kind = .identifier ∧ dot = false ∧ bare t.text = name := by
  simp [refersTo, and_assoc]

theorem refersTo_eq_false {dot : Bool} (h : t.kind ≠ .identifier) :
    t.refersTo name dot = false :=
  Bool.eq_false_iff.2 fun hname => h (refersTo_iff.1 hname).1

theorem refersTo_of_identifier {dot : Bool} (h : t.kind = .identifier) :
    t.refersTo name dot = (!dot && decide (bare t.text = name)) := by
  simp [refersTo, h]

@[simp] theorem kind_rename (dot : Bool) : (t.rename name target f dot).kind = t.kind := by
  rw [rename]
  split
  · rename_i h
    exact (refersTo_iff.1 h).1.symm
  · rfl

@[simp] theorem leavesDot_rename (dot dot' : Bool) :
    (t.rename name target f dot).leavesDot dot' = t.leavesDot dot' := by
  rw [leavesDot, leavesDot, kind_rename]

/-- Only tokens with holes have more than one piece. -/
def IsWhole (t : Token) : Prop :=
  t.kind.isInterpolated = false → t.pieces = [.text t.text]

theorem IsWhole.isInterpolated_of_hole (h : t.IsWhole) {code : List Char}
    (hcode : .hole code ∈ t.pieces) : t.kind.isInterpolated := by
  cases hinter : t.kind.isInterpolated with
  | true => rfl
  | false =>
    rw [h hinter] at hcode
    cases List.mem_singleton.1 hcode

theorem IsWhole.rename_eq (h : t.IsWhole) (hinter : t.kind.isInterpolated = false) {dot : Bool}
    (hname : t.refersTo name dot = false) : t.rename name target f dot = t := by
  rw [rename, hname, if_neg Bool.false_ne_true, h hinter]
  exact (congrArg (Token.mk t.kind) (h hinter)).symm

theorem IsWhole.text_rename (h : t.IsWhole) (hinter : t.kind.isInterpolated = false) (dot : Bool) :
    (t.rename name target f dot).text = if t.refersTo name dot then target else t.text := by
  cases hname : t.refersTo name dot with
  | true =>
    rw [rename, hname]
    exact List.append_nil target
  | false => rw [h.rename_eq hinter hname, if_neg Bool.false_ne_true]

end Token

theorem isWhole_of_tokenize (h : tokenize s = .ok tokens) : ∀ t ∈ tokens, t.IsWhole :=
  tokenize_induction (P := fun _ tokens => ∀ t ∈ tokens, t.IsWhole) nofun
    (fun _ _ _ _ hfirst _ ih =>
      List.forall_mem_cons.2 ⟨Token.pieces_eq_text_of_first? hfirst, ih⟩) h

namespace Token

theorem lexemes_rename {inside inside' : List Char → List Lexeme} (ht : t.IsWhole) (dot : Bool)
    (h : ∀ code, .hole code ∈ t.pieces →
      inside' (f code) = (inside code).map (Lexeme.rename name target)) :
    (t.rename name target f dot).lexemes inside' dot =
      (t.lexemes inside dot).map (Lexeme.rename name target) := by
  by_cases hinter : t.kind.isInterpolated
  · have hname : t.refersTo name dot = false := refersTo_eq_false (TokenKind.ne_identifier hinter)
    have hpieces : (t.pieces.map (Piece.mapHole f)).flatMap (Piece.lexemes inside') =
        (t.pieces.flatMap (Piece.lexemes inside)).map (Lexeme.rename name target) := by
      rw [List.flatMap_map, List.map_flatMap]
      refine congrArg List.flatten (List.map_congr_left fun p hp => ?_)
      cases p with
      | text s => rfl
      | hole code =>
        simp [Piece.mapHole, Piece.lexemes, h code hp, Lexeme.rename]
    rw [lexemes, lexemes, kind_rename, if_pos hinter, if_pos hinter, rename, hname,
      if_neg Bool.false_ne_true, hpieces]
    simp [Lexeme.rename]
  · rw [lexemes, lexemes, kind_rename, if_neg hinter, if_neg hinter,
      ht.text_rename (Bool.eq_false_iff.2 hinter)]
    rfl

theorem lexemesAfter_renameAfter {inside inside' : List Char → List Lexeme} (dot : Bool)
    (hwhole : ∀ t ∈ tokens, t.IsWhole)
    (h : ∀ t ∈ tokens, ∀ code, .hole code ∈ t.pieces →
      inside' (f code) = (inside code).map (Lexeme.rename name target)) :
    lexemesAfter inside' dot (renameAfter name target f dot tokens) =
      (lexemesAfter inside dot tokens).map (Lexeme.rename name target) := by
  induction tokens generalizing dot with
  | nil => rfl
  | cons t tokens ih =>
    obtain ⟨ht, htokens⟩ := List.forall_mem_cons.1 h
    obtain ⟨hwt, hwtokens⟩ := List.forall_mem_cons.1 hwhole
    rw [renameAfter, lexemesAfter, lexemesAfter, leavesDot_rename, ih _ hwtokens htokens,
      lexemes_rename hwt dot ht, List.map_append]

/-- The lexemes of a hole stand together. -/
theorem infix_lexemesAfter (hwhole : ∀ t ∈ tokens, t.IsWhole) (ht : t ∈ tokens)
    {code : List Char} (hcode : .hole code ∈ t.pieces) (dot : Bool) :
    inside code <:+: lexemesAfter inside dot tokens := by
  induction tokens generalizing dot with
  | nil => cases ht
  | cons t' tokens ih =>
    rw [lexemesAfter]
    rcases List.mem_cons.1 ht with rfl | ht
    · have hinter := (hwhole t List.mem_cons_self).isInterpolated_of_hole hcode
      obtain ⟨before, after, hpieces⟩ := List.append_of_mem hcode
      rw [lexemes, if_pos hinter, hpieces, List.flatMap_append, List.flatMap_cons]
      exact ⟨.openLiteral t.kind :: before.flatMap (Piece.lexemes inside) ++ [.openHole],
        .closeHole :: after.flatMap (Piece.lexemes inside) ++ [.closeLiteral] ++
          lexemesAfter inside (t.leavesDot dot) tokens, by simp [Piece.lexemes]⟩
    · exact (ih (fun t ht => hwhole t (List.mem_cons_of_mem _ ht)) ht _).trans
        (List.suffix_append _ _).isInfix

/-- The holes of a segment are those of its tokens. -/
theorem hole_mem_partsAfter_iff (hwhole : ∀ t ∈ tokens, t.IsWhole) {code : List Char} (dot : Bool) :
    .hole code ∈ partsAfter dot tokens ↔ ∃ t ∈ tokens, .hole code ∈ t.pieces := by
  induction tokens generalizing dot with
  | nil => simp [partsAfter]
  | cons t tokens ih =>
    have hown : .hole code ∈ t.ownParts dot tokens ↔ .hole code ∈ t.pieces := by
      rw [ownParts]
      split
      · rename_i hkind
        rw [hwhole t List.mem_cons_self (TokenKind.isInterpolated_of_identifier hkind)]
        simp
      · rw [List.mem_map]
        constructor
        · rintro ⟨p, hp, heq⟩
          cases p with
          | text s => cases heq
          | hole code' =>
            cases heq
            exact hp
        · exact fun hp => ⟨_, hp, rfl⟩
    rw [partsAfter_cons, List.mem_append, hown, ih fun t ht => hwhole t (List.mem_cons_of_mem _ ht)]
    simp

/-! What follows a word is the same before and after renaming. -/

theorem significant_renameAfter (dot : Bool) (tokens : List Token) :
    significant (renameAfter name target f dot tokens) =
      renameAfter name target f dot (significant tokens) := by
  induction tokens with
  | nil => rfl
  | cons t tokens ih =>
    rw [renameAfter, significant, significant, List.dropWhile_cons, List.dropWhile_cons,
      kind_rename]
    split
    · rename_i htrivia
      rw [leavesDot, if_pos htrivia]
      exact ih
    · rfl

theorem startWithDot_renameAfter (dot : Bool) (tokens : List Token) :
    startWithDot (renameAfter name target f dot tokens) = startWithDot tokens := by
  rw [startWithDot, startWithDot, significant_renameAfter]
  cases significant tokens with
  | nil => rfl
  | cons t rest => simp only [renameAfter, kind_rename]

theorem startWithUse_renameAfter (dot : Bool) (hwhole : ∀ t ∈ tokens, t.IsWhole) :
    startWithUse (renameAfter name target f dot tokens) = startWithUse tokens := by
  rw [startWithUse, startWithUse, significant_renameAfter]
  cases hsignificant : significant tokens with
  | nil => rfl
  | cons t rest =>
    have ht : t.IsWhole := by
      refine hwhole t ((List.dropWhile_suffix (p := (·.kind.isTrivia))).subset ?_)
      change t ∈ significant tokens
      rw [hsignificant]
      exact List.mem_cons_self
    simp only [renameAfter, kind_rename, startWithDot_renameAfter]
    cases hkind : t.kind with
    | punct =>
      have hsame : t.rename name target f dot = t := by
        refine ht.rename_eq (by rw [hkind]; rfl) (refersTo_eq_false ?_)
        rw [hkind]
        exact nofun
      rw [hsame]
    | _ => rfl

theorem ownParts_rename (dot : Bool) (ht : t.IsWhole) (hwhole : ∀ t ∈ tokens, t.IsWhole) :
    (t.rename name target f dot).ownParts dot
        (renameAfter name target f (t.leavesDot dot) tokens) =
      (t.ownParts dot tokens).map (Part.rename name target f) := by
  rw [ownParts, ownParts, kind_rename]
  by_cases hkind : t.kind = .identifier
  · have hinter := TokenKind.isInterpolated_of_identifier hkind
    rw [if_pos hkind, if_pos hkind, ht.text_rename hinter, startWithUse_renameAfter _ hwhole,
      refersTo_of_identifier hkind]
    refine congrArg (fun w => [Part.word w]) ?_
    by_cases hname : (!dot && decide (bare t.text = name)) = true
    · rw [if_pos hname]
      exact (if_pos hname).symm
    · rw [if_neg hname]
      exact (if_neg hname).symm
  · rw [if_neg hkind, if_neg hkind, rename, refersTo_eq_false hkind, if_neg Bool.false_ne_true,
      List.map_map, List.map_map]
    refine List.map_congr_left fun p _ => ?_
    cases p <;> rfl

theorem partsAfter_renameAfter (dot : Bool) (hwhole : ∀ t ∈ tokens, t.IsWhole) :
    partsAfter dot (renameAfter name target f dot tokens) =
      (partsAfter dot tokens).map (Part.rename name target f) := by
  induction tokens generalizing dot with
  | nil => rfl
  | cons t tokens ih =>
    obtain ⟨ht, htokens⟩ := List.forall_mem_cons.1 hwhole
    rw [renameAfter, partsAfter_cons, partsAfter_cons, List.map_append,
      ownParts_rename dot ht htokens, kind_rename]
    exact congrArg _ (ih _ htokens)

end Token

/-- The markup of renamed parts. -/
theorem Filled.rename {R S : List Char → Markup → Prop} {parts : List Part} {m : Markup}
    (h : Filled R parts m)
    (hR : ∀ code inner, R code inner → S (f code) (inner.map (Fragment.rename name target))) :
    Filled S (parts.map (Part.rename name target f)) (m.map (Fragment.rename name target)) := by
  induction h with
  | nil => exact .nil
  | plain s _ ih => exact .plain s ih
  | word w _ ih => exact .word _ ih
  | hole hcode _ ih =>
    rw [List.map_append]
    exact .hole (hR _ _ hcode) ih

end MapPlan.Expr
