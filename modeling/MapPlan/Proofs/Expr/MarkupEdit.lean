import MapPlan.Plan.Options
import MapPlan.Proofs.Expr.Edit
import MapPlan.Proofs.Expr.Lexeme
import MapPlan.Proofs.Expr.Munch

/-!
# Renaming as an edit

Names and the words of a tokenized text are identifiers, which have no marks of their own. So
renaming is an edit of the characters of a markup, and the pieces of a literal and of the renamed
one are spelled by the same edits.
-/

namespace MapPlan.Expr

open Regex

variable {s u name target : List Char} {m : Markup} {tokens : List Token}

/-! ## Names -/

theorem isUnmarked_of_identifier (h : Matches TokenRule.identifier u) : IsUnmarked u := by
  obtain ⟨sign, body, rfl, hsign, hne, hbody⟩ :=
    TokenRule.notMem_of_identifier
      (l := ['\x22', '\x27', '\\', '@', '$', '{', '}', '\n']) (by decide) (by decide) h
  exact ⟨sign, body, rfl, hsign.imp_right fun heq => ⟨'@', heq, rfl⟩, hne,
    fun c hc => mark_eq_other (hbody c hc)⟩

/-- An identifier that no at sign escapes. -/
def IsName (u : List Char) : Prop :=
  ∃ c body, u = c :: body ∧ (Text.isIdentifierStart c || c == '_') ∧
    ∀ d ∈ body, Text.isIdentifierContinue d

namespace IsName

theorem matches_identifier (h : IsName u) : Matches TokenRule.identifier u := by
  obtain ⟨c, body, rfl, hc, hbody⟩ := h
  exact TokenRule.matches_identifier.2 ⟨[], c, body, rfl, .inl rfl, hc, hbody⟩

theorem bare_eq (h : IsName u) : bare u = u := by
  obtain ⟨c, body, rfl, hc, _⟩ := h
  unfold bare
  split
  · rename_i heq
    rw [(List.cons.inj heq).1] at hc
    exact absurd hc (by decide)
  · rfl

end IsName

theorem isName_of_isPlainIdentifier (h : Options.isPlainIdentifier u) : IsName u := by
  cases u with
  | nil => cases h
  | cons c body =>
    obtain ⟨hc, hbody⟩ := Bool.and_eq_true_iff.1 h
    refine ⟨c, body, rfl, ?_, fun d hd => ?_⟩
    · exact Bool.or_eq_true_iff.2 ((Bool.or_eq_true_iff.1 hc).imp_left
        Text.isIdentifierStart_of_isAlpha)
    · rcases Bool.or_eq_true_iff.1 (List.all_eq_true.1 hbody d hd) with hd | hd
      · exact Text.isIdentifierContinue_of_isAlphanum hd
      · exact Text.isIdentifierContinue_of_letter (Bool.or_eq_true_iff.2 (.inr hd))

/-! ## Words -/

namespace Token

theorem matches_identifier_of_partsAfter (h : tokenize s = .ok tokens) (dot : Bool) :
    ∀ w, .word w ∈ partsAfter dot tokens → Matches TokenRule.identifier w.text := by
  refine tokenize_induction (P := fun _ tokens => ∀ dot w, .word w ∈ partsAfter dot tokens →
    Matches TokenRule.identifier w.text) (fun dot => nofun) ?_ h dot
  intro s t rest tokens hfirst _ ih dot w hw
  rw [partsAfter_cons, List.mem_append] at hw
  rcases hw with hw | hw
  · rw [ownParts] at hw
    split at hw
    · rename_i hkind
      cases List.mem_singleton.1 hw
      exact matches_identifier_of_first? hfirst hkind
    · exact absurd hw (Part.word_notMem_map_ofPiece t.pieces w)
  · exact ih _ w hw

end Token

theorem Markup.matches_identifier_of_tokenized? (h : tokenized? s = some m) :
    ∀ w, .word w ∈ m → Matches TokenRule.identifier w.text := by
  refine read?_induction (P := fun _ m => ∀ w, .word w ∈ m → Matches TokenRule.identifier w.text)
    ?_ h
  intro s parts m hparts hfilled
  obtain ⟨tokens, htokens, rfl⟩ := Token.parts?_eq_some.1 hparts
  exact hfilled.forall_word (Token.matches_identifier_of_partsAfter htokens false)
    fun code inner hcode => hcode.2.2

/-! ## Renaming as an edit -/

/-- What renaming does to the characters of a fragment. -/
def Fragment.edits (name target : List Char) (f : Fragment) : List Edit :=
  if f.refersTo name then [.swap f.text target] else f.text.map .keep

namespace Markup

def edits (name target : List Char) (m : Markup) : List Edit :=
  m.flatMap (Fragment.edits name target)

theorem flatMap_old_edits (name target : List Char) (m : Markup) :
    (m.edits name target).flatMap Edit.old = m.text := by
  rw [edits, List.flatMap_assoc]
  refine congrArg (m.flatMap ·) (funext fun f => ?_)
  rw [Fragment.edits]
  split
  · exact List.append_nil f.text
  · rw [List.flatMap_map]
    exact List.flatMap_singleton' f.text

theorem flatMap_new_edits (name target : List Char) (m : Markup) :
    (m.edits name target).flatMap Edit.new = m.rename name target := by
  rw [edits, List.flatMap_assoc, rename]
  refine congrArg (m.flatMap ·) (funext fun f => ?_)
  rw [Fragment.edits]
  split
  · exact List.append_nil target
  · rw [List.flatMap_map]
    exact List.flatMap_singleton' f.text

theorem isSpelled_edits {e : Edit → List Char} (hkeep : ∀ c, e (.keep c) = [c])
    (hswap : ∀ w, .word w ∈ m → IsUnmarked (e (.swap w.text target))) :
    ∀ a ∈ m.edits name target, Edit.IsSpelled e a := by
  intro a ha
  obtain ⟨f, hf, ha⟩ := List.mem_flatMap.1 ha
  rw [Fragment.edits] at ha
  split at ha
  · rename_i hrefers
    cases f with
    | plain s => cases hrefers
    | word w =>
      cases List.mem_singleton.1 ha
      exact hswap w hf
  · obtain ⟨c, _, rfl⟩ := List.mem_map.1 ha
    exact hkeep c

theorem isSpelled_old_edits (name target : List Char)
    (h : ∀ w, .word w ∈ m → Matches TokenRule.identifier w.text) :
    ∀ a ∈ m.edits name target, Edit.IsSpelled Edit.old a :=
  isSpelled_edits (fun _ => rfl) fun w hw => isUnmarked_of_identifier (h w hw)

theorem isSpelled_new_edits (name : List Char) (h : IsName target) (m : Markup) :
    ∀ a ∈ m.edits name target, Edit.IsSpelled Edit.new a :=
  isSpelled_edits (fun _ => rfl) fun _ _ => isUnmarked_of_identifier h.matches_identifier

theorem edits_append (m m' : Markup) :
    edits name target (m ++ m') = edits name target m ++ edits name target m' :=
  List.flatMap_append

/-- What renaming makes of a hole. -/
def renameCode (name target code : List Char) : List Char :=
  ((tokenized? code).map (rename name target)).getD code

theorem renameCode_eq (h : tokenized? s = some m) :
    renameCode name target s = m.rename name target := by
  rw [renameCode, h]
  rfl

end Markup

/-- The markup of parts whose holes can be tokenized. -/
abbrev Part.AreTokenized (parts : List Part) (m : Markup) : Prop :=
  Filled (fun code inner => Markup.tokenized? code = some inner) parts m

/-- The pieces of a literal and of the renamed one are spelled by the same edits. -/
theorem exists_edited_pieces (name target : List Char) {pieces : List (Piece Char)}
    (h : Part.AreTokenized (pieces.map Part.ofPiece) m) :
    ∃ Q, Piece.flatten Q = m.edits name target ∧ Q.map (Piece.spell Edit.old) = pieces ∧
      Q.map (Piece.spell Edit.new) =
        pieces.map (Piece.mapHole (Markup.renameCode name target)) := by
  induction pieces generalizing m with
  | nil =>
    cases h
    exact ⟨[], rfl, rfl, rfl⟩
  | cons p pieces ih =>
    cases p with
    | text u =>
      cases h with
      | plain _ h =>
        obtain ⟨Q, hflatten, hold, hnew⟩ := ih h
        have hspell : ∀ e : Edit → List Char, (∀ c, e (.keep c) = [c]) →
            Piece.spell e (.text (u.map .keep)) = .text u := by
          intro e hkeep
          rw [Piece.spell, List.flatMap_map, funext hkeep, List.flatMap_singleton']
        refine ⟨.text (u.map .keep) :: Q, ?_, ?_, ?_⟩
        · rw [Piece.flatten_cons, hflatten]
          rfl
        · rw [List.map_cons, hold, hspell _ fun _ => rfl]
        · rw [List.map_cons, hnew, hspell _ fun _ => rfl]
          rfl
    | hole code =>
      cases h with
      | @hole _ inner _ m hcode h =>
        obtain ⟨Q, hflatten, hold, hnew⟩ := ih h
        refine ⟨.hole (inner.edits name target) :: Q, ?_, ?_, ?_⟩
        · rw [Piece.flatten_cons, hflatten, Markup.edits_append]
          rfl
        · rw [List.map_cons, hold, Piece.spell, Markup.flatMap_old_edits,
            Markup.text_of_tokenized? hcode]
        · rw [List.map_cons, hnew, Piece.spell, Markup.flatMap_new_edits, List.map_cons,
            Piece.mapHole, Markup.renameCode_eq hcode]

/-- What consists of marks is kept: a name has none of its own, and starts after its at sign. -/
theorem exists_keep_of_marks {e : Edit → List Char} {A : List Edit} {v : List Char}
    (hA : ∀ a ∈ A, Edit.IsSpelled e a) (hu : ∀ c ∈ u, mark c ≠ .other)
    (hlast : u.getLast? ≠ some '@') (h : A.flatMap e = u ++ v) :
    ∃ B, A = u.map .keep ++ B := by
  induction u generalizing A with
  | nil => exact ⟨A, rfl⟩
  | cons c u ih =>
    obtain ⟨hc, hmarks⟩ := List.forall_mem_cons.1 hu
    cases A with
    | nil => cases h
    | cons a A =>
      obtain ⟨ha, htail⟩ := List.forall_mem_cons.1 hA
      cases a with
      | keep d =>
        rw [List.flatMap_cons, show e (.keep d) = [d] from ha] at h
        obtain ⟨rfl, hrest⟩ := List.cons.inj h
        have hlast' : u.getLast? ≠ some '@' := by
          cases u with
          | nil => exact nofun
          | cons x u => rwa [List.getLast?_cons_cons] at hlast
        obtain ⟨B, rfl⟩ := ih htail hmarks hlast' hrest
        exact ⟨B, rfl⟩
      | swap old new =>
        obtain ⟨sign, body, hspell, hsign, hne, hbody⟩ := ha
        obtain ⟨d, body, rfl⟩ := List.exists_cons_of_ne_nil hne
        have hd := hbody d List.mem_cons_self
        rw [List.flatMap_cons, hspell] at h
        rcases hsign with rfl | ⟨sign, rfl, hat⟩
        · obtain ⟨rfl, _⟩ := List.cons.inj h
          exact absurd hd hc
        · obtain rfl := (mark_eq_iff (m := .at) rfl).1 hat
          obtain ⟨rfl, hrest⟩ := List.cons.inj h
          cases u with
          | nil => exact absurd rfl hlast
          | cons x u =>
            obtain ⟨rfl, _⟩ := List.cons.inj hrest
            exact absurd hd (hmarks d List.mem_cons_self)

/-- A renamed text starts with the same marks. -/
theorem Markup.exists_rename_eq_append (name target : List Char) {v : List Char}
    (hwords : ∀ w, .word w ∈ m → Matches TokenRule.identifier w.text)
    (hu : ∀ c ∈ u, mark c ≠ .other) (hlast : u.getLast? ≠ some '@') (h : m.text = u ++ v) :
    ∃ v', m.rename name target = u ++ v' := by
  rw [← flatMap_old_edits name target] at h
  obtain ⟨B, hB⟩ := exists_keep_of_marks (isSpelled_old_edits name target hwords) hu hlast h
  refine ⟨B.flatMap Edit.new, ?_⟩
  rw [← flatMap_new_edits, hB, List.flatMap_append, List.flatMap_map]
  exact congrArg (· ++ _) (List.flatMap_singleton' u)

/-- A literal of a renamed text has the same pieces, with the holes renamed. -/
theorem Literal.string?_rename (name : List Char) {m' : Markup} {pieces : List (Piece Char)}
    (htarget : IsName target)
    (hwords : ∀ w, .word w ∈ m ++ m' → Matches TokenRule.identifier w.text)
    (hm : Part.AreTokenized (pieces.map Part.ofPiece) m)
    (h : string? (m ++ m').text = some (pieces, m'.text)) :
    string? ((m ++ m').rename name target) =
      some (pieces.map (Piece.mapHole (Markup.renameCode name target)), m'.rename name target) := by
  obtain ⟨Q, hQ, hold, hnew⟩ := exists_edited_pieces name target hm
  have hedits : (m ++ m').edits name target = Piece.flatten Q ++ m'.edits name target := by
    rw [hQ, Markup.edits_append]
  have hspelled := Markup.isSpelled_old_edits name target hwords
  have hspelled' := Markup.isSpelled_new_edits name htarget (m ++ m')
  rw [← Markup.flatMap_old_edits name target, ← Markup.flatMap_old_edits name target m', ← hold,
    hedits] at h
  rw [hedits] at hspelled hspelled'
  rw [← Markup.flatMap_new_edits, ← Markup.flatMap_new_edits, ← hnew, hedits]
  exact string?_edit hspelled hspelled' h

end MapPlan.Expr
