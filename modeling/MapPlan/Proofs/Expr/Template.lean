import Mathlib.Algebra.GroupWithZero.Nat
import MapPlan.Proofs.Expr.LiteralReader
import MapPlan.Proofs.Expr.Retokenize

/-!
# Templates

A template is an interpolated string with any number of holes between literal text. Its holes are
read as if each stood alone, so renaming the template renames the code of every hole by itself, and
the counts add up.
-/

namespace MapPlan.Expr

open Regex

namespace Literal

variable {α : Type} [Marked α]

/-- Where the hole closes whose code the text starts with. -/
def holeEnd? (us : List α) : Option Nat :=
  (readOpen? [.hole 0] us).map fun (_, rest) => us.length - rest.length - 1

/-- Code that a hole closes behind is balanced code of the grammar. -/
theorem exists_items_of_holeEnd? {code : List α} {c : α}
    (h : holeEnd? (code ++ [c]) = some code.length) :
    ∃ items, code = Item.flatten items ∧ Derives .code items [c] ∧ Item.Balanced 0 items ∧
      mark c = .closeBrace := by
  obtain ⟨⟨pieces, _⟩, hread, hlength⟩ := Option.map_eq_some_iff.1 h
  obtain ⟨items, c', rest, _, heq, hitems, hbalanced, hc, -, rfl, -⟩ :=
    readOpen?_eq_some_iff.1 hread
  have hsize := congrArg List.length heq
  simp only [List.length_append, List.length_cons, List.length_nil] at hlength hsize
  obtain rfl : rest = [] := List.eq_nil_of_length_eq_zero (by omega)
  obtain ⟨rfl, hlast⟩ := List.append_inj' heq rfl
  cases hlast
  exact ⟨items, rfl, hitems, hbalanced, hc⟩

end Literal

/-! ## Templates -/

/-- Text whose characters mean nothing in a string of any style. -/
def IsLiteralText (s : List Char) : Prop :=
  ∀ c ∈ s, c ∉ ['\x22', '\\', '{', '}', '\n']

instance (s : List Char) : Decidable (IsLiteralText s) :=
  List.decidableBAll _ s

/-- A hole with the literal text before it. -/
structure Slot where
  lead : List Char
  lead_literal : IsLiteralText lead
  code : List Char

/-- An interpolated string, by its parts. -/
structure Template where
  opener : List Char
  opener_mem : opener ∈ [['$', '\x22'], ['$', '@', '\x22'], ['@', '$', '\x22']]
  slots : List Slot
  /-- The text behind the last hole. -/
  tail : List Char
  tail_literal : IsLiteralText tail

/-- Code that can stand in a hole, and is tokenized there. -/
structure IsHoleCode (code : List Char) : Prop where
  tokenized : (Markup.tokenized? code).isSome
  /-- The brace before it is not doubled. -/
  head : code.head? ≠ some '{'
  /-- It closes no brace but those that it opens, and leaves no literal open. -/
  ends : Literal.holeEnd? (code ++ ['}']) = some code.length

namespace Template

/-- What is written from a slot on, given what is written of the code of a hole. -/
def writeFrom (f : List Char → List Char) (tail : List Char) : List Slot → List Char
  | [] => tail ++ ['\x22']
  | slot :: slots => slot.lead ++ '{' :: (f slot.code ++ '}' :: writeFrom f tail slots)

def write (t : Template) (f : List Char → List Char) : List Char :=
  t.opener ++ writeFrom f t.tail t.slots

def text (t : Template) : List Char :=
  t.write id

def codes (t : Template) : List (List Char) :=
  t.slots.map Slot.code

variable {s tail : List Char} {slots : List Slot}

/-! ## Items -/

def itemsFrom (tail : List Char) : List Slot → List (Item Char)
  | [] => tail.map (fun c => .text [c])
  | slot :: slots =>
    slot.lead.map (fun c => .text [c]) ++ .hole '{' slot.code '}' :: itemsFrom tail slots

theorem flatten_map_text (s : List Char) (items : List (Item Char)) :
    Item.flatten (s.map (fun c => .text [c]) ++ items) = s ++ Item.flatten items := by
  induction s with
  | nil => rfl
  | cons c s ih => exact congrArg (c :: ·) ih

theorem flatten_itemsFrom (tail : List Char) (slots : List Slot) :
    Item.flatten (itemsFrom tail slots) ++ ['\x22'] = writeFrom id tail slots := by
  induction slots with
  | nil =>
    have := flatten_map_text tail []
    rw [List.append_nil] at this
    rw [itemsFrom, this, writeFrom, Item.flatten_nil, List.append_nil]
  | cons slot slots ih =>
    rw [itemsFrom, flatten_map_text, Item.flatten_cons, writeFrom, ← ih]
    simp [Item.units]

theorem derives_map_text {style : Style} {items : List (Item Char)} {rest : List Char}
    (hs : IsLiteralText s) (h : Derives (.string style) items rest) :
    Derives (.string style) (s.map (fun c => .text [c]) ++ items) rest := by
  induction s with
  | nil => exact h
  | cons c s ih =>
    obtain ⟨hc, hs⟩ := List.forall_mem_cons.1 hs
    simp only [List.mem_cons, List.not_mem_nil, or_false, not_or] at hc
    obtain ⟨hquote, hbackslash, hopen, hclose, hnewline⟩ := hc
    refine .pass ⟨mt (mark_eq_iff rfl).1 hquote, fun _ => ⟨?_, ?_⟩, fun _ => ⟨?_, ?_⟩⟩ (ih hs)
    · exact mt (mark_eq_iff rfl).1 hbackslash
    · exact mt (mark_eq_iff rfl).1 hnewline
    · exact mt (mark_eq_iff rfl).1 hopen
    · exact fun hmark => absurd ((mark_eq_iff rfl).1 hmark) hclose

/-- The items of a template are those of a string. -/
theorem derives_itemsFrom {style : Style} (hinter : style.interpolated) (htail : IsLiteralText tail)
    (hslots : ∀ slot ∈ slots, IsHoleCode slot.code) :
    Derives (.string style) (itemsFrom tail slots) ['\x22'] := by
  induction slots with
  | nil =>
    have := derives_map_text htail (.nil (.string style) ['\x22'])
    rwa [List.append_nil] at this
  | cons slot slots ih =>
    obtain ⟨hslot, hslots⟩ := List.forall_mem_cons.1 hslots
    obtain ⟨items, hcode, hitems, hbalanced, -⟩ := Literal.exists_items_of_holeEnd? hslot.ends
    refine derives_map_text slot.lead_literal ?_
    rw [hcode]
    refine .hole hinter rfl rfl ?_ (hitems.congr_rest rfl rfl) hbalanced (ih hslots)
    intro c hc hmark
    rw [← hcode, (mark_eq_iff rfl).1 hmark] at hc
    exact hslot.head hc

/-! ## Pieces -/

/-- The pieces of the string from a slot on, the text `s` before them. -/
def piecesFrom (tail : List Char) (s : List Char) : List Slot → List (Piece Char)
  | [] => [.text (s ++ tail ++ ['\x22'])]
  | slot :: slots =>
    .text (s ++ slot.lead ++ ['{']) :: .hole slot.code :: piecesFrom tail ['}'] slots

theorem assemble_map_text (s : List Char) (items : List (Item Char)) (pieces : List (Piece Char)) :
    Item.assemble false (s.map (fun c => .text [c]) ++ items) pieces =
      Piece.consUnits false s (Item.assemble false items pieces) := by
  induction s with
  | nil => rfl
  | cons c s ih => exact congrArg (Piece.consText c) ih

theorem assemble_itemsFrom (tail s : List Char) (slots : List Slot) :
    Piece.consUnits false s (Item.assemble false (itemsFrom tail slots) [.text ['\x22']]) =
      piecesFrom tail s slots := by
  induction slots generalizing s with
  | nil =>
    have := assemble_map_text tail [] [.text ['\x22']]
    rw [List.append_nil] at this
    rw [itemsFrom, this, ← Piece.consUnits_append]
    exact Piece.consUnits_text _ _ _
  | cons slot slots ih =>
    rw [itemsFrom, assemble_map_text, ← Piece.consUnits_append, Item.assemble_hole,
      Piece.consUnits_text]
    exact congrArg (_ :: _ :: ·) (ih ['}'])

theorem string?_text (t : Template) (hslots : ∀ slot ∈ t.slots, IsHoleCode slot.code) :
    Literal.string? t.text = some (piecesFrom t.tail t.opener t.slots, []) := by
  obtain ⟨style, hinter, hopener⟩ : ∃ style : Style, style.interpolated ∧
      t.opener.map mark ∈ style.openers := by
    rcases List.mem_cons.1 t.opener_mem with heq | hmem
    · exact ⟨⟨false, true⟩, rfl, heq ▸ List.mem_cons_self⟩
    · refine ⟨⟨true, true⟩, rfl, ?_⟩
      rcases List.mem_pair.1 hmem with heq | heq <;> rw [heq] <;> decide
  have hliteral : Literal.IsString style t.opener (itemsFrom t.tail t.slots) '\x22' [] :=
    ⟨hopener, derives_itemsFrom hinter t.tail_literal hslots, rfl, fun _ => nofun⟩
  refine Literal.string?_eq_some_iff.2 ⟨style, t.opener, _, _, ?_, hliteral, ?_⟩
  · rw [List.append_assoc, flatten_itemsFrom]
    rfl
  · exact (assemble_itemsFrom _ _ _).symm

/-- A template is one token. -/
theorem exists_tokenize_text (t : Template) (hslots : ∀ slot ∈ t.slots, IsHoleCode slot.code) :
    ∃ kind, kind ≠ .identifier ∧
      tokenize t.text = .ok [⟨kind, piecesFrom t.tail t.opener t.slots⟩] := by
  obtain ⟨kind, hkind, hmatch, hinter⟩ : ∃ kind : TokenKind, kind ≠ .identifier ∧
      Matches kind.rule t.opener ∧ kind.isInterpolated := by
    rcases List.mem_cons.1 t.opener_mem with heq | hmem
    · exact ⟨.interpolatedStr, nofun, matches_text.2 heq, rfl⟩
    · refine ⟨.interpolatedVerbatimStr, nofun, matches_alt.2 ?_, rfl⟩
      exact (List.mem_pair.1 hmem).imp matches_text.2 matches_text.2
  have hfirst : Token.first? t.text = some (⟨kind, piecesFrom t.tail t.opener t.slots⟩, []) :=
    (Token.first?_of_opener hmatch hinter).trans (congrArg _ (t.string?_text hslots))
  refine ⟨kind, hkind, tokenize_eq_cons_iff.2 ⟨[], hfirst, ?_⟩⟩
  rw [tokenize, if_pos rfl]

/-! ## Renaming -/

/-- What becomes of the code of a hole under a renaming: `f` is the code renamed, `n` the number of
words replaced in it. -/
def Renames (name target : List Char) (f : List Char → List Char) (n : List Char → Nat)
    (code : List Char) : Prop :=
  ∃ m, Markup.tokenized? code = some m ∧ m.rename name target = f code ∧ m.references name = n code

variable {name target : List Char} {f : List Char → List Char} {n : List Char → Nat}

theorem exists_filled_piecesFrom (tail s : List Char)
    (hslots : ∀ slot ∈ slots, Renames name target f n slot.code) :
    ∃ m, Part.AreTokenized ((piecesFrom tail s slots).map Part.ofPiece) m ∧
      m.rename name target = s ++ writeFrom f tail slots ∧
      m.references name = (slots.map fun slot => n slot.code).sum := by
  induction slots generalizing s with
  | nil =>
    refine ⟨[.plain (s ++ tail ++ ['\x22'])], .plain _ .nil, ?_, rfl⟩
    rw [writeFrom, ← List.append_assoc]
    exact List.append_nil _
  | cons slot slots ih =>
    obtain ⟨⟨inner, hinner, hrename, hreferences⟩, hslots⟩ := List.forall_mem_cons.1 hslots
    obtain ⟨m, hfilled, hrename', hreferences'⟩ := ih ['}'] hslots
    refine ⟨.plain (s ++ slot.lead ++ ['{']) :: (inner ++ m), .plain _ (.hole hinner hfilled), ?_,
      ?_⟩
    · have hhead : Markup.rename name target (.plain (s ++ slot.lead ++ ['{']) :: (inner ++ m)) =
          s ++ slot.lead ++ ['{'] ++ Markup.rename name target (inner ++ m) := rfl
      rw [hhead, Markup.rename_append, hrename, hrename', writeFrom]
      simp
    · have hhead : Markup.references name (.plain (s ++ slot.lead ++ ['{']) :: (inner ++ m)) =
          Markup.references name (inner ++ m) := List.countP_cons_of_neg nofun
      rw [hhead, Markup.references, List.countP_append, List.map_cons, List.sum_cons]
      exact congrArg₂ (· + ·) hreferences hreferences'

/-- The markup of a template from those of its holes. -/
theorem renames_text (t : Template) (hslots : ∀ slot ∈ t.slots, IsHoleCode slot.code)
    (hcodes : ∀ slot ∈ t.slots, Renames name target f n slot.code) :
    ∃ m, Markup.tokenized? t.text = some m ∧ m.rename name target = t.write f ∧
      m.references name = (t.codes.map n).sum := by
  obtain ⟨kind, hkind, htokens⟩ := t.exists_tokenize_text hslots
  obtain ⟨m, hfilled, hrename, hreferences⟩ := exists_filled_piecesFrom t.tail t.opener hcodes
  have hparts : Token.parts? t.text =
      some ((piecesFrom t.tail t.opener t.slots).map Part.ofPiece) := by
    refine Token.parts?_eq_some.2 ⟨_, htokens, ?_⟩
    rw [Token.partsAfter_cons, Token.ownParts, if_neg hkind]
    exact List.append_nil _
  have hlength : ∀ code, Part.hole code ∈ (piecesFrom t.tail t.opener t.slots).map Part.ofPiece →
      code.length < t.text.length := by
    intro code hmem
    obtain ⟨p, hp, heq⟩ := List.mem_map.1 hmem
    cases p with
    | text u => cases heq
    | hole u =>
      cases heq
      exact length_hole_lt_of_tokenize htokens _ List.mem_cons_self _ hp
  refine ⟨m, Markup.read?_of_filled hparts ?_, hrename, ?_⟩
  · exact hfilled.mono fun code inner hmem hcode => ⟨hlength code hmem, hcode⟩
  · rw [hreferences, codes, List.map_map]
    rfl

end Template

/-- Renaming a template renames the code in each of its holes, as if it stood alone, and nothing
else. The counts of the holes add up. -/
theorem Renamer.rename_template (r : Renamer) (t : Template) (parameter : String)
    (hcodes : ∀ code ∈ t.codes, IsHoleCode code) :
    let alone := fun code => r.rename (String.ofList code) parameter
    r.rename (String.ofList t.text) parameter =
      { text := String.ofList (t.write fun code => (alone code).text.toList)
        parameter := some parameter
        renamed := (t.codes.map fun code => (alone code).renamed).sum
        mode := .tokenized } := by
  intro alone
  have hslots : ∀ slot ∈ t.slots, IsHoleCode slot.code :=
    fun slot hslot => hcodes _ (List.mem_map_of_mem hslot)
  have halone : ∀ slot ∈ t.slots, Template.Renames (bare parameter.toList) r.target.toList
      (fun code => (alone code).text.toList) (fun code => (alone code).renamed) slot.code := by
    intro slot hslot
    obtain ⟨m, hm⟩ := Option.isSome_iff_exists.1 (hslots slot hslot).tokenized
    have hm' : Markup.tokenized? (String.ofList slot.code).toList = some m := by
      rwa [String.toList_ofList]
    have hout : alone slot.code = _ := r.rename_of_tokenized? parameter hm'
    refine ⟨m, hm, ?_, ?_⟩
    · simp only [hout, String.toList_ofList]
    · simp only [hout]
  obtain ⟨m, hm, hrename, hreferences⟩ := t.renames_text hslots halone
  rw [← String.toList_ofList (l := t.text)] at hm
  rw [r.rename_of_tokenized? parameter hm, hrename, hreferences]

theorem Renamer.rename_template_sample :
    let t : Template :=
      ⟨['$', '\x22'], by decide, [⟨['#'], by decide, ['s', '.', 'I', 'd']⟩,
        ⟨[' '], by decide, ['$', '\x22', '{', 's', '}', '\x22', '+', 's']⟩], ['.'], by decide⟩
    ({} : Renamer).rename (String.ofList t.text) "s" =
      ⟨"$\"#\x7bsource.Id\x7d \x7b$\"\x7bsource\x7d\"+source\x7d.\"", some "s", 3, .tokenized⟩ := by
  intro t
  have hfirst : IsHoleCode ['s', '.', 'I', 'd'] :=
    ⟨by decide +kernel, by decide, by decide +kernel⟩
  have hsecond : IsHoleCode ['$', '\x22', '{', 's', '}', '\x22', '+', 's'] :=
    ⟨by decide +kernel, by decide, by decide +kernel⟩
  have hrename := Renamer.rename_template {} t "s"
    (List.forall_mem_cons.2 ⟨hfirst, List.forall_mem_singleton.2 hsecond⟩)
  rw [hrename]
  decide +kernel

end MapPlan.Expr
