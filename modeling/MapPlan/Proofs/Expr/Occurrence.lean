import MapPlan.Proofs.Expr.Scan

/-!
# Occurrences of a name among the tokens

Which identifier tokens of a text stand for a name, said of the tokens alone, at any depth of holes.
The ranges of the words of a tokenized text are exactly these.
-/

namespace MapPlan.Expr

variable {s rest name : List Char} {m : Markup} {tokens : List Token} {start lo hi : Nat}

namespace Token

/-- The last token with meaning. -/
def last? (tokens : List Token) : Option Token :=
  tokens.reverse.find? fun t => !t.kind.isTrivia

def endWithDot (tokens : List Token) : Bool :=
  (last? tokens).any (·.kind = .dot)

theorem endWithDot_concat (tokens : List Token) (t : Token) :
    endWithDot (tokens ++ [t]) = if t.kind.isTrivia then endWithDot tokens else t.kind = .dot := by
  rw [endWithDot, last?, List.reverse_append, List.reverse_singleton, List.singleton_append,
    List.find?_cons]
  cases t.kind.isTrivia <;> rfl

end Token

/-- The bytes from `lo` up to `hi` are an identifier token with the given name, at any depth of
holes, and the last token with meaning before it in its segment is no dot. -/
inductive Occurs (name : List Char) : List Char → Nat → Nat → Prop where
  | token {s : List Char} {before after : List Token} {t : Token} :
      tokenize s = .ok (before ++ t :: after) → t.kind = .identifier → bare t.text = name →
      Token.endWithDot before = false →
      Occurs name s (Text.byteSize (before.flatMap Token.text))
        (Text.byteSize (before.flatMap Token.text) + Text.byteSize t.text)
  | hole {s code : List Char} {before after : List Token} {t : Token}
      {pieces pieces' : List (Piece Char)} {lo hi : Nat} :
      tokenize s = .ok (before ++ t :: after) → t.kind.isInterpolated →
      t.pieces = pieces ++ .hole code :: pieces' → Occurs name code lo hi →
      Occurs name s
        (Text.byteSize (before.flatMap Token.text) + Text.byteSize (Piece.flatten pieces) + lo)
        (Text.byteSize (before.flatMap Token.text) + Text.byteSize (Piece.flatten pieces) + hi)

/-- An occurrence in one of the holes of a literal that starts at byte `start`. -/
def OccursInHole (name : List Char) (start : Nat) (pieces : List (Piece Char)) (lo hi : Nat) :
    Prop :=
  ∃ pieces₁ code pieces₂ lo' hi', pieces = pieces₁ ++ .hole code :: pieces₂ ∧
    Occurs name code lo' hi' ∧ lo = start + Text.byteSize (Piece.flatten pieces₁) + lo' ∧
    hi = start + Text.byteSize (Piece.flatten pieces₁) + hi'

/-- An occurrence in a token that starts at byte `start`, given whether it follows a dot. -/
def OccursInToken (name : List Char) (start : Nat) (dot : Bool) (t : Token) (lo hi : Nat) : Prop :=
  (t.kind = .identifier ∧ bare t.text = name ∧ dot = false ∧ lo = start ∧
    hi = start + Text.byteSize t.text) ∨
  (t.kind.isInterpolated ∧ OccursInHole name start t.pieces lo hi)

theorem occurs_iff (h : tokenize s = .ok tokens) :
    Occurs name s lo hi ↔ ∃ before t after, tokens = before ++ t :: after ∧
      OccursInToken name (Text.byteSize (before.flatMap Token.text)) (Token.endWithDot before) t
        lo hi := by
  constructor
  · intro hoccurs
    cases hoccurs with
    | @token _ before after t htokens hkind hbare hdot =>
      rw [h] at htokens
      cases htokens
      exact ⟨before, t, after, rfl, .inl ⟨hkind, hbare, hdot, rfl, rfl⟩⟩
    | @hole _ code before after t pieces pieces' lo hi htokens hinter hpieces hinner =>
      rw [h] at htokens
      cases htokens
      exact ⟨before, t, after, rfl, .inr ⟨hinter, pieces, code, pieces', lo, hi, hpieces, hinner,
        rfl, rfl⟩⟩
  · rintro ⟨before, t, after, rfl, ⟨hkind, hbare, hdot, rfl, rfl⟩ | ⟨hinter, hhole⟩⟩
    · exact .token h hkind hbare hdot
    · obtain ⟨pieces, code, pieces', lo', hi', hpieces, hinner, rfl, rfl⟩ := hhole
      exact .hole h hinter hpieces hinner

theorem not_occursInHole_nil : ¬ OccursInHole name start [] lo hi := by
  rintro ⟨pieces₁, _, _, _, _, heq, _⟩
  exact absurd heq.symm (List.append_ne_nil_of_right_ne_nil pieces₁ (List.cons_ne_nil _ _))

theorem occursInHole_cons {p : Piece Char} {pieces : List (Piece Char)} :
    OccursInHole name start (p :: pieces) lo hi ↔
      (∃ code lo' hi', p = .hole code ∧ Occurs name code lo' hi' ∧ lo = start + lo' ∧
        hi = start + hi') ∨
      OccursInHole name (start + Text.byteSize p.units) pieces lo hi := by
  constructor
  · rintro ⟨pieces₁, code, pieces₂, lo', hi', heq, hoccurs, rfl, rfl⟩
    cases pieces₁ with
    | nil =>
      cases heq
      exact .inl ⟨code, lo', hi', rfl, hoccurs, rfl, rfl⟩
    | cons q pieces₁ =>
      cases heq
      refine .inr ⟨pieces₁, code, pieces₂, lo', hi', rfl, hoccurs, ?_, ?_⟩ <;>
        rw [Piece.flatten_cons, Text.byteSize_append, ← Nat.add_assoc start]
  · rintro (⟨code, lo', hi', rfl, hoccurs, rfl, rfl⟩ |
      ⟨pieces₁, code, pieces₂, lo', hi', rfl, hoccurs, rfl, rfl⟩)
    · exact ⟨[], code, pieces, lo', hi', rfl, hoccurs, rfl, rfl⟩
    · refine ⟨p :: pieces₁, code, pieces₂, lo', hi', rfl, hoccurs, ?_, ?_⟩ <;>
        rw [Piece.flatten_cons, Text.byteSize_append, ← Nat.add_assoc start]

/-! ## Ranges of the words -/

namespace Markup

/-- Ranges move with the text. -/
theorem rangesFrom_add (name : List Char) (start k : Nat) (m : Markup) :
    rangesFrom name (start + k) m =
      (rangesFrom name k m).map fun r => (start + r.1, start + r.2) := by
  induction m generalizing k with
  | nil => rfl
  | cons f m ih =>
    rw [rangesFrom, rangesFrom, Nat.add_assoc, ih]
    split <;> rfl

theorem mem_rangesFrom_iff :
    (lo, hi) ∈ rangesFrom name start m ↔
      ∃ lo' hi', (lo', hi') ∈ ranges name m ∧ lo = start + lo' ∧ hi = start + hi' := by
  have h := rangesFrom_add name start 0 m
  rw [Nat.add_zero] at h
  rw [h, ranges, List.mem_map]
  constructor
  · rintro ⟨⟨lo', hi'⟩, hmem, heq⟩
    cases heq
    exact ⟨lo', hi', hmem, rfl, rfl⟩
  · rintro ⟨lo', hi', hmem, rfl, rfl⟩
    exact ⟨(lo', hi'), hmem, rfl⟩

/-- The ranges of a markup are the occurrences in its text. -/
def Finds (name code : List Char) (inner : Markup) : Prop :=
  inner.text = code ∧ ∀ lo hi, (lo, hi) ∈ inner.ranges name ↔ Occurs name code lo hi

theorem mem_rangesFrom_pieces {pieces : List (Piece Char)}
    (h : Filled (Finds name) (pieces.map Part.ofPiece) m) :
    (lo, hi) ∈ rangesFrom name start m ↔ OccursInHole name start pieces lo hi := by
  induction pieces generalizing m start with
  | nil =>
    cases h
    exact ⟨nofun, fun hoccurs => absurd hoccurs not_occursInHole_nil⟩
  | cons p pieces ih =>
    rw [occursInHole_cons]
    cases p with
    | text u =>
      cases h with
      | plain _ h =>
        refine (ih h).trans ⟨.inr, ?_⟩
        rintro (⟨_, _, _, heq, _⟩ | hoccurs)
        · cases heq
        · exact hoccurs
    | hole code =>
      cases h with
      | @hole _ inner _ m hcode h =>
        obtain ⟨htext, hranges⟩ := hcode
        rw [rangesFrom_append, List.mem_append, htext, ih h, mem_rangesFrom_iff]
        refine or_congr ⟨?_, ?_⟩ Iff.rfl
        · rintro ⟨lo', hi', hmem, rfl, rfl⟩
          exact ⟨code, lo', hi', rfl, (hranges lo' hi').1 hmem, rfl, rfl⟩
        · rintro ⟨_, lo', hi', heq, hoccurs, rfl, rfl⟩
          cases heq
          exact ⟨lo', hi', (hranges lo' hi').2 hoccurs, rfl, rfl⟩

theorem mem_rangesFrom_token {t : Token} {dot : Bool} (hfirst : Token.first? s = some (t, rest))
    (h : Filled (Finds name) (t.ownParts dot tokens) m) :
    (lo, hi) ∈ rangesFrom name start m ↔ OccursInToken name start dot t lo hi := by
  rw [Token.ownParts] at h
  split at h
  · rename_i hkind
    cases h with
    | word w h =>
      cases h
      rw [mem_rangesFrom_cons, refersTo_word, OccursInToken, hkind]
      constructor
      · rintro (⟨⟨hdot, hbare⟩, heq⟩ | hnil)
        · cases heq
          exact .inl ⟨rfl, hbare, hdot, rfl, rfl⟩
        · cases hnil
      · rintro (⟨_, hbare, hdot, rfl, rfl⟩ | ⟨hinter, _⟩)
        · exact .inl ⟨⟨hdot, hbare⟩, rfl⟩
        · cases hinter
  · rename_i hkind
    rw [mem_rangesFrom_pieces h, OccursInToken]
    constructor
    · intro hoccurs
      cases hinter : t.kind.isInterpolated with
      | true => exact .inr ⟨rfl, hoccurs⟩
      | false =>
        -- A token of another kind is one piece of text.
        rw [Token.pieces_eq_text_of_first? hfirst hinter, occursInHole_cons] at hoccurs
        obtain ⟨_, _, _, heq, _⟩ | hoccurs := hoccurs
        · cases heq
        · exact absurd hoccurs not_occursInHole_nil
    · rintro (⟨htrue, _⟩ | ⟨_, hoccurs⟩)
      · exact absurd htrue hkind
      · exact hoccurs

/-- The tokens before, `before`, only tell where the others start and whether they follow a dot. -/
theorem mem_rangesFrom_tokens (before : List Token) (htokens : tokenize s = .ok tokens)
    (h : Filled (Finds name) (Token.partsAfter (Token.endWithDot before) tokens) m) :
    (lo, hi) ∈ rangesFrom name (Text.byteSize (before.flatMap Token.text)) m ↔
      ∃ between t after, tokens = between ++ t :: after ∧
        OccursInToken name (Text.byteSize ((before ++ between).flatMap Token.text))
          (Token.endWithDot (before ++ between)) t lo hi := by
  refine tokenize_induction (P := fun s tokens => ∀ before m,
    Filled (Finds name) (Token.partsAfter (Token.endWithDot before) tokens) m →
      ((lo, hi) ∈ rangesFrom name (Text.byteSize (before.flatMap Token.text)) m ↔
        ∃ between t after, tokens = between ++ t :: after ∧
          OccursInToken name (Text.byteSize ((before ++ between).flatMap Token.text))
            (Token.endWithDot (before ++ between)) t lo hi)) ?_ ?_ htokens before m h
  · intro before m h
    cases h
    refine ⟨nofun, ?_⟩
    rintro ⟨between, _, _, heq, _⟩
    exact absurd heq.symm (List.append_ne_nil_of_right_ne_nil between (List.cons_ne_nil _ _))
  · intro s t rest tokens hfirst _ ih before m h
    rw [Token.partsAfter_cons, ← Token.endWithDot_concat] at h
    obtain ⟨m₁, m₂, rfl, h₁, h₂⟩ := h.append_left
    have htext : m₁.text = t.text := by
      rw [h₁.text_eq fun _ _ h => h.1, Token.flatMap_text_ownParts]
    have hstart : Text.byteSize (before.flatMap Token.text) + Text.byteSize m₁.text =
        Text.byteSize ((before ++ [t]).flatMap Token.text) := by
      rw [htext, List.flatMap_append, Text.byteSize_append, List.flatMap_singleton]
    rw [rangesFrom_append, List.mem_append, mem_rangesFrom_token hfirst h₁, hstart, ih _ _ h₂]
    constructor
    · rintro (hoccurs | ⟨between, t', after, rfl, hoccurs⟩)
      · exact ⟨[], t, tokens, rfl, by rwa [List.append_nil]⟩
      · exact ⟨t :: between, t', after, rfl, by rwa [List.append_assoc] at hoccurs⟩
    · rintro ⟨between, t', after, heq, hoccurs⟩
      cases between with
      | nil =>
        cases heq
        rw [List.append_nil] at hoccurs
        exact .inl hoccurs
      | cons _ between =>
        cases heq
        exact .inr ⟨between, t', after, rfl, by rwa [List.append_assoc]⟩

/-- The words of a tokenized text that stand for a name are its occurrences among the tokens. -/
theorem mem_ranges_iff_occurs (h : tokenized? s = some m) :
    (lo, hi) ∈ m.ranges name ↔ Occurs name s lo hi := by
  refine (read?_induction (P := Finds name) (fun s parts m hparts hfilled => ?_) h).2 lo hi
  obtain ⟨tokens, htokens, rfl⟩ := Token.parts?_eq_some.1 hparts
  obtain ⟨cells, hcells, hcovers⟩ := Token.exists_covers_of_parts? hparts
  have hfilled := hfilled.mono fun _ _ _ h => h.2.2
  refine ⟨?_, fun lo hi => ?_⟩
  · exact hcovers.text_eq (fun _ _ h => h.1) hcells hfilled
  · rw [occurs_iff htokens]
    exact mem_rangesFrom_tokens [] htokens hfilled

end Markup
end MapPlan.Expr
