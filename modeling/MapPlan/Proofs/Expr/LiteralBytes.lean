import MapPlan.Proofs.Expr.LiteralDelimit

/-!
# Literals in bytes

The rules of literals read a text as its characters or as the bytes of its encoding. What has a mark
takes one byte, and no byte of a longer character has a mark, so the bytes spell the characters:
both readings find the same literals, and the holes stand at the same bytes.
-/

namespace MapPlan

/-! ## Bytes of a text -/

namespace Text

def encode (s : List Char) : List UInt8 :=
  s.flatMap String.utf8EncodeChar

theorem encode_append (s t : List Char) : encode (s ++ t) = encode s ++ encode t :=
  List.flatMap_append

theorem length_encode (s : List Char) : (encode s).length = byteSize s := by
  induction s with
  | nil => rfl
  | cons c s ih =>
    rw [encode, List.flatMap_cons, List.length_append, String.length_utf8EncodeChar,
      byteSize_cons, ← ih, encode]

end Text

namespace Expr

open Text (byteSize spansFrom encode encode_append length_encode)

/-! ## Marks of bytes -/

theorem Mark.ofCode_eq_other {n : Nat} (h : 128 ≤ n) : ofCode n = .other := by
  grind [ofCode]

theorem mark_of_mem_utf8EncodeChar {c : Char} {b : UInt8} (hc : ¬c.val.toNat ≤ 127)
    (hb : b ∈ String.utf8EncodeChar c) : mark b = .other := by
  refine Mark.ofCode_eq_other (n := b.toNat) ?_
  simp only [String.utf8EncodeChar, if_neg hc] at hb
  split at hb
  · simp only [List.mem_cons, List.not_mem_nil, or_false] at hb
    rcases hb with rfl | rfl <;> simp only [UInt8.toNat_ofNat'] <;> omega
  · split at hb <;> simp only [List.mem_cons, List.not_mem_nil, or_false] at hb
    · rcases hb with rfl | rfl | rfl <;> simp only [UInt8.toNat_ofNat'] <;> omega
    · rcases hb with rfl | rfl | rfl | rfl <;> simp only [UInt8.toNat_ofNat'] <;> omega

/-- A character is one byte of its mark, or bytes without a mark. -/
theorem spelling_utf8EncodeChar (c : Char) : Spelling (String.utf8EncodeChar c) c := by
  by_cases hc : c.val.toNat ≤ 127
  · refine .inl ⟨UInt8.ofNat c.val.toNat, ?_, ?_⟩
    · simp only [String.utf8EncodeChar, if_pos hc]
    · change Mark.ofCode (c.val.toNat % 256) = Mark.ofCode c.val.toNat
      rw [Nat.mod_eq_of_lt (by omega)]
  · have hother : mark c = .other := Mark.ofCode_eq_other (n := c.val.toNat) (by omega)
    refine .inr ⟨hother, [], String.utf8EncodeChar c, rfl, .inl rfl, fun hnil => ?_,
      fun b => mark_of_mem_utf8EncodeChar hc⟩
    have hlength := String.length_utf8EncodeChar c
    rw [hnil] at hlength
    exact absurd hlength (Nat.ne_of_lt c.utf8Size_pos)

/-! ## Spans of bytes -/

namespace Piece

variable {α : Type}

theorem ranges_add (offset start : Nat) (pieces : List (Piece α)) :
    ranges (offset + start) pieces =
      (ranges start pieces).map fun r => (offset + r.1, offset + r.2) := by
  induction pieces generalizing start with
  | nil => rfl
  | cons p pieces ih =>
    cases p with
    | text s =>
      change ranges (offset + start + s.length) pieces = _
      rw [Nat.add_assoc, ih]
      rfl
    | hole s =>
      change (_, offset + start + s.length) :: ranges (offset + start + s.length) pieces = _
      rw [Nat.add_assoc, ih]
      rfl

theorem holeSpans_eq_ranges (pieces : List (Piece Char)) :
    holeSpans pieces = ranges 0 (pieces.map (spell String.utf8EncodeChar)) := by
  obtain ⟨span?, htext, hhole, hspans⟩ : ∃ span? : Piece Char × (Nat × Nat) → Option (Nat × Nat),
      (∀ s span, span? (.text s, span) = none) ∧ (∀ s span, span? (.hole s, span) = some span) ∧
        ∀ pieces, holeSpans pieces =
          (pieces.zip (spansFrom 0 (pieces.map units))).filterMap span? := by
    refine ⟨_, ?_, ?_, fun pieces => by rw [holeSpans]⟩ <;> exact fun s span => rfl
  have hrange : ∀ start, (pieces.zip (spansFrom start (pieces.map units))).filterMap span? =
      ranges start (pieces.map (spell String.utf8EncodeChar)) := by
    induction pieces with
    | nil => exact fun start => rfl
    | cons p pieces ih =>
      intro start
      rw [List.map_cons, spansFrom, List.zip_cons_cons, List.filterMap_cons, ih]
      cases p with
      | text s =>
        rw [htext, units, ← length_encode]
        rfl
      | hole s =>
        rw [hhole, units, ← length_encode]
        rfl
  rw [hspans, hrange]

end Piece

/-! ## Literals of characters and of bytes -/

namespace Literal

theorem string?_encode (s : List Char) :
    string? (encode s) = (string? s).map fun (pieces, rest) =>
      (pieces.map (Piece.spell String.utf8EncodeChar), encode rest) :=
  string?_flatMap fun c _ => spelling_utf8EncodeChar c

/-- The bytes between which a literal of a text and its holes stand are those found for its
characters. -/
theorem delimit?_encode (before s : List Char) :
    delimit? (encode (before ++ s)) (byteSize before) =
      (string? s).map fun (pieces, rest) =>
        (byteSize (before ++ s) - byteSize rest,
          (Piece.holeSpans pieces).map fun r => (byteSize before + r.1, byteSize before + r.2)) := by
  have hdrop : (encode (before ++ s)).drop (byteSize before) = encode s := by
    rw [encode_append, ← length_encode, List.drop_left]
  rw [delimit?, hdrop, string?_encode]
  rcases string? s with _ | ⟨pieces, rest⟩
  · rfl
  · simp only [Option.map_some, length_encode, Piece.holeSpans_eq_ranges, ← Piece.ranges_add,
      Nat.add_zero]

/-- Where a character starts, the bytes of a text have a literal of the grammar just where the
program reads one of its characters. -/
theorem isLiteral_encode_iff {before s : List Char} {stop : Nat} {holes : List (Nat × Nat)} :
    IsLiteral (encode (before ++ s)) (byteSize before) stop holes ↔
      ∃ pieces rest, string? s = some (pieces, rest) ∧
        stop = byteSize before + byteSize (Piece.flatten pieces) ∧
        holes = (Piece.holeSpans pieces).map
          fun r => (byteSize before + r.1, byteSize before + r.2) := by
  rw [← delimit?_eq_some_iff, delimit?_encode, Option.map_eq_some_iff, Prod.exists]
  refine exists_congr fun pieces => exists_congr fun rest => and_congr_right fun hstring => ?_
  have hsize : byteSize (before ++ s) - byteSize rest =
      byteSize before + byteSize (Piece.flatten pieces) := by
    rw [← flatten_append_of_string? hstring, Text.byteSize_append, Text.byteSize_append]
    omega
  rw [Prod.mk.injEq, hsize, eq_comm, eq_comm (a := holes)]

end Literal
end Expr
end MapPlan
