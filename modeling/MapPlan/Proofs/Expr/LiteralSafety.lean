import MapPlan.Proofs.Expr.Occurrence

/-!
# Literal safety of renaming

Renaming replaces byte ranges of code, each of which held the name, and nothing else; a text whose
literals cannot be told from its code stays as it is. Where the text is tokenized, the ranges are
those of the identifier tokens, at any depth of holes, that have the name and no dot before them.
-/

namespace MapPlan.Expr

variable {s : List Char} {m : Markup} {mode : Mode}

theorem scan?_eq_some_tokenized :
    scan? s = some (m, .tokenized) ↔ Markup.tokenized? s = some m := by
  rw [scan?]
  cases Markup.tokenized? s with
  | some m' => simp
  | none => simp

/-- The words of a scan are code, and its markup is the text. -/
theorem exists_roles_of_scan? (h : scan? s = some (m, mode)) :
    m.text = s ∧ ∃ roles, Role.ofText? s = some roles ∧ Shown m roles := by
  rw [scan?] at h
  cases htokenized : Markup.tokenized? s with
  | some m' =>
    rw [htokenized] at h
    cases h
    have hparts := fun s parts => @Token.exists_covers_of_parts? s parts
    exact ⟨Markup.text_of_read? hparts htokenized, Markup.exists_roles_of_read? hparts htokenized⟩
  | none =>
    rw [htokenized] at h
    obtain ⟨m', hboundary, heq⟩ := Option.map_eq_some_iff.1 h
    cases heq
    have hparts := fun s parts => @Boundary.exists_covers_of_parts? s parts
    exact ⟨Markup.text_of_read? hparts hboundary, Markup.exists_roles_of_read? hparts hboundary⟩

theorem scan?_ne_malformed (h : scan? s = some (m, mode)) : mode ≠ .malformed := by
  rw [scan?] at h
  split at h
  · cases h
    exact nofun
  · obtain ⟨_, _, heq⟩ := Option.map_eq_some_iff.1 h
    cases heq
    exact nofun

namespace Renamer

/-- A text with words is not malformed. -/
theorem apply_mode_ne_malformed {r : Renamer} {found : Markup × Mode}
    {parameter : Option (List Char)} (h : scan? s = some found) :
    (r.apply found.1 found.2 parameter).mode ≠ .malformed := by
  cases parameter with
  | none => exact scan?_ne_malformed h
  | some name => exact scan?_ne_malformed h

/-- Whether an expression is malformed depends on what follows its head, and not on the renamer. -/
theorem isMalformed_renameParameter_iff {r : Renamer} {text : String} :
    (r.renameParameter text).isMalformed ↔
      scan? (((Lambda.ofText? text.toList).map Lambda.body).getD text.toList) = none := by
  rw [Renaming.isMalformed, decide_eq_true_iff, renameParameter]
  cases hscan : scan? (((Lambda.ofText? text.toList).map Lambda.body).getD text.toList) with
  | none => exact iff_of_true rfl rfl
  | some found => exact iff_of_false (apply_mode_ne_malformed hscan) (Option.some_ne_none found)

/-- A malformed expression stays as it is, its head included. -/
theorem text_renameParameter_of_isMalformed {r : Renamer} {text : String}
    (h : (r.renameParameter text).isMalformed) : (r.renameParameter text).text = text := by
  rw [renameParameter, isMalformed_renameParameter_iff.1 h]
  rfl

/-- A malformed text stays as it is. In any other, renaming replaces some byte ranges with the
target: each held the name, perhaps behind an at sign, and all of it was code. In a tokenized text
these are exactly the occurrences of the name among the tokens. -/
theorem rename_literal_safe (r : Renamer) (text parameter : String) :
    let name := bare parameter.toList
    let out := r.rename text parameter
    (out.mode = .malformed → out.text = text ∧ out.renamed = 0) ∧
    (out.mode ≠ .malformed →
      ∃ ranges roles, Text.AreRanges text.toList ranges ∧
        out.text.toList = Text.replace text.toList r.target.toList ranges ∧
        out.renamed = ranges.length ∧
        (∀ range ∈ ranges, Text.slice text.toList range.1 range.2 = name ∨
          Text.slice text.toList range.1 range.2 = '@' :: name) ∧
        Role.ofText? text.toList = some roles ∧ roles.length = text.toList.length ∧
        (∀ range ∈ ranges, Role.AreCode text.toList roles range) ∧
        (out.mode = .tokenized →
          ∀ lo hi, (lo, hi) ∈ ranges ↔ Occurs name text.toList lo hi)) := by
  intro name out
  cases hscan : scan? text.toList with
  | none =>
    have hout : out = .untouched text (some parameter.toList) .malformed := by
      simp only [out, rename, hscan]
    rw [hout]
    exact ⟨fun _ => ⟨rfl, rfl⟩, fun h => absurd rfl h⟩
  | some found =>
    obtain ⟨m, mode⟩ := found
    have hout : out = r.apply m mode (some parameter.toList) := by
      simp only [out, rename, hscan]
    obtain ⟨htext, roles, hroles, hshown⟩ := exists_roles_of_scan? hscan
    rw [hout, ← htext]
    refine ⟨fun hmode => absurd hmode (scan?_ne_malformed hscan), fun _ =>
      ⟨m.ranges name, roles, ?_, ?_, ?_, ?_, ?_, ?_, ?_, ?_⟩⟩
    · exact m.areRanges_ranges fun w hw => hshown.text_ne_nil hw
    · rw [m.replace_ranges name r.target.toList]
      exact String.toList_ofList
    · exact (m.length_rangesFrom name 0).symm
    · exact fun range hr => Markup.slice_of_mem_ranges hr
    · rw [htext]; exact hroles
    · exact hshown.length_eq
    · exact fun range hr => hshown.code_of_mem_rangesFrom hr
    · intro (hmode : mode = .tokenized) lo hi
      subst hmode
      rw [htext]
      exact Markup.mem_ranges_iff_occurs (scan?_eq_some_tokenized.1 hscan)

end Renamer
end MapPlan.Expr
