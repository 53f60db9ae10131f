import Mathlib.Data.List.Infix
import Mathlib.Data.Option.Basic
import MapPlan.Proofs.Expr.LiteralSafety

/-!
# Lambda heads

A lambda whose head declares one name is renamed as its body is: the head is dropped and the name it
declares is the parameter. The head may have blanks anywhere between its parts, and a type before
the name.
-/

namespace MapPlan

namespace Text

variable {s u v w x : List Char} {c : Char}

/-! ## Blanks -/

/-- Do the ranges of two tables lie apart? -/
def areApart (ranges ranges' : List (Nat × Nat)) : Bool :=
  ranges.all fun r => ranges'.all fun r' => r.2 < r'.1 || r'.2 < r.1

theorem exists_mem_of_inRanges {ranges : List (Nat × Nat)} {n : Nat} (h : inRanges ranges n) :
    ∃ r ∈ ranges, r.1 ≤ n ∧ n ≤ r.2 := by
  induction ranges with
  | nil => cases h
  | cons r ranges ih =>
    rw [inRanges, Bool.and_eq_true_iff, Bool.or_eq_true_iff, decide_eq_true_eq,
      decide_eq_true_eq] at h
    rcases h with ⟨hlo, hhi | hmore⟩
    · exact ⟨r, List.mem_cons_self, hlo, hhi⟩
    · obtain ⟨r', hr', hbounds⟩ := ih hmore
      exact ⟨r', List.mem_cons_of_mem r hr', hbounds⟩

theorem inRanges_eq_false {ranges ranges' : List (Nat × Nat)} {n : Nat}
    (hapart : areApart ranges ranges') (h : inRanges ranges n) : inRanges ranges' n = false := by
  refine Bool.eq_false_iff.2 fun h' => ?_
  obtain ⟨r, hr, hlo, hhi⟩ := exists_mem_of_inRanges h
  obtain ⟨r', hr', hlo', hhi'⟩ := exists_mem_of_inRanges h'
  have := List.all_eq_true.1 (List.all_eq_true.1 hapart r hr) r' hr'
  rw [Bool.or_eq_true_iff, decide_eq_true_eq, decide_eq_true_eq] at this
  omega

theorem trimLeft_append (hu : ∀ c ∈ u, isBlank c) (hs : ∀ c ∈ s.head?, isBlank c = false) :
    trimLeft (u ++ s) = s :=
  Expr.dropWhile_append_eq hu hs

theorem trimRight_append (hv : ∀ c ∈ v, isBlank c) (hs : ∀ c ∈ s.getLast?, isBlank c = false) :
    trimRight (s ++ v) = s := by
  have hreverse : ∀ c ∈ s.reverse.head?, isBlank c = false := by rwa [List.head?_reverse]
  rw [trimRight, List.reverse_append,
    Expr.dropWhile_append_eq (fun c hc => hv c (List.mem_reverse.1 hc)) hreverse,
    List.reverse_reverse]

/-- Between visible characters nothing is trimmed. -/
theorem trim_append (hu : ∀ c ∈ u, isBlank c) (hv : ∀ c ∈ v, isBlank c)
    (hfirst : ∀ c ∈ s.head?, isBlank c = false) (hlast : ∀ c ∈ s.getLast?, isBlank c = false)
    (hne : s ≠ []) : trim (u ++ s ++ v) = s := by
  have hhead : (s ++ v).head? = s.head? := by
    rw [List.head?_append, Option.or_of_isSome (List.isSome_head?.2 hne)]
  rw [trim, List.append_assoc, trimLeft_append hu (hhead ▸ hfirst), trimRight_append hv hlast]

/-- The last word stands between blanks. -/
theorem lastWord?_append (hu : ∀ c ∈ u.getLast?, isBlank c) (hw : ∀ c ∈ w, isBlank c = false)
    (hne : w ≠ []) (hx : ∀ c ∈ x, isBlank c) : lastWord? (u ++ w ++ x) = some w := by
  have hdrop : (u ++ w ++ x).reverse.dropWhile isBlank = w.reverse ++ u.reverse := by
    have hlast : ∀ c ∈ (u ++ w).reverse.head?, isBlank c = false := by
      intro c hc
      rw [List.head?_reverse, List.getLast?_append,
        Option.or_of_isSome (List.getLast?_isSome.2 hne)] at hc
      exact hw c (List.mem_of_getLast? hc)
    rw [List.reverse_append,
      Expr.dropWhile_append_eq (fun c hc => hx c (List.mem_reverse.1 hc)) hlast,
      List.reverse_append]
  have htake : (w.reverse ++ u.reverse).takeWhile (!isBlank ·) = w.reverse := by
    refine Expr.takeWhile_append_eq (fun c hc => ?_) (fun c hc => ?_)
    · rw [hw c (List.mem_reverse.1 hc)]
      rfl
    · rw [List.head?_reverse] at hc
      rw [hu c hc]
      rfl
  rw [lastWord?, hdrop, htake, List.reverse_reverse]
  cases w with
  | nil => exact absurd rfl hne
  | cons c w => rfl

end Text

namespace Expr

variable {p head rest : List Char} {c : Char}

/-! ## Names -/

theorem isBlank_eq_false_of_isNameChar (h : Boundary.isNameChar c) : Text.isBlank c = false := by
  rw [Boundary.isNameChar, Bool.or_eq_true_iff, Bool.or_eq_true_iff] at h
  rcases h with (h | h) | h
  · have hapart : Text.areApart Text.alphabeticRanges Text.blankRanges := by decide +kernel
    exact Text.inRanges_eq_false hapart h
  · have hapart : Text.areApart Text.numericRanges Text.blankRanges := by decide +kernel
    exact Text.inRanges_eq_false hapart h
  · rw [eq_of_beq h]
    decide

theorem isNameChar_of_isNameStart (h : Boundary.isNameStart c) : Boundary.isNameChar c := by
  rw [Boundary.isNameStart, Bool.or_eq_true_iff] at h
  rw [Boundary.isNameChar, Bool.or_right_comm, Bool.or_eq_true_iff, Bool.or_eq_true_iff]
  exact .inl h

theorem ne_nil_of_isName (h : isName p) : p ≠ [] := by
  rintro rfl
  cases h

theorem mem_of_isName (h : isName p) (hc : c ∈ p) : c = '@' ∨ Boundary.isNameChar c := by
  have hbare : ∀ c ∈ bare p, Boundary.isNameChar c := by
    rw [isName] at h
    split at h
    · rename_i c cs heq
      obtain ⟨hc, hcs⟩ := Bool.and_eq_true_iff.1 h
      rw [heq]
      exact List.forall_mem_cons.2 ⟨isNameChar_of_isNameStart hc, List.all_eq_true.1 hcs⟩
    · cases h
  rcases eq_bare_or_eq_cons p with heq | heq <;> rw [heq] at hc
  · exact .inr (hbare c hc)
  · exact (List.mem_cons.1 hc).imp_right (hbare c)

theorem isBlank_eq_false_of_isName (h : isName p) (hc : c ∈ p) : Text.isBlank c = false := by
  rcases mem_of_isName h hc with rfl | hc
  · decide
  · exact isBlank_eq_false_of_isNameChar hc

theorem notMem_of_isName {l : List Char}
    (hl : l.any (fun c => c == '@' || Boundary.isNameChar c) = false) (h : isName p) (hc : c ∈ p) :
    c ∉ l := by
  refine TokenRule.notMem_of_class (p := fun c => c == '@' || Boundary.isNameChar c) hl ?_
  rw [Bool.or_eq_true_iff, beq_iff_eq]
  exact mem_of_isName h hc

/-! ## Heads -/

/-- The head declares the name, alone or in parentheses, where a type may come before it. -/
inductive Declares (p : List Char) : List Char → Prop where
  | name {u v : List Char} :
      (∀ c ∈ u, Text.isBlank c) → (∀ c ∈ v, Text.isBlank c) → Declares p (u ++ p ++ v)
  | enclosed {u type x v : List Char} :
      (∀ c ∈ u, Text.isBlank c) → (∀ c ∈ type, c ∉ [',', '\x22', '\x27', '/']) →
      ¬ ['=', '>'] <:+: type → (∀ c ∈ type.getLast?, Text.isBlank c) → (∀ c ∈ x, Text.isBlank c) →
      (∀ c ∈ v, Text.isBlank c) → Declares p (u ++ '(' :: (type ++ p ++ x) ++ ')' :: v)

namespace Lambda

variable {u s : List Char}

theorem splitArrow?_cons (h : c = '=' → s.head? ≠ some '>') :
    splitArrow? (c :: s) = (splitArrow? s).map fun (head, rest) => (c :: head, rest) := by
  rw [splitArrow?]
  rintro rest rfl rfl
  exact h rfl rfl

/-- The first arrow stands behind a text that has none and does not start one. -/
theorem splitArrow?_append (h : ¬ ['=', '>'] <:+: u) (hlast : u.getLast? ≠ some '=') :
    splitArrow? (u ++ s) = (splitArrow? s).map fun (head, rest) => (u ++ head, rest) := by
  induction u with
  | nil => exact Option.map_id'.symm
  | cons c u ih =>
    have hstep : c = '=' → (u ++ s).head? ≠ some '>' := by
      rintro rfl hhead
      cases u with
      | nil => exact hlast rfl
      | cons d u =>
        cases hhead
        exact h ⟨[], u, rfl⟩
    have hsub : ¬ ['=', '>'] <:+: u := fun hsub => h (hsub.trans (List.suffix_cons c u).isInfix)
    have hlast' : u.getLast? ≠ some '=' := by
      intro heq
      cases u with
      | nil => cases heq
      | cons d u => exact hlast ((List.getLast?_cons_cons).trans heq)
    rw [List.cons_append, splitArrow?_cons hstep, ih hsub hlast', Option.map_map]
    rfl

theorem splitArrow?_append_of_notMem (h : '=' ∉ u) :
    splitArrow? (u ++ s) = (splitArrow? s).map fun (head, rest) => (u ++ head, rest) :=
  splitArrow?_append (fun hsub => h (hsub.mem List.mem_cons_self))
    fun hlast => h (List.mem_of_getLast? hlast)

theorem eq_notMem_of_blank (hu : ∀ c ∈ u, Text.isBlank c) : '=' ∉ u := fun hmem =>
  absurd (hu _ hmem) (by decide)

theorem eq_notMem_of_isName (hp : isName p) : '=' ∉ p := fun hmem =>
  notMem_of_isName (l := ['=']) (by decide) hp hmem List.mem_cons_self

/-- The arrow behind parentheses is the first one. -/
theorem splitArrow?_of_enclosed {type x v : List Char} (hp : isName p)
    (hu : ∀ c ∈ u, Text.isBlank c) (harrow : ¬ ['=', '>'] <:+: type)
    (hlast : ∀ c ∈ type.getLast?, Text.isBlank c) (hx : ∀ c ∈ x, Text.isBlank c)
    (hv : ∀ c ∈ v, Text.isBlank c) :
    let head := u ++ '(' :: (type ++ p ++ x) ++ ')' :: v
    splitArrow? (head ++ '=' :: '>' :: rest) = some (head, rest) := by
  intro head
  have hlast' : type.getLast? ≠ some '=' := fun heq => absurd (hlast _ heq) (by decide)
  have heq : head ++ '=' :: '>' :: rest =
      (u ++ ['(']) ++ (type ++ ((p ++ x ++ ')' :: v) ++ '=' :: '>' :: rest)) := by
    simp [head]
  rw [heq, splitArrow?_append_of_notMem (by simp [eq_notMem_of_blank hu]),
    splitArrow?_append harrow hlast', splitArrow?_append_of_notMem
      (by simp [eq_notMem_of_isName hp, eq_notMem_of_blank hx, eq_notMem_of_blank hv])]
  simp [head, splitArrow?]

/-- The arrow behind a head is the first one. -/
theorem splitArrow?_of_declares (hp : isName p) (h : Declares p head) :
    splitArrow? (head ++ '=' :: '>' :: rest) = some (head, rest) := by
  cases h with
  | @name u v hu hv =>
    rw [splitArrow?_append_of_notMem
      (by simp [eq_notMem_of_blank hu, eq_notMem_of_blank hv, eq_notMem_of_isName hp])]
    exact congrArg some (congrArg (·, rest) (List.append_nil _))
  | enclosed hu htype harrow hlast hx hv => exact splitArrow?_of_enclosed hp hu harrow hlast hx hv

theorem enclosed?_of_notMem (h : '(' ∉ s) : enclosed? s = none := by
  unfold enclosed?
  split
  · exact absurd List.mem_cons_self h
  · rfl

theorem enclosed?_append (s : List Char) : enclosed? ('(' :: s ++ [')']) = some s := by
  rw [List.cons_append, enclosed?, if_pos List.getLast?_concat, List.dropLast_concat]

/-- Around parentheses nothing but blanks is trimmed. -/
theorem trim_enclosed {inner v : List Char} (hu : ∀ c ∈ u, Text.isBlank c)
    (hv : ∀ c ∈ v, Text.isBlank c) :
    Text.trim (u ++ '(' :: inner ++ ')' :: v) = '(' :: inner ++ [')'] := by
  have heq : u ++ '(' :: inner ++ ')' :: v = u ++ ('(' :: inner ++ [')']) ++ v := by simp
  have hfirst : ∀ c ∈ ('(' :: inner ++ [')']).head?, Text.isBlank c = false := by
    rintro c ⟨⟩
    decide
  have hlast : ∀ c ∈ ('(' :: inner ++ [')']).getLast?, Text.isBlank c = false := by
    rw [List.getLast?_concat]
    rintro c ⟨⟩
    decide
  rw [heq, Text.trim_append hu hv hfirst hlast (List.cons_ne_nil _ _)]

/-- A comma in the parentheses, wherever it stands, leaves no parameter. -/
theorem parameter?_of_comma {inner : List Char} (h : enclosed? s = some inner)
    (hcomma : ',' ∈ inner) : parameter? s = none := by
  rw [parameter?]
  split
  · rfl
  · rw [h]
    simp only [List.contains_iff_mem, if_pos hcomma]
    rfl

section
variable (hquote : ∀ c ∈ s, c ∉ ['\x22', '\x27', '/'])
include hquote

theorem parameter?_of_enclosed {inner : List Char} (h : enclosed? s = some inner)
    (hcomma : ',' ∉ inner) :
    parameter? s =
      (Text.lastWord? inner).bind fun name => if isName name then some name else none := by
  have hany : s.any (['\x22', '\x27', '/'].contains ·) = false :=
    List.any_eq_false.2 fun c hc h => hquote c hc (List.contains_iff_mem.1 h)
  rw [parameter?, hany, h, if_neg Bool.false_ne_true]
  simp only [List.contains_iff_mem, if_neg hcomma]
  rfl

theorem parameter?_of_not_enclosed (h : enclosed? s = none) :
    parameter? s = if isName s then some s else none := by
  have hany : s.any (['\x22', '\x27', '/'].contains ·) = false :=
    List.any_eq_false.2 fun c hc h => hquote c hc (List.contains_iff_mem.1 h)
  rw [parameter?, hany, h, if_neg Bool.false_ne_true]
  rfl

end

/-- A head declares its name. -/
theorem parameter?_of_declares (hp : isName p) (h : Declares p head) :
    parameter? (Text.trim head) = some p := by
  have hvisible : ∀ c ∈ p, Text.isBlank c = false := fun c hc => isBlank_eq_false_of_isName hp hc
  have hquote : ∀ c ∈ p, c ∉ ['\x22', '\x27', '/'] :=
    fun c hc => notMem_of_isName (by decide) hp hc
  cases h with
  | @name u v hu hv =>
    have hopen : '(' ∉ p := fun hmem => notMem_of_isName (l := ['(']) (by decide) hp hmem (by simp)
    rw [Text.trim_append hu hv (fun c hc => hvisible c (List.mem_of_mem_head? hc))
      (fun c hc => hvisible c (List.mem_of_getLast? hc)) (ne_nil_of_isName hp),
      parameter?_of_not_enclosed hquote (enclosed?_of_notMem hopen), if_pos hp]
  | @enclosed u type x v hu htype harrow hlast hx hv =>
    have hinner : ∀ c ∈ type ++ p ++ x, c ∉ [',', '\x22', '\x27', '/'] := by
      intro c hc
      rw [List.mem_append, List.mem_append] at hc
      rcases hc with (hc | hc) | hc
      · exact htype c hc
      · exact notMem_of_isName (by decide) hp hc
      · exact TokenRule.notMem_of_class (by decide) (hx c hc)
    have hcomma : ',' ∉ type ++ p ++ x := fun hmem => hinner _ hmem List.mem_cons_self
    have hquote' : ∀ c ∈ '(' :: (type ++ p ++ x) ++ [')'], c ∉ ['\x22', '\x27', '/'] := by
      intro c hc
      rw [List.mem_append, List.mem_cons, List.mem_singleton] at hc
      rcases hc with (rfl | hc) | rfl
      · decide
      · exact fun hmem => hinner c hc (List.mem_cons_of_mem _ hmem)
      · decide
    rw [trim_enclosed hu hv, parameter?_of_enclosed hquote' (enclosed?_append _) hcomma,
      Text.lastWord?_append hlast hvisible (ne_nil_of_isName hp) hx, Option.bind_some, if_pos hp]

/-- A lambda is split behind the blanks that follow its arrow. -/
theorem ofText?_of_declares {gap body : List Char} (hp : isName p) (h : Declares p head)
    (hgap : ∀ c ∈ gap, Text.isBlank c) (hbody : ∀ c ∈ body.head?, Text.isBlank c = false) :
    ofText? (head ++ '=' :: '>' :: (gap ++ body)) =
      some ⟨p, head ++ '=' :: '>' :: gap, body⟩ := by
  rw [ofText?, splitArrow?_of_declares hp h]
  simp only [Option.bind_eq_bind, Option.bind_some, parameter?_of_declares hp h,
    takeWhile_append_eq hgap hbody, dropWhile_append_eq hgap hbody, Option.pure_def]

end Lambda

/-- Renaming a lambda drops its head and renames its body, the parameter being the name that the
head declares. Only a body that cannot be read is left in the whole text as it was. -/
theorem Renamer.renameParameter_lambda (r : Renamer) (p head gap body : List Char)
    (hp : isName p) (hhead : Declares p head) (hgap : ∀ c ∈ gap, Text.isBlank c)
    (hbody : ∀ c ∈ body.head?, Text.isBlank c = false) :
    let whole := String.ofList (head ++ '=' :: '>' :: (gap ++ body))
    let inner := r.rename (String.ofList body) (String.ofList p)
    inner.parameter = some (String.ofList p) ∧
    (inner.mode ≠ .malformed → r.renameParameter whole = inner) ∧
    (inner.mode = .malformed →
      r.renameParameter whole = ⟨whole, some (String.ofList p), 0, .malformed⟩) := by
  intro whole inner
  have hinner : inner = r.rename (String.ofList body) (String.ofList p) := rfl
  rw [rename, String.toList_ofList, String.toList_ofList] at hinner
  rw [renameParameter, String.toList_ofList, Lambda.ofText?_of_declares hp hhead hgap hbody]
  simp only [Option.map_some, Option.getD_some]
  cases hscan : scan? body with
  | none =>
    rw [hscan] at hinner
    rw [hinner]
    exact ⟨rfl, fun h => absurd rfl h, fun _ => rfl⟩
  | some scanned =>
    rw [hscan] at hinner
    rw [hinner]
    exact ⟨rfl, fun _ => rfl, fun h => absurd h (apply_mode_ne_malformed hscan)⟩

theorem Renamer.renameParameter_lambda_sample :
    ({} : Renamer).rename "s.Id" "s" = ⟨"source.Id", some "s", 1, .tokenized⟩ ∧
      ({} : Renamer).renameParameter " (Row s) => s.Id" = ({} : Renamer).rename "s.Id" "s" := by
  have hrename : ({} : Renamer).rename "s.Id" "s" = ⟨"source.Id", some "s", 1, .tokenized⟩ := by
    decide +kernel
  have hblank : ∀ c ∈ [' '], Text.isBlank c := List.forall_mem_singleton.2 (by decide)
  have hhead : Declares ['s'] ([' '] ++ '(' :: (['R', 'o', 'w', ' '] ++ ['s'] ++ []) ++
      ')' :: [' ']) :=
    .enclosed hblank (by simp) (by decide) (by simp [hblank]) (List.forall_mem_nil _) hblank
  obtain ⟨-, hout, -⟩ := Renamer.renameParameter_lambda {} ['s'] _ [' '] ['s', '.', 'I', 'd']
    (by decide) hhead hblank (by simp [show Text.isBlank 's' = false by decide])
  refine ⟨hrename, hout fun hmode => ?_⟩
  cases (congrArg Renaming.mode hrename).symm.trans hmode

end Expr
end MapPlan
