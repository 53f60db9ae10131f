import MapPlan.Proofs.Expr.Agreement
import MapPlan.Proofs.Expr.Inference
import MapPlan.Proofs.Expr.LambdaHead
import MapPlan.Proofs.Expr.MarkupEdit

/-!
# Heads with a generic type

A head in parentheses is taken for several parameters wherever it has a comma, also when the comma
stands between the arguments of a generic type. So no lambda is seen in a text whose head declares
one parameter of such a type: the text is renamed as an expression, head and all, for a parameter
that is inferred from its words, those of the head among them.
-/

namespace MapPlan.Expr

variable {s name target : List Char} {m : Markup} {mode : Mode}

/-! ## Signs -/

/-- What a head is made of beside names and blanks, with its arrow. -/
def signs : List Char := ['(', ')', ',', '<', '>', '=']

def isSign (c : Char) : Bool :=
  signs.contains c

theorem isSign_eq_false_iff {c : Char} : isSign c = false ↔ c ∉ signs := by
  rw [isSign, List.contains_eq_mem, decide_eq_false_iff_not]

namespace Boundary

theorem isName_of_name? {rest : List Char} (h : name? s = some (name, rest)) : isName name := by
  have hname : ∀ {c : Char} {cs u : List Char}, isNameStart c →
      bare u = c :: cs.takeWhile isNameChar → isName u := by
    intro c cs u hc hbare
    rw [isName, hbare]
    exact Bool.and_eq_true_iff.2 ⟨hc, List.all_takeWhile⟩
  cases s with
  | nil => cases h
  | cons c cs =>
    by_cases hat : c = '@'
    · subst hat
      cases cs with
      | nil => cases h
      | cons c cs =>
        obtain ⟨hc, heq⟩ := Option.ite_none_right_eq_some.1 (name?_at.symm.trans h)
        cases heq
        exact hname hc rfl
    · obtain ⟨hc, heq⟩ := Option.ite_none_right_eq_some.1 ((name?_cons hat).symm.trans h)
      cases heq
      refine hname hc ((eq_bare_or_eq_cons _).elim Eq.symm fun heq => ?_)
      exact absurd (List.cons.inj heq).1 hat

theorem isName_of_partsAfter? {before : List Char} {parts : List Part}
    (h : partsAfter? before s = some parts) : ∀ w, .word w ∈ parts → isName w.text := by
  refine partsAfter?_induction (P := fun _ _ parts => ∀ w, .word w ∈ parts → isName w.text)
    (fun _ => nofun) ?_ h
  intro before s first rest more hfirst ih w hw
  rcases List.mem_append.1 hw with hw | hw
  · obtain ⟨_, _, _, hwords⟩ | ⟨name, rfl, hname, _⟩ := next?_cases hfirst
    · exact absurd hw (hwords w)
    · cases List.mem_singleton.1 hw
      exact isName_of_name? hname
  · exact ih w hw

end Boundary

namespace Markup

theorem isName_of_boundary? (h : boundary? s = some m) : ∀ w, .word w ∈ m → isName w.text := by
  refine read?_induction (P := fun _ m => ∀ w, .word w ∈ m → isName w.text) ?_ h
  intro s parts m hparts hfilled
  exact hfilled.forall_word (Boundary.isName_of_partsAfter? hparts)
    fun code inner hcode => hcode.2.2

/-- Words have no signs. -/
theorem isSign_eq_false_of_scan? (h : scan? s = some (m, mode)) :
    ∀ w, .word w ∈ m → ∀ c ∈ w.text, isSign c = false := by
  intro w hw c hc
  rw [scan?] at h
  split at h
  · rename_i htokenized
    cases h
    obtain ⟨sign, body, heq, hat, _, hbody⟩ :=
      TokenRule.notMem_of_identifier (l := signs) (by decide) (by decide)
        (matches_identifier_of_tokenized? htokenized w hw)
    rw [heq, List.mem_append] at hc
    rcases hc with hc | hc
    · rcases hat with rfl | rfl
      · cases hc
      · cases List.mem_singleton.1 hc
        decide
    · exact isSign_eq_false_iff.2 (hbody c hc)
  · obtain ⟨m', hboundary, heq⟩ := Option.map_eq_some_iff.1 h
    cases heq
    have hname := isName_of_boundary? hboundary w hw
    exact isSign_eq_false_iff.2 (notMem_of_isName (by decide) hname hc)

/-- Renaming keeps what is in no word and not in the target, in its order. -/
theorem filter_rename {p : Char → Bool} (hwords : ∀ w, .word w ∈ m → ∀ c ∈ w.text, p c = false)
    (htarget : ∀ c ∈ target, p c = false) : (m.rename name target).filter p = m.text.filter p := by
  have hnone : ∀ {u : List Char}, (∀ c ∈ u, p c = false) → u.filter p = [] := fun hu =>
    List.filter_eq_nil_iff.2 fun c hc => Bool.eq_false_iff.1 (hu c hc)
  rw [rename, text, List.filter_flatMap, List.filter_flatMap]
  refine List.flatMap_congr fun f hf => ?_
  cases f with
  | plain u => rfl
  | word w =>
    split
    · exact (hnone htarget).trans (hnone (hwords w hf)).symm
    · rfl

end Markup

/-! ## Heads -/

namespace Lambda

/-- Do all commas stand between angle brackets, each of which has its counterpart, where so many are
open before the text? -/
def nests : Nat → List Char → Bool
  | depth, [] => depth = 0
  | depth, c :: cs =>
    if c = '<' then nests (depth + 1) cs
    else if c = '>' then depth ≠ 0 && nests (depth - 1) cs
    else (c ≠ ',' || depth ≠ 0) && nests depth cs

/-- The text is of a type with two arguments or more. Its commas separate these and no parameters:
all of them stand between angle brackets. -/
structure IsGeneric (type : List Char) : Prop where
  nests : nests 0 type
  comma : ',' ∈ type
  plain : ∀ c ∈ type, c ∉ ['\x22', '\x27', '/']
  arrow : ¬ ['=', '>'] <:+: type

/-- The head declares the name in parentheses, and before it a generic type. -/
inductive DeclaresGeneric (p : List Char) : List Char → Prop where
  | enclosed {u type x v : List Char} :
      (∀ c ∈ u, Text.isBlank c) → IsGeneric type → (∀ c ∈ type.getLast?, Text.isBlank c) →
      (∀ c ∈ x, Text.isBlank c) → (∀ c ∈ v, Text.isBlank c) →
      DeclaresGeneric p (u ++ '(' :: (type ++ p ++ x) ++ ')' :: v)

variable {p head : List Char}

/-- A generic type hides the lambda. -/
theorem ofText?_of_declaresGeneric (hp : isName p) (h : DeclaresGeneric p head)
    (rest : List Char) : ofText? (head ++ '=' :: '>' :: rest) = none := by
  obtain @⟨u, type, x, v, hu, htype, hlast, hx, hv⟩ := h
  have hcomma : ',' ∈ type ++ p ++ x :=
    List.mem_append_left _ (List.mem_append_left _ htype.comma)
  rw [ofText?, splitArrow?_of_enclosed hp hu htype.arrow hlast hx hv]
  simp only [Option.bind_eq_bind, Option.bind_some, trim_enclosed hu hv,
    parameter?_of_comma (enclosed?_append _) hcomma, Option.bind_none]

end Lambda

/-- What stands before a body has signs, those of the arrow at least. -/
theorem length_filter_isSign_lt (head gap body : List Char) :
    (body.filter isSign).length <
      ((head ++ '=' :: '>' :: (gap ++ body)).filter isSign).length := by
  have heq : isSign '=' := by decide
  have hgreater : isSign '>' := by decide
  rw [List.filter_append, List.filter_cons_of_pos heq, List.filter_cons_of_pos hgreater,
    List.filter_append]
  simp only [List.length_append, List.length_cons]
  omega

namespace Renamer

/-- The renaming of a text keeps its signs. -/
theorem filter_isSign_text_apply {r : Renamer} (h : scan? s = some (m, mode))
    (htarget : ∀ c ∈ r.target.toList, isSign c = false) (name? : Option (List Char)) :
    (r.apply m mode name?).text.toList.filter isSign = s.filter isSign := by
  have htext := (exists_roles_of_scan? h).1
  cases name? with
  | none => rw [apply, Renaming.untouched, String.toList_ofList, htext]
  | some name =>
    rw [apply, String.toList_ofList,
      Markup.filter_rename (Markup.isSign_eq_false_of_scan? h) htarget, htext]

theorem filter_isSign_text_rename {r : Renamer}
    (htarget : ∀ c ∈ r.target.toList, isSign c = false) (text parameter : String) :
    (r.rename text parameter).text.toList.filter isSign = text.toList.filter isSign := by
  rw [rename]
  cases hscan : scan? text.toList with
  | none => rfl
  | some found => exact filter_isSign_text_apply hscan htarget _

/-- Of a text whose head declares a name behind a generic type no lambda is seen. The text is
renamed as an expression, for a parameter that is inferred from all its words, and the signs of the
head stay. So the result is neither of those that a lambda has. -/
theorem renameParameter_generic (r : Renamer) (p head gap body : List Char)
    (hp : isName p) (hhead : Lambda.DeclaresGeneric p head) :
    let whole := String.ofList (head ++ '=' :: '>' :: (gap ++ body))
    let out := r.renameParameter whole
    let inner := r.rename (String.ofList body) (String.ofList p)
    Lambda.ofText? whole.toList = none ∧
    (scan? whole.toList = none → out = ⟨whole, none, 0, .malformed⟩) ∧
    (∀ m mode, scan? whole.toList = some (m, mode) →
      (∀ name, m.parameter? r.aliases = some name → out = r.rename whole (String.ofList name)) ∧
      (m.parameter? r.aliases = none → out = ⟨whole, none, 0, mode⟩)) ∧
    out ≠ ⟨whole, some (String.ofList p), 0, .malformed⟩ ∧
    ((∀ c ∈ r.target.toList, isSign c = false) →
      out.text.toList.filter isSign = whole.toList.filter isSign ∧ out ≠ inner) := by
  intro whole out inner
  have hlambda : Lambda.ofText? whole.toList = none := by
    rw [String.toList_ofList]
    exact Lambda.ofText?_of_declaresGeneric hp hhead _
  have hmalformed : scan? whole.toList = none → out = ⟨whole, none, 0, .malformed⟩ :=
    fun hscan => renameParameter_eq_untouched hlambda hscan
  have happly : ∀ {m mode}, scan? whole.toList = some (m, mode) →
      out = r.apply m mode (m.parameter? r.aliases) :=
    fun hscan => renameParameter_eq_apply hlambda hscan
  refine ⟨hlambda, hmalformed, fun m mode hscan => ⟨fun name hname => ?_, fun hnone => ?_⟩,
    fun heq => ?_, fun htarget => ?_⟩
  · rw [happly hscan, hname, rename, hscan, String.toList_ofList]
  · rw [happly hscan, hnone, apply, Renaming.untouched, (exists_roles_of_scan? hscan).1,
      String.ofList_toList]
    rfl
  · cases hscan : scan? whole.toList with
    | none =>
      rw [hmalformed hscan] at heq
      cases heq
    | some found =>
      rw [happly hscan] at heq
      exact apply_mode_ne_malformed hscan (congrArg Renaming.mode heq)
  · have hsigns : out.text.toList.filter isSign = whole.toList.filter isSign := by
      cases hscan : scan? whole.toList with
      | none => rw [hmalformed hscan]
      | some found =>
        rw [happly hscan]
        exact filter_isSign_text_apply hscan htarget _
    refine ⟨hsigns, fun heq => ?_⟩
    have hlt := length_filter_isSign_lt head gap body
    rw [heq, filter_isSign_text_rename htarget, String.toList_ofList, String.toList_ofList]
      at hsigns
    rw [hsigns] at hlt
    exact Nat.lt_irrefl _ hlt

theorem declaresGeneric_sample : Lambda.DeclaresGeneric ['d']
    ([] ++ '(' :: (['T', '<', 'A', ',', 'B', '>', ' '] ++ ['d'] ++ []) ++ ')' :: []) :=
  .enclosed (List.forall_mem_nil _) ⟨by decide, by decide, by simp, by decide⟩
    (by simp [show Text.isBlank ' ' by decide]) (List.forall_mem_nil _) (List.forall_mem_nil _)

theorem renameParameter_generic_sample :
    Lambda.ofText? "(T<A,B> d)=>d".toList = none ∧
      ({} : Renamer).renameParameter "(T<A,B> d)=>d" ≠ ({} : Renamer).rename "d" "d" := by
  have htarget : "source".toList.all (!isSign ·) := by decide
  obtain ⟨hlambda, -, -, -, hsigns⟩ :=
    renameParameter_generic {} ['d'] _ [] ['d'] (by decide) declaresGeneric_sample
  refine ⟨hlambda, (hsigns fun c hc => ?_).2⟩
  simpa using List.all_eq_true.1 htarget c hc

/-- The head stays, and the name is replaced in it as in the body. -/
theorem renameParameter_generic_head :
    ({} : Renamer).renameParameter "(T<A,B> d)=>d" =
      ⟨"(T<A,B> source)=>source", some "d", 2, .tokenized⟩ ∧
    ({} : Renamer).rename "d" "d" = ⟨"source", some "d", 1, .tokenized⟩ ∧
    ¬ ∀ p head body : List Char, isName p → Lambda.DeclaresGeneric p head →
      (∀ c ∈ body.head?, Text.isBlank c = false) →
      (({} : Renamer).rename (String.ofList body) (String.ofList p)).mode ≠ .malformed →
      ({} : Renamer).renameParameter (String.ofList (head ++ '=' :: '>' :: body)) =
        ({} : Renamer).rename (String.ofList body) (String.ofList p) := by
  have hlambda : Lambda.ofText? "(T<A,B> d)=>d".toList = none :=
    Lambda.ofText?_of_declaresGeneric (by decide) declaresGeneric_sample ['d']
  have hscan : scan? "(T<A,B> d)=>d".toList = some ([.plain ['('], .word ⟨['T'], false, false⟩,
      .plain ['<'], .word ⟨['A'], false, false⟩, .plain [','], .word ⟨['B'], false, false⟩,
      .plain ['>'], .plain [' '], .word ⟨['d'], false, false⟩, .plain [')'], .plain ['=', '>'],
      .word ⟨['d'], false, false⟩], .tokenized) := by decide +kernel
  have hout : ({} : Renamer).renameParameter "(T<A,B> d)=>d" =
      ⟨"(T<A,B> source)=>source", some "d", 2, .tokenized⟩ := by
    rw [renameParameter_eq_apply hlambda hscan]
    decide +kernel
  have hinner : ({} : Renamer).rename "d" "d" = ⟨"source", some "d", 1, .tokenized⟩ := by
    decide +kernel
  refine ⟨hout, hinner, fun h => ?_⟩
  have heq := h ['d'] _ ['d'] (by decide) declaresGeneric_sample
    (by simp [show Text.isBlank 'd' = false by decide])
    fun hmode => absurd ((congrArg Renaming.mode hinner).symm.trans hmode) (by decide)
  cases congrArg Renaming.renamed (hout.symm.trans (heq.trans hinner))

end Renamer
end MapPlan.Expr
