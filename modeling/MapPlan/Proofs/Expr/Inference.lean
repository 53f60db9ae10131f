import Mathlib.Data.List.Find
import Mathlib.Data.List.Monad
import Mathlib.Data.Option.Basic
import MapPlan.Proofs.Expr.LiteralSafety

/-!
# The inferred parameter

A text that declares no parameter is renamed for one of its own words: the first word of the best
class that has any. So whatever is inferred occurs in the text, bound, and is renamed there. To ask
for the parameter alone gives the same answer.
-/

namespace MapPlan.Expr

variable {s name : List Char} {m : Markup} {mode : Mode} {words : List Word} {w : Word}
  {aliases : List String}

/-! ## Classes of words -/

namespace Word

/-- The word may be the parameter: no member, in lower case or behind an underscore, no keyword. -/
structure MayBind (w : Word) : Prop where
  member : w.member = false
  lower : ∃ c tail, w.bare = c :: tail ∧ (Text.isLowercase c ∨ c = '_')
  keyword : String.ofList w.bare ∉ keywords

/-- The classes of words that may be the parameter, the best class first: words that lead and have a
usual name, words that lead, all words. -/
def classes (aliases : List String) : List (Word → Prop) :=
  [fun w => w.MayBind ∧ w.leads ∧ String.ofList w.bare ∈ aliases, fun w => w.MayBind ∧ w.leads,
   MayBind]

/-- The word is the first one of the best class that is not empty. -/
def IsPreferred (classes : List (Word → Prop)) (words : List Word) (w : Word) : Prop :=
  ∃ better P worse before after, classes = better ++ P :: worse ∧
    (∀ Q ∈ better, ∀ v ∈ words, ¬ Q v) ∧
    words = before ++ w :: after ∧ P w ∧ ∀ v ∈ before, ¬ P v

theorem isEligible_iff : w.isEligible ↔ w.MayBind := by
  have hlower : w.bare.head?.any (fun c => Text.isLowercase c || c == '_') ↔
      ∃ c tail, w.bare = c :: tail ∧ (Text.isLowercase c ∨ c = '_') := by
    cases w.bare with
    | nil => simp
    | cons c tail => simp
  rw [isEligible, Bool.and_eq_true_iff, Bool.and_eq_true_iff, hlower, Bool.not_eq_true',
    Bool.not_eq_true', List.contains_eq_mem, decide_eq_false_iff_not]
  exact ⟨fun ⟨⟨hmember, hlower⟩, hkeyword⟩ => ⟨hmember, hlower, hkeyword⟩,
    fun h => ⟨⟨h.member, h.lower⟩, h.keyword⟩⟩

/-- How a word is tested for each class. -/
def tests (aliases : List String) : List (Word → Bool) :=
  [fun w => w.isEligible && w.leads && w.isAlias aliases, fun w => w.isEligible && w.leads,
   isEligible]

theorem classes_eq (aliases : List String) :
    classes aliases = (tests aliases).map fun test w => test w = true := by
  have hbind : MayBind = fun w => w.isEligible = true :=
    funext fun w => propext isEligible_iff.symm
  simp only [classes, tests, hbind, isAlias, List.map_cons, List.map_nil, Bool.and_eq_true,
    List.contains_iff_mem, and_assoc]

/-- To look through the words for one class after the other finds the preferred word. -/
theorem findSome?_tests_eq_some_iff :
    (tests aliases).findSome? words.find? = some w ↔ IsPreferred (classes aliases) words w := by
  rw [classes_eq, List.findSome?_eq_some_iff]
  constructor
  · rintro ⟨better, test, worse, htests, hfind, hnone⟩
    obtain ⟨hw, before, after, hwords, hbefore⟩ := List.find?_eq_some_iff_append.1 hfind
    refine ⟨_, _, _, before, after, by rw [htests, List.map_append, List.map_cons], ?_, hwords, hw,
      fun v hv => ?_⟩
    · intro Q hQ
      obtain ⟨test', htest', rfl⟩ := List.mem_map.1 hQ
      exact List.find?_eq_none.1 (hnone test' htest')
    · simpa using hbefore v hv
  · rintro ⟨better, P, worse, before, after, hclasses, hbetter, rfl, hw, hbefore⟩
    obtain ⟨tests₁, others, htests, rfl, hothers⟩ := List.map_eq_append_iff.1 hclasses
    obtain ⟨test, tests₂, rfl, rfl, rfl⟩ := List.map_eq_cons_iff.1 hothers
    refine ⟨tests₁, test, tests₂, htests, ?_, fun test' htest' => ?_⟩
    · exact List.find?_eq_some_iff_append.2 ⟨hw, before, after, rfl, by simpa using hbefore⟩
    · exact List.find?_eq_none.2 (hbetter _ (List.mem_map.2 ⟨test', htest', rfl⟩))

/-- A preferred word may be the parameter. -/
theorem IsPreferred.mayBind (h : IsPreferred (classes aliases) words w) :
    w ∈ words ∧ w.MayBind := by
  obtain ⟨better, P, worse, before, after, hclasses, _, rfl, hw, _⟩ := h
  refine ⟨List.mem_append_right _ List.mem_cons_self, ?_⟩
  have hP : P ∈ classes aliases := by
    rw [hclasses]
    exact List.mem_append_right _ List.mem_cons_self
  simp only [classes, List.mem_cons, List.not_mem_nil, or_false] at hP
  rcases hP with rfl | rfl | rfl
  · exact hw.1
  · exact hw.1
  · exact hw

end Word

/-! ## The parameter of a markup -/

namespace Markup

/-- To filter the words and look through what is left is to look for one class after the other. -/
theorem parameter?_eq (aliases : List String) (m : Markup) :
    m.parameter? aliases = ((Word.tests aliases).findSome? m.words.find?).map Word.text := by
  have hleads : (fun w : Word => w.leads && w.isEligible) = fun w => w.isEligible && w.leads :=
    funext fun w => Bool.and_comm ..
  simp only [parameter?, Word.tests, List.filter_filter, List.find?_filter, List.head?_filter,
    List.findSome?_cons, List.findSome?_nil, Bool.decide_and, Bool.decide_eq_true, hleads]
  cases m.words.find? fun w => w.isEligible && w.leads && w.isAlias aliases with
  | some w => rfl
  | none =>
    cases m.words.find? fun w => w.isEligible && w.leads with
    | some w => rfl
    | none => cases m.words.find? Word.isEligible <;> rfl

/-- What is inferred is the preferred word. -/
theorem parameter?_eq_some_iff :
    m.parameter? aliases = some name ↔
      ∃ w, Word.IsPreferred (Word.classes aliases) m.words w ∧ name = w.text := by
  rw [parameter?_eq, Option.map_eq_some_iff]
  exact exists_congr fun w => and_congr Word.findSome?_tests_eq_some_iff eq_comm

/-- Nothing is inferred where no word may be the parameter. -/
theorem parameter?_eq_none_iff :
    m.parameter? aliases = none ↔ ∀ w ∈ m.words, ¬ w.MayBind := by
  have hnone (test : Word → Bool) :
      m.words.find? test = none ↔ ∀ w ∈ m.words, ¬ test w := by
    simp only [List.find?_eq_none]
  rw [parameter?_eq, Option.map_eq_none_iff, List.findSome?_eq_none_iff]
  constructor
  · intro h w hw hbind
    exact (hnone _).1 (h Word.isEligible (by simp [Word.tests])) w hw (Word.isEligible_iff.2 hbind)
  · intro h test htest
    refine (hnone test).2 fun w hw htrue => h w hw (Word.isEligible_iff.1 ?_)
    simp only [Word.tests, List.mem_cons, List.not_mem_nil, or_false] at htest
    rcases htest with rfl | rfl | rfl
    · exact (Bool.and_eq_true_iff.1 (Bool.and_eq_true_iff.1 htrue).1).1
    · exact (Bool.and_eq_true_iff.1 htrue).1
    · exact htrue

end Markup

/-! ## What is inferred is renamed -/

namespace Renamer

/-- A word that may be the parameter is renamed with it. -/
theorem one_le_renamed {r : Renamer} (hw : w ∈ m.words) (h : w.MayBind) :
    1 ≤ (r.apply m mode (some w.text)).renamed := by
  obtain ⟨f, hf, hword⟩ := List.mem_filterMap.1 hw
  cases f with
  | plain s => exact nomatch hword
  | word w' =>
    cases hword
    exact List.countP_pos_iff.2 ⟨_, hf, Markup.refersTo_word.2 ⟨h.member, rfl⟩⟩

/-- A text without lambda head is renamed for the parameter inferred from its words. -/
theorem renameParameter_eq_apply {r : Renamer} {text : String}
    (hlambda : Lambda.ofText? text.toList = none) (hscan : scan? text.toList = some (m, mode)) :
    r.renameParameter text = r.apply m mode (m.parameter? r.aliases) := by
  simp only [renameParameter, hlambda, Option.map_none, Option.getD_none, hscan]
  rfl

theorem renameParameter_eq_untouched {r : Renamer} {text : String}
    (hlambda : Lambda.ofText? text.toList = none) (hscan : scan? text.toList = none) :
    r.renameParameter text = .untouched text none .malformed := by
  simp only [renameParameter, hlambda, Option.map_none, Option.getD_none, hscan]

theorem parameter_apply (r : Renamer) (m : Markup) (mode : Mode) (name? : Option (List Char)) :
    (r.apply m mode name?).parameter = name?.map String.ofList := by
  cases name? <;> rfl

/-- With the usual names, the parameter that a text is renamed for is the one inferred from it. -/
theorem parameter_renameParameter {r : Renamer} (haliases : r.aliases = conventionalAliases)
    (text : String) :
    (r.renameParameter text).parameter = (inferParameter? text.toList).map String.ofList := by
  cases hlambda : Lambda.ofText? text.toList with
  | some lambda =>
    simp only [renameParameter, inferParameter?, hlambda, Option.map_some, Option.getD_some]
    cases scan? lambda.body with
    | none => rfl
    | some found => rfl
  | none =>
    simp only [inferParameter?, hlambda]
    cases hscan : scan? text.toList with
    | none => rw [renameParameter_eq_untouched hlambda hscan]; rfl
    | some found => rw [renameParameter_eq_apply hlambda hscan, parameter_apply, haliases]; rfl

/-- A text without lambda head whose words can be read is renamed for the first word of the best
class, if any word may be a parameter: it occurs in the text and is renamed at least once.
Otherwise the text stays as it is. The inference alone finds the same parameter in every text. -/
theorem renameParameter_infers (r : Renamer) (text : String) :
    let out := r.renameParameter text
    (Lambda.ofText? text.toList = none → out.mode ≠ .malformed →
      ∃ m, scan? text.toList = some (m, out.mode) ∧ m.text = text.toList ∧
        (∀ name, out.parameter = some (String.ofList name) ↔
          ∃ w, Word.IsPreferred (Word.classes r.aliases) m.words w ∧ name = w.text) ∧
        (out.parameter.isSome → 1 ≤ out.renamed) ∧
        (out.parameter = none ↔ ∀ w ∈ m.words, ¬ w.MayBind) ∧
        (out.parameter = none → out.text = text ∧ out.renamed = 0)) ∧
    (r.aliases = conventionalAliases →
      out.parameter = (inferParameter? text.toList).map String.ofList) := by
  refine ⟨fun hlambda hmode => ?_, fun haliases => parameter_renameParameter haliases text⟩
  cases hscan : scan? text.toList with
  | none => exact absurd (by rw [renameParameter_eq_untouched hlambda hscan]; rfl) hmode
  | some found =>
    obtain ⟨m, mode⟩ := found
    rw [renameParameter_eq_apply hlambda hscan, parameter_apply, Option.isSome_map,
      Option.map_eq_none_iff]
    have htext := (exists_roles_of_scan? hscan).1
    refine ⟨m, ?_, htext, fun name => ?_, fun hsome => ?_, Markup.parameter?_eq_none_iff,
      fun hnone => ?_⟩
    · cases m.parameter? r.aliases <;> rfl
    · rw [← Markup.parameter?_eq_some_iff, Option.map_eq_some_iff]
      exact ⟨fun ⟨_, hp, heq⟩ => String.ofList_injective heq ▸ hp, fun hp => ⟨name, hp, rfl⟩⟩
    · obtain ⟨name, hp⟩ := Option.isSome_iff_exists.1 hsome
      obtain ⟨w, hw, rfl⟩ := Markup.parameter?_eq_some_iff.1 hp
      obtain ⟨hmem, hbind⟩ := hw.mayBind
      rw [hp]
      exact one_le_renamed hmem hbind
    · rw [hnone]
      exact ⟨by rw [apply, Renaming.untouched, htext, String.ofList_toList], rfl⟩

theorem renameParameter_infers_sample :
    let out := ({} : Renamer).renameParameter "a+$\"\x7bo.y\x7d\""
    out = ⟨"a+$\"\x7bsource.y\x7d\"", some "o", 1, .tokenized⟩ ∧
      (inferParameter? "a+$\"\x7bo.y\x7d\"".toList).map String.ofList = some "o" ∧
      ∃ m, scan? "a+$\"\x7bo.y\x7d\"".toList = some (m, .tokenized) ∧
        ∃ w, Word.IsPreferred (Word.classes conventionalAliases) m.words w ∧ w.text = ['o'] := by
  have hout : ({} : Renamer).renameParameter "a+$\"\x7bo.y\x7d\"" =
      ⟨"a+$\"\x7bsource.y\x7d\"", some "o", 1, .tokenized⟩ := by decide +kernel
  have hinfers := renameParameter_infers {} "a+$\"\x7bo.y\x7d\""
  rw [hout] at hinfers
  obtain ⟨m, hscan, -, hparameter, -⟩ := hinfers.1 (by decide +kernel) (by decide)
  obtain ⟨w, hw, htext⟩ := (hparameter ['o']).1 (by decide)
  exact ⟨hout, (hinfers.2 rfl).symm, m, hscan, w, hw, htext.symm⟩

end Renamer
end MapPlan.Expr
