import Mathlib.Data.List.TakeWhile
import MapPlan.Proofs.Expr.Retokenize

/-!
# Formats in the holes of literals

The hole of an interpolated string may end with a format behind a colon, as in `{x.Total:N0}`. The
tokenizer knows of no formats and reads the whole hole as code. So a format is renamed as code is:
each of its words that is the parameter is replaced, unless a dot comes right before it.
-/

namespace MapPlan.Expr

open Regex

variable {name target s u rest : List Char} {c : Char} {dot : Bool} {m : Markup}

/-! ## Runs -/

def isWordChar (c : Char) : Bool :=
  c.isAlphanum || c == '_'

/-- Word characters side by side, or one sign. -/
structure Run where
  text : List Char
  /-- Is it a word with no dot right before it? A number is no word. -/
  free : Bool
deriving DecidableEq, Repr

namespace Run

def refersTo (name : List Char) (r : Run) : Bool :=
  r.free && r.text = name

def rename (name target : List Char) (r : Run) : List Char :=
  if r.refersTo name then target else r.text

end Run

/-- The runs of a text, given whether a dot comes right before it. -/
def runs (dot : Bool) : List Char → List Run
  | [] => []
  | c :: cs =>
    if isWordChar c then
      ⟨c :: cs.takeWhile isWordChar, !dot && !c.isDigit⟩ :: runs false (cs.dropWhile isWordChar)
    else ⟨[c], false⟩ :: runs (c = '.') cs
termination_by s => s.length
decreasing_by
  · exact Nat.lt_succ_of_le (List.length_dropWhile_le _ _)
  · exact Nat.lt_succ_self _

/-- Nothing is lost. -/
theorem flatMap_text_runs (dot : Bool) (s : List Char) : (runs dot s).flatMap Run.text = s := by
  fun_induction runs dot s with
  | case1 => rfl
  | case2 dot c cs _ ih =>
    rw [List.flatMap_cons, ih, List.cons_append, List.takeWhile_append_dropWhile]
  | case3 dot c cs _ ih =>
    rw [List.flatMap_cons, ih]
    rfl

/-- Without the name nothing is replaced. -/
theorem flatMap_rename_runs (h : ∀ run ∈ runs dot s, run.refersTo name = false) :
    (runs dot s).flatMap (Run.rename name target) = s := by
  have hrename : (runs dot s).map (Run.rename name target) = (runs dot s).map Run.text :=
    List.map_congr_left fun run hrun => if_neg (Bool.eq_false_iff.1 (h run hrun))
  rw [List.flatMap_def, hrename, ← List.flatMap_def, flatMap_text_runs]

theorem runs_sign (hc : isWordChar c = false) :
    runs dot (c :: s) = ⟨[c], false⟩ :: runs (c = '.') s := by
  rw [runs, hc, if_neg Bool.false_ne_true]

theorem exists_cons_of_isPlainIdentifier (hu : Options.isPlainIdentifier u) :
    ∃ c body, u = c :: body ∧ isWordChar c ∧ c.isDigit = false ∧ ∀ d ∈ body, isWordChar d := by
  cases u with
  | nil => cases hu
  | cons c body =>
    obtain ⟨hc, hbody⟩ := Bool.and_eq_true_iff.1 hu
    refine ⟨c, body, rfl, ?_, ?_, List.all_eq_true.1 hbody⟩
    · rw [isWordChar, Char.isAlphanum, Bool.or_right_comm, hc, Bool.true_or]
    · refine Bool.eq_false_iff.2 (Text.not_isDigit_of_letter ?_)
      exact Bool.or_eq_true_iff.2
        ((Bool.or_eq_true_iff.1 hc).imp_left Text.isIdentifierStart_of_isAlpha)

theorem isWordChar_of_isPlainIdentifier (hu : Options.isPlainIdentifier u) :
    ∀ c ∈ u, isWordChar c := by
  obtain ⟨c, body, rfl, hc, _, hbody⟩ := exists_cons_of_isPlainIdentifier hu
  exact List.forall_mem_cons.2 ⟨hc, hbody⟩

/-- An identifier is one run. -/
theorem runs_identifier (hu : Options.isPlainIdentifier u)
    (hrest : ∀ c ∈ rest.head?, isWordChar c = false) :
    runs dot (u ++ rest) = ⟨u, !dot⟩ :: runs false rest := by
  obtain ⟨c, body, rfl, hword, hdigit, hbody⟩ := exists_cons_of_isPlainIdentifier hu
  rw [List.cons_append, runs, if_pos hword, takeWhile_append_eq hbody hrest,
    dropWhile_append_eq hbody hrest, hdigit, Bool.not_false, Bool.and_true]

/-- In a path only the first name is free. -/
theorem runs_path {first format : List Char} {members : List (List Char)}
    (hfirst : Options.isPlainIdentifier first)
    (hmembers : ∀ u ∈ members, Options.isPlainIdentifier u) :
    runs dot (first ++ (members.flatMap ('.' :: ·) ++ ':' :: format)) =
      ⟨first, !dot⟩ :: (members.flatMap fun u => [⟨['.'], false⟩, ⟨u, false⟩]) ++
        ⟨[':'], false⟩ :: runs false format := by
  have hcolon : isWordChar ':' = false := by decide
  have hdot : isWordChar '.' = false := by decide
  induction members generalizing first dot with
  | nil =>
    rw [List.flatMap_nil, List.nil_append, runs_identifier hfirst (by simp [hcolon]),
      runs_sign hcolon]
    rfl
  | cons u members ih =>
    obtain ⟨hu, hmembers⟩ := List.forall_mem_cons.1 hmembers
    rw [List.flatMap_cons, List.cons_append, List.cons_append, List.append_assoc,
      runs_identifier hfirst (by simp [hdot]), runs_sign hdot, decide_eq_true rfl,
      ih hu hmembers]
    rfl

theorem flatMap_rename_path (name target : List Char) (members : List (List Char)) :
    (members.flatMap fun u => [⟨['.'], false⟩, ⟨u, false⟩]).flatMap (Run.rename name target) =
      members.flatMap ('.' :: ·) := by
  rw [List.flatMap_assoc]
  refine congrArg (members.flatMap ·) (funext fun u => ?_)
  exact congrArg ('.' :: ·) (List.append_nil u)

theorem countP_refersTo_path (name : List Char) (members : List (List Char)) :
    (members.flatMap fun u => [⟨['.'], false⟩, ⟨u, false⟩]).countP (Run.refersTo name) = 0 := by
  refine List.countP_eq_zero.2 fun run hrun => ?_
  obtain ⟨u, _, hrun⟩ := List.mem_flatMap.1 hrun
  simp only [List.mem_cons, List.not_mem_nil, or_false] at hrun
  rcases hrun with rfl | rfl <;> exact Bool.false_ne_true

/-! ## The tokens of a text -/

/-- Each fragment of a markup is a run, and stands for a name where the run does. -/
def Spells (m : Markup) (rs : List Run) : Prop :=
  List.Forall₂ (fun f run => f.text = run.text ∧ ∀ name, f.refersTo name = run.refersTo name) m rs

theorem Spells.rename_eq {rs : List Run} (h : Spells m rs) (name target : List Char) :
    m.rename name target = rs.flatMap (Run.rename name target) := by
  induction h with
  | nil => rfl
  | @cons f run m rs hrun _ ih =>
    obtain ⟨htext, hrefers⟩ := hrun
    have hf : (if f.refersTo name then target else f.text) = run.rename name target := by
      rw [hrefers, htext, Run.rename]
    exact congrArg₂ (· ++ ·) hf ih

theorem Spells.references_eq {rs : List Run} (h : Spells m rs) (name : List Char) :
    m.references name = rs.countP (Run.refersTo name) := by
  induction h with
  | nil => rfl
  | cons hrun _ ih =>
    rw [Markup.references, List.countP_cons, List.countP_cons, hrun.2 name]
    exact congrArg (· + _) ih

/-- The text is tokenized into a markup of these runs, given whether a dot comes right before it. -/
def HasRuns (dot : Bool) (s : List Char) (rs : List Run) : Prop :=
  ∃ tokens m, tokenize s = .ok tokens ∧ (∀ R, Filled R (Token.partsAfter dot tokens) m) ∧
    Spells m rs

theorem HasRuns.nil (dot : Bool) : HasRuns dot [] [] := by
  refine ⟨[], [], ?_, fun R => .nil, .nil⟩
  rw [tokenize, if_pos rfl]

/-- A token that is neither blank nor a literal is one run. -/
theorem HasRuns.cons {kind : TokenKind} {rs : List Run} (htoken : IsToken kind u rest)
    (hkind : kind ∈ [.identifier, .number, .dot, .punct])
    (hbare : kind = .identifier → bare u = u) (h : HasRuns (kind = .dot) rest rs) :
    HasRuns dot (u ++ rest) (⟨u, kind = .identifier && !dot⟩ :: rs) := by
  obtain ⟨hinter, hopen, htrivia⟩ : kind.isInterpolated = false ∧ kind ≠ .unterminatedComment ∧
      kind.isTrivia = false := by
    simp only [List.mem_cons, List.not_mem_nil, or_false] at hkind
    rcases hkind with rfl | rfl | rfl | rfl <;> exact ⟨rfl, nofun, rfl⟩
  obtain ⟨tokens, m, htokens, hfilled, hspells⟩ := h
  have hfirst := Token.first?_of_isToken htoken hinter hopen
  have htext : Token.text ⟨kind, [.text u]⟩ = u := Token.text_eq_of_pieces rfl
  have hparts : ∀ own, Token.ownParts dot tokens ⟨kind, [.text u]⟩ = [own] →
      Token.partsAfter dot (⟨kind, [.text u]⟩ :: tokens) =
        own :: Token.partsAfter (kind = .dot) tokens := by
    intro own hown
    rw [Token.partsAfter_cons, hown, htrivia, if_neg Bool.false_ne_true]
    rfl
  by_cases hident : kind = .identifier
  · refine ⟨_, .word ⟨u, dot, Token.startWithUse tokens⟩ :: m,
      tokenize_eq_cons_iff.2 ⟨rest, hfirst, htokens⟩, fun R => ?_,
      .cons ⟨rfl, fun name => ?_⟩ hspells⟩
    · rw [hparts _ (by rw [Token.ownParts, if_pos hident, htext])]
      exact .word _ (hfilled R)
    · rw [Fragment.refersTo, Run.refersTo, Word.bare, hbare hident, decide_eq_true hident,
        Bool.true_and]
  · refine ⟨_, .plain u :: m, tokenize_eq_cons_iff.2 ⟨rest, hfirst, htokens⟩, fun R => ?_,
      .cons ⟨rfl, fun name => ?_⟩ hspells⟩
    · rw [hparts (.plain u) (by rw [Token.ownParts, if_neg hident]; rfl)]
      exact .plain u (hfilled R)
    · rw [Run.refersTo, decide_eq_false hident]
      rfl

theorem isIdentifierContinue_of_isWordChar (h : isWordChar c) : Text.isIdentifierContinue c :=
  (Bool.or_eq_true_iff.1 h).elim Text.isIdentifierContinue_of_isAlphanum fun h =>
    Text.isIdentifierContinue_of_letter (Bool.or_eq_true_iff.2 (.inr h))

/-- Word characters are a number behind a digit, and a name behind anything else. -/
theorem isToken_of_isWordChar (hc : isWordChar c) (hu : ∀ d ∈ u, isWordChar d)
    (hrest : ∀ d ∈ rest.head?, d ∈ ['.', ':', '-']) :
    if c.isDigit then IsToken .number (c :: u) rest
    else IsToken .identifier (c :: u) rest ∧ bare (c :: u) = c :: u := by
  split
  · rename_i hdigit
    refine ⟨.seq (s := [c]) (.char hdigit) (matches_star_char.2 hu), fun d hd => ?_⟩
    exact Bool.eq_false_iff.2 fun h =>
      TokenRule.notMem_of_class (p := isWordChar) (by decide) h (hrest d hd)
  · rename_i hdigit
    have hname : IsName (c :: u) := by
      refine ⟨c, u, rfl, ?_, fun d hd => isIdentifierContinue_of_isWordChar (hu d hd)⟩
      rw [isWordChar, Char.isAlphanum, Bool.eq_false_iff.2 hdigit, Bool.or_false] at hc
      exact Bool.or_eq_true_iff.2
        ((Bool.or_eq_true_iff.1 hc).imp_left Text.isIdentifierStart_of_isAlpha)
    refine ⟨⟨hname.matches_identifier, fun d hd => ?_⟩, hname.bare_eq⟩
    exact Bool.eq_false_iff.2 fun h =>
      TokenRule.notMem_of_class (p := Text.isIdentifierContinue) (by decide) h (hrest d hd)

theorem isToken_of_sign (hc : c ∈ ['.', ':', '-']) :
    IsToken (if c = '.' then .dot else .punct) [c] rest := by
  simp only [List.mem_cons, List.not_mem_nil, or_false] at hc
  rcases hc with rfl | rfl | rfl
  · exact ⟨matches_exactly.2 rfl, fun _ _ => rfl⟩
  · exact ⟨.char (by decide), fun _ _ => rfl⟩
  · exact ⟨.char (by decide), fun _ _ => rfl⟩

/-- The tokens of a text of words, numbers, dots, colons and hyphens are its runs. -/
theorem hasRuns (hs : ∀ c ∈ s, isWordChar c ∨ c ∈ ['.', ':', '-']) (dot : Bool) :
    HasRuns dot s (runs dot s) := by
  fun_induction runs dot s with
  | case1 dot => exact .nil dot
  | case2 dot c cs hc ih =>
    obtain ⟨_, hcs⟩ := List.forall_mem_cons.1 hs
    have hword : ∀ d ∈ cs.takeWhile isWordChar, isWordChar d :=
      List.all_eq_true.1 List.all_takeWhile
    have hdrop : ∀ d ∈ cs.dropWhile isWordChar, isWordChar d ∨ d ∈ ['.', ':', '-'] :=
      fun d hd => hcs d ((List.dropWhile_suffix isWordChar).mem hd)
    have hrest : ∀ d ∈ (cs.dropWhile isWordChar).head?, d ∈ ['.', ':', '-'] := by
      intro d hd
      refine (hdrop d (List.mem_of_mem_head? hd)).resolve_left fun hword => ?_
      have := List.head?_dropWhile_not isWordChar cs
      rw [hd] at this
      exact absurd hword (by simpa using this)
    have htoken := isToken_of_isWordChar hc hword hrest
    have heq : c :: cs = (c :: cs.takeWhile isWordChar) ++ cs.dropWhile isWordChar := by
      rw [List.cons_append, List.takeWhile_append_dropWhile]
    rw [heq]
    cases hdigit : c.isDigit with
    | true =>
      rw [if_pos hdigit] at htoken
      rw [Bool.not_true, Bool.and_false]
      exact HasRuns.cons htoken (by decide) nofun (ih hdrop)
    | false =>
      rw [if_neg (Bool.eq_false_iff.1 hdigit)] at htoken
      rw [Bool.not_false, Bool.and_true]
      exact HasRuns.cons htoken.1 (by decide) (fun _ => htoken.2) (ih hdrop)
  | case3 dot c cs hc ih =>
    obtain ⟨hsign, hcs⟩ := List.forall_mem_cons.1 hs
    have htoken : IsToken _ [c] cs := isToken_of_sign (hsign.resolve_left hc)
    split at htoken
    · rename_i hdot
      rw [decide_eq_true hdot] at ih ⊢
      exact HasRuns.cons htoken (by decide) nofun (ih hcs)
    · rename_i hdot
      rw [decide_eq_false hdot] at ih ⊢
      exact HasRuns.cons htoken (by decide) nofun (ih hcs)

/-! ## Formatted holes -/

/-- An interpolated string that is one hole of code. -/
def interpolation (code : List Char) : List Char :=
  ['$', '\x22', '{'] ++ code ++ ['}', '\x22']

theorem Literal.string?_interpolation {code : List Char} (hcode : ∀ c ∈ code, mark c = .other) :
    string? (interpolation code) =
      some ([.text ['$', '\x22', '{'], .hole code, .text ['}', '\x22']], []) := by
  let style : Style := ⟨false, true⟩
  have hclose : readOpen? [.hole 0, .string style] ['}', '\x22'] =
      some ([.hole [], .text ['}', '\x22']], []) := rfl
  have hhole : readOpen? [.hole 0, .string style] (code ++ ['}', '\x22']) =
      some ([.hole code, .text ['}', '\x22']], []) := by
    have hskip : Frame.hole 0 ≠ .skip := nofun
    rw [readOpen?_append_unmarked hskip hcode, hclose]
    change some (Piece.consUnits true code (.hole [] :: [.text ['}', '\x22']]), []) = _
    rw [Piece.consUnits_hole, List.append_nil]
  -- The brace is not doubled.
  have hnext : (Frame.string style).next? [] (((code ++ ['}', '\x22']).take 2).map mark)
      .openBrace = some [.hole 0, .string style] := by
    cases code with
    | nil => rfl
    | cons c code =>
      have hc := hcode c List.mem_cons_self
      simp only [Frame.next?, List.cons_append, List.take_succ_cons, List.map_cons, hc]
      rfl
  have hbrace : readOpen? [.string style] ('{' :: (code ++ ['}', '\x22'])) =
      some ([.text ['{'], .hole code, .text ['}', '\x22']], []) :=
    readOpen?_cons_eq_some.2 ⟨_, _, hnext, hhole, rfl⟩
  have hquote : readOpen? [.opener style] ('\x22' :: '{' :: (code ++ ['}', '\x22'])) =
      some ([.text ['\x22', '{'], .hole code, .text ['}', '\x22']], []) :=
    readOpen?_text rfl rfl rfl hbrace
  exact string?_eq_some.2 ⟨style, rfl, readOpen?_text rfl rfl rfl hquote⟩

theorem Markup.rename_interpolation (name target : List Char) (m : Markup) :
    rename name target (.plain ['$', '\x22', '{'] :: m ++ [.plain ['}', '\x22']]) =
      interpolation (m.rename name target) := by
  rw [List.cons_append, ← List.singleton_append, rename_append, rename_append, interpolation,
    List.append_assoc]
  rfl

theorem Markup.references_interpolation (name : List Char) (m : Markup) :
    references name (.plain ['$', '\x22', '{'] :: m ++ [.plain ['}', '\x22']]) =
      m.references name := by
  simp [references, Fragment.refersTo]

/-- The words of the hole are its free runs. -/
theorem Markup.exists_tokenized?_interpolation {code : List Char}
    (hcode : ∀ c ∈ code, isWordChar c ∨ c ∈ ['.', ':', '-']) :
    ∃ m, tokenized? (interpolation code) =
        some (.plain ['$', '\x22', '{'] :: m ++ [.plain ['}', '\x22']]) ∧
      Spells m (runs false code) := by
  have hmark : ∀ c ∈ code, mark c = .other := by
    intro c hc
    have hclass : isWordChar c || ['.', ':', '-'].contains c := by simpa using hcode c hc
    exact mark_eq_other (TokenRule.notMem_of_class
      (p := fun c => isWordChar c || ['.', ':', '-'].contains c) (by decide) hclass)
  obtain ⟨tokens, m, htokens, hfilled, hspells⟩ := hasRuns hcode false
  refine ⟨m, ?_, hspells⟩
  have hfirst : Token.first? (interpolation code) = some (⟨.interpolatedStr,
      [.text ['$', '\x22', '{'], .hole code, .text ['}', '\x22']]⟩, []) := by
    have hmatch : Matches TokenKind.interpolatedStr.rule ['$', '\x22'] := matches_text.2 rfl
    exact (Token.first?_of_opener hmatch rfl).trans
      (congrArg _ (Literal.string?_interpolation hmark))
  have htokenize : tokenize (interpolation code) = .ok [⟨.interpolatedStr,
      [.text ['$', '\x22', '{'], .hole code, .text ['}', '\x22']]⟩] := by
    refine tokenize_eq_cons_iff.2 ⟨[], hfirst, ?_⟩
    rw [tokenize, if_pos rfl]
  have hparts : Token.parts? (interpolation code) =
      some [.plain ['$', '\x22', '{'], .hole code, .plain ['}', '\x22']] :=
    Token.parts?_eq_some.2 ⟨_, htokenize, rfl⟩
  have hinner : tokenized? code = some m :=
    read?_of_filled (Token.parts?_eq_some.2 ⟨tokens, htokens, rfl⟩) (hfilled _)
  refine read?_of_filled hparts (.plain _ (.hole ⟨?_, hinner⟩ (.plain _ .nil)))
  simp only [interpolation, List.length_append, List.length_cons]
  omega

namespace Renamer

/-- Renaming in a formatted hole. Of the path, only its first name is replaced, if it is the
parameter. Of the format, all words are replaced that are the parameter and have no dot right before
them, so the format stays as it is where it has none. -/
theorem rename_formatted (r : Renamer) (parameter : String) (first : List Char)
    (members : List (List Char)) (format : List Char) (hfirst : Options.isPlainIdentifier first)
    (hmembers : ∀ u ∈ members, Options.isPlainIdentifier u)
    (hformat : ∀ c ∈ format, c.isAlphanum ∨ c ∈ ['-', '.']) :
    let name := bare parameter.toList
    let target := r.target.toList
    let path := members.flatMap ('.' :: ·)
    let out := r.rename (String.ofList (interpolation (first ++ (path ++ ':' :: format)))) parameter
    let first' := if first = name then target else first
    let format' := (runs false format).flatMap (Run.rename name target)
    out.mode = .tokenized ∧
    out.text.toList = interpolation (first' ++ (path ++ ':' :: format')) ∧
    out.renamed =
      (if first = name then 1 else 0) + (runs false format).countP (Run.refersTo name) ∧
    ((∀ run ∈ runs false format, run.refersTo name = false) →
      out.text.toList = interpolation (first' ++ (path ++ ':' :: format))) := by
  intro name target path out first' format'
  have hcode : ∀ c ∈ first ++ (path ++ ':' :: format), isWordChar c ∨ c ∈ ['.', ':', '-'] := by
    intro c hc
    simp only [path, List.mem_append, List.mem_flatMap, List.mem_cons] at hc
    rcases hc with hc | ⟨u, hu, rfl | hc⟩ | rfl | hc
    · exact .inl (isWordChar_of_isPlainIdentifier hfirst c hc)
    · exact .inr (by decide)
    · exact .inl (isWordChar_of_isPlainIdentifier (hmembers u hu) c hc)
    · exact .inr (by decide)
    · refine (hformat c hc).imp (fun h => Bool.or_eq_true_iff.2 (.inl h)) fun h => ?_
      simp only [List.mem_cons, List.not_mem_nil, or_false] at h ⊢
      tauto
  obtain ⟨m, hm, hspells⟩ := Markup.exists_tokenized?_interpolation hcode
  rw [runs_path hfirst hmembers] at hspells
  rw [← String.toList_ofList (l := interpolation _)] at hm
  have hout : out = _ := r.rename_of_tokenized? parameter hm
  have hrename : Markup.rename name target m = first' ++ (path ++ ':' :: format') := by
    have hhead : Run.rename name target ⟨first, !false⟩ = first' := by
      simp only [Run.rename, Run.refersTo, Bool.not_false, Bool.true_and, decide_eq_true_eq, first']
    rw [hspells.rename_eq, List.cons_append, List.flatMap_cons, List.flatMap_append,
      flatMap_rename_path, List.flatMap_cons, hhead]
    rfl
  have hreferences : Markup.references name m =
      (if first = name then 1 else 0) + (runs false format).countP (Run.refersTo name) := by
    rw [hspells.references_eq, List.cons_append, List.countP_cons, List.countP_append,
      countP_refersTo_path, List.countP_cons]
    simp only [Run.refersTo, Bool.not_false, Bool.true_and, Bool.false_and, decide_eq_true_eq,
      Bool.false_eq_true, if_false]
    omega
  have htext : out.text.toList = interpolation (first' ++ (path ++ ':' :: format')) := by
    rw [hout, ← hrename, ← Markup.rename_interpolation]
    exact String.toList_ofList
  refine ⟨by rw [hout], htext, ?_, fun hformat => ?_⟩
  · rw [hout]
    exact (Markup.references_interpolation name m).trans hreferences
  · rw [htext, show format' = format from flatMap_rename_runs hformat]

theorem rename_formatted_sample :
    let out := ({} : Renamer).rename (String.ofList (interpolation "s.Total:N0".toList)) "s"
    out.text.toList = interpolation "source.Total:N0".toList :=
  (rename_formatted {} "s" ['s'] [['T', 'o', 't', 'a', 'l']] ['N', '0'] (by decide) (by decide)
    (by simp)).2.2.2 (by simp [runs, isWordChar, Run.refersTo, bare])

/-- A format that is the parameter is replaced, so not all formats stay as they are. -/
theorem rename_format :
    ({} : Renamer).rename "$\"\x7bx.Id:x\x7d\"" "x" =
      ⟨"$\"\x7bsource.Id:source\x7d\"", some "x", 2, .tokenized⟩ ∧
    ¬ ∀ (r : Renamer) (parameter : String) (first : List Char) (members : List (List Char))
      (format : List Char), Options.isPlainIdentifier first →
      (∀ u ∈ members, Options.isPlainIdentifier u) → format ≠ [] →
      (∀ c ∈ format, c.isAlphanum ∨ c ∈ ['-', '.']) →
      ∃ path, (r.rename (String.ofList (interpolation
        (first ++ (members.flatMap ('.' :: ·) ++ ':' :: format)))) parameter).text.toList =
          interpolation (path ++ ':' :: format) := by
  have hx : ({} : Renamer).rename "$\"\x7bx.Id:x\x7d\"" "x" =
      ⟨"$\"\x7bsource.Id:source\x7d\"", some "x", 2, .tokenized⟩ := by decide +kernel
  refine ⟨hx, fun h => ?_⟩
  obtain ⟨path, hpath⟩ := h {} "x" ['x'] [['I', 'd']] ['x'] (by decide) (by decide)
    (List.cons_ne_nil _ _) (by simp)
  have htext : String.ofList (interpolation (['x'] ++ ([['I', 'd']].flatMap ('.' :: ·) ++
      ':' :: ['x']))) = "$\"\x7bx.Id:x\x7d\"" := rfl
  rw [htext, hx] at hpath
  have hlast := congrArg (fun s => s.reverse[2]?) hpath
  simp [interpolation] at hlast

end Renamer

end MapPlan.Expr
