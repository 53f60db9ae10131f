import Mathlib.Data.List.Basic
import MapPlan.Proofs.Mapping.Config

/-!
# The last directive

A configuration is built by calls, each of which may give one field a directive. All that such a
call does to the tables is in one lemma, `Directives.tells_set`: the field has the new directive and
no other, and no other field is touched. From it, by induction on the calls, the tables hold for
each field the directive of the last call on it. That a field is in one table only, what a look-up
finds, and that other calls with the same last directives build the same configuration all follow
from this.
-/

namespace MapPlan

theorem TextTable.mem_keys {m : TextTable} {field : String} :
    field ∈ m.keys ↔ ∃ text, (field, text) ∈ m.items := by
  simp [KeyedMap.keys]

namespace Directives

variable {t t' : Directives} {field name : String} {d e : Directive}

/-! ## Fields in tables -/

/-- The field is in the table for the directive, with its text. -/
def Tells (t : Directives) (field : String) : Directive → Prop
  | .ignore => field ∈ t.ignored.items
  | .rename source => (field, source) ∈ t.renames.items
  | .expression text => (field, text) ∈ t.expressions.items
  | .constant text => (field, text) ∈ t.constants.items

theorem not_tells_empty : ¬ empty.Tells field d := by
  cases d <;> exact List.not_mem_nil

/-- What giving a field a directive does. -/
theorem tells_set : (t.set field d).Tells name e ↔
    name = field ∧ e = d ∨ t.Tells name e ∧ name ≠ field := by
  cases d <;> cases e <;>
    simp [set, enter, clear, Tells, KeyedMap.mem_insert, KeyedMap.mem_erase]

/-- Tables with the same entries are the same. -/
theorem ext_tells (h : ∀ field d, t.Tells field d ↔ t'.Tells field d) : t = t' := by
  have hignored : t.ignored = t'.ignored := KeyedMap.ext_mem fun field => h field .ignore
  have hrenames : t.renames = t'.renames := KeyedMap.ext_mem fun x => h x.1 (.rename x.2)
  have hexpressions : t.expressions = t'.expressions :=
    KeyedMap.ext_mem fun x => h x.1 (.expression x.2)
  have hconstants : t.constants = t'.constants := KeyedMap.ext_mem fun x => h x.1 (.constant x.2)
  cases t
  cases t'
  rw [mk.injEq]
  exact ⟨hignored, hrenames, hexpressions, hconstants⟩

theorem mem_fields : field ∈ t.fields.items ↔ ∃ d, t.Tells field d := by
  have hkeys : t.fields.keys = t.fields.items := List.map_id _
  rw [← hkeys, fields, KeyedMap.mem_keys_ofList]
  simp only [List.mem_append, TextTable.mem_keys, id_eq, exists_eq_right]
  constructor
  · rintro (((h | ⟨text, h⟩) | ⟨text, h⟩) | ⟨text, h⟩)
    · exact ⟨.ignore, h⟩
    · exact ⟨.rename text, h⟩
    · exact ⟨.expression text, h⟩
    · exact ⟨.constant text, h⟩
  · rintro ⟨d, h⟩
    cases d with
    | ignore => exact .inl (.inl (.inl h))
    | rename text => exact .inl (.inl (.inr ⟨text, h⟩))
    | expression text => exact .inl (.inr ⟨text, h⟩)
    | constant text => exact .inr ⟨text, h⟩

/-! ## Look-up -/

theorem tells_of_get? (h : t.get? field = some d) : t.Tells field d := by
  rw [get?] at h
  split at h
  · rename_i hignored
    cases h
    obtain ⟨_, hmem, rfl⟩ := List.mem_map.1 (KeyedMap.contains_iff.1 hignored)
    exact hmem
  split at h
  · rename_i text hconstant
    cases h
    obtain ⟨hmem, rfl⟩ := KeyedMap.find?_eq_some.1 hconstant
    exact hmem
  split at h
  · rename_i text hexpression
    cases h
    obtain ⟨hmem, rfl⟩ := KeyedMap.find?_eq_some.1 hexpression
    exact hmem
  · obtain ⟨⟨_, source⟩, hrename, rfl⟩ := Option.map_eq_some_iff.1 h
    obtain ⟨hmem, rfl⟩ := KeyedMap.find?_eq_some.1 hrename
    exact hmem

/-- A field in some table is found, if not with the directive of that table. -/
theorem exists_get?_of_tells (h : t.Tells field d) : ∃ e, t.get? field = some e := by
  rw [← Option.ne_none_iff_exists']
  intro hnone
  rw [get?] at hnone
  split at hnone
  · cases hnone
  rename_i hignored
  split at hnone
  · cases hnone
  rename_i hconstant
  split at hnone
  · cases hnone
  rename_i hexpression
  have hrename := Option.map_eq_none_iff.1 hnone
  cases d with
  | ignore => exact hignored (KeyedMap.contains_iff.2 (List.mem_map.2 ⟨field, h, rfl⟩))
  | rename text => exact KeyedMap.find?_eq_none.1 hrename _ h rfl
  | expression text => exact KeyedMap.find?_eq_none.1 hexpression _ h rfl
  | constant text => exact KeyedMap.find?_eq_none.1 hconstant _ h rfl

/-- No field has two directives. -/
def Single (t : Directives) : Prop :=
  ∀ field d e, t.Tells field d → t.Tells field e → d = e

namespace Single

/-- The order in which the tables are looked up does not matter. -/
theorem get?_eq_some_iff (h : t.Single) : t.get? field = some d ↔ t.Tells field d := by
  refine ⟨tells_of_get?, fun htells => ?_⟩
  obtain ⟨e, he⟩ := exists_get?_of_tells htells
  rw [he, h field d e htells (tells_of_get? he)]

theorem pairwise_disjoint (h : t.Single) :
    [t.ignored.items, t.renames.keys, t.expressions.keys, t.constants.keys].Pairwise
      List.Disjoint := by
  simp only [List.pairwise_cons, List.forall_mem_cons, List.Disjoint, TextTable.mem_keys]
  refine ⟨⟨?_, ?_, ?_, nofun⟩, ⟨?_, ?_, nofun⟩, ⟨?_, nofun⟩, nofun, .nil⟩
  · rintro field hignored ⟨source, hrename⟩
    cases h field .ignore (.rename source) hignored hrename
  · rintro field hignored ⟨text, hexpression⟩
    cases h field .ignore (.expression text) hignored hexpression
  · rintro field hignored ⟨text, hconstant⟩
    cases h field .ignore (.constant text) hignored hconstant
  · rintro field ⟨source, hrename⟩ ⟨text, hexpression⟩
    cases h field (.rename source) (.expression text) hrename hexpression
  · rintro field ⟨source, hrename⟩ ⟨text, hconstant⟩
    cases h field (.rename source) (.constant text) hrename hconstant
  · rintro field ⟨text, hexpression⟩ ⟨text', hconstant⟩
    cases h field (.expression text) (.constant text') hexpression hconstant

end Single
end Directives

/-! ## Calls that build a configuration -/

namespace Config

inductive Call where
  | reverse (on : Bool)
  | ignoreUnmatched (on : Bool)
  | ignore (field : String)
  | rename (field source : String)
  | expression (field text : String)
  | constant (field text : String)
deriving DecidableEq, Repr

def apply (c : Config) : Call → Config
  | .reverse on => c.withReverse on
  | .ignoreUnmatched on => c.withIgnoreUnmatched on
  | .ignore field => c.ignore field
  | .rename field source => c.rename field source
  | .expression field text => c.expression field text
  | .constant field text => c.constant field text

def ofCalls (calls : List Call) : Config :=
  calls.foldl apply {}

namespace Call

/-- The directive that a call gives to a field. -/
def on? (field : String) : Call → Option Directive
  | .ignore name => if name = field then some .ignore else none
  | .rename name source => if name = field then some (.rename source) else none
  | .expression name text => if name = field then some (.expression text) else none
  | .constant name text => if name = field then some (.constant text) else none
  | .reverse _ | .ignoreUnmatched _ => none

def reverse? : Call → Option Bool
  | .reverse on => some on
  | _ => none

def ignoreUnmatched? : Call → Option Bool
  | .ignoreUnmatched on => some on
  | _ => none

/-- What the last of the calls says that say anything. -/
def last? {α : Type} (says? : Call → Option α) (calls : List Call) : Option α :=
  calls.reverse.findSome? says?

theorem last?_cons {α : Type} (says? : Call → Option α) (call : Call) (rest : List Call) :
    last? says? (call :: rest) = (last? says? rest).or (says? call) := by
  rw [last?, List.reverse_cons, List.findSome?_append, List.findSome?_singleton]
  rfl

theorem exists_last?_iff {α : Type} {says? : Call → Option α} {calls : List Call} :
    (∃ a, last? says? calls = some a) ↔ ∃ call ∈ calls, (says? call).isSome := by
  rw [← Option.isSome_iff_exists, last?, List.findSome?_isSome_iff]
  simp only [List.mem_reverse]

end Call

variable {c : Config} {call : Call} {calls calls' : List Call} {field : String} {d : Directive}

theorem tells_direct {name : String} {e : Directive} :
    (c.direct name e).directives.Tells field d ↔
      (if name = field then some e else none) = some d ∨
        (if name = field then some e else none) = none ∧ c.directives.Tells field d := by
  rw [direct, Directives.tells_set]
  by_cases h : name = field
  · simp [h, eq_comm]
  · simp [h, Ne.symm h]

/-- What a call does to the directives. -/
theorem tells_apply : (c.apply call).directives.Tells field d ↔
    call.on? field = some d ∨ call.on? field = none ∧ c.directives.Tells field d := by
  cases call with
  | reverse on => simp [apply, Call.on?, withReverse]
  | ignoreUnmatched on => simp [apply, Call.on?, withIgnoreUnmatched]
  | _ => exact tells_direct

theorem tells_foldl : (calls.foldl apply c).directives.Tells field d ↔
    Call.last? (·.on? field) calls = some d ∨
      Call.last? (·.on? field) calls = none ∧ c.directives.Tells field d := by
  induction calls generalizing c with
  | nil => simp [Call.last?]
  | cons call rest ih =>
    rw [List.foldl_cons, ih, tells_apply, Call.last?_cons]
    cases Call.last? (·.on? field) rest <;> simp

/-- The tables of a configuration hold the last directives that were given. -/
theorem tells_ofCalls : (ofCalls calls).directives.Tells field d ↔
    Call.last? (·.on? field) calls = some d := by
  rw [ofCalls, tells_foldl, or_iff_left fun h => Directives.not_tells_empty h.2]

/-- A flag that each call sets or leaves alone has the last value it was set to. -/
theorem flag_foldl {flag : Config → Bool} {says? : Call → Option Bool}
    (hstep : ∀ c call, flag (c.apply call) = (says? call).getD (flag c)) :
    flag (calls.foldl apply c) = (Call.last? says? calls).getD (flag c) := by
  induction calls generalizing c with
  | nil => rfl
  | cons call rest ih =>
    rw [List.foldl_cons, ih, hstep, Call.last?_cons]
    cases Call.last? says? rest <;> rfl

theorem reverse_ofCalls (calls : List Call) :
    (ofCalls calls).reverse = (Call.last? Call.reverse? calls).getD false :=
  flag_foldl fun _ call => by cases call <;> rfl

theorem ignoreUnmatched_ofCalls (calls : List Call) :
    (ofCalls calls).ignoreUnmatched = (Call.last? Call.ignoreUnmatched? calls).getD false :=
  flag_foldl fun _ call => by cases call <;> rfl

theorem single_ofCalls (calls : List Call) : (ofCalls calls).directives.Single := by
  intro field d e hd he
  exact Option.some.inj ((tells_ofCalls.1 hd).symm.trans (tells_ofCalls.1 he))

theorem directive?_ofCalls (calls : List Call) (field : String) :
    (ofCalls calls).directive? field = Call.last? (·.on? field) calls := by
  refine Option.ext fun d => ?_
  rw [directive?, (single_ofCalls calls).get?_eq_some_iff, tells_ofCalls]

theorem mem_configured_ofCalls :
    field ∈ (ofCalls calls).configured ↔ ∃ call ∈ calls, (call.on? field).isSome := by
  rw [configured, Directives.mem_fields, ← Call.exists_last?_iff]
  exact exists_congr fun d => tells_ofCalls

/-- The calls that count are the last ones. -/
theorem ofCalls_congr
    (hfields : ∀ field, Call.last? (·.on? field) calls = Call.last? (·.on? field) calls')
    (hreverse : (Call.last? Call.reverse? calls).getD false =
      (Call.last? Call.reverse? calls').getD false)
    (hunmatched : (Call.last? Call.ignoreUnmatched? calls).getD false =
      (Call.last? Call.ignoreUnmatched? calls').getD false) :
    ofCalls calls = ofCalls calls' := by
  have hdirectives : (ofCalls calls).directives = (ofCalls calls').directives := by
    refine Directives.ext_tells fun field d => ?_
    rw [tells_ofCalls, tells_ofCalls, hfields]
  rw [← reverse_ofCalls, ← reverse_ofCalls] at hreverse
  rw [← ignoreUnmatched_ofCalls, ← ignoreUnmatched_ofCalls] at hunmatched
  cases hc : ofCalls calls
  cases hc' : ofCalls calls'
  rw [hc, hc'] at hdirectives hreverse hunmatched
  rw [mk.injEq]
  exact ⟨hreverse, hunmatched, hdirectives⟩

/-- A configuration keeps the last directive of each field and the last value of each flag, and
nothing of the calls before. -/
theorem ofCalls_keeps_last (calls : List Call) :
    [(ofCalls calls).ignored, (ofCalls calls).renames.map Prod.fst,
      (ofCalls calls).expressions.map Prod.fst,
      (ofCalls calls).constants.map Prod.fst].Pairwise List.Disjoint ∧
    (∀ field, (ofCalls calls).directive? field = Call.last? (·.on? field) calls) ∧
    (∀ field, field ∈ (ofCalls calls).configured ↔ ∃ call ∈ calls, (call.on? field).isSome) ∧
    (ofCalls calls).configured.Pairwise (fun a b => compare a b = .lt) ∧
    (ofCalls calls).reverse = (Call.last? Call.reverse? calls).getD false ∧
    (ofCalls calls).ignoreUnmatched = (Call.last? Call.ignoreUnmatched? calls).getD false ∧
    ∀ calls', (∀ field, Call.last? (·.on? field) calls = Call.last? (·.on? field) calls') →
      (Call.last? Call.reverse? calls).getD false =
        (Call.last? Call.reverse? calls').getD false →
      (Call.last? Call.ignoreUnmatched? calls).getD false =
        (Call.last? Call.ignoreUnmatched? calls').getD false →
      ofCalls calls = ofCalls calls' ∧
      (ofCalls calls).toJson.compact = (ofCalls calls').toJson.compact := by
  refine ⟨(single_ofCalls calls).pairwise_disjoint, directive?_ofCalls calls,
    fun _ => mem_configured_ofCalls, (ofCalls calls).directives.fields.sorted,
    reverse_ofCalls calls, ignoreUnmatched_ofCalls calls,
    fun calls' hfields hreverse hunmatched => ?_⟩
  have heq := ofCalls_congr hfields hreverse hunmatched
  exact ⟨heq, congrArg (·.toJson.compact) heq⟩

/-! Two ways to compute one field and to set another. -/

def sampleCalls : List Call :=
  [.ignore "Total", .reverse true, .rename "Total" "Sum", .constant "Kind" "0",
   .expression "Total" "s => s.Sum", .constant "Kind" "1", .reverse false]

def sampleShort : List Call :=
  [.constant "Kind" "1", .expression "Total" "s => s.Sum"]

theorem last?_sample (field : String) :
    Call.last? (·.on? field) sampleCalls = Call.last? (·.on? field) sampleShort := by
  by_cases hkind : "Kind" = field
  · subst hkind
    decide
  by_cases htotal : "Total" = field
  · subst htotal
    decide
  · simp [sampleCalls, sampleShort, Call.last?, Call.on?, hkind, htotal]

theorem ofCalls_sample :
    (∀ field, Call.last? (·.on? field) sampleCalls = Call.last? (·.on? field) sampleShort) ∧
    (ofCalls sampleCalls).directive? "Total" = some (.expression "s => s.Sum") ∧
    (ofCalls sampleCalls).configured = ["Kind", "Total"] ∧
    ofCalls sampleCalls = ofCalls sampleShort := by
  obtain ⟨_, hdirective, _, _, _, _, hcongr⟩ := ofCalls_keeps_last sampleCalls
  refine ⟨last?_sample, ?_, by decide, (hcongr sampleShort last?_sample rfl rfl).1⟩
  rw [hdirective]
  decide

end Config
end MapPlan
