import MapPlan.Mapping.Entry
import MapPlan.Proofs.Json.RoundTrip
import MapPlan.Proofs.Mapping.Config

/-!
# Precedence

Precedence is a total order on the entries of one key: no two of them tie, unless they are the same
entry. For entries of one provenance this rests on the configuration being determined by what is
written of it.
-/

namespace MapPlan.Entry

/-! ## An order by parts -/

/-- Zero for explicit entries, one for synthesized ones. -/
def standing (e : Entry) : Nat :=
  if e.isExplicit then 0 else 1

def written? (e : Entry) : Option String :=
  match e.origin with
  | .explicit _ => some e.config.toJson.compact
  | .synthesized _ => none

def forward? (e : Entry) : Option Key :=
  match e.origin with
  | .explicit _ => none
  | .synthesized k => some k

theorem precedence_eq : precedence =
    compareLex (compareOn standing) (compareLex (compareOn provenance?)
      (compareLex (compareOn written?) (compareOn forward?))) := by
  funext a b
  obtain ⟨_, config, origin⟩ := a
  obtain ⟨_, config', origin'⟩ := b
  cases origin with
  | explicit p =>
    cases origin' with
    | explicit q =>
      show (compare p q).then (compare config.toJson.compact config'.toJson.compact) =
        (compare p q).then ((compare config.toJson.compact config'.toJson.compact).then .eq)
      rw [Ordering.then_eq]
    | synthesized l => rfl
  | synthesized k =>
    cases origin' with
    | explicit q => rfl
    | synthesized l => rfl

instance : Std.TransCmp precedence := by
  rw [precedence_eq]
  infer_instance

theorem precedence_self (e : Entry) : (e.precedence e).isLE := by
  have heq : e.precedence e = .eq := Std.ReflCmp.compare_self
  rw [heq]
  rfl

theorem precedence_trans {a b c : Entry} (hab : (a.precedence b).isLE)
    (hbc : (b.precedence c).isLE) : (a.precedence c).isLE :=
  Std.TransCmp.isLE_trans hab hbc

theorem precedence_antisymm {a b : Entry} (hab : (a.precedence b).isLE)
    (hba : (b.precedence a).isLE) : a.precedence b = .eq :=
  Std.OrientedCmp.isLE_antisymm hab hba

theorem precedence_of_ne_lt {a b : Entry} (h : a.precedence b ≠ .lt) : (b.precedence a).isLE := by
  have hge : (a.precedence b).isGE := by
    cases hab : a.precedence b with
    | lt => exact absurd hab h
    | eq => rfl
    | gt => rfl
  exact Std.OrientedCmp.isLE_of_isGE hge

/-! ## Entries as they are made -/

/-- The entries that can be made: explicit ones, and reverses of other entries. -/
inductive Built : Entry → Prop where
  | explicit (key : Key) (config : Config) (provenance : Provenance) :
    Built (.explicit key config provenance)
  | reverseOf {forward : Entry} (h : Built forward) : Built forward.reverseOf

theorem Built.config_of_synthesized {e : Entry} (he : e.Built) {k : Key}
    (horigin : e.origin = .synthesized k) : e.config = {} := by
  cases he with
  | explicit => cases horigin
  | reverseOf => rfl

/-- Entries of one key that tie are the same. -/
theorem Built.eq_of_precedence {a b : Entry} (ha : a.Built) (hb : b.Built) (hkey : a.key = b.key)
    (h : a.precedence b = .eq) : a = b := by
  obtain ⟨key, config, origin⟩ := a
  obtain ⟨key', config', origin'⟩ := b
  obtain rfl : key = key' := hkey
  cases origin with
  | explicit p =>
    cases origin' with
    | explicit q =>
      obtain ⟨hprovenance, hconfig⟩ := Ordering.then_eq_eq.1 h
      obtain rfl : p = q := Std.LawfulEqOrd.eq_of_compare hprovenance
      have hwritten : config.toJson.compact = config'.toJson.compact :=
        Std.LawfulEqOrd.eq_of_compare hconfig
      obtain rfl := Config.toJson_injective config config' (Json.compact_injective hwritten)
      rfl
    | synthesized l => cases h
  | synthesized k =>
    cases origin' with
    | explicit q => cases h
    | synthesized l =>
      obtain rfl : k = l := Std.LawfulEqOrd.eq_of_compare h
      obtain rfl : config = {} := ha.config_of_synthesized rfl
      obtain rfl : config' = {} := hb.config_of_synthesized rfl
      rfl

end MapPlan.Entry
