import MapPlan.Mapping.Config
import MapPlan.Mapping.Key
import MapPlan.Proofs.KeyedMap

/-!
# Configurations

A configuration is told by its two flags and its four tables, and so by what is written of it.
-/

namespace MapPlan

theorem Key.toJson_injective (k l : Key) (h : k.toJson = l.toJson) : k = l := by
  simp only [Key.toJson, Json.obj.injEq, List.cons.injEq, Prod.mk.injEq, Json.str.injEq, true_and,
    and_true] at h
  obtain ⟨hsource, hdestination⟩ := h
  cases k
  cases l
  cases hsource
  cases hdestination
  rfl

namespace Config

variable {c c' : Config}

/-- The tables hold all directives between them. -/
theorem ext_tables (hreverse : c.reverse = c'.reverse)
    (hunmatched : c.ignoreUnmatched = c'.ignoreUnmatched) (hignored : c.ignored = c'.ignored)
    (hrenames : c.renames = c'.renames) (hexpressions : c.expressions = c'.expressions)
    (hconstants : c.constants = c'.constants) : c = c' := by
  obtain ⟨reverse, ignoreUnmatched, ignored, renames, expressions, constants⟩ := c
  obtain ⟨reverse', ignoreUnmatched', ignored', renames', expressions', constants'⟩ := c'
  simp only [mk.injEq, Directives.mk.injEq]
  exact ⟨hreverse, hunmatched, KeyedMap.ext hignored, KeyedMap.ext hrenames,
    KeyedMap.ext hexpressions, KeyedMap.ext hconstants⟩

theorem toJson_injective (c c' : Config) (h : c.toJson = c'.toJson) : c = c' := by
  simp only [toJson, Json.strings, Json.obj.injEq, List.cons.injEq, Prod.mk.injEq, Json.bool.injEq,
    Json.arr.injEq, true_and, and_true] at h
  obtain ⟨hreverse, hunmatched, hignored, hrenames, hexpressions, hconstants⟩ := h
  have htable : ∀ p q : String × String, (p.1, Json.str p.2) = (q.1, Json.str q.2) → p = q := by
    rintro ⟨_, _⟩ ⟨_, _⟩ h
    cases h
    rfl
  exact ext_tables hreverse hunmatched
    (List.map_inj_right (fun s t h => Json.str.inj h) |>.1 hignored)
    (List.map_inj_right htable |>.1 hrenames) (List.map_inj_right htable |>.1 hexpressions)
    (List.map_inj_right htable |>.1 hconstants)

end Config
end MapPlan
