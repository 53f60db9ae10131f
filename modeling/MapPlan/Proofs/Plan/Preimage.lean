import MapPlan.Proofs.Plan.Coverage

/-!
# What a fingerprint is taken of

The bytes that are digested for a plan, and those that are digested for its options, tell exactly
what they were made from. For the options this needs each of their texts to have a length of eight
bytes. A pair whose source is no type of a source field or of its elements is not among them.
-/

namespace MapPlan

/-- The length of each text takes no more than eight bytes, as it does of any text in memory. -/
def Options.Addressable (o : Options) : Prop :=
  ∀ s ∈ o.parameterTarget :: o.conventionalAliases, s.utf8ByteSize < 2 ^ 64

instance (o : Options) : Decidable o.Addressable :=
  inferInstanceAs (Decidable (∀ s ∈ o.parameterTarget :: o.conventionalAliases, _))

namespace Resolver

variable {o o' : Options}

theorem length_lt_of_mem_optionsParts (h : o.Addressable) :
    ∀ part ∈ optionsParts o, part.length < 2 ^ 64 := by
  intro part hpart
  rw [optionsParts, ← List.map_cons] at hpart
  rcases List.mem_append.1 hpart with hpart | hpart
  · obtain ⟨s, hs, rfl⟩ := List.mem_map.1 hpart
    rw [Digest.length_textBytes]
    exact h s hs
  · rw [List.mem_singleton.1 hpart]
    exact Nat.one_lt_two_pow (by decide)

theorem optionsParts_eq_iff :
    optionsParts o = optionsParts o' ↔ o.parameterTarget = o'.parameterTarget ∧
      o.conventionalAliases = o'.conventionalAliases ∧
      o.escalateMissingSource = o'.escalateMissingSource := by
  constructor
  · intro h
    rw [optionsParts, optionsParts, ← List.map_cons, ← List.map_cons] at h
    obtain ⟨htexts, hflag⟩ := List.append_inj' h rfl
    have htexts := List.map_inj_right (fun s t h => Digest.textBytes_injective h) |>.1 htexts
    obtain ⟨htarget, haliases⟩ := List.cons.inj htexts
    refine ⟨htarget, haliases, ?_⟩
    cases hescalate : o.escalateMissingSource <;> cases hescalate' : o'.escalateMissingSource <;>
      simp_all
  · rintro ⟨htarget, haliases, hescalate⟩
    rw [optionsParts, optionsParts, htarget, haliases, hescalate]

theorem optionsBytes_eq_iff (h : o.Addressable) (h' : o'.Addressable) :
    optionsBytes o = optionsBytes o' ↔ o.parameterTarget = o'.parameterTarget ∧
      o.conventionalAliases = o'.conventionalAliases ∧
      o.escalateMissingSource = o'.escalateMissingSource := by
  rw [← optionsParts_eq_iff]
  exact ⟨Digest.eq_of_frame_eq (length_lt_of_mem_optionsParts h) (length_lt_of_mem_optionsParts h'),
    congrArg Digest.frame⟩

/-- Pairs that no source field could use may come and go. -/
theorem inputBytes_congr_snapshot (r : Resolver) (i : Inputs) {s : Snapshot}
    (h : ∀ k : Key, k.source ∈ reachable i.source → (k ∈ s.keys ↔ k ∈ i.snapshot.keys)) :
    r.inputBytes { i with snapshot := s } = r.inputBytes i := by
  have husable : usableKeys { i with snapshot := s } = usableKeys i := by
    refine KeyedMap.filter_keys_congr fun k hk => h k ?_
    exact List.contains_iff_mem.1 hk
  rw [inputBytes, inputBytes, parts, parts, husable]

/-- The bytes that are digested for a plan are equal exactly if the plan is made from the same, and
those for the options exactly if the options are the same, as far as they show in a plan. What else
is registered does not change a fingerprint. -/
theorem preimages_exact (o o' : Options) :
    (∀ i i' : Inputs,
      inputBytes ⟨o, Digest.blake3⟩ i = inputBytes ⟨o', Digest.blake3⟩ i' ↔
        i.entry.key = i'.entry.key ∧ i.source = i'.source ∧ i.dest = i'.dest ∧
        i.entry.config = i'.entry.config ∧ usableKeys i = usableKeys i' ∧
        Digest.blake3 (optionsBytes o) = Digest.blake3 (optionsBytes o')) ∧
    (o.Addressable → o'.Addressable →
      (optionsBytes o = optionsBytes o' ↔ o.parameterTarget = o'.parameterTarget ∧
        o.conventionalAliases = o'.conventionalAliases ∧
        o.escalateMissingSource = o'.escalateMissingSource)) ∧
    ∀ (r : Resolver) (i : Inputs) (s : Snapshot),
      (∀ k : Key, k.source ∈ reachable i.source → (k ∈ s.keys ↔ k ∈ i.snapshot.keys)) →
      r.fingerprint { i with snapshot := s } = r.fingerprint i := by
  refine ⟨fun i i' => ?_, optionsBytes_eq_iff, fun r i s hs => ?_⟩
  · have hlength : (Digest.blake3 (optionsBytes o)).bytes.length =
        (Digest.blake3 (optionsBytes o')).bytes.length := by
      rw [Digest.length_blake3, Digest.length_blake3]
    rw [inputBytes_eq_iff hlength]
    constructor
    · rintro ⟨⟨hkey, hsource, hdest, hconfig, husable⟩, hdigest⟩
      exact ⟨hkey, hsource, hdest, hconfig, husable, hdigest⟩
    · rintro ⟨hkey, hsource, hdest, hconfig, husable, hdigest⟩
      exact ⟨⟨hkey, hsource, hdest, hconfig, husable⟩, hdigest⟩
  · exact congrArg r.hash (inputBytes_congr_snapshot r i hs)

/-! Aliases that would run into each other, and a mapping of strangers. -/

def sampleOptions (aliases : List String) : Options where
  parameterTarget := "s"
  conventionalAliases := aliases

def sampleFields : FieldSet where
  shape := "A"
  fields := [.reference "items" "T"]
  nodup := by decide

def strangers : Snapshot where
  entries := KeyedMap.ofList [.explicit ⟨"X", "T"⟩ {} ⟨"o", 0⟩]

theorem preimages_sample :
    (sampleOptions ["ab"]).Addressable ∧ (sampleOptions ["a", "b"]).Addressable ∧
    optionsBytes (sampleOptions ["ab"]) ≠ optionsBytes (sampleOptions ["a", "b"]) ∧
    (∀ k : Key, k.source ∈ reachable sampleFields →
      (k ∈ strangers.keys ↔ k ∈ ({} : Snapshot).keys)) ∧
    (⟨sampleOptions [], Digest.blake3⟩ : Resolver).fingerprint
        ⟨.explicit ⟨"A", "B"⟩ {} ⟨"o", 1⟩, sampleFields, sampleFields, strangers⟩ =
      (⟨sampleOptions [], Digest.blake3⟩ : Resolver).fingerprint
        ⟨.explicit ⟨"A", "B"⟩ {} ⟨"o", 1⟩, sampleFields, sampleFields, {}⟩ := by
  have hjoined : (sampleOptions ["ab"]).Addressable := by decide
  have happart : (sampleOptions ["a", "b"]).Addressable := by decide
  have hstrangers : ∀ k : Key, k.source ∈ reachable sampleFields →
      (k ∈ strangers.keys ↔ k ∈ ({} : Snapshot).keys) := by
    rintro ⟨source, destination⟩ hk
    obtain rfl : source = "T" := List.mem_singleton.1 hk
    simp [strangers, Snapshot.keys, KeyedMap.keys, KeyedMap.ofList, KeyedMap.insert,
      KeyedMap.empty, KeyedMap.place, Entry.explicit]
  refine ⟨hjoined, happart, fun h => ?_, hstrangers, ?_⟩
  · have haliases := (((preimages_exact _ _).2.1 hjoined happart).1 h).2.1
    exact absurd haliases (by decide)
  · exact (preimages_exact (sampleOptions []) (sampleOptions [])).2.2 _
      ⟨.explicit ⟨"A", "B"⟩ {} ⟨"o", 1⟩, sampleFields, sampleFields, {}⟩ strangers hstrangers

end Resolver
end MapPlan
