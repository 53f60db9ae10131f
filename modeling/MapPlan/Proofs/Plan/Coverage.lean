import MapPlan.Plan.Resolver
import MapPlan.Proofs.Digest.Framing
import MapPlan.Proofs.Mapping.Config
import MapPlan.Proofs.Shape.FieldSet

/-!
# The fingerprint covers the plan

A plan is made from the key, the two field sets, the configuration and the registered keys that
fields of the source could use. These are also what is digested, and the digested bytes determine
them, so inputs with the same bytes have the same plan.
-/

namespace MapPlan

/-- The inputs differ in nothing that a plan is made from. -/
structure Inputs.Agree (i i' : Inputs) : Prop where
  key : i.entry.key = i'.entry.key
  source : i.source = i'.source
  dest : i.dest = i'.dest
  config : i.entry.config = i'.entry.config
  usable : Resolver.usableKeys i = Resolver.usableKeys i'

namespace Resolver

variable {i i' : Inputs}

/-! ## What the plan looks at -/

theorem type_mem_reachable {source : FieldSet} {f : Field} (hf : f ∈ source.fields) :
    f.type ∈ reachable source :=
  List.mem_flatMap.2 ⟨f, hf, List.mem_cons_self⟩

theorem element_mem_reachable {source : FieldSet} {f : Field} {e : Element} (hf : f ∈ source.fields)
    (he : f.element = some e) : e.type ∈ reachable source := by
  refine List.mem_flatMap.2 ⟨f, hf, List.mem_cons_of_mem _ ?_⟩
  rw [he]
  exact List.mem_singleton.2 rfl

theorem mem_usableKeys {k : Key} :
    k ∈ usableKeys i ↔ k ∈ i.snapshot.keys ∧ k.source ∈ reachable i.source := by
  rw [usableKeys, List.mem_filter, List.contains_iff_mem]

theorem contains_eq_of_agree (h : i.Agree i') {type : TypeName} (htype : type ∈ reachable i.source)
    (dest : TypeName) : i.snapshot.contains type dest = i'.snapshot.contains type dest := by
  have hmem : (⟨type, dest⟩ : Key) ∈ usableKeys i ↔ (⟨type, dest⟩ : Key) ∈ usableKeys i' := by
    rw [h.usable]
  rw [mem_usableKeys, mem_usableKeys, ← h.source, and_iff_left htype, and_iff_left htype] at hmem
  rw [Bool.eq_iff_iff, Snapshot.contains, Snapshot.contains, KeyedMap.contains_iff,
    KeyedMap.contains_iff]
  exact hmem

/-- Filling a field asks a snapshot for two keys at most. -/
theorem assign_congr {s s' : Snapshot} {source dest : Field}
    (htype : s.contains source.type dest.type = s'.contains source.type dest.type)
    (helement : ∀ given wanted, source.element = some given → dest.element = some wanted →
      s.contains given.type wanted.type = s'.contains given.type wanted.type) :
    assign s source dest = assign s' source dest := by
  rw [assign, assign]
  cases hgiven : source.element with
  | none => rw [htype]
  | some given =>
    cases hwanted : dest.element with
    | none => rw [htype]
    | some wanted => simp only [helement given wanted hgiven hwanted]

theorem fromSource_congr (h : i.Agree i') (name : String) (dest : Field) :
    fromSource i name dest = fromSource i' name dest := by
  rw [fromSource, fromSource, ← h.source, ← h.config]
  cases hreadable : i.source.readable? name with
  | none => rfl
  | some source =>
    obtain ⟨hmem, _, _⟩ := FieldSet.mem_of_readable? hreadable
    exact assign_congr (contains_eq_of_agree h (type_mem_reachable hmem) _)
      fun given _ hgiven _ => contains_eq_of_agree h (element_mem_reachable hmem hgiven) _

theorem resolveField_congr (r : Resolver) (h : i.Agree i') (dest : Field) :
    r.resolveField i dest = r.resolveField i' dest := by
  rw [resolveField, resolveField, ← h.config, fromSource_congr h dest.candidate]
  split
  · rfl
  · split
    · rfl
    · rfl
    · rfl
    · exact fromSource_congr h _ dest
    · rfl

theorem planAs_congr (r : Resolver) (h : i.Agree i') : r.planAs i = r.planAs i' := by
  have houtcomes : r.outcomes i = r.outcomes i' := by
    rw [outcomes, outcomes, ← h.dest]
    exact List.map_congr_left fun dest _ => resolveField_congr r h dest
  funext fingerprint
  rw [planAs, planAs, houtcomes, h.key]

/-! ## What is digested -/

theorem inputBytes_eq (r : Resolver) (i : Inputs) :
    r.inputBytes i =
      Digest.frame (Digest.jsonBytes i.entry.key.toJson :: Digest.jsonBytes i.source.toJson ::
        Digest.jsonBytes i.dest.toJson :: Digest.jsonBytes i.entry.config.toJson ::
        (usableKeys i).map fun k => Digest.jsonBytes k.toJson) ++
      Digest.frame [(r.hash (optionsBytes r.options)).bytes] :=
  Digest.frame_append _ _

/-- The bytes of two resolvers whose options have digests of one length. -/
theorem inputBytes_eq_iff {r r' : Resolver}
    (hlength : (r.hash (optionsBytes r.options)).bytes.length =
      (r'.hash (optionsBytes r'.options)).bytes.length) :
    r.inputBytes i = r'.inputBytes i' ↔
      i.Agree i' ∧ r.hash (optionsBytes r.options) = r'.hash (optionsBytes r'.options) := by
  constructor
  · intro h
    rw [inputBytes_eq, inputBytes_eq] at h
    obtain ⟨hkey, h⟩ := Digest.frame_cons_cancel h
    obtain ⟨hsource, h⟩ := Digest.frame_cons_cancel h
    obtain ⟨hdest, h⟩ := Digest.frame_cons_cancel h
    obtain ⟨hconfig, h⟩ := Digest.frame_cons_cancel h
    have hends : (Digest.frame [(r.hash (optionsBytes r.options)).bytes]).length =
        (Digest.frame [(r'.hash (optionsBytes r'.options)).bytes]).length := by
      simp only [Digest.frame_cons, List.length_append, hlength, Digest.lengthBytes,
        Digest.length_lowBytes]
    obtain ⟨husable, h⟩ := Digest.frame_map_append_cancel
      (fun k l hkl => Key.toJson_injective k l (congrArg Json.obj hkl)) hends h
    rw [Digest.frame_cons, Digest.frame_cons] at h
    obtain ⟨_, h⟩ := List.append_inj h rfl
    have hdigest := List.append_cancel_right h
    refine ⟨⟨?_, ?_, ?_, ?_, husable⟩, ?_⟩
    · exact Key.toJson_injective _ _ (congrArg Json.obj hkey)
    · exact FieldSet.toJson_injective _ _ (congrArg Json.obj hsource)
    · exact FieldSet.toJson_injective _ _ (congrArg Json.obj hdest)
    · exact Config.toJson_injective _ _ (congrArg Json.obj hconfig)
    · exact congrArg Digest.Fingerprint.mk hdigest
  · rintro ⟨h, hdigest⟩
    rw [inputBytes_eq, inputBytes_eq, h.key, h.source, h.dest, h.config, h.usable, hdigest]

theorem agree_of_inputBytes_eq (r : Resolver) (h : r.inputBytes i = r.inputBytes i') :
    i.Agree i' :=
  ((inputBytes_eq_iff rfl).1 h).1

end Resolver
end MapPlan
