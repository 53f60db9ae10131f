import Mathlib.Data.List.Forall2
import MapPlan.Proofs.Plan.Decision
import MapPlan.Proofs.Plan.Transparency

/-!
# Plans refer to plans

A plan may hand a field or the elements of one to another mapping. Whatever was done with a pass
before, the plans of a run are those of the keys of its snapshot, and each mapping that one of them
refers to has its plan among them, also if the plan was kept from a run with other mappings.
-/

namespace MapPlan

/-! ## References -/

/-- The mappings that fill the field or its elements. -/
def Resolution.references : Resolution → List Key
  | .nested _ key _ | .collection _ (.perElement key) => [key]
  | _ => []

def Plan.references (p : Plan) : List Key :=
  p.fields.flatMap fun f => f.resolution.references

variable {r : Resolver} {i : Inputs} {d : Field} {s : Snapshot} {source : Field}
  {kind : Resolution} {problem : Option Problem} {key : Key}

theorem Fills.mem_keys (h : Fills s source d kind problem) (hkey : key ∈ kind.references) :
    key ∈ s.keys := by
  cases h with
  | perElement _ _ _ hmem | nested _ _ hmem =>
    rw [List.mem_singleton.1 hkey]
    exact hmem
  | _ => cases hkey

theorem Decides.mem_keys (h : Decides r i d kind problem) (hkey : key ∈ kind.references) :
    key ∈ i.snapshot.keys := by
  cases h with
  | filled _ _ _ hfills => exact hfills.mem_keys hkey
  | _ => cases hkey

/-- A plan refers to registered mappings only. -/
theorem Resolver.mem_keys_of_mem_references (h : key ∈ (r.resolve i).references) :
    key ∈ i.snapshot.keys := by
  obtain ⟨f, hf, hkey⟩ := List.mem_flatMap.1 h
  exact (decides_of_mem hf).mem_keys hkey

/-! ## The plans of a run -/

/-- The plans are those of the keys of the snapshot, in their order, and each reference of one leads
to another of them. -/
structure PassOutput.Closed (o : PassOutput) (snapshot : Snapshot) : Prop where
  keys : o.plans.map Plan.key = snapshot.keys
  ascending : (o.plans.map Plan.key).Pairwise fun k l => compare k l = .lt
  references : ∀ plan ∈ o.plans, ∀ key ∈ plan.references, ∃ plan' ∈ o.plans, plan'.key = key

theorem Snapshot.pairwise_keys (s : Snapshot) :
    s.keys.Pairwise fun k l => compare k l = .lt :=
  List.pairwise_map.2 s.entries.sorted

namespace Pass

variable {catalog : Catalog} {snapshot : Snapshot} {fed : List Inputs}

theorem keys_resolve_ofRun (r : Resolver) (catalog : Catalog) (snapshot : Snapshot) :
    ((Inputs.ofRun catalog snapshot).map r.resolve).map Plan.key = snapshot.keys := by
  rw [Inputs.ofRun, List.map_map, List.map_map]
  rfl

/-- The plans of the entries of a snapshot are sorted already. -/
theorem materialize_resolve_ofRun (r : Resolver) (catalog : Catalog) (snapshot : Snapshot) :
    Plan.materialize ((Inputs.ofRun catalog snapshot).map r.resolve) =
      (Inputs.ofRun catalog snapshot).map r.resolve := by
  have hkeys := snapshot.pairwise_keys
  rw [← keys_resolve_ofRun r catalog] at hkeys
  refine List.mergeSort_of_pairwise ((List.pairwise_map.1 hkeys).imp fun {p q} hlt => ?_)
  rw [hlt]
  rfl

theorem closed_runLosing {p : Pass} (hp : p.cache.Faithful p.resolver fed)
    (hfed : p.resolver.CollisionFree fed) (hinputs : ∀ i ∈ Inputs.ofRun catalog snapshot, i ∈ fed)
    (keep : Nat → Digest.Fingerprint → Bool) :
    (p.runLosing catalog snapshot keep).1.Closed snapshot := by
  have hplans := (runLosing_faithful hp hfed hinputs keep).1
  rw [materialize_resolve_ofRun] at hplans
  have hkeys : (p.runLosing catalog snapshot keep).1.plans.map Plan.key = snapshot.keys := by
    rw [hplans, keys_resolve_ofRun]
  refine ⟨hkeys, hkeys ▸ snapshot.pairwise_keys, fun plan hplan key hkey => ?_⟩
  rw [hplans] at hplan
  obtain ⟨i, hi, rfl⟩ := List.mem_map.1 hplan
  obtain ⟨entry, _, rfl⟩ := List.mem_map.1 hi
  have hmem := Resolver.mem_keys_of_mem_references hkey
  exact List.mem_map.1 (hkeys ▸ hmem)

/-! ## The runs of a history -/

/-- The snapshot that a step runs with. -/
def Step.snapshot? : Step → Option Snapshot
  | run _ snapshot _ => some snapshot
  | invalidate | evict _ => none

theorem closed_apply {p : Pass} (hp : p.cache.Faithful p.resolver fed)
    (hfed : p.resolver.CollisionFree fed) {step : Step} (hinputs : ∀ i ∈ step.inputs, i ∈ fed) :
    List.Forall₂ PassOutput.Closed (step.apply p).1.toList step.snapshot?.toList := by
  cases step with
  | run catalog snapshot keep => exact .cons (closed_runLosing hp hfed hinputs keep) .nil
  | invalidate => exact .nil
  | evict keep => exact .nil

/-- Whatever is done with a pass, the plans of each run are those of the keys of its snapshot, each
once and in ascending order, and each mapping that a plan refers to has its plan among them. -/
theorem outputs_closed (r : Resolver) (steps : List Step)
    (hhash : r.CollisionFree (steps.flatMap Step.inputs)) :
    List.Forall₂ PassOutput.Closed ((ofResolver r).outputs steps)
      (steps.filterMap Step.snapshot?) := by
  refine forall₂_outputs_ofResolver ?_
  rintro q rfl hq step hinputs
  exact closed_apply hq hhash hinputs

/-! Nodes hold nodes, so their mapping refers to itself. It is planned, dropped, and registered again
while its plan is kept. -/

def nodeTable : ShapeTable :=
  KeyedMap.ofList
    [⟨"Node", [.reference "next" "Node"], by decide⟩, ⟨"Item", [.reference "next" "Item"], by decide⟩]

def nodeSnapshot : Snapshot where
  entries := KeyedMap.ofList [.explicit ⟨"Node", "Item"⟩ {} ⟨"o", 0⟩]

def nodeInputs : Inputs :=
  .ofEntry { table := nodeTable } nodeSnapshot (.explicit ⟨"Node", "Item"⟩ {} ⟨"o", 0⟩)

def nodeSteps : List Step :=
  [.run { table := nodeTable } nodeSnapshot (fun _ _ => true),
   .run { table := nodeTable } {} (fun _ _ => true),
   .run { table := nodeTable } nodeSnapshot (fun _ _ => true)]

theorem collisionFree_node : ({} : Resolver).CollisionFree (nodeSteps.flatMap Step.inputs) := by
  have hinputs : nodeSteps.flatMap Step.inputs = [nodeInputs, nodeInputs] := rfl
  have hall : ∀ i ∈ nodeSteps.flatMap Step.inputs, i = nodeInputs := by
    rw [hinputs]
    simp
  intro i hi i' hi' _
  rw [hall i hi, hall i' hi']

theorem outputs_closed_node :
    ({} : Resolver).CollisionFree (nodeSteps.flatMap Step.inputs) ∧
    (({} : Resolver).resolve nodeInputs).references = [⟨"Node", "Item"⟩] ∧
    List.Forall₂ PassOutput.Closed ((ofResolver {}).outputs nodeSteps)
      [nodeSnapshot, {}, nodeSnapshot] :=
  ⟨collisionFree_node, by decide +kernel, outputs_closed {} nodeSteps collisionFree_node⟩

end Pass
end MapPlan
