import MapPlan.Manifest.Mappings
import MapPlan.Proofs.Mapping.Directives
import MapPlan.Proofs.Mapping.Registry
import MapPlan.Proofs.Shape.FieldSet

/-!
# Registering declared mappings

A faulty mapping is one that nothing can be registered for: a shape of it is not declared, or a
field has more than one directive. Registration adds an entry for each mapping before the first
faulty one and then tells what is wrong with that one.

The entries say what was declared. A configuration is built by giving one directive after the
other, and each of them takes away what the field had before, so this rests on no field coming
twice.
-/

namespace MapPlan

open scoped List

/-! ## Declared configurations -/

namespace Config

variable {c : Config} {l : List (String × Directive)} {field : String} {d : Directive}

theorem flags_foldl_direct (c : Config) (l : List (String × Directive)) :
    (l.foldl (fun c (field, d) => c.direct field d) c).reverse = c.reverse ∧
      (l.foldl (fun c (field, d) => c.direct field d) c).ignoreUnmatched = c.ignoreUnmatched := by
  induction l generalizing c with
  | nil => exact ⟨rfl, rfl⟩
  | cons p rest ih => exact ih (c.direct p.1 p.2)

/-- Directives of different fields do not take each other away. -/
theorem tells_foldl_direct (hfields : (l.map Prod.fst).Nodup)
    (hfresh : ∀ p ∈ l, ∀ e, ¬ c.directives.Tells p.1 e) :
    (l.foldl (fun c (field, d) => c.direct field d) c).directives.Tells field d ↔
      (field, d) ∈ l ∨ c.directives.Tells field d := by
  induction l generalizing c with
  | nil => simp
  | cons p rest ih =>
    obtain ⟨name, e⟩ := p
    obtain ⟨hname, hrest⟩ := List.nodup_cons.1 hfields
    rw [List.forall_mem_cons] at hfresh
    have hother : ∀ p ∈ rest, p.1 ≠ name := by
      rintro p hp rfl
      exact hname (List.mem_map.2 ⟨p, hp, rfl⟩)
    have hdirect : ∀ p ∈ rest, ∀ e', ¬ (c.direct name e).directives.Tells p.1 e' := by
      intro p hp e' htells
      rcases Directives.tells_set.1 htells with ⟨h, -⟩ | ⟨h, -⟩
      · exact hother p hp h
      · exact hfresh.2 p hp e' h
    rw [List.foldl_cons, ih hrest hdirect, direct, Directives.tells_set, List.mem_cons,
      Prod.mk.injEq, or_left_comm, or_assoc]
    refine or_congr_right (or_congr_right (and_iff_left_of_imp ?_))
    rintro htells rfl
    exact hfresh.1 d htells

end Config

namespace MappingDecl

variable {d : MappingDecl}

/-- The directives that are declared, in the order in which they are given. -/
def directives (d : MappingDecl) : List (String × Directive) :=
  d.ignore.map (·, .ignore) ++ d.rename.items.map (fun p => (p.1, .rename p.2)) ++
    d.expression.items.map (fun p => (p.1, .expression p.2)) ++
    d.constant.items.map fun p => (p.1, .constant p.2)

theorem config_eq (d : MappingDecl) :
    d.config = d.directives.foldl (fun c (field, e) => c.direct field e)
      { reverse := d.reverse, ignoreUnmatched := d.ignoreUnmatched } := by
  simp only [config, directives, List.foldl_append, List.foldl_map]
  rfl

theorem map_fst_directives (d : MappingDecl) : d.directives.map Prod.fst = d.configured := by
  simp [directives, configured, KeyedMap.keys, Function.comp_def]

theorem tells_config (h : d.configured.Nodup) (field : String) (e : Directive) :
    d.config.directives.Tells field e ↔ (field, e) ∈ d.directives := by
  rw [← map_fst_directives] at h
  rw [config_eq, Config.tells_foldl_direct h fun _ _ _ => Directives.not_tells_empty,
    or_iff_left Directives.not_tells_empty]

/-- The configuration has the flags and the tables of the declaration. -/
structure Configures (d : MappingDecl) (c : Config) : Prop where
  reverse : c.reverse = d.reverse
  ignoreUnmatched : c.ignoreUnmatched = d.ignoreUnmatched
  ignored : c.ignored ~ d.ignore
  renames : c.renames = d.rename.items
  expressions : c.expressions = d.expression.items
  constants : c.constants = d.constant.items

theorem configures_config (h : d.configured.Nodup) : d.Configures d.config := by
  have htells := tells_config h
  have hflags := Config.flags_foldl_direct
    { reverse := d.reverse, ignoreUnmatched := d.ignoreUnmatched } d.directives
  rw [← config_eq] at hflags
  constructor
  case reverse => exact hflags.1
  case ignoreUnmatched => exact hflags.2
  case ignored =>
    refine (List.perm_ext_iff_of_nodup (KeyedMap.nodup_items _) ?_).2 fun field => ?_
    · rw [configured, List.append_assoc, List.append_assoc] at h
      exact (List.nodup_append.1 h).1
    · refine (htells field .ignore).trans ?_
      simp [directives]
  case renames =>
    refine congrArg KeyedMap.items (KeyedMap.ext_mem fun p => ?_)
    refine (htells p.1 (.rename p.2)).trans ?_
    simp [directives]
  case expressions =>
    refine congrArg KeyedMap.items (KeyedMap.ext_mem fun p => ?_)
    refine (htells p.1 (.expression p.2)).trans ?_
    simp [directives]
  case constants =>
    refine congrArg KeyedMap.items (KeyedMap.ext_mem fun p => ?_)
    refine (htells p.1 (.constant p.2)).trans ?_
    simp [directives]

end MappingDecl

namespace Manifest

variable {m : Manifest} {d : MappingDecl} {e : ManifestError} {decls : List MappingDecl}

/-! ## Faulty mappings -/

/-- A shape of the mapping is not declared, or a field of it is configured more than once. -/
def Faulty (m : Manifest) (d : MappingDecl) : Prop :=
  d.source ∉ m.shapes.keys ∨ d.destination ∉ m.shapes.keys ∨
    ¬ (d.ignore ++ d.rename.keys ++ d.expression.keys ++ d.constant.keys).Nodup

instance : Decidable (m.Faulty d) :=
  inferInstanceAs (Decidable (_ ∨ _ ∨ _))

/-- The error that is told of a mapping. It is about the source, if that is not declared; else about
the destination; else about the first field that comes again. -/
inductive Blames (m : Manifest) (d : MappingDecl) : ManifestError → Prop where
  | source (hsource : d.source ∉ m.shapes.keys) :
      Blames m d (.undeclaredShape ⟨d.source, d.destination⟩ d.source)
  | destination (hsource : d.source ∈ m.shapes.keys) (hdest : d.destination ∉ m.shapes.keys) :
      Blames m d (.undeclaredShape ⟨d.source, d.destination⟩ d.destination)
  | field {name : String} (hsource : d.source ∈ m.shapes.keys)
      (hdest : d.destination ∈ m.shapes.keys)
      (hname : RepeatsFirst (d.ignore ++ d.rename.keys ++ d.expression.keys ++ d.constant.keys)
        name) :
      Blames m d (.conflictingDirective ⟨d.source, d.destination⟩ name)

theorem not_declares_iff {shape : String} : !m.declares shape ↔ shape ∉ m.shapes.keys := by
  rw [Bool.not_eq_true', Bool.eq_false_iff, ne_eq, declares, KeyedMap.contains_iff]

theorem fault?_eq_some : m.fault? d = some e ↔ m.Blames d e := by
  constructor
  · intro h
    rw [fault?] at h
    split at h
    · rename_i hsource
      cases h
      exact .source (not_declares_iff.1 hsource)
    rename_i hsource
    split at h
    · rename_i hdest
      cases h
      exact .destination (not_not.1 (mt not_declares_iff.2 hsource)) (not_declares_iff.1 hdest)
    rename_i hdest
    obtain ⟨name, hname, rfl⟩ := Option.map_eq_some_iff.1 h
    exact .field (not_not.1 (mt not_declares_iff.2 hsource))
      (not_not.1 (mt not_declares_iff.2 hdest)) (firstRepeated?_nil_eq_some.1 hname)
  · intro h
    cases h with
    | source hsource =>
      rw [fault?, if_pos (not_declares_iff.2 hsource)]
      rfl
    | destination hsource hdest =>
      rw [fault?, if_neg (mt not_declares_iff.1 (not_not.2 hsource)),
        if_pos (not_declares_iff.2 hdest)]
      rfl
    | field hsource hdest hname =>
      rw [fault?, if_neg (mt not_declares_iff.1 (not_not.2 hsource)),
        if_neg (mt not_declares_iff.1 (not_not.2 hdest)), MappingDecl.configured,
        firstRepeated?_nil_eq_some.2 hname]
      rfl

theorem exists_blames_iff : (∃ e, m.Blames d e) ↔ m.Faulty d := by
  constructor
  · rintro ⟨e, h⟩
    cases h with
    | source hsource => exact .inl hsource
    | destination _ hdest => exact .inr (.inl hdest)
    | field _ _ hname => exact .inr (.inr (exists_repeatsFirst_iff.1 ⟨_, hname⟩))
  · intro h
    by_cases hsource : d.source ∈ m.shapes.keys
    · by_cases hdest : d.destination ∈ m.shapes.keys
      · have hrepeats := (h.resolve_left (not_not.2 hsource)).resolve_left (not_not.2 hdest)
        obtain ⟨name, hname⟩ := exists_repeatsFirst_iff.2 hrepeats
        exact ⟨_, .field hsource hdest hname⟩
      · exact ⟨_, .destination hsource hdest⟩
    · exact ⟨_, .source hsource⟩

theorem fault?_eq_none : m.fault? d = none ↔ ¬ m.Faulty d := by
  rw [← exists_blames_iff, Option.eq_none_iff_forall_ne_some, not_exists]
  exact forall_congr' fun e => not_congr fault?_eq_some

/-! ## Registration -/

/-- What is registered for a mapping that is not faulty. -/
def entry (m : Manifest) (ordinal : Nat) (d : MappingDecl) : Entry :=
  .explicit d.key d.config ⟨m.originName, ordinal⟩

def entriesFrom (m : Manifest) (ordinal : Nat) (decls : List MappingDecl) : List Entry :=
  decls.mapIdx fun i d => m.entry (ordinal + i) d

/-- What is registered for a manifest without faults. -/
def entries (m : Manifest) : List Entry :=
  m.entriesFrom 0 m.mappings

/-- The entry is that of the mapping at a position. -/
structure Declares (m : Manifest) (i : Nat) (d : MappingDecl) (e : Entry) : Prop where
  key : e.key = ⟨d.source, d.destination⟩
  origin : e.origin = .explicit ⟨m.origin.getD "manifest", i⟩
  config : d.Configures e.config

theorem declares_entry {i : Nat} (h : ¬ m.Faulty d) : m.Declares i d (m.entry i d) where
  key := rfl
  origin := rfl
  config := MappingDecl.configures_config (not_not.1 fun hnodup => h (.inr (.inr hnodup)))

theorem entriesFrom_cons (ordinal : Nat) (d : MappingDecl) (decls : List MappingDecl) :
    m.entriesFrom ordinal (d :: decls) =
      m.entry ordinal d :: m.entriesFrom (ordinal + 1) decls := by
  rw [entriesFrom, List.mapIdx_cons, Nat.add_zero, entriesFrom]
  simp only [Nat.add_assoc, Nat.add_comm 1]

/-- Mappings that are not faulty are added, in order. -/
theorem registerFrom_append (ordinal : Nat) (r : Registry) (rest : List MappingDecl)
    (h : ∀ d ∈ decls, m.fault? d = none) :
    m.registerFrom ordinal r (decls ++ rest) =
      m.registerFrom (ordinal + decls.length) (r.addAll (m.entriesFrom ordinal decls)) rest := by
  induction decls generalizing ordinal r with
  | nil => rfl
  | cons d decls ih =>
    rw [List.forall_mem_cons] at h
    rw [List.cons_append, registerFrom, h.1]
    simp only
    rw [ih _ _ h.2, entriesFrom_cons, List.length_cons, Nat.add_right_comm, Nat.add_assoc]
    rfl

theorem registerFrom_snd_eq_ok {ordinal : Nat} {r : Registry} :
    (m.registerFrom ordinal r decls).2 = .ok () ↔ ∀ d ∈ decls, m.fault? d = none := by
  induction decls generalizing ordinal r with
  | nil => simp [registerFrom]
  | cons d decls ih =>
    rw [registerFrom, List.forall_mem_cons]
    cases m.fault? d with
    | none => simp [ih]
    | some e => simp

theorem register_of_sound (h : ∀ d ∈ m.mappings, m.fault? d = none) (r : Registry) :
    m.register r = (r.addAll m.entries, .ok ()) := by
  have hregister := m.registerFrom_append 0 r [] h
  rw [List.append_nil] at hregister
  exact hregister

theorem register_of_ok {r : Registry} (h : (m.register r).2 = .ok ()) (r' : Registry) :
    m.register r' = (r'.addAll m.entries, .ok ()) :=
  register_of_sound (registerFrom_snd_eq_ok.1 h) r'

/-- The entries are those of the mappings, one for each. -/
def Registers (m : Manifest) (decls : List MappingDecl) (entries : List Entry) : Prop :=
  entries.length = decls.length ∧
    ∀ i d e, decls[i]? = some d → entries[i]? = some e → m.Declares i d e

theorem registers_entriesFrom (h : ∀ d ∈ decls, ¬ m.Faulty d) :
    m.Registers decls (m.entriesFrom 0 decls) := by
  refine ⟨List.length_mapIdx, fun i d e hd he => ?_⟩
  rw [entriesFrom, List.getElem?_mapIdx, hd, Nat.zero_add] at he
  cases he
  exact declares_entry (h d (List.mem_of_getElem? hd))

/-- The mappings before the first faulty one. -/
def sound (m : Manifest) : List MappingDecl :=
  m.mappings.takeWhile fun d => ¬ m.Faulty d

theorem registerFrom_fst (ordinal : Nat) (r : Registry) (decls : List MappingDecl) :
    (m.registerFrom ordinal r decls).1 =
      r.addAll (m.entriesFrom ordinal (decls.takeWhile fun d => ¬ m.Faulty d)) := by
  induction decls generalizing ordinal r with
  | nil => rfl
  | cons d decls ih =>
    by_cases hfaulty : m.Faulty d
    · obtain ⟨e, he⟩ := exists_blames_iff.2 hfaulty
      rw [registerFrom, fault?_eq_some.2 he, List.takeWhile_cons_of_neg (by simpa using hfaulty)]
      rfl
    · rw [registerFrom, fault?_eq_none.2 hfaulty,
        List.takeWhile_cons_of_pos (by simpa using hfaulty), entriesFrom_cons]
      exact ih _ _

/-- What registration makes of any registry: of the entries that are there and those of the mappings
before the first faulty one, it keeps the least of each key, and it reports every other one in front
of what was reported before. -/
theorem exists_holds_register (m : Manifest) (r : Registry) :
    ∃ entries reports, m.Registers m.sound entries ∧
      (m.register r).1.duplicates = reports ++ r.duplicates ∧
      Registry.Holds ⟨(m.register r).1.entries, reports⟩ (r.entries.items ++ entries) := by
  have hsound : ∀ d ∈ m.sound, ¬ m.Faulty d := by
    intro d hd
    simpa using List.all_eq_true.1 List.all_takeWhile d hd
  obtain ⟨reports, hreports, hholds⟩ := r.exists_holds_addAll (m.entriesFrom 0 m.sound)
  rw [register, registerFrom_fst]
  exact ⟨_, reports, registers_entriesFrom hsound, hreports, hholds⟩

/-- Registration adds what was declared, and all of it unless some mapping is faulty. If one is, it
adds what was declared before the first such mapping, and tells its fault. -/
theorem register_exact (m : Manifest) (r : Registry) :
    ((∀ d ∈ m.mappings, ¬ m.Faulty d) →
      ∃ entries, m.Registers m.mappings entries ∧ m.register r = (r.addAll entries, .ok ())) ∧
    ∀ before d after, m.mappings = before ++ d :: after → (∀ d ∈ before, ¬ m.Faulty d) →
      m.Faulty d → ∃ entries e, m.Registers before entries ∧ m.Blames d e ∧
        m.register r = (r.addAll entries, .error e) := by
  constructor
  · intro h
    exact ⟨m.entries, registers_entriesFrom h,
      register_of_sound (fun d hd => fault?_eq_none.2 (h d hd)) r⟩
  · intro before d after hmappings h hfaulty
    obtain ⟨e, he⟩ := exists_blames_iff.2 hfaulty
    refine ⟨_, e, registers_entriesFrom h, he, ?_⟩
    rw [register, hmappings, registerFrom_append 0 r _ fun d hd => fault?_eq_none.2 (h d hd),
      registerFrom, fault?_eq_some.2 he]

/-- A mapping with a directive of each kind. -/
def sampleDecl : MappingDecl where
  source := "A"
  destination := "B"
  reverse := true
  ignore := ["Secret", "Audit"]
  rename := .ofList [("Id", "Key")]
  expression := .ofList [("Total", "s => s.Sum")]
  constant := .ofList [("Kind", "1")]

/-- A mapping that renames a field and sets it too. -/
def sampleFault : MappingDecl where
  source := "B"
  destination := "A"
  rename := .ofList [("Key", "Id"), ("Total", "Sum")]
  constant := .ofList [("Total", "0")]

def sample : Manifest where
  shapes := .ofList [("B", []), ("A", [])]
  mappings := [sampleDecl, sampleFault, { source := "A", destination := "C" }]

/-- The manifest without its faulty mappings. -/
def sampleSound : Manifest :=
  { sample with mappings := [sampleDecl] }

theorem register_sample :
    (∃ entries, sampleSound.Registers [sampleDecl] entries ∧
      sampleSound.register {} = (.addAll {} entries, .ok ())) ∧
    (∀ d ∈ [sampleDecl], ¬ sample.Faulty d) ∧ sample.Faulty sampleFault ∧
    ∃ entries, sample.Registers [sampleDecl] entries ∧
      sample.register {} =
        (.addAll {} entries, .error (.conflictingDirective ⟨"B", "A"⟩ "Total")) := by
  refine ⟨(register_exact sampleSound {}).1 (by decide), ?_⟩
  have hsound : ∀ d ∈ [sampleDecl], ¬ sample.Faulty d := by decide
  have hfaulty : sample.Faulty sampleFault := by decide
  obtain ⟨entries, e, hentries, hblames, hregister⟩ :=
    (register_exact sample {}).2 [sampleDecl] sampleFault _ rfl hsound hfaulty
  have hfault : sample.fault? sampleFault =
      some (.conflictingDirective ⟨"B", "A"⟩ "Total") := by decide
  obtain rfl := Option.some.inj ((fault?_eq_some.2 hblames).symm.trans hfault)
  exact ⟨hsound, hfaulty, entries, hentries, hregister⟩

end Manifest
end MapPlan
