import MapPlan.Mapping.Registry
import MapPlan.Plan.Basic
import MapPlan.Plan.Options

/-! # Resolving fields

How the plan of a mapping is made, a destination field at a time. What a field becomes depends on
the field, its directive, the source field it reads, and which mappings are registered; no field
depends on another. -/

namespace MapPlan

/-- What stands in the way of filling a field well. -/
inductive Problem where
  | malformedExpression
  | missingSource (name : String)
  | unmappedElements (source dest : TypeName)
  | unsoundBoxing (source dest : Element)
  | unmappedTypes (name : String) (source dest : TypeName)
deriving DecidableEq, Repr

namespace Problem

def kind : Problem → DiagnosticKind
  | malformedExpression => .malformedExpression
  | missingSource _ => .missingSource
  | unmappedElements .. | unmappedTypes .. => .typeMismatch
  | unsoundBoxing .. => .unsoundBoxing

def isTypeError : Problem → Bool
  | unmappedElements .. | unmappedTypes .. | unsoundBoxing .. => true
  | malformedExpression | missingSource _ => false

def message : Problem → String
  | malformedExpression => "unterminated literal or comment, parameter not renamed"
  | missingSource name => "no readable source field `" ++ name ++ "`"
  | unmappedElements source dest =>
    "elements " ++ source ++ " and " ++ dest ++ " have no registered mapping"
  | unsoundBoxing source dest =>
    source.storage.title ++ " elements " ++ source.type ++ " cannot be boxed into "
      ++ dest.storage.title ++ " elements " ++ dest.type
  | unmappedTypes name source dest =>
    "source `" ++ name ++ "` is " ++ source ++ ", destination is " ++ dest
      ++ " and no mapping is registered"

end Problem

/-- What became of a destination field. -/
structure Outcome where
  field : Field
  resolution : Resolution
  problem : Option Problem := none
deriving DecidableEq, Repr

namespace Outcome

/-- A field that must have a source and has none. -/
def isMissing (o : Outcome) : Bool :=
  match o.problem with
  | some (.missingSource _) => !o.field.defaultable
  | _ => false

def isTypeError (o : Outcome) : Bool :=
  o.problem.any (·.isTypeError)

def severity (escalate : Bool) (o : Outcome) : Severity :=
  if o.isTypeError || (o.isMissing && escalate) then .error else .warning

def diagnostic? (key : Key) (escalate : Bool) (o : Outcome) : Option Diagnostic :=
  o.problem.map fun p => ⟨p.kind, o.severity escalate, key, some o.field.name, p.message⟩

def planned (o : Outcome) : PlannedField :=
  ⟨o.field, o.resolution⟩

end Outcome

/-- All that the plan of a mapping is made from, the options apart. -/
structure Inputs where
  entry : Entry
  source : FieldSet
  dest : FieldSet
  snapshot : Snapshot
deriving DecidableEq

structure Resolver where
  options : Options := {}
  hash : Digest.Hash := Digest.blake3

namespace Resolver

/-! ## One field -/

/-- Fill a field from a source field. -/
def assign (snapshot : Snapshot) (source dest : Field) : Outcome :=
  if source.assignsTo dest then ⟨dest, .direct source.name, none⟩
  else
    match source.element, dest.element with
    | some given, some wanted =>
      if snapshot.contains given.type wanted.type then
        ⟨dest, .collection source.name (.perElement ⟨given.type, wanted.type⟩), none⟩
      else if given.type = wanted.type && given.boxesInto wanted then
        ⟨dest, .collection source.name .boxed, none⟩
      else if given.storage = wanted.storage then
        ⟨dest, .unresolved, some (.unmappedElements given.type wanted.type)⟩
      else ⟨dest, .unresolved, some (.unsoundBoxing given wanted)⟩
    | _, _ =>
      if snapshot.contains source.type dest.type then
        let guard := NullGuard.between source.storage.toClass dest.storage.toClass
        ⟨dest, .nested source.name ⟨source.type, dest.type⟩ guard, none⟩
      else ⟨dest, .unresolved, some (.unmappedTypes source.name source.type dest.type)⟩

/-- Fill a field from the source field of the given name, if it can be read. -/
def fromSource (i : Inputs) (name : String) (dest : Field) : Outcome :=
  match i.source.readable? name with
  | some source => assign i.snapshot source dest
  | none =>
    if i.entry.config.ignoreUnmatched then ⟨dest, .ignored, none⟩
    else ⟨dest, .unresolved, some (.missingSource name)⟩

/-- An expression that cannot be renamed safely is kept as it is, and reported. -/
def compute (r : Resolver) (text : String) (dest : Field) : Outcome :=
  let renamed := r.options.renamer.renameParameter text
  ⟨dest, .expression renamed.text,
    if renamed.isMalformed then some .malformedExpression else none⟩

def resolveField (r : Resolver) (i : Inputs) (dest : Field) : Outcome :=
  if !dest.writable || dest.ignored then ⟨dest, .ignored, none⟩
  else
    match i.entry.config.directive? dest.name with
    | some .ignore => ⟨dest, .ignored, none⟩
    | some (.constant text) => ⟨dest, .constant text, none⟩
    | some (.expression text) => r.compute text dest
    | some (.rename name) => fromSource i name dest
    | none => fromSource i dest.candidate dest

/-! ## Fingerprints

A plan is known by what it is made from: the key, both field sets, the configuration, the registered
keys that its fields could use, and the options that show in a plan. -/

def optionsParts (o : Options) : List (List UInt8) :=
  Digest.textBytes o.parameterTarget :: o.conventionalAliases.map Digest.textBytes
    ++ [[if o.escalateMissingSource then 1 else 0]]

def optionsBytes (o : Options) : List UInt8 :=
  Digest.frame (optionsParts o)

/-- The shapes that a mapping of a source field or of its elements would read. -/
def reachable (source : FieldSet) : List String :=
  source.fields.flatMap fun f => f.type :: (f.element.map Element.type).toList

/-- The registered keys that fields of the source could use. -/
def usableKeys (i : Inputs) : List Key :=
  i.snapshot.keys.filter fun k => (reachable i.source).contains k.source

def parts (r : Resolver) (i : Inputs) : List (List UInt8) :=
  [i.entry.key.toJson, i.source.toJson, i.dest.toJson, i.entry.config.toJson].map Digest.jsonBytes
    ++ (usableKeys i).map (fun k => Digest.jsonBytes k.toJson)
    ++ [(r.hash (optionsBytes r.options)).bytes]

def inputBytes (r : Resolver) (i : Inputs) : List UInt8 :=
  Digest.frame (r.parts i)

def fingerprint (r : Resolver) (i : Inputs) : Digest.Fingerprint :=
  r.hash (r.inputBytes i)

/-! ## The plan -/

def outcomes (r : Resolver) (i : Inputs) : List Outcome :=
  i.dest.fields.map (r.resolveField i)

/-- The plan under a fingerprint that is already known. -/
def planAs (r : Resolver) (i : Inputs) (fingerprint : Digest.Fingerprint) : Plan :=
  let outcomes := r.outcomes i
  let escalate := r.options.escalateMissingSource
  { key := i.entry.key
    fields := outcomes.map Outcome.planned
    hasMissingSource := outcomes.any (·.isMissing)
    hasTypeError := outcomes.any (·.isTypeError)
    diagnostics := Diagnostic.sort (outcomes.filterMap (·.diagnostic? i.entry.key escalate))
    fingerprint }

def resolve (r : Resolver) (i : Inputs) : Plan :=
  r.planAs i (r.fingerprint i)

end Resolver
end MapPlan
