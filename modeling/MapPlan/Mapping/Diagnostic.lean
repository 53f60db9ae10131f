import MapPlan.Mapping.Key

/-! # Diagnostics

Problems found while mappings are registered and planned. They are values with a total order, so
that a sorted list of them is always the same. -/

namespace MapPlan

inductive Severity where
  | info
  | warning
  | error
deriving DecidableEq, Repr

namespace Severity

def rank : Severity → Nat
  | info => 0
  | warning => 1
  | error => 2

def name : Severity → String
  | info => "info"
  | warning => "warning"
  | error => "error"

end Severity

inductive DiagnosticKind where
  /-- No readable source field for a destination field. -/
  | missingSource
  /-- Types that cannot be mapped. -/
  | typeMismatch
  /-- Elements that cannot travel in an erased slot. -/
  | unsoundBoxing
  /-- A second registration for a key. -/
  | duplicateMapping
  /-- A reverse mapping whose key is taken. -/
  | reverseConflict
  /-- An expression whose parameter cannot be renamed safely. -/
  | malformedExpression
deriving DecidableEq, Repr

namespace DiagnosticKind

def rank : DiagnosticKind → Nat
  | missingSource => 0
  | typeMismatch => 1
  | unsoundBoxing => 2
  | duplicateMapping => 3
  | reverseConflict => 4
  | malformedExpression => 5

/-- The name for people. -/
def code : DiagnosticKind → String
  | missingSource => "missing-source"
  | typeMismatch => "type-mismatch"
  | unsoundBoxing => "unsound-boxing"
  | duplicateMapping => "duplicate-mapping"
  | reverseConflict => "reverse-conflict"
  | malformedExpression => "malformed-expression"

/-- The name in data. -/
def name : DiagnosticKind → String
  | missingSource => "missing_source"
  | typeMismatch => "type_mismatch"
  | unsoundBoxing => "unsound_boxing"
  | duplicateMapping => "duplicate_mapping"
  | reverseConflict => "reverse_conflict"
  | malformedExpression => "malformed_expression"

end DiagnosticKind

structure Diagnostic where
  kind : DiagnosticKind
  severity : Severity
  key : Key
  /-- The destination field, where the problem is one field's. -/
  field : Option String := none
  message : String
deriving DecidableEq, Repr

namespace Diagnostic

/-- By key and field first, so that problems of one field stand together. -/
instance : Ord Diagnostic :=
  ⟨compareLex (compareOn key)
    (compareLex (compareOn field)
      (compareLex (compareOn fun d => d.kind.rank)
        (compareLex (compareOn fun d => d.severity.rank) (compareOn message))))⟩

def sort (l : List Diagnostic) : List Diagnostic :=
  l.mergeSort fun a b => (compare a b).isLE

def isError (d : Diagnostic) : Bool :=
  d.severity = .error

def text (d : Diagnostic) : String :=
  let field := (d.field.map (" ." ++ ·)).getD ""
  d.severity.name ++ "[" ++ d.kind.code ++ "] " ++ d.key.text ++ field ++ ": " ++ d.message

/-- A registration for `key` was discarded, the one that `label` names. -/
def duplicate (key : Key) (label : String) : Diagnostic where
  kind := .duplicateMapping
  severity := .warning
  key
  message := "duplicate mapping " ++ key.text ++ " from " ++ label ++ " discarded"

/-- The reverse of `forward` would have the key of another mapping. -/
def reverseConflict (key forward : Key) : Diagnostic where
  kind := .reverseConflict
  severity := .info
  key
  message := "reverse of " ++ forward.text ++ " not synthesized, explicit " ++ key.text ++ " kept"

def toJson (d : Diagnostic) : Json :=
  .obj
    [("key", d.key.toJson),
     ("field", .ofOption .str d.field),
     ("kind", .str d.kind.name),
     ("severity", .str d.severity.name),
     ("message", .str d.message)]

end Diagnostic

/-- Reported diagnostics, the last one first. -/
structure Collector where
  reported : List Diagnostic := []
deriving DecidableEq, Repr

namespace Collector

def report (c : Collector) (d : Diagnostic) : Collector :=
  ⟨d :: c.reported⟩

def reportAll (c : Collector) (l : List Diagnostic) : Collector :=
  l.foldl report c

def size (c : Collector) : Nat :=
  c.reported.length

def isEmpty (c : Collector) : Bool :=
  c.reported.isEmpty

/-- Take what was reported, sorted. -/
def drain (c : Collector) : List Diagnostic × Collector :=
  (Diagnostic.sort c.reported, {})

end Collector
end MapPlan
