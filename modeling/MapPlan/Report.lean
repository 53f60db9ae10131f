import MapPlan.Plan.Pass

/-! # Reports

What a pass found, as lines for people or as one JSON document. A report of the plans ends with the
diagnostics; a report of the diagnostics alone ends with their counts. -/

namespace MapPlan

/-- The version that reports carry. -/
def version : String :=
  "0.1.0"

/-! ## Lines -/

def NullGuard.remark : NullGuard → String
  | none => ""
  | propagateAbsence => ", absent stays absent"
  | skipWhenAbsent => ", skipped when absent"

def Resolution.text : Resolution → String
  | direct source => "<- " ++ source
  | nested source key guard => "<- " ++ source ++ " via " ++ key.text ++ guard.remark
  | constant text => "= " ++ text
  | expression text => "= \x7b " ++ text ++ " \x7d"
  | collection source .boxed => "<- [" ++ source ++ "] boxed"
  | collection source (.perElement key) => "<- [" ++ source ++ "] via " ++ key.text
  | ignored => "ignored"
  | unresolved => "unresolved"

/-- A text with blanks behind it, up to a number of characters. -/
def Text.padded (width : Nat) (s : String) : String :=
  s ++ String.ofList (List.replicate (width - s.length) ' ')

/-- Lines with their ends. -/
def Text.lines (l : List String) : String :=
  String.join (l.map (· ++ "\n"))

def Text.counted (n : Nat) (noun : String) : String :=
  String.ofList (Json.decimal n) ++ " " ++ noun ++ "(s)"

/-- A line on one field, with room for a name of the given width. -/
def PlannedField.line (width : Nat) (f : PlannedField) : String :=
  "  " ++ Text.padded width f.name ++ "  " ++ f.resolution.text

namespace Plan

/-- The fields that get a value, as they are filled, and then the others. -/
def reported (p : Plan) : List PlannedField :=
  p.emissionOrder ++ p.fields.filter (!·.resolution.isEmitted)

/-- The room for names: the size of the longest in bytes, which is at least its length. -/
def nameWidth (p : Plan) : Nat :=
  (p.fields.map (·.name.utf8ByteSize)).foldl max 0

def lines (p : Plan) : List String :=
  (p.key.text ++ " [" ++ p.fingerprint.short ++ "]") :: p.reported.map (·.line p.nameWidth)

end Plan

namespace PassOutput

def planLines (o : PassOutput) : List String :=
  o.plans.flatMap fun p => p.lines ++ [""]

def diagnosticLines (o : PassOutput) : List String :=
  o.diagnostics.map (·.text)

def summary (o : PassOutput) : String :=
  ", ".intercalate
    [Text.counted o.plans.length "mapping", Text.counted o.diagnostics.length "diagnostic",
     Text.counted o.escalations.length "error"]

end PassOutput

/-! ## JSON documents -/

def Plan.toJson (p : Plan) : Json :=
  .obj
    [("key", p.key.toJson),
     ("fingerprint", .str p.fingerprint.hex),
     ("emission_order", .strings (p.emissionOrder.map (·.name))),
     ("fields", .arr (p.fields.map (·.toJson))),
     ("has_missing_source", .bool p.hasMissingSource),
     ("has_type_error", .bool p.hasTypeError)]

namespace PassOutput

def diagnosticsJson (o : PassOutput) : Json :=
  .arr (o.diagnostics.map (·.toJson))

def toJson (o : PassOutput) : Json :=
  .obj
    [("version", .str version),
     ("plans", .arr (o.plans.map (·.toJson))),
     ("diagnostics", o.diagnosticsJson),
     ("cache_hits", .int o.cacheHits)]

end PassOutput

/-! ## Reports -/

/-- What to report on. -/
inductive Report where
  | plans
  | diagnostics
deriving DecidableEq, Repr

/-- The report on what a pass found, as lines or as JSON. -/
def Report.render (r : Report) (json : Bool) (o : PassOutput) : String :=
  match r, json with
  | plans, false => Text.lines (o.planLines ++ o.diagnosticLines)
  | diagnostics, false => Text.lines (o.diagnosticLines ++ [o.summary])
  | plans, true => Text.lines [o.toJson.indented]
  | diagnostics, true => Text.lines [o.diagnosticsJson.indented]

end MapPlan
