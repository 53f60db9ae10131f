import MapPlan.Report

/-! # Command line arguments

What a list of arguments asks for. Options may stand anywhere between the other arguments, up to an
argument `--`, behind which there are none. -/

namespace MapPlan.CommandLine

/-- How the program tells its version. -/
def versionText : String :=
  "fieldmap " ++ MapPlan.version

/-! ## Options -/

inductive Info where
  | help
  | version
deriving DecidableEq, Repr

/-- Why no report is made. -/
inductive Stop where
  /-- The arguments are wrong. -/
  | usage
  /-- The arguments ask about the program. -/
  | info (i : Info)
deriving DecidableEq, Repr

inductive OptionKind where
  /-- Without a value, and as often as one likes. -/
  | repeatable
  /-- Without a value, and at most once. -/
  | switch
  /-- With a value, and at most once. -/
  | setting (valid : String → Bool)
  /-- Asks about the program; what follows is not read. -/
  | info (i : Info)

structure OptionSpec where
  name : String
  letter : Option Char := none
  kind : OptionKind

namespace OptionSpec

def verbose : OptionSpec := ⟨"verbose", some 'v', .repeatable⟩

def logFormat : OptionSpec := ⟨"log-format", none, .setting ["text", "json"].contains⟩

def help : OptionSpec := ⟨"help", some 'h', .info .help⟩

def version : OptionSpec := ⟨"version", some 'V', .info .version⟩

def config : OptionSpec := ⟨"config", none, .setting (· ≠ "")⟩

def json : OptionSpec := ⟨"json", none, .switch⟩

/-- The options before the name of a report. -/
def common : List OptionSpec :=
  [verbose, logFormat, help, version]

/-- The options behind it. -/
def ofReport : List OptionSpec :=
  [config, json, verbose, logFormat, help]

end OptionSpec

/-- Does the option have its value in the next argument? -/
def OptionSpec.lacks (o : OptionSpec) (value : Option String) : Bool :=
  match o.kind with
  | .setting _ => value.isNone
  | _ => false

/-- The values of the options that were given, where one without a value has an empty one. -/
abbrev Given := List (String × String)

def Given.once (g : Given) (name value : String) : Except Stop Given :=
  if (g.lookup name).isSome then .error .usage else .ok ((name, value) :: g)

/-- Add an option, with the value that is attached to it. -/
def Given.add (g : Given) (o : OptionSpec) (value : Option String) : Except Stop Given :=
  match o.kind, value with
  | .repeatable, none => .ok g
  | .info i, none => .error (.info i)
  | .switch, none => g.once o.name ""
  | .setting valid, some value => if valid value then g.once o.name value else .error .usage
  | _, _ => .error .usage

/-! ## Arguments by their form -/

inductive Argument where
  | operand
  /-- From here on all arguments are operands. -/
  | stop
  | named (name : String) (value : Option String)
  | letters (l : List Char)
deriving DecidableEq, Repr

def Argument.ofText (s : String) : Argument :=
  match s.toList with
  | ['-', '-'] => .stop
  | '-' :: '-' :: cs =>
    let name := String.ofList (cs.takeWhile (· ≠ '='))
    match cs.dropWhile (· ≠ '=') with
    | _ :: value => .named name (some (String.ofList value))
    | [] => .named name none
  | '-' :: c :: cs => .letters (c :: cs)
  | _ => .operand

/-- Options without values, by their letters. -/
def Given.addLetters (specs : List OptionSpec) (g : Given) (l : List Char) : Except Stop Given :=
  l.foldlM (fun g c =>
    match specs.find? (·.letter = some c) with
    | some o => g.add o none
    | none => .error .usage) g

/-- Read options up to the first argument that is none. -/
def options (specs : List OptionSpec) (g : Given) :
    List String → Except Stop (Given × List String)
  | [] => .ok (g, [])
  | arg :: rest =>
    match Argument.ofText arg with
    | .operand | .stop => .ok (g, arg :: rest)
    | .letters l => do options specs (← g.addLetters specs l) rest
    | .named name value =>
      match specs.find? (·.name = name) with
      | none => .error .usage
      | some o =>
        if o.lacks value then
          match rest with
          | next :: rest => do
            if Argument.ofText next = .operand then options specs (← g.add o (some next)) rest
            else .error .usage
          | [] => .error .usage
        else do options specs (← g.add o value) rest

/-! ## Requests -/

/-- A report to make. -/
structure Request where
  report : Report
  manifest : String
  config : Option String := none
  json : Bool := false
deriving DecidableEq, Repr

namespace Request

def ofGiven (r : Report) (manifest : String) (g : Given) : Except Stop Request :=
  if manifest = "" then .error .usage
  else .ok ⟨r, manifest, g.lookup OptionSpec.config.name,
    (g.lookup OptionSpec.json.name).isSome⟩

/-- Read what follows the name of a report: the path of a manifest, among options. -/
def ofReport (r : Report) (args : List String) : Except Stop Request := do
  match ← options OptionSpec.ofReport [] args with
  | (g, ["--", manifest]) => ofGiven r manifest g
  | (_, "--" :: _) | (_, []) => .error .usage
  | (g, manifest :: rest) =>
    match ← options OptionSpec.ofReport g rest with
    | (g, []) | (g, ["--"]) => ofGiven r manifest g
    | _ => .error .usage

def ofArguments (args : List String) : Except Stop Request := do
  match ← options OptionSpec.common [] args with
  | (_, "plan" :: rest) => ofReport .plans rest
  | (_, "check" :: rest) => ofReport .diagnostics rest
  | (_, ["help"]) => .error (.info .help)
  | (_, ["help", topic]) =>
    .error (if ["plan", "check", "help"].contains topic then .info .help else .usage)
  | _ => .error .usage

end Request
end MapPlan.CommandLine
