import MapPlan.CommandLine.Arguments
import MapPlan.Manifest.Compile
import MapPlan.Manifest.Reader
import MapPlan.Plan.Settings

/-! # Verdicts

What comes of a request, given the texts of files: the report, or the first step that fails. -/

namespace MapPlan.CommandLine

/-- Why a file gives no text. -/
inductive FileError where
  | missing
  | denied
  /-- The path goes through something that is no directory. -/
  | notDirectory
  | isDirectory
  /-- The bytes of the file are no UTF-8. -/
  | notText
  | other (message : String)
deriving DecidableEq, Repr

def FileError.message : FileError → String
  | missing => "No such file or directory (os error 2)"
  | denied => "Permission denied (os error 13)"
  | notDirectory => "Not a directory (os error 20)"
  | isDirectory => "Is a directory (os error 21)"
  | notText => "stream did not contain valid UTF-8"
  | other message => message

/-- The text at a path, or why there is none. -/
abbrev Files := String → Except FileError String

inductive Format where
  | yaml
  | json
deriving DecidableEq, Repr

inductive Failure where
  | unsupportedFormat (path : String)
  | unreadable (path : String) (cause : FileError)
  | malformedManifest (format : Format)
  | settings (cause : SettingsError)
  | manifest (path : String) (cause : ManifestError)
deriving DecidableEq, Repr

/-- A cause is told with what it causes, and once more by itself where a file cannot be read. -/
def Failure.message : Failure → String
  | unsupportedFormat path =>
    "unsupported manifest format: " ++ path ++ " (expected .yaml, .yml or .json)"
  | unreadable path cause =>
    "cannot read " ++ path ++ ": " ++ cause.message ++ ": " ++ cause.message
  | malformedManifest .yaml => "invalid YAML manifest"
  | malformedManifest .json => "invalid JSON manifest"
  | settings .malformed => "invalid engine config: TOML"
  | settings (.invalid cause) => cause.message
  | manifest path cause => "cannot compile " ++ path ++ ": " ++ cause.message

/-! ## Paths -/

/-- The last name in a path. Slashes at its end do not count, nor do names that stand for the
directory itself. -/
def fileName? (path : String) : Option (List Char) :=
  (path.toList.splitOn '/').reverse.find? fun name => name ≠ [] && name ≠ ['.']

/-- What stands behind the last dot of a name, unless nothing stands before it. -/
def extension? (name : List Char) : Option (List Char) :=
  let back := name.reverse
  match back.dropWhile (· ≠ '.') with
  | _ :: _ :: _ => if name = ['.', '.'] then none else some (back.takeWhile (· ≠ '.')).reverse
  | _ => none

/-- The format of a manifest by the extension of its file, in letters of either case. -/
def Format.ofPath? (path : String) : Option Format := do
  let ext ← extension? (← fileName? path)
  match String.ofList (ext.map Char.toLower) with
  | "yaml" | "yml" => some .yaml
  | "json" => some .json
  | _ => none

/-! ## Steps -/

def read (files : Files) (path : String) : Except Failure String :=
  (files path).mapError (.unreadable path)

def Format.manifest? : Format → String → Option Manifest
  | yaml => Manifest.ofYaml?
  | json => Manifest.ofJson?

/-- A manifest that does not name its origin has its path for one. -/
def loadManifest (files : Files) (path : String) : Except Failure Manifest :=
  match Format.ofPath? path with
  | none => .error (.unsupportedFormat path)
  | some format => do
    match format.manifest? (← read files path) with
    | none => .error (.malformedManifest format)
    | some m => .ok { m with origin := some (m.origin.getD path) }

def loadOptions (files : Files) : Option String → Except Failure Options
  | none => .ok {}
  | some path => do (Options.ofText (← read files path)).mapError .settings

namespace Request

def compile (files : Files) (r : Request) : Except Failure PassOutput := do
  let m ← loadManifest files r.manifest
  let o ← loadOptions files r.config
  (m.compile o).mapError (.manifest r.manifest)

end Request

/-! ## Verdicts -/

structure Verdict where
  exitCode : Nat
  output : String
  failure : Option Failure := none
deriving DecidableEq, Repr

/-- Errors among the diagnostics show in the code of a report on diagnostics only. -/
def Verdict.ofOutput (r : Request) (o : PassOutput) : Verdict where
  exitCode := if r.report = .diagnostics && o.hasErrors then 1 else 0
  output := r.report.render r.json o

def Request.verdict (files : Files) (r : Request) : Verdict :=
  match r.compile files with
  | .ok output => .ofOutput r output
  | .error failure => ⟨2, "", some failure⟩

end MapPlan.CommandLine
