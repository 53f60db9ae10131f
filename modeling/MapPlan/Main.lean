import MapPlan.CommandLine.Verdict

/-! # The program

Reads the files that a request names, and prints what comes of it. -/

namespace MapPlan.CommandLine

def helpText : String :=
  Text.lines
    ["Compile field mapping manifests into resolution plans",
     "",
     "Usage: fieldmap [OPTIONS] <plan|check> [OPTIONS] <MANIFEST>",
     "",
     "  plan                      Print the plan of every mapping",
     "  check                     Print diagnostics, fail when any is an error",
     "",
     "  --config <FILE>           Engine configuration (TOML)",
     "  --json                    Output as JSON",
     "  -v, --verbose             More logging",
     "  --log-format <text|json>  Log line format",
     "  -h, --help                Print help",
     "  -V, --version             Print version"]

/-- Error numbers of the system, some of which come with their sign turned. -/
def errorNumber (code : UInt32) : Nat :=
  if code < 0x80000000 then code.toNat else (0 - code).toNat

def fileError : IO.Error → FileError
  | .noFileOrDirectory .. => .missing
  | .permissionDenied .. => .denied
  | .inappropriateType _ code _ =>
    if errorNumber code = 21 then .isDirectory else .notDirectory
  | e => .other e.toString

def readText (path : String) : IO (Except FileError String) := do
  match ← (IO.FS.readBinFile path).toBaseIO with
  | .error e => return .error (fileError e)
  | .ok bytes => return (String.fromUTF8? bytes).elim (.error .notText) .ok

/-- The files that a request names. -/
def filesOf (r : Request) : IO Files := do
  let texts ← (r.manifest :: r.config.toList).mapM fun path => do
    return (path, ← readText path)
  return fun path => (texts.lookup path).getD (.error .missing)

def perform (r : Request) : IO UInt32 := do
  let v := r.verdict (← filesOf r)
  IO.print v.output
  if let some failure := v.failure then
    IO.eprintln ("error: " ++ failure.message)
  return v.exitCode.toUInt32

end MapPlan.CommandLine

open MapPlan CommandLine

def main (args : List String) : IO UInt32 := do
  match Request.ofArguments args with
  | .ok r => perform r
  | .error .usage =>
    IO.eprint helpText
    return 2
  | .error (.info .help) =>
    IO.print helpText
    return 0
  | .error (.info .version) =>
    IO.println versionText
    return 0
