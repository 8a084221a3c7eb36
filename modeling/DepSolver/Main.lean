import DepSolver.Cli.Run
import DepSolver.Cli.Usage

/-!
# The program

The outer layer: it reads the arguments, the files and the environment that a command asks for, lets
`Command.run` decide, and carries out what that says.
-/

namespace DepSolver.Program

open Cli

/-- Reads what is found at a path. A path that leads through something that is no directory leads
nowhere. -/
def readFile (path : String) : IO FileContent := do
  try
    return .text (← IO.FS.readFile path)
  catch
    | .noFileOrDirectory .. => return .missing
    | .inappropriateType _ _ "not a directory" => return .missing
    | _ => return .unreadable

/-- Reads the variables of all settings that are set. -/
def readEnvironment : IO Environment :=
  (Config.fieldNames.map Environment.variableOf).filterMapM fun name => do
    return (← IO.getEnv name).map fun value => (name, value)

/-- Asks the system for the release of its kernel. -/
def readKernelRelease : IO (Option String) := do
  let content ← readFile "/proc/sys/kernel/osrelease"
  return (content.text?.map fun s => String.ofList (Text.trim s.toList)).filter (· != "")

/-- Finds out what a command may know about the machine. -/
def readSurroundings (c : Command) : IO Surroundings := do
  return {
    files := ← c.files.mapM fun path => return (path, ← readFile path)
    environment := ← readEnvironment
    workingDir := (← IO.currentDir).toString
    kernelRelease := ← readKernelRelease }

/-- Writes the record of a run, and says how that went. -/
def writeDump (d : Goal.Dump) : IO (LogLevel × String) := do
  try
    IO.FS.createDirAll d.path
    IO.FS.writeFile d.filePath d.testcase.toJson.pretty
    return (d.written.type.level, d.written.toText)
  catch e => return (.warn, d.failed.message ++ ": " ++ toString e)

def isWanted (verbosity : Nat) : LogLevel → Bool
  | .warn => true
  | .info => 1 ≤ verbosity
  | .debug => 2 ≤ verbosity

/-- Carries out what comes of a command. -/
def finish (verbosity : Nat) (o : Outcome) : IO UInt32 := do
  let written ← match o.dump with
    | some d => (fun line => [line]) <$> writeDump d
    | none => pure []
  for (level, text) in o.log ++ written do
    if isWanted verbosity level then IO.eprintln ("[" ++ level.toText ++ "] " ++ text)
  for line in o.output do IO.println line
  for line in o.errors do IO.eprintln line
  return o.code

/-- Runs the program with its arguments. -/
def run (args : List String) : IO UInt32 := do
  match Invocation.parse args with
  | .error s => finish 0 s.toOutcome
  | .ok i => finish i.verbosity (i.command.run (← readSurroundings i.command))

end DepSolver.Program

def main (args : List String) : IO UInt32 := DepSolver.Program.run args
