import DepSolver.Goal.Report

/-!
# Outcomes

Running a command has no effects of its own. It is given what it may know about the machine and says
what is to be printed, logged and written, and with which code the program ends.
-/

namespace DepSolver.Cli

/-- What a command knows about the machine that it runs on. -/
structure Surroundings where
  /-- What is found at paths that matter. -/
  files : List (String × FileContent) := []
  environment : Environment := []
  /-- The directory that paths are relative to. -/
  workingDir : String
  /-- The release of the running kernel, as far as it is known. -/
  kernelRelease : Option String := none

def Surroundings.file (s : Surroundings) (path : String) : FileContent :=
  (s.files.lookup path).getD .missing

/-- What comes of a command. -/
structure Outcome where
  code : UInt32 := 0
  /-- The lines of the output. -/
  output : List String := []
  /-- The lines for standard error. -/
  errors : List String := []
  /-- The lines of the log, with their levels. -/
  log : List (LogLevel × String) := []
  /-- A record that is to be written before anything is printed. -/
  dump : Option Goal.Dump := none

/-- The end of a command that breaks off. -/
def Outcome.brokenOff : Outcome := { code := 101 }

/-- An error, and what was being done when it arose. -/
structure Failure where
  context : Option String := none
  cause : GoalError

namespace Failure

/-- The error with everything behind it, the outermost statement first. -/
def statements (f : Failure) : List String := f.context.toList ++ f.cause.message :: f.cause.causes

def toLines (f : Failure) : List String :=
  match f.statements with
  | [] => []
  | first :: rest => ("Error: " ++ first) :: rest.map ("  Caused by: " ++ ·)

/-- The end of a command that failed. -/
def toOutcome (f : Failure) : Outcome := { code := 1, errors := f.toLines }

end Failure

/-- The result of a step of a command. -/
abbrev Attempt (α : Type) := Except Failure α

namespace Attempt

/-- A step about which nothing needs to be said if it fails. -/
def plainly {α : Type} (r : Except GoalError α) : Attempt α := r.mapError fun cause => { cause }

/-- A step about which something is said if it fails. -/
def within {α : Type} (context : String) (r : Except GoalError α) : Attempt α :=
  r.mapError fun cause => { context, cause }

end Attempt

end DepSolver.Cli
