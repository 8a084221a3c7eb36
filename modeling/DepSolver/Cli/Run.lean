import DepSolver.Cli.Command
import DepSolver.Cli.Listing
import DepSolver.Cli.Outcome
import DepSolver.Cli.Spec

/-!
# Running commands

`Command.run` carries out a command, given what it may know about the machine. A command that finds
what it looks for, or a solution, ends with the code 0; one that fails, or finds nothing, with 1.
Where candidates cannot be put in order a command breaks off.
-/

namespace DepSolver.Cli

open Attempt

def loadWorld (path : String) (s : Surroundings) : Attempt Universe :=
  within ("Failed to load universe " ++ path) (Universe.ofFile path (s.file path))

namespace SolveArgs

def switches (args : SolveArgs) : GoalActions :=
  (if args.best then .forceBest else .empty)
    ||| (if args.allowErasing then .allowUninstall else .empty)
    ||| (if args.noRecommends then .ignoreWeakDeps else .empty)
    ||| if args.verify then .verify else .empty

/-- The settings of the run. -/
def config (args : SolveArgs) (s : Surroundings) : Attempt Config := do
  let env := if args.noEnvironment then [] else s.environment
  let c ← within "Failed to load configuration"
    (Config.load args.configPath (s.file args.configPath) env)
  return { c with debugDir := args.debugDir.or c.debugDir }

/-- The universe with the settings applied. What a universe says itself about install-only names
goes before the settings. -/
def prepare (c : Config) (kernel : Option String) (u : Universe) : Universe :=
  if u.installonly.isEmpty then c.apply kernel u
  else if u.kernelRelease.isNone then u.setKernelRelease (c.kernelRelease.or kernel)
  else u

/-- Makes one request after the other, each for what a spec stands for. -/
def stageSpecs (kind : String) (request : Goal → Selector → Except GoalError Unit × Goal) (g : Goal)
    (specs : List String) : Attempt Goal :=
  specs.foldlM (fun g spec => do
    let selector ← plainly ((Spec.selector g.world spec).mapError GoalError.illFormedSelector)
    let (result, g) := request g selector
    within ("Invalid " ++ kind ++ " spec " ++ spec) result
    return g) g

/-- Makes the requests. -/
def stage (args : SolveArgs) (c : Config) (g : Goal) : Attempt Goal := do
  let g ← stageSpecs "install" (fun g s => g.installSelector s false) g args.install
  let g ← stageSpecs "install" (fun g s => g.installSelector s true) g args.installOptional
  let g ← stageSpecs "erase" (fun g s => g.eraseSelector s c.eraseFlags) g args.erase
  let g ← stageSpecs "upgrade" Goal.upgradeSelector g args.upgrade
  let g := if args.upgradeAll then g.upgradeAll else g
  if args.distUpgrade then
    let (result, g) := g.distUpgradeAll
    plainly result
    return g
  else return g

def runLog (staged : Nat) (r : Goal.RunReport) : List (LogLevel × String) :=
  (.info, "Resolving " ++ toString staged ++ " staged job entries") ::
    r.events.map fun e => (e.type.level, e.toText)

/-- What is printed after a run, and the code. -/
def conclude (args : SolveArgs) (r : Goal.RunReport) : Attempt Outcome :=
  match r.outcome with
  | .ok _ => do
    let report ← plainly (Report.ofGoal r.goal)
    let lines := if args.json then [report.toJson.pretty] else report.toLines
    let decisions ← plainly r.goal.decisionLines
    return {
      output := lines ++ (args.debugDir.map ("Debug data written to " ++ ·)).toList
      log := decisions.map fun line => (.debug, line) }
  | .error .noSolutionPossible | .error .removalOfProtectedPackage => do
    let count := r.goal.problemCount
    let problems ← plainly ((List.range count).mapM r.goal.describeProblem)
    return {
      code := 1
      errors := ("Error: " ++ toString count ++ " problem(s) found") :: numberedProblems problems }
  | .error cause => .error { cause }

/-- Resolves the requests. -/
def run (args : SolveArgs) (s : Surroundings) : Attempt Outcome := do
  let u ← loadWorld args.world s
  let c ← args.config s
  let g ← plainly (Goal.ofConfig (prepare c s.kernelRelease u) c)
  let g ← args.stage c g
  match g.run? args.switches with
  | none => return .brokenOff
  | some r =>
    let log := runLog g.staged.length r
    let outcome ← args.conclude r
    match r.dump? s.workingDir with
    | none => return { outcome with log := log ++ outcome.log }
    | some (.ok dump) => return { outcome with log := log ++ outcome.log, dump }
    | some (.error e) => return { outcome with log := log ++ (.warn, e.message) :: outcome.log }

end SolveArgs

/-- Lists the packages that a spec stands for. -/
def QueryArgs.run (args : QueryArgs) (s : Surroundings) : Attempt Outcome := do
  let u ← loadWorld args.world s
  let selector ← plainly ((Spec.selector u args.spec).mapError GoalError.illFormedSelector)
  let found ← within ("Invalid spec " ++ args.spec)
    ((selector.matching u).mapError GoalError.illFormedSelector)
  let entries :=
    (found.toList.filter fun id => !args.installed || u.isInstalled id).map (Entry.ofPackage u)
  return {
    code := if entries.isEmpty then 1 else 0
    output :=
      if args.json then [(Json.list (entries.map Entry.toJson)).pretty]
      else entries.map Entry.toLine
    errors :=
      if entries.isEmpty && !args.json then ["Warning: No package matches " ++ args.spec] else [] }

/-- The steps and problems of a solution, as lines. -/
def solutionLines (s : Solution) : List String :=
  (s.result.transaction.map fun step => "  " ++ step.step.toText ++ " " ++ step.package)
    ++ numberedProblems s.result.problems

/-- Compares what came of a repeated run with what the record says about it. -/
def compareResult (recorded : Option RunResult) (s : Solution) : Outcome :=
  match recorded with
  | none => { code := if s.isSolved then 0 else 1 }
  | some r =>
    if r = s.result then { output := ["Result matches the recorded one."] }
    else { code := 1, output := ["Result differs from the recorded one."] }

def repeatRun (dir : String) (s : Surroundings) : Attempt Outcome := do
  let t ← within ("Failed to read testcase from " ++ dir)
    (Testcase.ofFile (s.file (Text.joinPath dir Testcase.fileName)))
  let u ← plainly t.toUniverse
  let job ← plainly (t.toJob u)
  match solve? u t.flags job with
  | none => return .brokenOff
  | some solution =>
    let outcome := compareResult t.result solution
    return { outcome with output := solutionLines solution ++ outcome.output }

/-- Carries out a command. -/
def Command.run (c : Command) (s : Surroundings) : Outcome :=
  let attempt :=
    match c with
    | .solve args => args.run s
    | .query args => args.run s
    | .replay dir => repeatRun dir s
  match attempt with
  | .ok outcome => outcome
  | .error f => f.toOutcome

end DepSolver.Cli
