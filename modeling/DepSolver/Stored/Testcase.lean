import DepSolver.Solution.Solve
import DepSolver.Stored.Universe
import DepSolver.Transaction

/-!
# Recorded runs

A `Testcase` records one run of the solver: the universe, the job, the flags, and what came of it.
Packages are named by their keys, not by their numbers, so that a record stays good when its
universe is loaded afresh. `Testcase.ofSolution` makes a record, and `toUniverse` and `toJob` read
it back, so that the run can be repeated.
-/

namespace DepSolver

/-- What a job entry applies to, with packages named by their keys. -/
inductive StoredTarget where
  | package (key : String)
  | oneOf (keys : List String)
  | name (relation : String) (arch : Option String)
  | provides (relation : String) (arch : Option String)
  | repo (name : String)
  | all
deriving DecidableEq, Repr

/-- A job entry as a file describes it. -/
structure StoredEntry where
  action : JobAction
  target : StoredTarget
  /-- The names of the entry's flags. -/
  flags : List String := []
deriving DecidableEq, Repr

/-- A step of a transaction as a file describes it. -/
structure StoredStep where
  package : String
  step : StepType
deriving DecidableEq, Repr

/-- What came of a run: the steps of its transaction, or the lines that explain each problem. -/
structure RunResult where
  transaction : List StoredStep := []
  problems : List (List String) := []
deriving DecidableEq, Repr

/-- A recorded run. -/
structure Testcase where
  world : StoredUniverse
  job : List StoredEntry
  flags : SolverFlags := {}
  result : Option RunResult := none
deriving DecidableEq, Repr

/-! ## Reading and writing JSON -/

namespace StoredTarget

/-- A text with the architecture that may stand beside it. -/
def withArch? (make : String → Option String → StoredTarget) (j : Json) : Option StoredTarget := do
  let r ← Record.ofJson? ["relation", "arch"] j
  return make (← r.required? "relation" Json.text?)
    (← r.optional? "arch" (Json.nullable? Json.text?) none)

/-- Reads what is said about a target beside its kind. -/
def ofKind? (kind : String) (j : Json) : Option StoredTarget :=
  match kind with
  | "solvable" => do
    let r ← Record.ofJson? ["package"] j
    return package (← r.required? "package" Json.text?)
  | "one-of" => do
    let r ← Record.ofJson? ["packages"] j
    return oneOf (← r.required? "packages" Json.textList?)
  | "name" => withArch? name j
  | "provides" => withArch? provides j
  | "repo" => do
    let r ← Record.ofJson? ["name"] j
    return repo (← r.required? "name" Json.text?)
  | "all" =>
    match j with
    | .object _ | .list [] => some all
    | _ => none
  | _ => none

/-- How deep a target may be nested. It stands in an entry in the list of a job in a testcase. -/
def maxDepth : Nat := Json.maxDepth - 3

/-- Reads a target: an object with a field `kind`, or a list that starts with the kind. -/
def ofJson? (j : Json) : Option StoredTarget :=
  if j.isSound maxDepth then
    match j with
    | .object fields =>
      match fields.filter fun f => f.1 == "kind" with
      | [(_, .text kind)] => ofKind? kind (.object (fields.filter fun f => f.1 != "kind"))
      | _ => none
    | .list (.text kind :: rest) => ofKind? kind (.list rest)
    | _ => none
  else none

def relationFields (relation : String) (arch : Option String) : List (String × Json) :=
  ("relation", .text relation) :: Json.fieldUnless arch.isNone "arch" (.ofOption .text arch)

def toJson : StoredTarget → Json
  | package key => .object [("kind", .text "solvable"), ("package", .text key)]
  | oneOf keys => .object [("kind", .text "one-of"), ("packages", .texts keys)]
  | name relation arch => .object (("kind", .text "name") :: relationFields relation arch)
  | provides relation arch => .object (("kind", .text "provides") :: relationFields relation arch)
  | repo wanted => .object [("kind", .text "repo"), ("name", .text wanted)]
  | all => .object [("kind", .text "all")]

end StoredTarget

namespace StoredEntry

def ofJson? (j : Json) : Option StoredEntry := do
  let r ← Record.ofJson? ["action", "target", "flags"] j
  return {
    action := ← r.required? "action" (Json.oneOf? JobAction.ofKey?)
    target := ← r.required? "target" StoredTarget.ofJson?
    flags := ← r.optional? "flags" Json.textList? [] }

def toJson (e : StoredEntry) : Json :=
  .object <|
    [("action", .text e.action.key), ("target", e.target.toJson)]
      ++ StoredPackage.listField "flags" e.flags

end StoredEntry

namespace SolverFlags

/-- The switches by name, in order. -/
def named (f : SolverFlags) : List (String × Bool) :=
  [("allow-downgrade", f.allowDowngrade), ("allow-vendorchange", f.allowVendorChange),
   ("keep-orphans", f.keepOrphans), ("best-obey-policy", f.bestObeyPolicy),
   ("yum-obsoletes", f.yumObsoletes), ("ignore-recommended", f.ignoreRecommended)]

/-- Reads the switches. One that is not mentioned is off. -/
def ofJson? (j : Json) : Option SolverFlags := do
  let r ← Record.ofJson? ((named {}).map (·.1)) j
  return {
    allowDowngrade := ← r.optional? "allow-downgrade" Json.bool? false
    allowVendorChange := ← r.optional? "allow-vendorchange" Json.bool? false
    keepOrphans := ← r.optional? "keep-orphans" Json.bool? false
    bestObeyPolicy := ← r.optional? "best-obey-policy" Json.bool? false
    yumObsoletes := ← r.optional? "yum-obsoletes" Json.bool? false
    ignoreRecommended := ← r.optional? "ignore-recommended" Json.bool? false }

def toJson (f : SolverFlags) : Json := .object (f.named.map fun p => (p.1, .bool p.2))

end SolverFlags

namespace RunResult

def stepOfJson? (j : Json) : Option StoredStep := do
  let r ← Record.ofJson? ["package", "step"] j
  return {
    package := ← r.required? "package" Json.text?
    step := ← r.required? "step" (Json.oneOf? StepType.ofText?) }

def ofJson? (j : Json) : Option RunResult := do
  let r ← Record.ofJson? ["transaction", "problems"] j
  return {
    transaction := ← r.optional? "transaction" (Json.listOf? stepOfJson?) []
    problems := ← r.optional? "problems" (Json.listOf? Json.textList?) [] }

def toJson (r : RunResult) : Json :=
  .object
    [("transaction",
      .list (r.transaction.map fun s =>
        .object [("package", .text s.package), ("step", .text s.step.toText)])),
     ("problems", .list (r.problems.map Json.texts))]

end RunResult

namespace Testcase

def fileName : String := "testcase.json"

def ofJson? (j : Json) : Option Testcase := do
  let r ← Record.ofJson? ["universe", "job", "flags", "result"] j
  return {
    world := ← r.required? "universe" StoredUniverse.ofJson?
    job := ← r.required? "job" (Json.listOf? StoredEntry.ofJson?)
    flags := ← r.optional? "flags" SolverFlags.ofJson? {}
    result := ← r.optional? "result" (Json.nullable? RunResult.ofJson?) none }

def toJson (t : Testcase) : Json :=
  .object <|
    [("universe", t.world.toJson), ("job", .list (t.job.map StoredEntry.toJson)),
     ("flags", t.flags.toJson)]
      ++ Json.fieldUnless t.result.isNone "result" (.ofOption RunResult.toJson t.result)

/-- Reads the text of a record. -/
def parse (s : String) : Except GoalError Testcase :=
  match (Json.parse? s).bind ofJson? with
  | some t => .ok t
  | none => .error .json

def ofFile (content : FileContent) : Except GoalError Testcase :=
  match content.text? with
  | some s => parse s
  | none => .error .io

end Testcase

/-! ## Recording and repeating runs -/

namespace Universe

/-- The key of a package, or its number if it has no key. -/
def keyOrNumber (u : Universe) (id : PackageId) : String :=
  (u.packageKey? id).getD ("#" ++ toString id)

def findKey (u : Universe) (key : String) : Except GoalError PackageId :=
  match u.findKey? key with
  | some id => .ok id
  | none => .error (.unknownPackage key)

end Universe

namespace JobTarget

def toStored (u : Universe) : JobTarget → StoredTarget
  | .package id => .package (u.keyOrNumber id)
  | .oneOf packages => .oneOf (packages.toList.map u.keyOrNumber)
  | .name relation arch => .name relation.toText arch
  | .provides relation arch => .provides relation.toText arch
  | .repo wanted => .repo wanted
  | .all => .all

def ofStored (u : Universe) : StoredTarget → Except GoalError JobTarget
  | .package key => (u.findKey key).map .package
  | .oneOf keys => (u.findKeys keys).map .oneOf
  | .name relation arch =>
    match Relation.parse relation with
    | .ok relation => .ok (.name relation arch)
    | .error e => .error (.evr e)
  | .provides relation arch =>
    match Relation.parse relation with
    | .ok relation => .ok (.provides relation arch)
    | .error e => .error (.evr e)
  | .repo wanted => .ok (.repo wanted)
  | .all => .ok .all

end JobTarget

def JobFlags.ofNames (names : List String) : Except GoalError JobFlags :=
  names.foldlM (fun flags name =>
    match JobFlags.ofName? name with
    | some flag => .ok (flags ||| flag)
    | none => .error (.config ("unknown job flag " ++ name))) .empty

namespace JobEntry

def toStored (u : Universe) (e : JobEntry) : StoredEntry :=
  { action := e.action, target := e.target.toStored u, flags := e.flags.names }

def ofStored (u : Universe) (s : StoredEntry) : Except GoalError JobEntry := do
  let flags ← JobFlags.ofNames s.flags
  return { action := s.action, target := ← JobTarget.ofStored u s.target, flags }

end JobEntry

namespace Solution

def transaction (s : Solution) : Transaction :=
  .ofKept s.world s.kept s.context.multiversion

/-- What came of a run, for its record. Of replacements, the packages that come in are listed. -/
def result (s : Solution) : RunResult where
  transaction :=
    if s.isSolved then
      s.transaction.steps.filterMap fun step =>
        let type := step.kind.type { active := true }
        if type = .ignore then none
        else (s.world.packageKey? step.id).map fun package => { package, step := type }
    else []
  problems := s.describeProblems

end Solution

namespace Testcase

/-- The record of a run. -/
def ofSolution (s : Solution) : Testcase where
  world := s.world.toStored
  job := s.job.map (JobEntry.toStored s.world)
  flags := s.flags
  result := some s.result

def toUniverse (t : Testcase) : Except GoalError Universe := Universe.ofStored t.world

/-- The job of a record, in the universe of the record. -/
def toJob (t : Testcase) (u : Universe) : Except GoalError Job := t.job.mapM (JobEntry.ofStored u)

end Testcase

end DepSolver
