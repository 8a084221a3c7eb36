import DepSolver.Goal.Run

/-!
# What came of a goal

The packages of a resolved goal by what happens to them, why a package takes part, and, for a goal
that could not be resolved, what stands in the way.
-/

namespace DepSolver

/-- Why a package takes part in a result. -/
inductive InstallReason where
  /-- A user asked for it. -/
  | user
  /-- Something needs it. -/
  | dependency
  /-- Nothing needs it any more. -/
  | clean
  /-- Something recommends it. -/
  | weakDependency
deriving DecidableEq, Repr

def InstallReason.toText : InstallReason → String
  | user => "user"
  | dependency => "dependency"
  | clean => "clean"
  | weakDependency => "weak-dependency"

/-- Which packages are listed. -/
inductive PackageState where
  /-- Packages that are not installed, and unlike any installed one. -/
  | available
  | installed
  | all
deriving DecidableEq, Repr

namespace Goal

/-! ## Listings -/

/-- Why there is no transaction to list. -/
def missingTransaction (g : Goal) : GoalError :=
  if g.solution?.isNone then .internal "no solv in the goal"
  else if !g.removedProtected.isEmpty then .removalOfProtectedPackage
  else .noSolutionPossible

/-- The transaction of the latest run. -/
def transaction (g : Goal) : Except GoalError Transaction :=
  match g.transaction? with
  | some t => .ok t
  | none => .error g.missingTransaction

/-- How steps are called in listings. -/
def listingMode : TransactionMode :=
  { active := true, all := true, obsoletes := true, changeIsReinstall := true }

/-- The packages whose steps are called one of some names. -/
def listTypes (g : Goal) (types : List StepType) : Except GoalError (List PackageId) :=
  g.transaction.map fun t => t.ofTypes listingMode types

/-- The packages that come in without taking the place of one of their name. -/
def installs (g : Goal) : Except GoalError (List PackageId) := g.listTypes [.install, .obsoletes]

/-- The packages that take the place of an older one of their name. -/
def upgrades (g : Goal) : Except GoalError (List PackageId) := g.listTypes [.upgrade]

/-- The packages that take the place of a newer one of their name. -/
def downgrades (g : Goal) : Except GoalError (List PackageId) := g.listTypes [.downgrade]

/-- The packages that take the place of one just like them. -/
def reinstalls (g : Goal) : Except GoalError (List PackageId) := g.listTypes [.reinstall]

/-- The installed packages that are removed without anything in their place. -/
def erasures (g : Goal) : Except GoalError (List PackageId) := g.listTypes [.erase]

/-- The installed packages that are replaced by obsoleting. -/
def obsoleted (g : Goal) : Except GoalError (List PackageId) :=
  g.transaction.map fun t => t.ofTypes obsoletesMode [.obsoleted]

/-- The installed packages whose place a package takes. -/
def obsoletedBy (g : Goal) (id : PackageId) : Except GoalError (List PackageId) :=
  g.transaction.map fun t => t.related id

/-- The installed packages that stay although nothing wanted by a user needs them. -/
def unneeded (g : Goal) : Except GoalError PackageSet :=
  match g.solution? with
  | some s => .ok s.unneeded
  | none => .error (.internal "no solv in the goal")

/-- Why a package takes part in the result. -/
def reason (g : Goal) (id : PackageId) : InstallReason :=
  match g.solution? with
  | none => .user
  | some s =>
    match (s.describeDecision id).1 with
    | .resolveJob => .user
    | .unitRule => if s.isDecidedByRequest id then .user else .dependency
    | .cleanDepsErase => .clean
    | .weakDep => .weakDependency
    | .unrelated | .keepInstalled | .resolve => .dependency

/-! ## Problems -/

/-- The packages that the rules of problems speak of, as far as `pick` selects them. -/
def problemPackages (s : Solution) (pick : Rule → List (Option PackageId)) : List PackageId :=
  s.problems.flatMap fun p =>
    (p.rules.filterMap s.rules.get?).flatMap fun r => (pick r).filterMap id

/-- Of some packages, those that are not installed and unlike every installed one of them. -/
def withoutTwins (u : Universe) (ids : List PackageId) : List PackageId :=
  let installed := (ids.filter u.isInstalled).filterMap u.package?
  ids.filter fun id =>
    !u.isInstalled id && (u.package? id).any fun p => !installed.any fun q => q.sameNevra p

/-- The packages of problems in a state, as far as `pick` selects them. -/
def problemSet (g : Goal) (state : PackageState) (pick : Rule → List (Option PackageId)) :
    PackageSet :=
  match g.solution? with
  | none => .empty
  | some s =>
    let found := problemPackages s pick
    .ofList <|
      match state with
      | .all => found
      | .installed => found.filter g.world.isInstalled
      | .available => withoutTwins g.world found

def conflictParties (r : Rule) : List (Option PackageId) :=
  match r.kind with
  | .packageConflict | .packageSameName => [r.source, r.target]
  | .packageSelfConflict => [r.source]
  | _ => []

/-- The package that a rule says cannot have what it requires. -/
def brokenParties (r : Rule) : List (Option PackageId) :=
  match r.kind with
  | .packageNothingProvides | .packageRequires => [r.source]
  | _ => []

def conflicting (g : Goal) (state : PackageState) : PackageSet := g.problemSet state conflictParties

/-- The packages whose requirements cannot be met in some problem. -/
def broken (g : Goal) (state : PackageState) : PackageSet := g.problemSet state brokenParties

/-- The number of problems of the solver; the removal of protected packages counts as one more. -/
def problemCount (g : Goal) : Nat :=
  (match g.solution? with
    | some s => s.problems.length
    | none => 0) + if g.removedProtected.isEmpty then 0 else 1

/-- The protected packages that would be removed or, if there are none, the installed ones whose
requirements are broken, in words. -/
def describeProtected? (g : Goal) : Option String :=
  let ids :=
    if g.removedProtected.isEmpty then (g.broken .installed).inter g.protectedSet
    else g.removedProtected
  if ids.isEmpty then none
  else
    some ("The operation would result in removing the following protected packages: " ++
      ", ".intercalate (g.namesOf ids))

/-- The lines that explain a problem. As long as protected packages are concerned, every problem is
explained by them. -/
def describeProblem (g : Goal) (index : Nat) : Except GoalError (List String) :=
  if g.problemCount ≤ index then
    .error (.internal ("no problem with index " ++ toString index))
  else
    match g.describeProtected?, g.solution? with
    | some line, _ => .ok [line]
    | none, none => .error (.internal "no solv in the goal")
    | none, some s =>
      match s.problems[index]? with
      | some p => .ok (p.describe s.world s.rules)
      | none => .ok []

/-! ## Records -/

/-- The decisions of the latest run, as lines of a log. -/
def decisionLines (g : Goal) : Except GoalError (List String) :=
  match g.solution? with
  | none => .error (.internal "no solver set")
  | some s =>
    .ok <| s.decisions.queue.toList.map fun q =>
      (if 0 < q.1 then "+" else "-") ++ g.world.nevraOrNumber q.1.natAbs ++ " level "
        ++ toString (s.decisions.signedLevel q.1).natAbs ++ " (" ++ q.2.toDebugText ++ ")"

/-- A record of a run that is to be written into a directory. -/
structure Dump where
  path : String
  testcase : Testcase

def Dump.filePath (d : Dump) : String := Text.joinPath d.path Testcase.fileName

/-- What happens once the record has been written. -/
def Dump.written (d : Dump) : GoalEvent := .debugDataWritten d.path

def Dump.failed (d : Dump) : GoalError :=
  .debugData ("failed writing debugdata to " ++ d.path)

/-- The record of the latest run, to be written into a directory that is relative to another. -/
def dump (g : Goal) (workingDir dir : String) : Except GoalError Dump :=
  match g.solution? with
  | none => .error (.internal "no solver set")
  | some s =>
    match Text.absolutePath? workingDir dir with
    | none => .error (.debugData ("failed to make " ++ dir ++ " absolute"))
    | some path => .ok { path, testcase := .ofSolution s }

/-- The record that a run leaves behind, if the goal asks for one. -/
def RunReport.dump? (r : RunReport) (workingDir : String) : Option (Except GoalError Dump) :=
  r.goal.debugDir.map (r.goal.dump workingDir)

end Goal

end DepSolver
