import DepSolver.Generation.Context
import DepSolver.Problem
import DepSolver.Search.Decisions

/-!
# Solutions

A `Solution` is what comes of solving a job: the rules, with those that were given up out of force;
the decisions; and the problems, if there were any. Without problems the job is solved.
-/

namespace DepSolver

/-- Why a package was decided the way it is, in terms of the job. -/
inductive DecisionReason where
  /-- Nothing was decided about the package. -/
  | unrelated
  /-- Nothing else was possible. -/
  | unitRule
  /-- It was installed. -/
  | keepInstalled
  /-- It answers a request. -/
  | resolveJob
  /-- It meets a requirement. -/
  | resolve
  /-- It is recommended. -/
  | weakDep
  /-- Nothing needs it after an erasure. -/
  | cleanDepsErase
deriving DecidableEq, Repr

namespace DecisionReason

def toText : DecisionReason → String
  | unrelated => "unrelated"
  | unitRule => "unit-rule"
  | keepInstalled => "keep-installed"
  | resolveJob => "resolve-job"
  | resolve => "resolve"
  | weakDep => "weak-dep"
  | cleanDepsErase => "cleandeps-erase"

/-- The reason behind a decision, given the class of the rule it refers to. -/
def ofReason : Reason → Option RuleClass → DecisionReason
  | .unit _, some .update | .unit _, some .distUpgrade => keepInstalled
  | .unit _, _ => unitRule
  | .branch _, some .job | .branch _, some .best => resolveJob
  | .branch _, some .update | .branch _, some .distUpgrade => keepInstalled
  | .branch _, _ => resolve
  | .weakDep, _ => weakDep
  | .keep, _ => keepInstalled
  | .cleanDeps, _ => cleanDepsErase

end DecisionReason

/-- What comes of solving a job. -/
structure Solution where
  world : Universe
  flags : SolverFlags
  job : Job
  context : JobContext
  rules : RuleSet
  decisions : Decisions
  problems : List Problem

namespace Solution

def isSolved (s : Solution) : Bool := s.problems.isEmpty

def rule? (s : Solution) (id : PackageId) : Option Rule :=
  ((s.decisions.reason? id).bind Reason.rule?).bind s.rules.get?

def isDecidedByRequest (s : Solution) (id : PackageId) : Bool :=
  (s.rule? id).any fun r => r.toClass == .job || r.toClass == .best

/-- Why a package was decided the way it is, and the number of the rule behind it. -/
def describeDecision (s : Solution) (id : PackageId) : DecisionReason × Option Nat :=
  match s.decisions.reason? id with
  | none => (.unrelated, none)
  | some reason =>
    (.ofReason reason ((reason.rule?.bind s.rules.get?).map Rule.toClass), reason.rule?)

/-- The packages that are present in the end: those decided so, and the installed ones that nothing
was decided about. -/
def kept (s : Solution) : PackageSet :=
  (PackageSet.ofList s.decisions.present).insertMany
    (s.world.installedIds.filter s.decisions.isUndecided)

/-- The lines that explain each problem. -/
def describeProblems (s : Solution) : List (List String) :=
  s.problems.map fun p => p.describe s.world s.rules

end Solution

end DepSolver
