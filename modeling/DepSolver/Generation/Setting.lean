import DepSolver.Generation.Context
import DepSolver.Preference

/-!
# The setting in which rules are made

A `Setting` is everything that rules depend on: the packages, the switches, and the job with what it
says about each package.
-/

namespace DepSolver

/-- What rules are made from. -/
structure Setting where
  world : Universe
  flags : SolverFlags
  job : Job
  context : JobContext
  /-- The entries that ask for updates, with their candidates. -/
  updates : List (JobFlags × List PackageId)
  /-- The entries that ask for a distribution upgrade, with their candidates. -/
  distUpgrades : List (JobFlags × List PackageId)

namespace Setting

def ofJob (u : Universe) (flags : SolverFlags) (job : Job) : Setting where
  world := u
  flags
  job
  context := .ofJob u job
  updates := job.candidatesOf u .update
  distUpgrades := job.candidatesOf u .distUpgrade

/-- How far updates let a package move. -/
def updateScope (s : Setting) (id : PackageId) : Scope := .ofEntries s.world s.updates id

/-- How far distribution upgrades let a package move. -/
def distUpgradeScope (s : Setting) (id : PackageId) : Scope :=
  .ofEntries s.world s.distUpgrades id

/-- Whether an update that touches the package insists on the best candidates. -/
def wantsBest (s : Setting) (id : PackageId) : Bool :=
  s.updates.any fun e =>
    e.1.contains .forcebest && (Scope.ofCandidates s.world e.2 id).isTouched

def bestCandidates (s : Setting) (candidates : List PackageId) : List PackageId :=
  s.world.bestCandidates s.flags.bestObeyPolicy candidates

end Setting

end DepSolver
