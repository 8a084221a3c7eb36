import DepSolver.Goal.Basic
import DepSolver.Goal.Event
import DepSolver.Goal.InstallOnly

/-!
# Resolving a goal

`Goal.run` turns the requests into a job and solves it. If the solution keeps too many versions of
an install-only package, the job is extended and solved once more. A transaction that would remove
a protected package is refused, but remains to be looked at. `Goal.run?` is what answers: there is
no report where candidates cannot be put in order.
-/

namespace DepSolver

namespace Goal

/-- The entries that permit the removal of every installed package that is not protected. -/
def uninstallEntries (g : Goal) : List JobEntry :=
  (g.world.installedIds.filter fun id =>
      g.world.isConsidered id && !g.protectedSet.contains id).map
    fun id => { action := .allowUninstall, target := .package id }

/-- The goal with the running kernel protected. -/
def protectKernel (g : Goal) : Goal :=
  match g.world.runningKernel? with
  | some kernel => { g with protectedSet := g.protectedSet.insert kernel }
  | none => g

/-- A request under the switches of a run. -/
def adjustEntry (flags : GoalActions) (e : JobEntry) : JobEntry :=
  let forced := if flags.contains .forceBest then e.flags ||| .forcebest else e.flags
  { e with flags := if flags.contains .ignoreWeak then forced.diff .weak else forced }

/-- The job of a run: the requests, and what the install-only names and the switches add. -/
def effectiveJob (g : Goal) (flags : GoalActions) : Job :=
  g.staged.map (adjustEntry flags)
    ++ g.world.installonly.map (fun name =>
        { action := .multiversion, target := .ofProvide (.ofName name) })
    ++ (if flags.contains .allowUninstall then g.uninstallEntries else [])
    ++ if flags.contains .verify then [{ action := .verify, target := .all }] else []

/-- The switches of the solver in a run. -/
def solverFlags (g : Goal) (flags : GoalActions) : SolverFlags where
  allowDowngrade := g.actions.contains .allowDowngrade
  allowVendorChange := g.allowVendorChange
  keepOrphans := true
  bestObeyPolicy := true
  yumObsoletes := true
  ignoreRecommended := flags.contains .ignoreWeakDeps

def namesOf (g : Goal) (ids : PackageSet) : List String :=
  (ids.toList.filterMap g.world.package?).map (·.name)

/-- How steps are called where replacements by obsoleting matter. -/
def obsoletesMode : TransactionMode := { obsoletes := true, changeIsReinstall := true }

/-- The protected packages that a transaction removes without a package of their name in their
place. -/
def protectedRemovals (g : Goal) (t : Transaction) : PackageSet :=
  (PackageSet.ofList (t.ofTypes obsoletesMode [.erase, .obsoleted])).inter g.protectedSet

/-- The entries that limit install-only packages once a job is solved. -/
def limiting (g : Goal) (flags : SolverFlags) (job : Job) : Job :=
  if (solve g.world flags job).isSolved then (solve g.world flags job).limitEntries else []

/-- The job with the entries that limit it. -/
def limitedJob (g : Goal) (flags : SolverFlags) (job : Job) : Job :=
  job ++ g.limiting flags job ++ g.uninstallEntries

/-- The solution of the job, and of the extended job where install-only packages exceed their limit,
with what happened on the way. -/
def resolve (g : Goal) (flags : SolverFlags) (job : Job) : Solution × List GoalEvent :=
  let limited := g.limiting flags job
  if limited.isEmpty then (solve g.world flags job, [.resolving job.length])
  else
    let extended := g.limitedJob flags job
    (solve g.world flags extended,
      [.resolving job.length,
       .installonlyLimited (limited.countP fun e => e.action == .erase),
       .resolving extended.length])

/-- Whether all candidates can be put in order while the job is resolved. -/
def ranksAll (g : Goal) (flags : SolverFlags) (job : Job) : Bool :=
  let s := solve g.world flags job
  ranksJob g.world flags job && (!s.isSolved || s.ranksKept)
    && ((g.limiting flags job).isEmpty || ranksJob g.world flags (g.limitedJob flags job))

/-- What comes of a run. -/
structure RunReport where
  goal : Goal
  outcome : Except GoalError Unit
  events : List GoalEvent

/-- The report of a run that came to a solution, or to problems. -/
def conclude (g : Goal) (s : Solution) (events : List GoalEvent) : RunReport :=
  let g := { g with solution? := some s }
  if s.isSolved then
    let t := s.transaction
    let removed := g.protectedRemovals t
    let g := { g with removedProtected := removed, transaction? := some t }
    if removed.isEmpty then
      { goal := g, outcome := .ok (), events := events ++ [.resolved t.size] }
    else
      { goal := g, outcome := .error .removalOfProtectedPackage
        events := events ++ [.protectedRemoval (g.namesOf removed)] }
  else
    { goal := g, outcome := .error .noSolutionPossible
      events := events ++ [.unsolvable s.problems.length] }

/-- The goal that a run starts from: every run drops what came of the last one. -/
def ready (g : Goal) (flags : GoalActions) : Goal :=
  protectKernel
    { g.note (flags ||| g.defaultActions) with
      transaction? := none, removedProtected := .empty, solution? := none }

/-- The switches with which a run solves. -/
def runFlags (g : Goal) (flags : GoalActions) : SolverFlags :=
  (g.ready flags).solverFlags (flags ||| g.defaultActions)

/-- The job that a run solves first. -/
def runJob (g : Goal) (flags : GoalActions) : Job :=
  (g.ready flags).effectiveJob (flags ||| g.defaultActions)

/-- What the solves of a run come to: the last solution, and what happened on the way. -/
def resolved (g : Goal) (flags : GoalActions) : Solution × List GoalEvent :=
  (g.ready flags).resolve (g.runFlags flags) (g.runJob flags)

/-- What comes of the requests, where all candidates can be put in order. -/
def run (g : Goal) (flags : GoalActions) : RunReport :=
  (g.ready flags).conclude (g.resolved flags).1 (g.resolved flags).2

/-- Resolves the requests. There is no answer where candidates cannot be put in order: what a sort
does then is left open. -/
def run? (g : Goal) (flags : GoalActions) : Option RunReport :=
  if (g.ready flags).ranksAll (g.runFlags flags) (g.runJob flags) then some (g.run flags) else none

end Goal

end DepSolver
