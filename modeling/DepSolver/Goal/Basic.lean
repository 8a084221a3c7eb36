import DepSolver.Config
import DepSolver.Goal.Actions
import DepSolver.Selector.Entries
import DepSolver.Stored.Testcase

/-!
# Goals

A `Goal` collects requests about the packages of a universe until they are resolved. It remembers
the requests as the entries of a job, what kinds of requests there were, and which packages must
not be removed; after a run also what came of it.

A request by a selector that cannot be used is refused. The refusal leaves no entry, but the kind of
the request is remembered all the same.
-/

namespace DepSolver

/-- Requests about the packages of a universe, and what came of the latest run. -/
structure Goal where
  world : Universe
  /-- The requests, in order. -/
  staged : Job := []
  /-- The kinds of requests so far, and the switches of earlier runs. -/
  actions : GoalActions := {}
  /-- The packages that must not be removed. -/
  protectedSet : PackageSet := .empty
  /-- The protected packages that the latest run would have removed. -/
  removedProtected : PackageSet := .empty
  solution? : Option Solution := none
  transaction? : Option Transaction := none
  /-- The switches that are on in every run. -/
  defaultActions : GoalActions := {}
  allowVendorChange : Bool := true
  /-- The directory into which every run is recorded. -/
  debugDir : Option String := none

namespace Goal

/-- A goal without requests. -/
def ofUniverse (world : Universe) : Goal := { world }

/-- The installed packages that provide one of some relations. -/
def installedProviders (u : Universe) (names : List String) : Except EvrError PackageSet :=
  names.foldlM (fun ids name =>
    match Relation.parse name with
    | .ok r => .ok (ids.insertMany ((u.whatProvides r).filter u.installed.contains))
    | .error e => .error e) .empty

/-- A goal that follows settings. Protected names stand for the installed packages that provide
them. -/
def ofConfig (world : Universe) (c : Config) : Except GoalError Goal := do
  let protectedSet ← (installedProviders world c.protectedNames).mapError GoalError.evr
  return {
    world, protectedSet, allowVendorChange := c.allowVendorChange, debugDir := c.debugDir
    defaultActions := if c.best then .forceBest else .empty }

/-- A copy with the same requests, from which nothing was resolved yet. -/
def fork (g : Goal) : Goal := { g with solution? := none, transaction? := none }

/-! ## Requests -/

/-- Remembers kinds of requests. -/
def note (g : Goal) (actions : GoalActions) : Goal := { g with actions := g.actions ||| actions }

/-- Adds entries to the requests. -/
def stage (g : Goal) (entries : List JobEntry) : Goal := { g with staged := g.staged ++ entries }

/-- Adds the entries of a selector, if it can be used. -/
def stageSelector (g : Goal) (s : Selector) (action : JobAction) (flags : JobFlags) :
    Except GoalError Unit × Goal :=
  match s.entries g.world action flags g.staged with
  | .ok entries => (.ok (), g.stage entries)
  | .error e => (.error (.illFormedSelector e), g)

/-- The modifiers of a request that may be optional. -/
def weakFlag (isOptional : Bool) : JobFlags := if isOptional then .weak else .empty

/-- Of some modifiers, the one that makes sense for an erasure. -/
def cleanFlag (flags : JobFlags) : JobFlags :=
  if flags.contains .cleandeps then .cleandeps else .empty

/-- What a request to install permits. -/
def installActions : GoalActions := .install ||| .allowDowngrade

def install (g : Goal) (id : PackageId) (isOptional : Bool) : Goal :=
  (g.note installActions).stage [.forPackage id .install (weakFlag isOptional)]

def installSelector (g : Goal) (s : Selector) (isOptional : Bool) : Except GoalError Unit × Goal :=
  (g.note installActions).stageSelector s .install (weakFlag isOptional)

def erase (g : Goal) (id : PackageId) (flags : JobFlags) : Goal :=
  (g.note .erase).stage [{ action := .erase, target := .package id, flags := cleanFlag flags }]

def eraseSelector (g : Goal) (s : Selector) (flags : JobFlags) : Except GoalError Unit × Goal :=
  (g.note .erase).stageSelector s .erase (cleanFlag flags)

/-- Asks to upgrade everything. -/
def upgradeAll (g : Goal) : Goal :=
  (g.note .upgradeAll).stage [{ action := .update, target := .all }]

def upgrade (g : Goal) (id : PackageId) : Goal :=
  (g.note .upgrade).stage [.forPackage id .update .empty]

def upgradeSelector (g : Goal) (s : Selector) : Except GoalError Unit × Goal :=
  (g.note .upgrade).stageSelector s .update .empty

/-- Asks to bring everything that is installed in line with the repositories. -/
def distUpgradeAll (g : Goal) : Except GoalError Unit × Goal :=
  (g.note (.distUpgrade ||| .distUpgradeAll)).stageSelector
    { pkgs := some g.world.installed } .distUpgrade .empty

/-- Asks to bring a package in line with the repositories. -/
def distUpgrade (g : Goal) (id : PackageId) : Goal :=
  (g.note .distUpgrade).stage [.forPackage id .distUpgrade .empty]

/-- Asks to bring what a selector stands for in line with the repositories. -/
def distUpgradeSelector (g : Goal) (s : Selector) : Except GoalError Unit × Goal :=
  (g.note .distUpgrade).stageSelector s .distUpgrade .empty

/-- Marks packages as installed because a user wanted them. -/
def userInstalled (g : Goal) (ids : List PackageId) : Goal :=
  g.stage (ids.map fun id => { action := .userInstalled, target := .package id })

/-- Whether some of these kinds of requests were made. -/
def hasActions (g : Goal) (actions : GoalActions) : Bool := g.actions.intersects actions

def addProtected (g : Goal) (ids : PackageSet) : Goal :=
  { g with protectedSet := g.protectedSet.union ids }

/-- Protects exactly these packages. -/
def setProtected (g : Goal) (ids : PackageSet) : Goal := { g with protectedSet := ids }

end Goal

end DepSolver
