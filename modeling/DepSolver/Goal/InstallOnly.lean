import DepSolver.Solution.Basic

/-!
# Limiting install-only packages

Packages that provide an install-only name may be installed in several versions, but not in more
than a limit. When a solution keeps too many of them, and brings a new one in, entries are added to
the job that keep some and erase the others: new packages are kept first, then the running kernel
and what depends on it, then the other installed ones, newest versions first.
-/

namespace DepSolver.Solution

/-- Whether one of the requirements of a package is provided by another. -/
def dependsOn (s : Solution) (id target : PackageId) : Bool :=
  (s.world.package? id).any fun p =>
    p.requires.any fun r => (s.world.whatProvides r).contains target

/-- How much a package is wanted: new ones most, then the running kernel and what depends on it. -/
def keepRank (s : Solution) (id : PackageId) : Nat :=
  if !s.world.isInstalled id then 2
  else if s.world.runningKernel?.any fun kernel => id == kernel || s.dependsOn id kernel then 1
  else 0

/-- The order by name, then by how much a package is wanted, then by version and number. -/
def compareKept (s : Solution) (a b : PackageId) : Ordering :=
  match s.world.package? a, s.world.package? b with
  | some p, some q =>
    (((compare p.name q.name).then (compare (s.keepRank a) (s.keepRank b))).then
      (p.evr.compare q.evr)).then (compare a b)
  | _, _ => compare a b

def sameName (s : Solution) (a b : PackageId) : Bool :=
  (s.world.package? a).map (·.name) == (s.world.package? b).map (·.name)

/-- The entries for the packages of one name, the most wanted ones first: those within the limit are
kept and the others erased, if there are more than the limit. -/
def limitGroup (limit : Nat) (group : List PackageId) : List JobEntry :=
  if group.length ≤ limit then []
  else
    (group.take limit).map (fun id => { action := .install, target := .package id }) ++
      (group.drop limit).map fun id => { action := .erase, target := .package id }

/-- The packages present that provide an install-only name, grouped by their own names. The last
names come first, and of each name the most wanted packages. -/
def installonlyGroups (s : Solution) (kept : List PackageId) : List (List PackageId) :=
  ((sortBy s.compareKept kept).reverse).splitBy s.sameName

/-- The packages present that provide an install-only name. -/
def keptProviders (s : Solution) (name : String) : List PackageId :=
  (s.world.whatProvides (.ofName name)).filter s.decisions.isPresent

/-- Whether packages may all stay: they keep the limit, or none of them comes in. -/
def mayStay (s : Solution) (limit : Nat) (kept : List PackageId) : Bool :=
  kept.length ≤ limit || kept.all s.world.isInstalled

/-- The entries for one install-only name. There are none if no package comes in, or if the limit is
kept. -/
def limitName (s : Solution) (limit : Nat) (name : String) : List JobEntry :=
  let kept := s.keptProviders name
  if s.mayStay limit kept then [] else (s.installonlyGroups kept).flatMap (limitGroup limit)

/-- The entries that bring every install-only name back within the limit. -/
def limitEntries (s : Solution) : List JobEntry :=
  let limit := s.world.installonlyLimit
  if limit = 0 then [] else s.world.installonly.flatMap (s.limitName limit)

/-- Whether what is to be limited can be put in order. -/
def ranksKept (s : Solution) : Bool :=
  let limit := s.world.installonlyLimit
  limit == 0 || s.world.installonly.all fun name =>
    let kept := s.keptProviders name
    s.mayStay limit kept || sorts s.compareKept kept

end DepSolver.Solution
