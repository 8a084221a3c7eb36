import DepSolver.Generation.Reach
import DepSolver.Solution.Basic

/-!
# Packages that nothing needs any more

Erasing a package may leave behind what it had pulled in. `Solution.cleanUp` erases such packages
along with it; `Solution.unneeded` only lists the packages that nothing wanted by a user leads to.
-/

namespace DepSolver.Solution

/-- Whether a package provides a requirement of one of some packages. -/
def isRequiredByAny (s : Solution) (id : PackageId) (packages : List PackageId) : Bool :=
  (packages.filterMap s.world.package?).any fun p =>
    p.requires.any fun r => (s.world.whatProvides r).contains id

/-- Whether a package is the only provider present of a requirement of another package. What the
other package provides itself does not count. -/
def isNeededBy (s : Solution) (id other : PackageId) (p : Package) : Bool :=
  p.requires.any fun r =>
    let providers := s.world.whatProvides r
    -- `id` meets the requirement, and no third package does
    providers.contains id &&
      !providers.any fun q => q != id && q != other && s.decisions.isPresent q

/-- Whether one of some other packages needs a package. -/
def isNeededByAny (s : Solution) (id : PackageId) (packages : List PackageId) : Bool :=
  packages.any fun other =>
    other != id && (s.world.package? other).any fun p => s.isNeededBy id other p

/-- Whether a package may be erased after the packages already erased: it was installed, no user
wants it, one of the erased packages required it, and no package present needs it. -/
def isLeftBehind (s : Solution) (erased : PackageSet) (id : PackageId) : Bool :=
  s.world.isInstalled id && !s.context.userInstalled.contains id && !s.isDecidedByRequest id
    && s.isRequiredByAny id erased.toList && !s.isNeededByAny id s.decisions.present

/-- Erases up to a number of packages left behind. -/
def eraseLeftBehind : Nat → PackageSet → Solution → Solution
  | 0, _, s => s
  | left + 1, erased, s =>
    match s.decisions.present.find? (s.isLeftBehind erased) with
    | none => s
    | some id =>
      eraseLeftBehind left (erased.insert id)
        { s with decisions := s.decisions.override (-id) .cleanDeps }

/-- Erases what the erased packages of the job leave behind. Every step erases a package that was
present, so there are no more steps than packages present. -/
def cleanUp (s : Solution) : Solution :=
  if s.context.cleandeps.isEmpty then s
  else eraseLeftBehind s.decisions.present.length s.context.cleandeps s

/-- The packages present that a package requires or recommends. -/
def leadsTo (s : Solution) (id : PackageId) : List PackageId :=
  match s.world.package? id with
  | some p =>
    ((p.requires ++ p.recommends).flatMap s.world.whatProvides).filter s.decisions.isPresent
  | none => []

/-- The installed packages present that no package wanted by a user or asked for leads to. -/
def unneeded (s : Solution) : PackageSet :=
  let present := s.decisions.present
  let wanted := present.filter fun id =>
    s.context.userInstalled.contains id || s.isDecidedByRequest id
  let reached := PackageSet.ofList (s.world.reach s.leadsTo wanted)
  PackageSet.ofList (present.filter fun id => s.world.isInstalled id && !reached.contains id)

end DepSolver.Solution
