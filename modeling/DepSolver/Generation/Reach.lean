import DepSolver.Universe.Basic

/-!
# Walking from package to package

`Universe.reach` lists the packages that can be reached from some start, each once, in breadth-first
order. Every step visits a package that was not visited before, so as many steps as there are
packages suffice, however the packages point at each other.
-/

namespace DepSolver.Universe

/-- Visits up to a number of packages: the first in the queue that was not seen before, and then
those in the queue behind it and those it points to. -/
def visit (u : Universe) (next : PackageId → List PackageId) :
    Nat → PackageSet → List PackageId → List PackageId
  | 0, _, _ => []
  | steps + 1, seen, queue =>
    -- what is passed over takes no step, so the steps are those of packages visited
    match queue.dropWhile fun id => seen.contains id || (u.package? id).isNone with
    | [] => []
    | id :: rest => id :: u.visit next steps (seen.insert id) (rest ++ next id)

/-- The packages reached from a start, in breadth-first order. -/
def reach (u : Universe) (next : PackageId → List PackageId) (start : List PackageId) :
    List PackageId :=
  u.visit next u.packages.size .empty start

end DepSolver.Universe
