import DepSolver.Generation.Installed
import DepSolver.Generation.Reach
import DepSolver.Generation.Request
import DepSolver.Rule.Set

/-!
# Rules for packages, and the rules of a job

Requirements, conflicts, shared names and obsoletes become rules for every package that can come
into play: what is installed, the candidates of the rules made so far, and whatever those require
or recommend, step by step.

A dependency that is already broken among the installed packages is not held against them, unless
the job asks for verification.
-/

namespace DepSolver

namespace Setting

/-- Whether dependencies broken among the installed packages are put up with for this package. -/
def toleratesBroken (s : Setting) (id : PackageId) : Bool :=
  s.world.isInstalled id && !s.context.verify

/-- Whether a requirement is broken already and put up with. -/
def isBrokenRequirement (s : Setting) (id : PackageId) (providers : List PackageId) : Bool :=
  s.toleratesBroken id && !providers.any s.world.isInstalled

/-- The requirements of a package that ask for something, each with its providers: those that the
package meets itself and those that are broken already are left out. -/
def liveRequirements (s : Setting) (id : PackageId) (p : Package) :
    List (Relation × List PackageId) :=
  (p.requires.map fun r => (r, s.world.whatProvides r)).filter fun q =>
    !q.2.contains id && !s.isBrokenRequirement id q.2

def requirementRules (s : Setting) (id : PackageId) (p : Package) : List Rule :=
  (s.liveRequirements id p).map fun q =>
    (if q.2.isEmpty then Rule.nothingProvides id else Rule.requires id q.2).withDep q.1.toText

def conflictRules (s : Setting) (id : PackageId) (p : Package) : List Rule :=
  p.conflicts.flatMap fun c =>
    (s.world.whatProvides c).filterMap fun other =>
      if other = id then some ((Rule.selfConflict id).withDep c.toText)
      else if s.toleratesBroken id && s.world.isInstalled other then none
      else some ((Rule.conflict id other).withDep c.toText)

/-- The rules of what a package itself declares. -/
def dependencyRules (s : Setting) (id : PackageId) : List Rule :=
  match s.world.package? id with
  | some p => s.requirementRules id p ++ s.conflictRules id p
  | none => []

/-- The packages that a package brings into play: providers of what it requires and recommends. -/
def reached (s : Setting) (id : PackageId) : List PackageId :=
  match s.world.package? id with
  | some p =>
    (s.liveRequirements id p).flatMap (·.2) ++
      if s.flags.ignoreRecommended then [] else p.recommends.flatMap s.world.whatProvides
  | none => []

/-- Whether two packages of one name exclude each other. Two that are installed already do not,
unless the job asks for verification, and versions kept side by side only if they are the same. -/
def excludesSameName (s : Setting) (a b : PackageId) (p q : Package) : Bool :=
  p.archCompatible q
    && (s.context.verify || !(s.world.isInstalled a && s.world.isInstalled b))
    && (p.sameNevra q || !(s.context.multiversion.contains a || s.context.multiversion.contains b))

/-- The rules between a package and those of its name that come after it. -/
def sameNameRulesOf (s : Setting) (a : PackageId × Package) (later : List (PackageId × Package)) :
    List Rule :=
  (later.filter fun b => b.2.name == a.2.name && s.excludesSameName a.1 b.1 a.2 b.2).map fun b =>
    Rule.sameName a.1 b.1

def sameNameRules (s : Setting) : List (PackageId × Package) → List Rule
  | [] => []
  | a :: later => s.sameNameRulesOf a later ++ s.sameNameRules later

/-- The packages of one name after the other, names in the order in which they are first seen. -/
def groupByName (packages : List (PackageId × Package)) : List (PackageId × Package) :=
  let names := packages.foldl (fun (names : List String) p =>
    if names.contains p.2.name then names else names ++ [p.2.name]) []
  names.flatMap fun name => packages.filter fun p => p.2.name == name

/-- The rules of what a package obsoletes. Installed packages do not obsolete each other. -/
def obsoletesRules (s : Setting) (visited : PackageSet) (id : PackageId) (p : Package) :
    List Rule :=
  let installed := s.world.isInstalled id
  p.obsoletes.flatMap fun o =>
    ((s.world.packagesByName o.name).filter fun other =>
      visited.contains other && other != id && !(installed && s.world.isInstalled other)
        && (s.world.package? other).any fun q => q.name != p.name && o.matchesEvr q.evr).map
      fun other => (Rule.obsoletes id other installed).withDep o.toText

/-- The packages that can come into play, given the rules made so far. -/
def visited (s : Setting) (rules : List Rule) : List PackageId :=
  s.world.reach s.reached <|
    s.world.installedIds ++ rules.flatMap fun r => r.literals.filter (0 < ·)

/-- The rules of all packages that can come into play. -/
def packageRules (s : Setting) (rules : List Rule) : List Rule :=
  let order := s.visited rules
  let visited := PackageSet.ofList order
  let packages := visited.toList.filterMap fun id => (s.world.package? id).map fun p => (id, p)
  order.flatMap s.dependencyRules ++ s.sameNameRules (groupByName packages) ++
    packages.flatMap fun p => s.obsoletesRules visited p.1 p.2

/-- The rules of a job: requests first, then installed packages, then everything that can come into
play. -/
def rules (s : Setting) : List Rule :=
  let requested := s.jobRules ++ s.allInstalledRules
  requested ++ s.packageRules requested

end Setting

end DepSolver
