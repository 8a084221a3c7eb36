import DepSolver.Rule.Set
import DepSolver.Universe.Basic

/-!
# Problems

A `Problem` is a set of rules that cannot hold together. It is explained to a user line by line,
from what each of its rules is about.
-/

namespace DepSolver

/-- Rules that cannot hold together, by their numbers. A problem without rules was given up on. -/
structure Problem where
  rules : List Nat := []
deriving DecidableEq, Repr, Inhabited

/-- How a package is named in an explanation. -/
def Universe.nevraOr (u : Universe) (id : Option PackageId) : String :=
  match id.bind u.package? with
  | some p => p.nevra
  | none => "unknown"

/-- What a rule says, in words. -/
def RuleInfo.describe (u : Universe) (info : RuleInfo) : String :=
  let source := u.nevraOr info.source
  let target := u.nevraOr info.target
  let dep := info.dep.getD "unknown"
  match info.kind with
  | .job => "conflicting requests"
  | .jobNothingProvides => "nothing provides requested " ++ dep
  | .jobUnknownPackage => "package " ++ dep ++ " does not exist"
  | .best =>
    if info.source.isSome then "cannot install the best update candidate for package " ++ source
    else "cannot install the best candidate for the job"
  | .update => "problem with installed package " ++ source
  | .distUpgrade => source ++ " does not belong to a distupgrade repository"
  | .packageNothingProvides => "nothing provides " ++ dep ++ " needed by " ++ source
  | .packageRequires =>
    "package " ++ source ++ " requires " ++ dep ++ ", but none of the providers can be installed"
  | .packageSelfConflict =>
    "package " ++ source ++ " conflicts with " ++ dep ++ " provided by itself"
  | .packageConflict =>
    "package " ++ source ++ " conflicts with " ++ dep ++ " provided by " ++ target
  | .packageSameName => "cannot install both " ++ source ++ " and " ++ target
  | .packageObsoletes =>
    "package " ++ source ++ " obsoletes " ++ dep ++ " provided by " ++ target
  | .packageInstalledObsoletes =>
    "installed package " ++ source ++ " obsoletes " ++ dep ++ " provided by " ++ target

/-- The lines without repetition, in the order of their first occurrence. -/
def distinctLines : List String → List String
  | [] => []
  | line :: rest => line :: (distinctLines rest).filter (· != line)

namespace Problem

def isEmpty (p : Problem) : Bool := p.rules.isEmpty

/-- One line for each thing that the rules of a problem say. -/
def describe (u : Universe) (rules : RuleSet) (p : Problem) : List String :=
  distinctLines ((p.rules.filterMap rules.get?).map fun r => r.toRuleInfo.describe u)

/-- The numbers of the rules, as shown to a developer. -/
def toText (p : Problem) : String :=
  "problem [" ++ ", ".intercalate (p.rules.map fun id => "#" ++ toString id) ++ "]"

end Problem

end DepSolver
