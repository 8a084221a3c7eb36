import DepSolver.Order.Sort
import DepSolver.PackageSet

/-!
# Rules

A literal is a package that is to be present (a positive number) or absent (a negative one). A
`Rule` is a disjunction of literals: it asks for at least one of them. With the rule goes where it
came from, which is all that the wording of a problem is made of.

The rules that occur have few shapes:

* `[a, b]`: one of the candidates of a request has to be present;
* `[-a]`: a package has to be absent;
* `[-a, b, c]`: if `a` is present, so is one of the providers `b` and `c`;
* `[-a, -b]`: two packages exclude each other;
* `[]`: a request without candidates, which nothing satisfies.
-/

namespace DepSolver

/-- A package to be present, or, negated, to be absent. -/
abbrev Literal := Int

/-- What a rule was made for. -/
inductive RuleKind where
  /-- A request to install or to erase. -/
  | job
  /-- A request that nothing provides. -/
  | jobNothingProvides
  /-- A request for a package that does not exist. -/
  | jobUnknownPackage
  /-- A request, or an update, that only the best candidates satisfy. -/
  | best
  /-- An installed package stays or is replaced. -/
  | update
  /-- An installed package is brought in line with the repositories. -/
  | distUpgrade
  /-- A package needs one of the providers of a requirement. -/
  | packageRequires
  /-- A package needs what nothing provides. -/
  | packageNothingProvides
  /-- A package conflicts with another. -/
  | packageConflict
  /-- A package conflicts with something it provides itself. -/
  | packageSelfConflict
  /-- Two packages of one name exclude each other. -/
  | packageSameName
  /-- A package obsoletes another. -/
  | packageObsoletes
  /-- An installed package obsoletes another. -/
  | packageInstalledObsoletes
deriving DecidableEq, Repr

/-- Families of rule kinds. -/
inductive RuleClass where
  | package
  | update
  | job
  | distUpgrade
  | best
deriving DecidableEq, Repr

def RuleClass.toText : RuleClass → String
  | package => "package"
  | update => "update"
  | job => "job"
  | distUpgrade => "distupgrade"
  | best => "best"

/-- The place of a class in the order in which rules are left out when a set of conflicting rules is
reduced: relations between packages first, requests last. -/
def RuleClass.dropOrder : RuleClass → Nat
  | package => 0
  | update | distUpgrade => 1
  | best => 2
  | job => 3

namespace RuleKind

/-- All kinds, in declaration order. -/
def all : List RuleKind :=
  [job, jobNothingProvides, jobUnknownPackage, best, update, distUpgrade, packageRequires,
   packageNothingProvides, packageConflict, packageSelfConflict, packageSameName, packageObsoletes,
   packageInstalledObsoletes]

def toClass : RuleKind → RuleClass
  | job | jobNothingProvides | jobUnknownPackage => .job
  | best => .best
  | update => .update
  | distUpgrade => .distUpgrade
  | packageRequires | packageNothingProvides | packageConflict | packageSelfConflict
  | packageSameName | packageObsoletes | packageInstalledObsoletes => .package

def toText : RuleKind → String
  | job => "job"
  | jobNothingProvides => "job-nothing-provides"
  | jobUnknownPackage => "job-unknown-package"
  | best => "best"
  | update => "update"
  | distUpgrade => "distupgrade"
  | packageRequires => "requires"
  | packageNothingProvides => "nothing-provides"
  | packageConflict => "conflict"
  | packageSelfConflict => "self-conflict"
  | packageSameName => "same-name"
  | packageObsoletes => "obsoletes"
  | packageInstalledObsoletes => "installed-obsoletes"

def toDebugText : RuleKind → String
  | job => "Job"
  | jobNothingProvides => "JobNothingProvides"
  | jobUnknownPackage => "JobUnknownPackage"
  | best => "Best"
  | update => "Update"
  | distUpgrade => "Distupgrade"
  | packageRequires => "PackageRequires"
  | packageNothingProvides => "PackageNothingProvides"
  | packageConflict => "PackageConflict"
  | packageSelfConflict => "PackageSelfConflict"
  | packageSameName => "PackageSameName"
  | packageObsoletes => "PackageObsoletes"
  | packageInstalledObsoletes => "PackageInstalledObsoletes"

def ofText? (s : String) : Option RuleKind := all.find? fun k => k.toText == s

end RuleKind

/-- What a rule is about, in terms of packages and dependencies. -/
structure RuleInfo where
  kind : RuleKind
  source : Option PackageId := none
  target : Option PackageId := none
  /-- The dependency or request behind the rule, as text. -/
  dep : Option String := none
deriving DecidableEq, Repr

/-- The literals without repetition, in the order of their first occurrence. -/
def Rule.distinct : List Literal → List Literal
  | [] => []
  | l :: rest => l :: (distinct rest).filter (· != l)

theorem Rule.nodup_distinct : ∀ ls : List Literal, (distinct ls).Nodup
  | [] => List.nodup_nil
  | x :: ls => by
      rw [distinct, List.nodup_cons]
      refine ⟨fun h => ?_, (nodup_distinct ls).filter _⟩
      rw [List.mem_filter] at h
      exact absurd h.2 (by simp)

/-- A disjunction of literals and where it came from. -/
structure Rule extends RuleInfo where
  literals : List Literal
  /-- No literal is repeated. -/
  nodup : literals.Nodup
  /-- The number of the rule in its rule set. -/
  id : Nat := 0
  /-- The position of the job entry the rule came from. -/
  job : Option Nat := none
  /-- Whether the rule may be given up when it takes part in a conflict. -/
  weak : Bool := false
  /-- Whether the rule is out of force. -/
  disabled : Bool := false
deriving DecidableEq, Repr

namespace Rule

/-- A rule of some literals; repeated ones are dropped. -/
def make (kind : RuleKind) (literals : List Literal) : Rule :=
  { kind, literals := distinct literals, nodup := nodup_distinct literals }

/-- If the source is present, so is one of the targets. -/
def requires (source : PackageId) (targets : List PackageId) : Rule :=
  { make .packageRequires (-source :: targets) with source := some source }

/-- The source needs what nothing provides, so it has to be absent. -/
def nothingProvides (source : PackageId) : Rule :=
  { make .packageNothingProvides [-source] with source := some source }

/-- Two packages exclude each other. -/
def exclusion (kind : RuleKind) (source target : PackageId) : Rule :=
  { make kind [-source, -target] with source := some source, target := some target }

def conflict (source target : PackageId) : Rule := exclusion .packageConflict source target

/-- The source conflicts with something it provides itself. -/
def selfConflict (source : PackageId) : Rule :=
  { make .packageSelfConflict [-source] with source := some source }

/-- Source and target have one name and take the same place. -/
def sameName (source target : PackageId) : Rule := exclusion .packageSameName source target

/-- The source obsoletes the target. -/
def obsoletes (source target : PackageId) (sourceInstalled : Bool) : Rule :=
  exclusion (if sourceInstalled then .packageInstalledObsoletes else .packageObsoletes)
    source target

/-- The rule with the text of the dependency behind it. -/
def withDep (r : Rule) (dep : String) : Rule := { r with dep := some dep }

/-- Whether the rule is in force. -/
def isEnabled (r : Rule) : Bool := !r.disabled

def toClass (r : Rule) : RuleClass := r.kind.toClass

/-- Whether the rule leaves only one way to satisfy it. -/
def isAssertion (r : Rule) : Bool := r.literals.length == 1

/-- Whether a literal and its negation both occur, so that the rule always holds. -/
def isTautology (r : Rule) : Bool := r.literals.any fun l => r.literals.contains (-l)

/-- The literals in ascending order: the same for rules that differ only in order. -/
def sortedLiterals (r : Rule) : List Literal := sortBy compare r.literals

def sameLiterals (r s : Rule) : Bool := r.sortedLiterals == s.sortedLiterals

def signedText (l : Literal) : String := if 0 < l then "+" ++ toString l else toString l

def toText (r : Rule) : String :=
  "(" ++ r.kind.toText ++ ") [" ++ " | ".intercalate (r.literals.map signedText) ++ "]"

def toDebugText (r : Rule) : String :=
  "Rule(" ++ r.kind.toDebugText ++ ", [" ++ ", ".intercalate (r.literals.map toString) ++ "])"

end Rule

end DepSolver
