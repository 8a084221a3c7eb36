import DepSolver.Universe.Basic

/-!
# Jobs

A job is the ordered list of instructions handed to the solver. Each entry says what to do, to which
packages, and with which modifiers. A target is a description of packages; which packages it stands
for is decided by a universe.
-/

namespace DepSolver

/-- What a job entry asks for. -/
inductive JobAction where
  | install
  | erase
  | update
  | distUpgrade
  | verify
  | allowUninstall
  | userInstalled
  | multiversion
deriving DecidableEq, Repr

namespace JobAction

/-- All actions, in declaration order. -/
def all : List JobAction :=
  [install, erase, update, distUpgrade, verify, allowUninstall, userInstalled, multiversion]

def toText : JobAction → String
  | install => "install"
  | erase => "erase"
  | update => "update"
  | distUpgrade => "distupgrade"
  | verify => "verify"
  | allowUninstall => "allowuninstall"
  | userInstalled => "userinstalled"
  | multiversion => "multiversion"

/-- The name of an action with hyphens between its words, as it stands in files. -/
def key : JobAction → String
  | install => "install"
  | erase => "erase"
  | update => "update"
  | distUpgrade => "dist-upgrade"
  | verify => "verify"
  | allowUninstall => "allow-uninstall"
  | userInstalled => "user-installed"
  | multiversion => "multiversion"

/-- The action of a hyphenated name. -/
def ofKey? (s : String) : Option JobAction := all.find? fun a => a.key == s

end JobAction

/-- The modifiers of a job entry, one bit each. -/
structure JobFlags where
  bits : UInt32 := 0
deriving DecidableEq, Repr, Inhabited

namespace JobFlags

def empty : JobFlags := {}

/-- The entry may be dropped if it cannot be satisfied. -/
def weak : JobFlags := ⟨1⟩

/-- Erasing leaves nothing behind that the erased package pulled in. -/
def cleandeps : JobFlags := ⟨2⟩

/-- Only the best candidates satisfy the entry. -/
def forcebest : JobFlags := ⟨4⟩

/-- The target fixes the version. -/
def setev : JobFlags := ⟨8⟩

/-- The target fixes version and release. -/
def setevr : JobFlags := ⟨16⟩

/-- The target fixes the architecture. -/
def setarch : JobFlags := ⟨32⟩

/-- The target fixes the repository. -/
def setrepo : JobFlags := ⟨64⟩

/-- Every modifier with its name, in bit order. -/
def named : List (JobFlags × String) :=
  [(weak, "weak"), (cleandeps, "cleandeps"), (forcebest, "forcebest"), (setev, "setev"),
   (setevr, "setevr"), (setarch, "setarch"), (setrepo, "setrepo")]

/-- The modifiers of either. -/
def union (a b : JobFlags) : JobFlags := ⟨a.bits ||| b.bits⟩

instance : OrOp JobFlags := ⟨union⟩

/-- The modifiers of the first that are not in the second. -/
def diff (a b : JobFlags) : JobFlags := ⟨a.bits &&& ~~~b.bits⟩

/-- Whether every modifier of the second is in the first. -/
def contains (a b : JobFlags) : Bool := a.bits &&& b.bits == b.bits

def isEmpty (a : JobFlags) : Bool := a.bits == 0

/-- The names of the modifiers, in bit order. -/
def names (a : JobFlags) : List String := (named.filter fun f => a.contains f.1).map (·.2)

def ofName? (name : String) : Option JobFlags :=
  (named.find? fun f => f.2 == name).map (·.1)

def toText (a : JobFlags) : String := "JobFlags(" ++ "|".intercalate a.names ++ ")"

end JobFlags

/-- What a job entry applies to. -/
inductive JobTarget where
  /-- One package. -/
  | package (id : PackageId)
  /-- Any one of a set of packages. -/
  | oneOf (packages : PackageSet)
  /-- The packages of a name, narrowed by version and perhaps by architecture. -/
  | name (relation : Relation) (arch : Option String)
  /-- What provides a relation, perhaps narrowed by architecture. -/
  | provides (relation : Relation) (arch : Option String)
  /-- Every package of a repository. -/
  | repo (name : String)
  /-- Every package. -/
  | all
deriving BEq, Repr

namespace JobTarget

def ofName (name : String) : JobTarget := .name (Relation.ofName name) none

/-- What provides a relation. -/
def ofProvide (relation : Relation) : JobTarget := .provides relation none

def ofPackage (id : PackageId) : JobTarget := .oneOf (PackageSet.ofList [id])

/-- Whether a package is built for the wanted architecture, if one is wanted. -/
def archFits (u : Universe) (arch : Option String) (id : PackageId) : Bool :=
  match arch with
  | some arch => (u.package? id).any fun p => p.arch == arch
  | none => true

/-- The visible packages a target stands for, ascending. -/
def resolve (u : Universe) : JobTarget → List PackageId
  | .package id => if u.isConsidered id then [id] else []
  | .oneOf packages => (packages.inter u.considered).toList
  | .name relation arch =>
    (u.packagesByName relation.name).filter fun id =>
      ((u.package? id).any fun p => relation.matchesEvr p.evr) && archFits u arch id
  | .provides relation arch => (u.whatProvides relation).filter (archFits u arch)
  | .repo wanted =>
    u.ids.filter fun id => u.isConsidered id && (u.packageRepo? id).any fun r => r.name == wanted
  | .all => u.considered.toList

/-- A relation as it is named to a user, with the architecture behind it. -/
def describeRelation (relation : Relation) (arch : Option String) : String :=
  match arch with
  | some arch => relation.toText ++ "." ++ arch
  | none => relation.toText

/-- A target as it is named to a user. -/
def describe (u : Universe) : JobTarget → String
  | .package id => u.nevraOrNumber id
  | .oneOf packages => ", ".intercalate (packages.toList.map u.nevraOrNumber)
  | .name relation arch => describeRelation relation arch
  | .provides relation arch => describeRelation relation arch
  | .repo wanted => "repository " ++ wanted
  | .all => "all packages"

end JobTarget

/-- One instruction of a job. -/
structure JobEntry where
  action : JobAction
  target : JobTarget
  flags : JobFlags := {}
deriving BEq, Repr

/-- Whether an entry may be dropped if it cannot be satisfied. -/
def JobEntry.isWeak (e : JobEntry) : Bool := e.flags.contains .weak

/-- An ordered list of instructions. -/
abbrev Job := List JobEntry

/-- Whether some entry has exactly this target. -/
def Job.hasTarget (job : Job) (target : JobTarget) : Bool := job.any fun e => e.target == target

end DepSolver
