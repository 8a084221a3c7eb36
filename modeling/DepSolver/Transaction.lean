import DepSolver.Order.Sort
import DepSolver.Universe.Basic

/-!
# Transactions

A `Transaction` lists the steps that turn the installed packages into the ones to be kept. Each
package that comes in or goes out has one step. A package that goes out is paired with the package
that takes its place, if there is one: one of its own name, else one that obsoletes it.

What a step is called depends on the mode in which the transaction is looked at.
-/

namespace DepSolver

/-- How a package compares to the one it takes the place of. -/
inductive Change where
  | upgrade
  | downgrade
  /-- The same version, architecture and vendor. -/
  | reinstall
  /-- The same version of another architecture or vendor. -/
  | change
deriving DecidableEq, Repr

def Change.between (new old : Package) : Change :=
  match new.evr.compare old.evr with
  | .gt => .upgrade
  | .lt => .downgrade
  | .eq => if new.arch == old.arch && new.vendor == old.vendor then .reinstall else .change

/-- What happens to a package. -/
inductive StepKind where
  | install
  /-- Comes in beside other versions of its name. -/
  | multiInstall
  /-- Comes in beside other versions of its name and takes the place of its equal. -/
  | multiReinstall
  /-- Takes the place of a package of its name. -/
  | replace (how : Change)
  /-- Takes the place of packages of other names. -/
  | obsoletes
  | erase
  /-- Gives its place to a package of its name. -/
  | replaced (how : Change)
  /-- Gives its place to a package of another name. -/
  | obsoleted
deriving DecidableEq, Repr

/-- Whether the package comes in. -/
def StepKind.isIncoming : StepKind → Bool
  | install | multiInstall | multiReinstall | replace _ | obsoletes => true
  | erase | replaced _ | obsoleted => false

/-- What a step is called in some mode. -/
inductive StepType where
  /-- The step is not shown. -/
  | ignore
  | erase
  | install
  | upgrade
  | upgraded
  | downgrade
  | downgraded
  | reinstall
  | reinstalled
  | change
  | changed
  | obsoletes
  | obsoleted
  | multiInstall
  | multiReinstall
deriving DecidableEq, Repr

namespace StepType

/-- All step types, in declaration order. -/
def all : List StepType :=
  [ignore, erase, install, upgrade, upgraded, downgrade, downgraded, reinstall, reinstalled, change,
   changed, obsoletes, obsoleted, multiInstall, multiReinstall]

def toText : StepType → String
  | ignore => "ignore"
  | erase => "erase"
  | install => "install"
  | upgrade => "upgrade"
  | upgraded => "upgraded"
  | downgrade => "downgrade"
  | downgraded => "downgraded"
  | reinstall => "reinstall"
  | reinstalled => "reinstalled"
  | change => "change"
  | changed => "changed"
  | obsoletes => "obsoletes"
  | obsoleted => "obsoleted"
  | multiInstall => "multi-install"
  | multiReinstall => "multi-reinstall"

def ofText? (s : String) : Option StepType := all.find? fun t => t.toText == s

end StepType

/-- How steps are called. -/
structure TransactionMode where
  /-- Of a replacement, show the package that comes in. -/
  active : Bool := false
  /-- Of a replacement, show both packages. -/
  all : Bool := false
  /-- Tell obsoleting from upgrading. -/
  obsoletes : Bool := false
  /-- Tell versions installed side by side from others. -/
  multiInstall : Bool := false
  /-- Call a mere change of architecture or vendor a reinstallation. -/
  changeIsReinstall : Bool := false
deriving DecidableEq, Repr

/-- What a package that takes another's place is called. -/
def Change.incomingType (mode : TransactionMode) : Change → StepType
  | upgrade => .upgrade
  | downgrade => .downgrade
  | reinstall => .reinstall
  | .change => if mode.changeIsReinstall then .reinstall else .change

/-- What a package that gives its place is called. -/
def Change.outgoingType (mode : TransactionMode) : Change → StepType
  | upgrade => .upgraded
  | downgrade => .downgraded
  | reinstall => .reinstalled
  | change => if mode.changeIsReinstall then .reinstalled else .changed

/-- What a step of some kind is called. Of a replacement, the side that comes in is shown in the
modes that ask for it, and the side that goes out unless only the other one is asked for. -/
def StepKind.type (mode : TransactionMode) (kind : StepKind) : StepType :=
  match kind with
  | install => .install
  | erase => .erase
  | multiInstall => if mode.multiInstall then .multiInstall else .install
  | multiReinstall =>
    if !mode.active && !mode.all then .ignore
    else if mode.multiInstall then .multiReinstall else .reinstall
  | replace how => if !mode.active && !mode.all then .ignore else how.incomingType mode
  | obsoletes =>
    if !mode.active && !mode.all then .ignore
    else if mode.obsoletes then .obsoletes else .upgrade
  | replaced how => if mode.active && !mode.all then .ignore else how.outgoingType mode
  | obsoleted =>
    if mode.active && !mode.all then .ignore
    else if mode.obsoletes then .obsoleted else .upgraded

/-- What happens to one package. -/
structure Step where
  id : PackageId
  kind : StepKind
  /-- For a package that comes in, those whose place it takes; for one that goes out, the package
  that takes its place. -/
  related : List PackageId
deriving DecidableEq, Repr

/-- Whether the package of a step comes in. -/
def Step.isIncoming (s : Step) : Bool := s.kind.isIncoming

/-- The steps from what is installed to what is kept. -/
structure Transaction where
  steps : List Step := []
deriving DecidableEq, Repr

namespace Transaction

/-- The order among packages that could take the same place: by version, then, of equal versions,
lower numbers count as greater. -/
def compareReplacing (a b : PackageId × Package) : Ordering :=
  (a.2.evr.compare b.2.evr).then (compare b.1 a.1)

/-- The package that takes the place of one that goes out, and whether it does so by obsoleting it.
A package kept in several versions takes the place of its equal only. -/
def replacement? (multiversion : PackageSet) (incoming : List (PackageId × Package))
    (removed : Package) : Option (PackageId × Bool) :=
  let sameName := incoming.filter fun p =>
    p.2.name == removed.name && p.2.archCompatible removed
      && (!multiversion.contains p.1 || p.2.sameNevra removed)
  match greatestBy? compareReplacing sameName with
  | some p => some (p.1, false)
  | none => (incoming.find? fun p => p.2.obsoletesPackage removed).map fun p => (p.1, true)

/-- A package that goes out, and its replacement. -/
structure Outgoing where
  id : PackageId
  package : Package
  replacement : Option (PackageId × Bool)

/-- What happens to a package that comes in and takes the place of some others. -/
def incomingKind (isMultiversion : Bool) (new : Package) (replaces : List Outgoing) : StepKind :=
  if isMultiversion then if replaces.isEmpty then .multiInstall else .multiReinstall
  else
    match replaces.find? fun o => o.replacement.any fun r => !r.2 with
    | some old => .replace (.between new old.package)
    | none => if replaces.isEmpty then .install else .obsoletes

def replacedStep (id : PackageId) (new : Package) (old : Outgoing) : Step :=
  { id := old.id
    kind :=
      if old.replacement.any (·.2) then .obsoleted else .replaced (.between new old.package)
    related := [id] }

/-- The step of a package that comes in, and those of the packages whose place it takes. -/
def incomingSteps (multiversion : PackageSet) (outgoing : List Outgoing)
    (p : PackageId × Package) : List Step :=
  let replaces := outgoing.filter fun o => o.replacement.any fun r => r.1 == p.1
  { id := p.1
    kind := incomingKind (multiversion.contains p.1) p.2 replaces
    related := replaces.map (·.id) } :: replaces.map (replacedStep p.1 p.2)

/-- The packages of a set, with their numbers. -/
def packagesOf (u : Universe) (ids : PackageSet) : List (PackageId × Package) :=
  ids.toList.filterMap fun id => (u.package? id).map fun p => (id, p)

/-- The steps that turn the installed packages into the ones to be kept. -/
def ofKept (u : Universe) (kept multiversion : PackageSet) : Transaction :=
  let incoming := packagesOf u (kept.diff u.installed)
  let outgoing := (packagesOf u (u.installed.diff kept)).map fun p =>
    { id := p.1, package := p.2, replacement := replacement? multiversion incoming p.2 : Outgoing }
  -- replaced packages stand behind what replaces them, erased ones at the end
  let erased := outgoing.filter fun o => o.replacement.isNone
  { steps :=
      incoming.flatMap (incomingSteps multiversion outgoing) ++
        erased.map fun o => { id := o.id, kind := .erase, related := [] } }

def isEmpty (t : Transaction) : Bool := t.steps.isEmpty

def size (t : Transaction) : Nat := t.steps.length

def step? (t : Transaction) (id : PackageId) : Option Step := t.steps.find? fun s => s.id == id

def contains (t : Transaction) (id : PackageId) : Bool := (t.step? id).isSome

/-- What the step of a package is called; a package without a step is ignored. -/
def typeOf (t : Transaction) (mode : TransactionMode) (id : PackageId) : StepType :=
  match t.step? id with
  | some s => s.kind.type mode
  | none => .ignore

/-- The packages whose steps are called one of some names, in the order of the steps. -/
def ofTypes (t : Transaction) (mode : TransactionMode) (types : List StepType) : List PackageId :=
  (t.steps.map (·.id)).filter fun id => types.contains (t.typeOf mode id)

/-- For a package that comes in, those whose place it takes; for one that goes out, the package that
takes its place. -/
def related (t : Transaction) (id : PackageId) : List PackageId :=
  match t.step? id with
  | some s => s.related
  | none => []

end Transaction

end DepSolver
