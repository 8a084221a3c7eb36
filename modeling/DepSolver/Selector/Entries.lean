import DepSolver.Job
import DepSolver.Selector.Basic

/-!
# From selectors to job entries

What a selector is about gives the first selections; architecture, version and repository then
narrow each of them, in this order, and a selection that is left without packages drops out. The
entries of a selector are its selections with an action. Nothing is changed in the job they are
meant for, which is only looked at so that a glob does not name a target a second time.
-/

namespace DepSolver

/-- A target with the modifiers that tell what the target fixes. -/
structure Selection where
  target : JobTarget
  flags : JobFlags := {}

namespace Selector

def selectName (u : Universe) (job : Job) (f : Filter) : Except SelectorError (List Selection) := do
  let name ← f.value
  if f.cmp = .exact then
    return if (u.packagesByName name).isEmpty then [] else [{ target := .ofName name }]
  else if f.cmp = .glob then
    let targets := (u.names.filter (Comparison.glob.holds name)).map JobTarget.ofName
    return (targets.filter fun t => !job.hasTarget t).map fun target => { target }
  else throw .incorrectComparisonType

/-- The selection of a file. A glob over file names ignores case. -/
def selectFile (u : Universe) (f : Filter) : Except SelectorError (List Selection) := do
  let path ← f.value
  let cmp := if f.cmp.kind = .glob then { f.cmp with ignoreCase := true } else f.cmp
  let owners :=
    if cmp = .exact then u.fileOwners path
    else (u.numbered.filter fun p => u.isConsidered p.1 && p.2.files.any (cmp.holds path)).map (·.1)
  if owners.isEmpty then throw (.noMatch path)
  return [{ target := .oneOf (PackageSet.ofList owners) }]

def selectProvides (u : Universe) (job : Job) (f : Filter) :
    Except SelectorError (List Selection) := do
  let value ← f.value
  if f.cmp = .exact then
    match Relation.parse value with
    | .ok relation => return [{ target := .ofProvide relation }]
    | .error e => throw (.invalidRelation e)
  else if f.cmp = .glob then
    let targets := (u.provideNames.filter (Comparison.glob.holds value)).map fun name =>
      JobTarget.ofProvide (.ofName name)
    return (targets.filter fun t => !job.hasTarget t).map fun target => { target }
  else throw .incorrectComparisonType

/-- The selections of whatever the selector is about. -/
def selectRequired (u : Universe) (job : Job) (s : Selector) :
    Except SelectorError (List Selection) :=
  match s.pkgs, s.name, s.file, s.provides with
  | some pkgs, _, _, _ =>
    .ok (if pkgs.isEmpty then [] else [{ target := .oneOf pkgs, flags := .setarch ||| .setevr }])
  | none, some f, _, _ => selectName u job f
  | none, none, some f, _ => selectFile u f
  | none, none, none, some f => selectProvides u job f
  | none, none, none, none => .ok []

/-- The value of a filter that narrows, which must ask for equality. -/
def exactValue (f : Filter) : Except SelectorError String := do
  let value ← f.value
  if f.cmp = .exact then return value else throw .incorrectComparisonType

/-- The target that stands for any one of some packages, if there are any. -/
def anyOf (ids : List PackageId) : Option JobTarget :=
  let packages := PackageSet.ofList ids
  if packages.isEmpty then none else some (.oneOf packages)

/-- What a set of packages comes to if only those are kept that pass a test, if anything. -/
def narrowSet (u : Universe) (packages : PackageSet) (keep : Package → Bool) : Option JobTarget :=
  anyOf (packages.toList.filter fun id => (u.package? id).any keep)

/-- Narrows the target of each selection. A selection of which nothing is left drops out. -/
def narrowTargets (narrow : JobTarget → Option JobTarget) (flags : JobFlags)
    (selections : List Selection) : List Selection :=
  selections.filterMap fun s =>
    (narrow s.target).map fun target => { target, flags := s.flags ||| flags }

/-- What a target comes to within an architecture, if anything. -/
def archTarget (u : Universe) (arch : String) : JobTarget → Option JobTarget
  | .name relation _ => some (.name relation (some arch))
  | .provides relation _ => some (.provides relation (some arch))
  | .oneOf packages => narrowSet u packages fun p => p.arch == arch
  | target => some target

def narrowArch (u : Universe) (f : Filter) (selections : List Selection) :
    Except SelectorError (List Selection) := do
  let arch ← exactValue f
  if !u.hasArch arch then throw (.noMatch arch)
  return narrowTargets (archTarget u arch) .setarch selections

/-- The triple that a filter asks for; a version alone is one without a release. -/
def wantedEvr (f : Filter) : Except SelectorError Evr := do
  let value ← exactValue f
  if f.key = .version then return { epoch := 0, version := value, release := none }
  else
    match Evr.parse value with
    | .ok evr => return evr
    | .error e => throw (.invalidRelation e)

/-- What a target comes to in one version, if anything. A relation takes the version in place of its
constraint; of given packages only the version texts are compared if no more was asked for. -/
def evrTarget (u : Universe) (key : FilterKey) (evr : Evr) : JobTarget → Option JobTarget
  | .name relation arch => some (.name (relation.constrained .equal evr) arch)
  | .provides relation arch => some (.provides (relation.constrained .equal evr) arch)
  | .oneOf packages => narrowSet u packages fun p =>
      if key = .version then p.evr.version == evr.version else p.evr.compare evr == .eq
  | target => some target

/-- Narrows selections to a version, or to a whole triple. -/
def narrowEvr (u : Universe) (f : Filter) (selections : List Selection) :
    Except SelectorError (List Selection) := do
  let evr ← wantedEvr f
  let flags := if f.key = .version then .setev else .setevr
  return narrowTargets (evrTarget u f.key evr) flags selections

/-- What a target comes to within a repository, which is a set of packages, if anything. -/
def repoTarget (u : Universe) (repo : String) (target : JobTarget) : Option JobTarget :=
  anyOf ((target.resolve u).filter fun id => (u.packageRepo? id).any fun r => r.name == repo)

def narrowRepo (u : Universe) (f : Filter) (selections : List Selection) :
    Except SelectorError (List Selection) := do
  let repo ← exactValue f
  return narrowTargets (repoTarget u repo) .setrepo selections

/-- Applies a narrowing step if the selector has its filter. -/
def narrowBy (f? : Option Filter)
    (narrow : Filter → List Selection → Except SelectorError (List Selection))
    (selections : List Selection) : Except SelectorError (List Selection) :=
  match f? with
  | some f => narrow f selections
  | none => .ok selections

/-- The selections of a selector. An empty selector has none. -/
def selections (s : Selector) (u : Universe) (job : Job) :
    Except SelectorError (List Selection) := do
  if s.hasRequiredFilter then
    let selections ← selectRequired u job s
    let selections ← narrowBy s.arch (narrowArch u) selections
    let selections ← narrowBy s.evr (narrowEvr u) selections
    narrowBy s.reponame (narrowRepo u) selections
  else if s.hasOptionalFilter then throw .missingRequiredFilter
  else return []

def entries (s : Selector) (u : Universe) (action : JobAction) (flags : JobFlags) (job : Job) :
    Except SelectorError (List JobEntry) := do
  let selections ← s.selections u job
  return selections.map fun sel => { action, target := sel.target, flags := sel.flags ||| flags }

def matching (s : Selector) (u : Universe) : Except SelectorError PackageSet := do
  let selections ← s.selections u []
  return PackageSet.ofList (selections.flatMap fun sel => sel.target.resolve u)

end Selector

/-- The entry for one given package, whose version and architecture it fixes. -/
def JobEntry.forPackage (id : PackageId) (action : JobAction) (flags : JobFlags) : JobEntry :=
  { action, target := .ofPackage id, flags := flags ||| .setarch ||| .setevr }

end DepSolver
