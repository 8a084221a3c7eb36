import DepSolver.Package
import DepSolver.PackageSet
import DepSolver.Universe.Multimap

/-!
# The package universe

A `Catalog` lists everything the resolver may reason about: repositories, packages, which packages
are excluded, and how install-only packages are treated. Packages are numbered from 1 in the order
in which they were added.

Questions by name, by provide and by file are answered from an `Index`. A `Universe` is a catalog
with its index, built on first use. Each operation that changes what the index is built from gives
the universe a fresh one; only `setInstallonly`, which the index does not look at, keeps it.
-/

namespace DepSolver

def systemRepoName : String := "@System"

/-- The priority of repositories that state none; lower is preferred. -/
def defaultPriority : Int := 99

/-- A source of packages. -/
structure Repo where
  name : String
  priority : Int
  /-- Whether its packages are the installed ones. -/
  installed : Bool
deriving DecidableEq, Repr, Inhabited

/-- The packages and repositories, with the settings that belong to them. -/
structure Catalog where
  packages : Array Package := .empty
  repos : Array Repo := .empty
  /-- The position of the repository of installed packages, once there is one. -/
  installedRepo? : Option Nat := none
  excludes : PackageSet := {}
  /-- The names whose providers may be installed side by side. -/
  installonly : List String := []
  /-- How many versions of an install-only package may coexist; 0 for any number. -/
  installonlyLimit : Nat := 0
  /-- The release of the booted kernel, if it is known. -/
  kernelRelease : Option String := none

namespace Catalog

def package? (c : Catalog) (id : PackageId) : Option Package :=
  if 0 < id then c.packages[id.toNat - 1]? else none

/-- Every package with its number, ascending. -/
def numbered (c : Catalog) : List (PackageId × Package) :=
  c.packages.toList.zipIdx.map fun p => ((p.2 : Int) + 1, p.1)

/-- The numbers of all packages, ascending. -/
def ids (c : Catalog) : List PackageId :=
  (List.range c.packages.size).map fun i : Nat => (i : Int) + 1

def packageRepo? (c : Catalog) (id : PackageId) : Option Repo := do
  let p ← c.package? id
  c.repos[p.repo]?

/-- Whether a package belongs to the repository of installed packages. -/
def isInstalled (c : Catalog) (id : PackageId) : Bool :=
  (c.packageRepo? id).any (·.installed)

/-- The priority of a package's repository. Installed packages take no part in priorities. -/
def priority (c : Catalog) (id : PackageId) : Int :=
  match c.packageRepo? id with
  | some repo => if repo.installed then defaultPriority else repo.priority
  | none => defaultPriority

/-- A package as it is named to a user: by its nevra, or by its number if it is unknown. -/
def nevraOrNumber (c : Catalog) (id : PackageId) : String :=
  match c.package? id with
  | some p => p.nevra
  | none => "#" ++ toString id

/-- The nevra and repository of a package, `nevra@repo`. -/
def packageKey? (c : Catalog) (id : PackageId) : Option String := do
  let p ← c.package? id
  let repo ← c.repos[p.repo]?
  return p.nevra ++ "@" ++ repo.name

/-- The package that a key names: the first of that key, or else the only one of that nevra. -/
def findKey? (c : Catalog) (key : String) : Option PackageId :=
  match c.ids.find? fun id => c.packageKey? id == some key with
  | some id => some id
  | none =>
    match c.numbered.filter fun p => p.2.nevra == key with
    | [p] => some p.1
    | _ => none

/-- Whether a package declares that it is the kernel of a release. -/
def namesKernelRelease (release : String) (p : Package) : Bool :=
  p.provides.any fun provide =>
    provide.name == "kernel-uname-r" && provide.constraint.any fun c => c.2.toText == release

/-- Whether a package is a kernel whose version, release and architecture spell a release. -/
def spellsKernelRelease (release : String) (p : Package) : Bool :=
  (p.name == "kernel" || p.name == "kernel-core") &&
    p.evr.version ++ "-" ++ p.evr.release.getD "" ++ "." ++ p.arch == release

/-- The booted kernel among the installed packages: one that declares the release is preferred over
one that spells it. -/
def findRunningKernel? (c : Catalog) (installed : PackageSet) : Option PackageId :=
  match c.kernelRelease with
  | none => none
  | some release =>
    (installed.toList.find? fun id => (c.package? id).any (namesKernelRelease release)).or
      (installed.toList.find? fun id => (c.package? id).any (spellsKernelRelease release))

end Catalog

/-- The tables that answer questions about a catalog. -/
structure Index where
  /-- The packages visible to resolution: installed ones, and those not excluded. -/
  considered : PackageSet := {}
  installed : PackageSet := {}
  byName : Multimap PackageId := .empty
  provides : Multimap (PackageId × Relation) := .empty
  owners : Multimap PackageId := .empty
  runningKernel? : Option PackageId := none

namespace Index

/-- Enters a visible package into the tables. -/
def enter (index : Index) (id : PackageId) (p : Package) : Index :=
  { index with
    considered := index.considered.insert id
    byName := index.byName.add p.name id
    provides := p.allProvides.foldl (fun m r => m.add r.name (id, r)) index.provides
    owners := p.files.foldl (fun m path => m.add path id) index.owners }

/-- Enters a package if it is visible. -/
def addPackage (c : Catalog) (index : Index) (id : PackageId) (p : Package) : Index :=
  if (c.repos[p.repo]?).any (·.installed) then
    { index with installed := index.installed.insert id }.enter id p
  else if c.excludes.contains id then index
  else index.enter id p

def build (c : Catalog) : Index :=
  let index := c.numbered.foldl (fun index p => addPackage c index p.1 p.2) {}
  { index with runningKernel? := c.findRunningKernel? index.installed }

end Index

/-- A catalog and its index. -/
structure Universe extends Catalog where
  /-- Built when it is first asked for. -/
  index : Thunk Index := Thunk.mk fun _ => Index.build toCatalog
  /-- The index is that of the catalog, whenever it was built. -/
  index_get : index.get = Index.build toCatalog := by rfl

namespace Universe

/-- The universe of a catalog, its index not yet built. -/
def ofCatalog (c : Catalog) : Universe := { toCatalog := c }

def empty : Universe := ofCatalog {}

instance : Inhabited Universe := ⟨empty⟩

/-- Adds a repository of available packages and returns its position. -/
def addRepo (u : Universe) (name : String) (priority : Int) : Nat × Universe :=
  (u.repos.size,
    ofCatalog { u.toCatalog with repos := u.repos.push { name, priority, installed := false } })

/-- The position of the repository of installed packages, which is created on first use. -/
def installedRepo (u : Universe) : Nat × Universe :=
  match u.installedRepo? with
  | some repo => (repo, u)
  | none =>
    (u.repos.size,
      ofCatalog
        { u.toCatalog with
          repos := u.repos.push
            { name := systemRepoName, priority := defaultPriority, installed := true }
          installedRepo? := some u.repos.size })

/-- Adds a package to a repository and returns its number. -/
def addPackage (u : Universe) (repo : Nat) (p : Package) : PackageId × Universe :=
  ((u.packages.size : Int) + 1,
    ofCatalog { u.toCatalog with packages := u.packages.push { p with repo } })

/-- Adds a package to the repository of installed packages and returns its number. -/
def addInstalled (u : Universe) (p : Package) : PackageId × Universe :=
  let (repo, u) := u.installedRepo
  u.addPackage repo p

/-- Hides a package from resolution. Installed packages stay visible. -/
def exclude (u : Universe) (id : PackageId) : Universe :=
  ofCatalog { u.toCatalog with excludes := u.excludes.insert id }

/-- Hides exactly the packages of a set. -/
def setExcludes (u : Universe) (excludes : PackageSet) : Universe :=
  ofCatalog { u.toCatalog with excludes }

/-- Sets the install-only names and their limit. The index does not depend on them and is kept. -/
def setInstallonly (u : Universe) (names : List String) (limit : Nat) : Universe :=
  { u with installonly := names, installonlyLimit := limit, index_get := u.index_get }

/-- Sets the release of the booted kernel. -/
def setKernelRelease (u : Universe) (release : Option String) : Universe :=
  ofCatalog { u.toCatalog with kernelRelease := release }

/-- The packages visible to resolution. -/
def considered (u : Universe) : PackageSet := u.index.get.considered

/-- Whether a package is visible to resolution. -/
def isConsidered (u : Universe) (id : PackageId) : Bool := u.considered.contains id

def installed (u : Universe) : PackageSet := u.index.get.installed

/-- The installed packages, ascending. -/
def installedIds (u : Universe) : List PackageId := u.installed.toList

/-- The installed package of the booted kernel, if it can be told. -/
def runningKernel? (u : Universe) : Option PackageId := u.index.get.runningKernel?

/-- The visible packages of a name, ascending. -/
def packagesByName (u : Universe) (name : String) : List PackageId := u.index.get.byName.get name

/-- The names of visible packages, in the order in which they are first seen. -/
def names (u : Universe) : List String := u.index.get.byName.keys.toList

/-- What visible packages provide, by name, in the order in which it is first seen. -/
def provideNames (u : Universe) : List String := u.index.get.provides.keys.toList

/-- The visible packages that own a file; a package that lists the file twice is named twice. -/
def fileOwners (u : Universe) (path : String) : List PackageId := u.index.get.owners.get path

/-- The visible packages one of whose provides overlaps with a relation, ascending. A relation that
is the path of a file and has no constraint is also provided by the owners of the file. -/
def whatProvides (u : Universe) (r : Relation) : List PackageId :=
  let byProvide := ((u.index.get.provides.get r.name).filter fun p => p.2.intersects r).map (·.1)
  -- a path may be both provided by name and owned
  let byFile := if r.name.startsWith "/" && !r.isVersioned then u.fileOwners r.name else []
  (PackageSet.ofList (byProvide ++ byFile)).toList

/-- Whether some visible package is built for an architecture. -/
def hasArch (u : Universe) (arch : String) : Bool :=
  u.numbered.any fun p => p.2.arch == arch && u.isConsidered p.1

/-- The position of the first repository of a name. -/
def repoByName? (u : Universe) (name : String) : Option Nat :=
  u.repos.findIdx? fun r => r.name == name

end Universe

end DepSolver
