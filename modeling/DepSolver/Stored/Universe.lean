import DepSolver.Error
import DepSolver.File
import DepSolver.Json.Record
import DepSolver.Universe.Basic

/-!
# Universes in files

A `StoredUniverse` is a universe as a file describes it: versions and relations are texts, packages
are listed under their repositories, and excluded packages are named by their keys.
`Universe.ofStored` reads such a description and `Universe.toStored` makes one.
-/

namespace DepSolver

/-- A package as a file describes it. -/
structure StoredPackage where
  name : String
  evr : String
  arch : String := "noarch"
  vendor : Option String := none
  provides : List String := []
  requires : List String := []
  conflicts : List String := []
  obsoletes : List String := []
  recommends : List String := []
  files : List String := []
deriving DecidableEq, Repr, Inhabited

/-- A repository as a file describes it. -/
structure StoredRepo where
  name : String
  priority : Int := defaultPriority
  installed : Bool := false
  packages : List StoredPackage := []
deriving DecidableEq, Repr, Inhabited

/-- A universe as a file describes it. -/
structure StoredUniverse where
  repos : List StoredRepo := []
  installonly : List String := []
  installonlyLimit : Nat := 0
  kernelRelease : Option String := none
  /-- The keys of the excluded packages. -/
  excludes : List String := []
deriving DecidableEq, Repr, Inhabited

/-! ## Reading and writing JSON -/

def Json.textList? (j : Json) : Option (List String) := j.listOf? Json.text?

namespace StoredPackage

/-- The names of the fields, in order. -/
def fieldNames : List String :=
  ["name", "evr", "arch", "vendor", "provides", "requires", "conflicts", "obsoletes", "recommends",
   "files"]

/-- Reads a package. Name and version have to be there. -/
def ofJson? (j : Json) : Option StoredPackage := do
  let r ← Record.ofJson? fieldNames j
  return {
    name := ← r.required? "name" Json.text?
    evr := ← r.required? "evr" Json.text?
    arch := ← r.optional? "arch" Json.text? "noarch"
    vendor := ← r.optional? "vendor" (Json.nullable? Json.text?) none
    provides := ← r.optional? "provides" Json.textList? []
    requires := ← r.optional? "requires" Json.textList? []
    conflicts := ← r.optional? "conflicts" Json.textList? []
    obsoletes := ← r.optional? "obsoletes" Json.textList? []
    recommends := ← r.optional? "recommends" Json.textList? []
    files := ← r.optional? "files" Json.textList? [] }

/-- A list of texts as a field, left out if it is empty. -/
def listField (key : String) (items : List String) : List (String × Json) :=
  Json.fieldUnless items.isEmpty key (.texts items)

def toJson (p : StoredPackage) : Json :=
  .object <|
    [("name", .text p.name), ("evr", .text p.evr), ("arch", .text p.arch)]
      ++ Json.fieldUnless p.vendor.isNone "vendor" (.ofOption .text p.vendor)
      ++ listField "provides" p.provides
      ++ listField "requires" p.requires
      ++ listField "conflicts" p.conflicts
      ++ listField "obsoletes" p.obsoletes
      ++ listField "recommends" p.recommends
      ++ listField "files" p.files

end StoredPackage

namespace StoredRepo

/-- The names of the fields, in order. -/
def fieldNames : List String := ["name", "priority", "installed", "packages"]

/-- Reads a repository. Its name has to be there, and priorities have 32 bits. -/
def ofJson? (j : Json) : Option StoredRepo := do
  let r ← Record.ofJson? fieldNames j
  return {
    name := ← r.required? "name" Json.text?
    priority :=
      ← r.optional? "priority" (Json.intIn? Int32.minValue.toInt Int32.maxValue.toInt)
        defaultPriority
    installed := ← r.optional? "installed" Json.bool? false
    packages := ← r.optional? "packages" (Json.listOf? StoredPackage.ofJson?) [] }

def toJson (r : StoredRepo) : Json :=
  .object
    [("name", .text r.name), ("priority", .int r.priority), ("installed", .bool r.installed),
     ("packages", .list (r.packages.map StoredPackage.toJson))]

end StoredRepo

namespace StoredUniverse

/-- The names of the fields, in order. -/
def fieldNames : List String :=
  ["repos", "installonly", "installonly-limit", "kernel-release", "excludes"]

def ofJson? (j : Json) : Option StoredUniverse := do
  let r ← Record.ofJson? fieldNames j
  return {
    repos := ← r.optional? "repos" (Json.listOf? StoredRepo.ofJson?) []
    installonly := ← r.optional? "installonly" Json.textList? []
    installonlyLimit := ← r.optional? "installonly-limit" (Json.natBelow? UInt32.size) 0
    kernelRelease := ← r.optional? "kernel-release" (Json.nullable? Json.text?) none
    excludes := ← r.optional? "excludes" Json.textList? [] }

def toJson (u : StoredUniverse) : Json :=
  .object <|
    [("repos", .list (u.repos.map StoredRepo.toJson))]
      ++ StoredPackage.listField "installonly" u.installonly
      ++ [("installonly-limit", .int u.installonlyLimit)]
      ++ Json.fieldUnless u.kernelRelease.isNone "kernel-release" (.ofOption .text u.kernelRelease)
      ++ StoredPackage.listField "excludes" u.excludes

/-- Reads the text of a universe. -/
def parse (s : String) : Except GoalError StoredUniverse :=
  match (Json.parse? s).bind ofJson? with
  | some u => .ok u
  | none => .error .json

end StoredUniverse

/-! ## Between descriptions and universes -/

namespace Package

/-- The package that a file describes. Its version is read first, then its relations in the order of
their fields. -/
def ofStored (p : StoredPackage) : Except EvrError Package := do
  let evr ← Evr.parse p.evr
  let provides ← p.provides.mapM Relation.parse
  let requires ← p.requires.mapM Relation.parse
  let conflicts ← p.conflicts.mapM Relation.parse
  let obsoletes ← p.obsoletes.mapM Relation.parse
  let recommends ← p.recommends.mapM Relation.parse
  return {
    name := p.name, evr, arch := p.arch, vendor := p.vendor, provides, requires, conflicts
    obsoletes, recommends, files := p.files }

def toStored (p : Package) : StoredPackage where
  name := p.name
  evr := p.evr.toText
  arch := p.arch
  vendor := p.vendor
  provides := p.provides.map Relation.toText
  requires := p.requires.map Relation.toText
  conflicts := p.conflicts.map Relation.toText
  obsoletes := p.obsoletes.map Relation.toText
  recommends := p.recommends.map Relation.toText
  files := p.files

end Package

namespace Universe

def addStoredPackages (repo : Nat) (u : Universe) (packages : List StoredPackage) :
    Except EvrError Universe :=
  packages.foldlM (fun u p => return (u.addPackage repo (← Package.ofStored p)).2) u

/-- Adds a described repository. All repositories of installed packages are one. -/
def addStoredRepo (u : Universe) (r : StoredRepo) : Except EvrError Universe :=
  let (repo, u) := if r.installed then u.installedRepo else u.addRepo r.name r.priority
  u.addStoredPackages repo r.packages

def findKeys (u : Universe) (keys : List String) : Except GoalError PackageSet :=
  keys.foldlM (fun ids key =>
    match u.findKey? key with
    | some id => .ok (ids.insert id)
    | none => .error (.unknownPackage key)) .empty

/-- The universe that a file describes. -/
def ofStored (s : StoredUniverse) : Except GoalError Universe := do
  let u ← (s.repos.foldlM addStoredRepo empty).mapError GoalError.evr
  let excludes ← u.findKeys s.excludes
  return ((u.setExcludes excludes).setInstallonly s.installonly s.installonlyLimit).setKernelRelease
    s.kernelRelease

/-- The description of a universe. Packages of repositories that do not exist are left out. -/
def toStored (u : Universe) : StoredUniverse where
  repos := u.repos.toList.zipIdx.map fun r =>
    { name := r.1.name, priority := r.1.priority, installed := r.1.installed
      packages := (u.packages.toList.filter fun p => p.repo == r.2).map Package.toStored }
  installonly := u.installonly
  installonlyLimit := u.installonlyLimit
  kernelRelease := u.kernelRelease
  excludes := u.excludes.toList.filterMap u.packageKey?

/-- Reads the text of a universe. -/
def parse (s : String) : Except GoalError Universe :=
  match StoredUniverse.parse s with
  | .ok stored => ofStored stored
  | .error e => .error e

def ofFile (path : String) (content : FileContent) : Except GoalError Universe :=
  match content.text? with
  | some s => parse s
  | none => .error (.unreadableFile path)

end Universe

end DepSolver
