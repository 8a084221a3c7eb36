import DepSolver.Relation

/-!
# Packages

A package has a name, a version and an architecture, which together are written as its *nevra*,
and the relations that tie it to other packages. Every package provides its own name in its own
version, besides what it declares.
-/

namespace DepSolver

/-- A package, installed or available. -/
structure Package where
  name : String
  evr : Evr
  arch : String
  vendor : Option String := none
  provides : List Relation := []
  requires : List Relation := []
  conflicts : List Relation := []
  obsoletes : List Relation := []
  recommends : List Relation := []
  /-- The paths of the files the package owns. -/
  files : List String := []
  /-- The position of the repository the package belongs to. -/
  repo : Nat := 0
deriving DecidableEq, Repr, Inhabited

namespace Package

/-- The name, version and architecture: `name-[epoch:]version-release.arch`. -/
def nevra (p : Package) : String := p.name ++ "-" ++ p.evr.toText ++ "." ++ p.arch

/-- What every package provides: its name in exactly its version. -/
def selfProvide (p : Package) : Relation := (Relation.ofName p.name).constrained .equal p.evr

/-- Everything the package provides, its own name first. -/
def allProvides (p : Package) : List Relation := p.selfProvide :: p.provides

def isNoarch (p : Package) : Bool := p.arch == "noarch"

/-- Whether two packages of one name take the same place on a system. -/
def archCompatible (p q : Package) : Bool := p.arch == q.arch || p.isNoarch || q.isNoarch

/-- Whether two packages agree in name, version and architecture. -/
def sameNevra (p q : Package) : Bool := p.name == q.name && p.arch == q.arch && p.evr == q.evr

/-- Whether `p` replaces `q`. Obsoletes are held against names, not against what a package provides,
and no package replaces another of its own name this way. -/
def obsoletesPackage (p q : Package) : Bool :=
  p.name != q.name && p.obsoletes.any fun o => o.name == q.name && o.matchesEvr q.evr

end Package

end DepSolver
