import DepSolver.Evr
import DepSolver.PackageSet
import DepSolver.Selector.Comparison

/-!
# Selectors

A selector says which packages are meant by up to one filter in each of several dimensions. A name,
a provide, a file or an explicit set of packages pins down what the selector is about, and only one
of the four may be given; architecture, version and repository narrow it further.

Setting a dimension again does not replace its filter. It adds another value to it, and a filter of
several values is refused when the selector is put to use.
-/

namespace DepSolver

/-- What a filter looks at. -/
inductive FilterKey where
  | name
  /-- The whole of epoch, version and release. -/
  | evr
  /-- The version alone; takes the place of `evr` in a selector. -/
  | version
  | arch
  | provides
  | file
  | reponame
deriving DecidableEq, Repr

namespace FilterKey

/-- All keys, in declaration order. -/
def all : List FilterKey := [name, evr, version, arch, provides, file, reponame]

def toText : FilterKey → String
  | name => "name"
  | evr => "evr"
  | version => "version"
  | arch => "arch"
  | provides => "provides"
  | file => "file"
  | reponame => "reponame"

def ofText? (s : String) : Option FilterKey := all.find? fun k => k.toText == s

/-- Whether a filter of this key pins down what a selector is about. -/
def isRequired : FilterKey → Bool
  | name | provides | file => true
  | _ => false

end FilterKey

/-- Why a selector could not be set up or put to use. -/
inductive SelectorError where
  /-- Nothing pins down what the selector is about. -/
  | missingRequiredFilter
  /-- A filter has several values. -/
  | multipleMatchObjects
  /-- A filter's comparison does not suit its key. -/
  | incorrectComparisonType
  /-- No package has the wanted value. -/
  | noMatch (value : String)
  /-- Two dimensions that exclude each other. -/
  | conflictingFilters (key other : String)
  /-- A version or a provide cannot be read. -/
  | invalidRelation (cause : EvrError)
deriving DecidableEq, Repr

def SelectorError.message : SelectorError → String
  | missingRequiredFilter => "Ill-formed Selector. No name or provides or file in the selector."
  | multipleMatchObjects =>
    "Ill-formed Selector, presence of multiple match objects in the filter"
  | incorrectComparisonType =>
    "Ill-formed Selector used for the operation, incorrect comparison type"
  | noMatch value => "Ill-formed Selector, no package matches " ++ value
  | conflictingFilters key other =>
    "Ill-formed Selector, " ++ key ++ " cannot be combined with " ++ other
  | invalidRelation cause => "Ill-formed Selector, invalid relation: " ++ cause.message

/-- A key, a comparison and the values it compares with. -/
structure Filter where
  key : FilterKey
  cmp : Comparison
  values : List String
deriving DecidableEq, Repr

/-- The value of a filter, which must have exactly one. -/
def Filter.value (f : Filter) : Except SelectorError String :=
  match f.values with
  | [value] => .ok value
  | _ => .error .multipleMatchObjects

/-- A description of packages by several dimensions at once. -/
structure Selector where
  name : Option Filter := none
  evr : Option Filter := none
  arch : Option Filter := none
  provides : Option Filter := none
  file : Option Filter := none
  reponame : Option Filter := none
  pkgs : Option PackageSet := none
deriving Inhabited

namespace Selector

/-- The dimensions that pin down what a selector is about, each with whether it is occupied. -/
def requiredSlots (s : Selector) : List (String × Bool) :=
  [("name", s.name.isSome), ("provides", s.provides.isSome), ("file", s.file.isSome),
   ("pkgs", s.pkgs.isSome)]

/-- Refuses a dimension that excludes one already occupied. -/
def checkRequiredSlot (s : Selector) (key : String) : Except SelectorError Unit :=
  match s.requiredSlots.find? fun slot => slot.2 && slot.1 != key with
  | some slot => .error (.conflictingFilters key slot.1)
  | none => .ok ()

/-- A filter with one more value, or a new one. -/
def extend (slot : Option Filter) (key : FilterKey) (cmp : Comparison) (value : String) :
    Option Filter :=
  match slot with
  | some f => some { f with values := f.values ++ [value] }
  | none => some { key, cmp, values := [value] }

/-- The selector with a filter put into the dimension of its key. -/
def place (s : Selector) (key : FilterKey) (cmp : Comparison) (value : String) : Selector :=
  match key with
  | .name => { s with name := extend s.name key cmp value }
  | .evr | .version => { s with evr := extend s.evr key cmp value }
  | .arch => { s with arch := extend s.arch key cmp value }
  | .provides => { s with provides := extend s.provides key cmp value }
  | .file => { s with file := extend s.file key cmp value }
  | .reponame => { s with reponame := extend s.reponame key cmp value }

def set (s : Selector) (key : FilterKey) (cmp : Comparison) (value : String) :
    Except SelectorError Selector := do
  if key.isRequired then s.checkRequiredSlot key.toText
  return s.place key cmp value

/-- Restricts the selector to a set of packages. A later set replaces an earlier one. -/
def setPkgs (s : Selector) (pkgs : PackageSet) : Except SelectorError Selector := do
  if s.pkgs.isNone then s.checkRequiredSlot "pkgs"
  return { s with pkgs := some pkgs }

/-- Whether something pins down what the selector is about. -/
def hasRequiredFilter (s : Selector) : Bool :=
  s.name.isSome || s.provides.isSome || s.file.isSome || s.pkgs.isSome

def hasOptionalFilter (s : Selector) : Bool := s.arch.isSome || s.evr.isSome || s.reponame.isSome

end Selector

end DepSolver
