import DepSolver.Selector.Entries
import DepSolver.Text.Blank
import DepSolver.Text.Split

/-!
# Package specs

A spec names packages in one word or phrase:

* `/usr/bin/foo`, a path or a glob over paths, stands for the owners of a file;
* `name op evr`, or anything else with a blank in it, for the providers of a relation;
* `name-*`, or another glob, for packages of fitting names;
* anything else for packages of that name.

A name may be followed by a point and an architecture, if packages of that architecture are known,
and every spec by an at sign and the name of a repository.
-/

namespace DepSolver.Spec

def isGlob (s : List Char) : Bool := s.any fun c => c == '*' || c == '?' || c == '['

/-- The comparison that a text asks for. -/
def comparisonOf (s : List Char) : Comparison := if isGlob s then .glob else .exact

/-- The parts before and after the last separator, if there is something on either side of it. -/
def splitTail (sep : Char) (s : List Char) : List Char × Option (List Char) :=
  match Text.splitLast sep s with
  | some (before, after) =>
    if before.isEmpty || after.isEmpty then (s, none) else (before, some after)
  | none => (s, none)

/-- A name and the architecture behind it, if that architecture is known. -/
def splitArch (u : Universe) (s : List Char) : List Char × Option String :=
  match Text.splitLast '.' s with
  | some (name, arch) =>
    if !name.isEmpty && u.hasArch (String.ofList arch) then (name, some (String.ofList arch))
    else (s, none)
  | none => (s, none)

/-- Adds a filter for equality, if there is a value. -/
def setExact (s : Selector) (key : FilterKey) (value : Option String) :
    Except SelectorError Selector :=
  match value with
  | some value => s.set key .exact value
  | none => .ok s

/-- The selector of a name that may be followed by an architecture. -/
def nameSelector (u : Universe) (s : List Char) : Except SelectorError Selector := do
  let (name, arch) := splitArch u s
  let selector ← Selector.set {} .name (comparisonOf name) (String.ofList name)
  setExact selector .arch arch

/-- The selector of a spec without a repository. -/
def baseSelector (u : Universe) (s : List Char) : Except SelectorError Selector :=
  if s.head? == some '/' then Selector.set {} .file (comparisonOf s) (String.ofList s)
  else if s.any Text.isBlank then Selector.set {} .provides .exact (String.ofList s)
  else nameSelector u s

def selector (u : Universe) (spec : String) : Except SelectorError Selector := do
  let (base, repo) := splitTail '@' (Text.trim spec.toList)
  setExact (← baseSelector u base) .reponame (repo.map String.ofList)

end DepSolver.Spec
