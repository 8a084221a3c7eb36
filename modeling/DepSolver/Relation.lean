import DepSolver.Operator

/-!
# Dependency relations

A relation is written `name [operator evr]` and is what packages provide, require, conflict with,
obsolete and recommend. Without a constraint it stands for every version of the name.

A relation is held against a version by `Relation.matchesEvr` and against another relation by
`Relation.intersects`, which asks whether the two version ranges overlap.
-/

namespace DepSolver

/-- A name and, possibly, a range of its versions. -/
structure Relation where
  name : String
  /-- The range: an operator and the version it compares with. -/
  constraint : Option (Operator × Evr)
deriving DecidableEq, Repr, Inhabited

namespace Relation

/-- Every version of a name. -/
def ofName (name : String) : Relation := { name, constraint := none }

def isVersioned (r : Relation) : Bool := r.constraint.isSome

def constrained (r : Relation) (op : Operator) (evr : Evr) : Relation :=
  { r with constraint := some (op, evr) }

def isOperatorChar (c : Char) : Bool := c == '<' || c == '>' || c == '='

def isNameChar (c : Char) : Bool := !Text.isBlank c && !isOperatorChar c

/-- The three parts of a relation's text. The name is the longest run of name characters, the
operator the longest run of operator characters, and the version text ends at the next blank. -/
def splitParts? (s : List Char) : Option (List Char × Option (List Char × List Char)) :=
  let s := Text.trimLeft s
  let name := s.takeWhile isNameChar
  let s := Text.trimLeft (s.dropWhile isNameChar)
  if name.isEmpty then none
  else if s.isEmpty then some (name, none)
  else
    let operator := s.takeWhile isOperatorChar
    let s := Text.trimLeft (s.dropWhile isOperatorChar)
    let version := s.takeWhile fun c => !Text.isBlank c
    let after := s.dropWhile fun c => !Text.isBlank c
    if (Operator.spellings.lookup (String.ofList operator)).isNone || version.isEmpty
        || version.head?.any isOperatorChar || !after.all Text.isBlank then none
    else some (name, some (operator, version))

/-- Reads `name [operator evr]`. -/
def parse (text : String) : Except EvrError Relation :=
  match splitParts? text.toList with
  | none => .error (.invalidRelation text)
  | some (name, none) => .ok (ofName (String.ofList name))
  | some (name, some (operator, version)) =>
    match Operator.parse (String.ofList operator) with
    | .error e => .error e
    | .ok op =>
      match Evr.parse (String.ofList version) with
      | .error e => .error e
      | .ok evr => .ok ((ofName (String.ofList name)).constrained op evr)

/-- The text of a relation, with the canonical spelling of its operator. -/
def toText (r : Relation) : String :=
  match r.constraint with
  | some (op, evr) => r.name ++ " " ++ op.toText ++ " " ++ evr.toText
  | none => r.name

/-- Whether a version lies in the range. -/
def matchesEvr (r : Relation) (evr : Evr) : Bool :=
  match r.constraint with
  | none => true
  | some (op, wanted) => op.admits (evr.compare wanted)

/-- Whether two relations of one name have overlapping ranges. -/
def intersects (r s : Relation) : Bool :=
  r.name == s.name &&
    match r.constraint, s.constraint with
    | some (op₁, evr₁), some (op₂, evr₂) => op₁.overlaps op₂ (evr₁.compare evr₂)
    | _, _ => true

end Relation

end DepSolver
