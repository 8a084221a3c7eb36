import DepSolver.Text.Blank
import DepSolver.Text.Numeral
import DepSolver.Text.Split
import DepSolver.Version.Order

/-!
# Epoch, version and release

An `Evr` is written `[epoch:]version[-release]`. An absent epoch is 0. The release may be missing,
so that a dependency such as `foo >= 1.2` can be held against a package's full triple: a missing
release compares equal to every release, which makes `Evr.compare` antisymmetric on all triples but
transitive only on those that carry a release.
-/

namespace DepSolver

/-- Why the text of a triple or of a relation was refused. Each cause carries its text. -/
inductive EvrError where
  /-- There is nothing between the epoch and the release. -/
  | emptyVersion (text : String)
  /-- The version holds neither a letter nor a digit. -/
  | invalidVersion (text : String)
  /-- What stands before the colon is no unsigned 64-bit number. -/
  | invalidEpoch (text : String)
  /-- The text is no `name [operator evr]`. -/
  | invalidRelation (text : String)
  /-- The text is no comparison operator. -/
  | invalidOperator (text : String)
deriving DecidableEq, Repr

def EvrError.message : EvrError → String
  | .emptyVersion text => "Invalid EVR \"" ++ text ++ "\": version is empty"
  | .invalidVersion text => "Invalid EVR \"" ++ text ++ "\": version has no alphanumeric characters"
  | .invalidEpoch text => "Invalid EVR \"" ++ text ++ "\": epoch is not a number"
  | .invalidRelation text => "Invalid relation \"" ++ text ++ "\""
  | .invalidOperator text => "Invalid operator: " ++ text

/-- An epoch, a version and, where it is known, a release. -/
structure Evr where
  /-- Outranks the version; 0 when the text gives none. -/
  epoch : UInt64
  /-- The version text, ordered by `Version.compare`. -/
  version : String
  /-- The release text, if there is one. -/
  release : Option String
deriving DecidableEq, Repr, Inhabited

namespace Evr

/-- Reads the epoch before a colon: empty text is epoch 0. -/
def readEpoch? (s : List Char) : Option UInt64 :=
  if s.isEmpty then some 0
  else (Text.readNumeral? UInt64.size s).map UInt64.ofNat

/-- Reads `version[-release]`. The release starts after the last hyphen and is dropped if empty;
`text` is what an error quotes. -/
def readVersion (text : String) (epoch : UInt64) (s : List Char) : Except EvrError Evr :=
  let parts := (Text.splitLast '-' s).getD (s, [])
  if parts.1.isEmpty then .error (.emptyVersion text)
  else if !parts.1.any Char.isAlphanum then .error (.invalidVersion text)
  else .ok
    { epoch, version := String.ofList parts.1
      release := if parts.2.isEmpty then none else some (String.ofList parts.2) }

/-- Reads `[epoch:]version[-release]`, blanks around it ignored. -/
def parse (text : String) : Except EvrError Evr :=
  let s := Text.trim text.toList
  match Text.splitFirst ':' s with
  | none => readVersion (String.ofList s) 0 s
  | some (before, after) =>
    match readEpoch? before with
    | none => .error (.invalidEpoch (String.ofList s))
    | some epoch => readVersion (String.ofList s) epoch after

/-- Epochs first, then versions, then releases; a missing release equals every release. -/
def compare (a b : Evr) : Ordering :=
  (Ord.compare a.epoch b.epoch).then <|
    (Version.compare a.version b.version).then <|
      match a.release, b.release with
      | some r, some s => Version.compare r s
      | _, _ => .eq

/-- The text of a triple: epoch 0 and a missing release are left out. -/
def toText (e : Evr) : String :=
  (if e.epoch = 0 then "" else toString e.epoch.toNat ++ ":") ++ e.version ++
    (match e.release with
     | some r => "-" ++ r
     | none => "")

end Evr

end DepSolver
