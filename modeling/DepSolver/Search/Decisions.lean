import DepSolver.Rule.Basic

/-!
# Decisions

`Decisions` records which packages are decided to be present or absent, at which level, and why. It
keeps two views in step: a map from packages to signed levels, and the queue of decisions in the
order in which they were made.

A signed level is 0 for an undecided package; otherwise its sign is that of the decision, and its
size is one more than the level, so that level 0 differs from undecided.
-/

namespace DepSolver

/-- Why a literal was decided. -/
inductive Reason where
  /-- A rule left no other way to satisfy it. -/
  | unit (rule : Nat)
  /-- One of several ways to satisfy a rule was tried. -/
  | branch (rule : Nat)
  /-- A recommendation of a package about to be installed. -/
  | weakDep
  /-- An installed package is left alone although no rule asks for it. -/
  | keep
  /-- An installed package has become unneeded by an erasure. -/
  | cleanDeps
deriving DecidableEq, Repr

namespace Reason

def rule? : Reason → Option Nat
  | unit rule | branch rule => some rule
  | weakDep | keep | cleanDeps => none

def toDebugText : Reason → String
  | unit rule => "Unit(" ++ toString rule ++ ")"
  | branch rule => "Branch(" ++ toString rule ++ ")"
  | weakDep => "WeakDep"
  | keep => "Keep"
  | cleanDeps => "CleanDeps"

end Reason

/-- What has been decided so far. -/
structure Decisions where
  /-- The signed level of each package, by its number. -/
  levels : Array Int := .empty
  /-- The decisions in order, each with its reason. -/
  queue : Array (Literal × Reason) := .empty
  /-- The level at which decisions are being made. -/
  level : Nat := 0
deriving Inhabited, Repr

namespace Decisions

def empty : Decisions := {}

/-- No decision, with room for packages up to `max`. -/
def withCapacity (max : Nat) : Decisions := { levels := Array.replicate (max + 1) 0 }

def size (d : Decisions) : Nat := d.queue.size

def isEmpty (d : Decisions) : Bool := d.queue.isEmpty

def signedLevel (d : Decisions) (l : Literal) : Int := d.levels.getD l.natAbs 0

/-- Whether a literal asks for its package to be present. -/
def isPositive (l : Literal) : Bool := 0 < l

/-- Whether a literal is true, if it is decided. -/
def value? (d : Decisions) (l : Literal) : Option Bool :=
  let v := d.signedLevel l
  if v = 0 then none else some (isPositive v == isPositive l)

def satisfies (d : Decisions) (l : Literal) : Bool := d.value? l == some true

def refutes (d : Decisions) (l : Literal) : Bool := d.value? l == some false

def isDecided (d : Decisions) (l : Literal) : Bool := d.signedLevel l != 0

def isUndecided (d : Decisions) (l : Literal) : Bool := !d.isDecided l

def isPresent (d : Decisions) (id : PackageId) : Bool := 0 < d.signedLevel id

def isAbsent (d : Decisions) (id : PackageId) : Bool := d.signedLevel id < 0

def level? (d : Decisions) (l : Literal) : Option Nat :=
  let v := d.signedLevel l
  if v = 0 then none else some (v.natAbs - 1)

def reason? (d : Decisions) (l : Literal) : Option Reason :=
  (d.queue.find? fun q => q.1.natAbs == l.natAbs).map (·.2)

def signed (l : Literal) (size : Nat) : Int := if isPositive l then size else -size

/-- Records the signed level of a package. -/
def setLevelOf (levels : Array Int) (package : Nat) (v : Int) : Array Int :=
  (levels.rightpad (package + 1) 0).set! package v

/-- Goes to another level. -/
def setLevel (d : Decisions) (level : Nat) : Decisions := { d with level }

/-- Goes to the next level. -/
def incrementLevel (d : Decisions) : Decisions := { d with level := d.level + 1 }

/-- Decides a literal at the current level. What is decided already stays, and the answer is whether
it agrees with the literal. -/
def decide (d : Decisions) (l : Literal) (reason : Reason) : Bool × Decisions :=
  match d.value? l with
  | some agrees => (agrees, d)
  | none =>
    (true,
      { d with
        levels := setLevelOf d.levels l.natAbs (signed l (d.level + 1))
        queue := d.queue.push (l, reason) })

/-- Decides literals one after the other, if none of them is refused. -/
def decideAll? (d : Decisions) (reason : Reason) : List Literal → Option Decisions
  | [] => some d
  | l :: rest =>
    match d.decide l reason with
    | (true, d) => d.decideAll? reason rest
    | (false, _) => none

/-- Decides a literal whatever was decided before. The level of an earlier decision is kept, and the
new one goes to the end of the queue. -/
def override (d : Decisions) (l : Literal) (reason : Reason) : Decisions :=
  { d with
    levels := setLevelOf d.levels l.natAbs (signed l ((d.level? l).getD d.level + 1))
    queue := (d.queue.filter fun q => q.1.natAbs != l.natAbs).push (l, reason) }

/-- Takes back all decisions above a level and goes to that level. -/
def revert (d : Decisions) (level : Nat) : Decisions :=
  let levels := d.levels.map fun v => if level + 1 < v.natAbs then 0 else v
  { levels, level, queue := d.queue.filter fun q => levels.getD q.1.natAbs 0 != 0 }

/-- The packages decided to be present, ascending. -/
def present (d : Decisions) : List PackageId :=
  (d.levels.toList.zipIdx.filter fun p => 0 < p.1).map fun p => (p.2 : Int)

/-- Takes everything back. -/
def reset (d : Decisions) : Decisions := { levels := d.levels.map fun _ => 0 }

end Decisions

end DepSolver
