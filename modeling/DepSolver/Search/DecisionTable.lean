import DepSolver.Search.Decisions

/-!
# Decisions in machine words

`DecisionTable` keeps decisions as `Decisions` does, in numbers of fixed size: the signed level of a
package is a 32-bit word with a sign, the current level one without. Both wrap around. Every
question about a table is one about the decisions it stands for, `toDecisions`.
-/

namespace DepSolver

/-- What has been decided so far, in machine words. -/
structure DecisionTable where
  /-- The signed level of each package, by its number. -/
  words : Array Int32 := .empty
  /-- The decisions in order, each with its reason. -/
  queue : Array (Literal × Reason) := .empty
  /-- The level at which decisions are being made. -/
  level : UInt32 := 0
deriving Inhabited, Repr

namespace DecisionTable

/-- No decision, with words for a number of packages. -/
def ofSize (size : Nat) : DecisionTable := { words := Array.replicate size 0 }

def empty : DecisionTable := ofSize 0

/-- No decision, with room for packages up to `max`. -/
def withCapacity (max : Nat) : DecisionTable := ofSize (max + 1)

def word (t : DecisionTable) (l : Literal) : Int32 := t.words.getD l.natAbs 0

/-- The decisions that a table stands for. -/
def toDecisions (t : DecisionTable) : Decisions :=
  { levels := t.words.map Int32.toInt, queue := t.queue, level := t.level.toNat }

/-- The word of a positive literal that is decided at a level. -/
def stamp (level : UInt32) : Int32 := (level + 1).toInt32

def signed (l : Literal) (w : Int32) : Int32 := if Decisions.isPositive l then w else -w

/-- Records the word of a package. -/
def setWordOf (words : Array Int32) (package : Nat) (w : Int32) : Array Int32 :=
  (words.rightpad (package + 1) 0).set! package w

/-- Whether a literal is true, if it is decided. -/
def value? (t : DecisionTable) (l : Literal) : Option Bool :=
  let w := t.word l
  if w = 0 then none else some (decide (0 < w) == Decisions.isPositive l)

/-- Goes to another level. -/
def setLevel (t : DecisionTable) (level : UInt32) : DecisionTable := { t with level }

/-- Goes to the next level. -/
def incrementLevel (t : DecisionTable) : DecisionTable := { t with level := t.level + 1 }

/-- Decides a literal at the current level. What is decided already stays, and the answer is whether
it agrees with the literal. -/
def decide (t : DecisionTable) (l : Literal) (reason : Reason) : Bool × DecisionTable :=
  match t.value? l with
  | some agrees => (agrees, t)
  | none =>
    (true,
      { t with
        words := setWordOf t.words l.natAbs (signed l (stamp t.level))
        queue := t.queue.push (l, reason) })

/-- Decides a literal whatever was decided before. The level of an earlier decision is kept, and the
new one goes to the end of the queue. -/
def override (t : DecisionTable) (l : Literal) (reason : Reason) : DecisionTable :=
  let w := if t.word l = 0 then stamp t.level else (t.word l).abs
  { t with
    words := setWordOf t.words l.natAbs (signed l w)
    queue := (t.queue.filter fun q => q.1.natAbs != l.natAbs).push (l, reason) }

/-- Takes back all decisions above a level and goes to that level. -/
def revert (t : DecisionTable) (level : UInt32) : DecisionTable :=
  let words := t.words.map fun w => if stamp level < w.abs then 0 else w
  { words, level, queue := t.queue.filter fun q => words.getD q.1.natAbs 0 != 0 }

/-- Takes everything back. -/
def reset (t : DecisionTable) : DecisionTable := { words := t.words.map fun _ => 0 }

end DecisionTable

end DepSolver
