import DepSolver.Evr

/-!
# Comparison operators

The five comparisons a dependency may ask for. Each holds of some of the three outcomes of a
comparison, and that is all `Operator.admits` and `Operator.overlaps` look at.
-/

namespace DepSolver

/-- How a version must stand to the one a relation names. -/
inductive Operator where
  | equal
  | lessThan
  | lessThanOrEqual
  | greaterThan
  | greaterThanOrEqual
deriving DecidableEq, Repr

namespace Operator

/-- The spellings of the operators, in the order in which they are listed to a user. -/
def spellings : List (String × Operator) :=
  [("=", equal), ("==", equal), ("<", lessThan), ("<=", lessThanOrEqual), ("=<", lessThanOrEqual),
   (">", greaterThan), (">=", greaterThanOrEqual), ("=>", greaterThanOrEqual)]

/-- Reads one of the eight spellings. -/
def parse (text : String) : Except EvrError Operator :=
  match spellings.lookup text with
  | some op => .ok op
  | none => .error (.invalidOperator text)

def toText : Operator → String
  | equal => "="
  | lessThan => "<"
  | lessThanOrEqual => "<="
  | greaterThan => ">"
  | greaterThanOrEqual => ">="

/-- Whether the operator admits smaller versions. -/
def includesLess : Operator → Bool
  | lessThan | lessThanOrEqual => true
  | _ => false

/-- Whether the operator admits the version itself. -/
def includesEqual : Operator → Bool
  | equal | lessThanOrEqual | greaterThanOrEqual => true
  | _ => false

/-- Whether the operator admits greater versions. -/
def includesGreater : Operator → Bool
  | greaterThan | greaterThanOrEqual => true
  | _ => false

/-- Whether a version that compares as `o` to the named one is admitted. -/
def admits (op : Operator) : Ordering → Bool
  | .lt => op.includesLess
  | .eq => op.includesEqual
  | .gt => op.includesGreater

/-- Whether the ranges `op₁ v₁` and `op₂ v₂` overlap, given how `v₁` compares to `v₂`. Two ranges
open towards the same end always do; otherwise one has to reach across to the other. -/
def overlaps (op₁ op₂ : Operator) (o : Ordering) : Bool :=
  (op₁.includesLess && op₂.includesLess) || (op₁.includesGreater && op₂.includesGreater) ||
    match o with
    | .lt => op₁.includesGreater || op₂.includesLess
    | .gt => op₁.includesLess || op₂.includesGreater
    | .eq => op₁.includesEqual && op₂.includesEqual

end Operator

/-- Whether two version texts stand in the relation that an operator's text names. Text that cannot
be read never does. -/
def compareTexts (a operator b : String) : Bool :=
  match Evr.parse a, Evr.parse b, Operator.parse operator with
  | .ok a, .ok b, .ok op => op.admits (a.compare b)
  | _, _, _ => false

end DepSolver
