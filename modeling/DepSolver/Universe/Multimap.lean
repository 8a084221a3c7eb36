import Std.Data.TreeMap

/-!
# Tables with several values for a key

A `Multimap` keeps the values of a key in the order in which they came, and the keys in the order
in which they were first seen.
-/

namespace DepSolver

/-- A table from texts to rows of values. -/
structure Multimap (α : Type) where
  /-- The keys, in the order in which they were first seen. -/
  keys : Array String := .empty
  /-- The values of each key, in the order in which they came. -/
  rows : Std.TreeMap String (Array α) := {}

namespace Multimap

variable {α : Type}

def empty : Multimap α := {}

/-- Adds a value to the end of a key's row. -/
def add (m : Multimap α) (key : String) (value : α) : Multimap α :=
  { keys := if m.rows.contains key then m.keys else m.keys.push key
    rows := m.rows.alter key fun row? => some ((row?.getD .empty).push value) }

/-- The values of a key, none if the key was never seen. -/
def get (m : Multimap α) (key : String) : List α := (m.rows.getD key .empty).toList

end Multimap

end DepSolver
