import Std.Data.TreeMap
import DepSolver.Rule.Set
import DepSolver.Search.Decisions

/-!
# Watched literals

Every rule of two or more literals watches two of them. As long as neither watched literal is false
the rule cannot force anything, so a rule needs attention only when one of its watched literals
becomes false: it then watches another literal that is not false, or forces the other watched one,
or is violated.

Watches need no repair when decisions are taken back.
-/

namespace DepSolver

/-- Which rules watch which literals. -/
structure WatchGraph where
  /-- The rules that watch a literal, the latest first. -/
  watchers : Std.TreeMap Literal (List Nat) := {}
  /-- The two literals that a rule watches. -/
  watched : Std.TreeMap Nat (Literal × Literal) := {}

/-- What follows from a literal having become true. -/
inductive Propagation where
  /-- Literals that have to be decided now, each with the rule that forces it. -/
  | forces (units : List (Literal × Nat))
  /-- A rule all of whose literals are false. -/
  | violates (rule : Nat)
deriving DecidableEq, Repr

namespace WatchGraph

def empty : WatchGraph := {}

/-- The rules that watch a literal, in the order in which they came to it. -/
def watchersOf (g : WatchGraph) (l : Literal) : List Nat := (g.watchers.getD l []).reverse

def watch (g : WatchGraph) (l : Literal) (rule : Nat) : WatchGraph :=
  { g with watchers := g.watchers.insert l (rule :: g.watchers.getD l []) }

/-- Makes a rule watch its first two literals. Shorter rules are not watched. -/
def addRule (g : WatchGraph) (r : Rule) : WatchGraph :=
  match r.literals with
  | l₁ :: l₂ :: _ =>
    ({ g with watched := g.watched.insert r.id (l₁, l₂) }.watch l₁ r.id).watch l₂ r.id
  | _ => g

def ofRules (rules : RuleSet) : WatchGraph := rules.enabled.foldl addRule empty

/-- What the watchers of a literal that became false come to, the latest first. -/
structure Visit where
  graph : WatchGraph
  /-- The rules that go on watching the literal. -/
  kept : List Nat := []
  units : List (Literal × Nat) := []
  violated : Option Nat := none

/-- Attends to one watcher of a literal that became false. -/
def visit (rules : RuleSet) (d : Decisions) (falsified : Literal) (v : Visit) (id : Nat) : Visit :=
  if v.violated.isSome then { v with kept := id :: v.kept }
  else
    match rules.get? id, v.graph.watched.get? id with
    | some rule, some pair =>
      let other := if pair.1 = falsified then pair.2 else pair.1
      if d.satisfies other then { v with kept := id :: v.kept }
      else
        match rule.literals.find? fun l => l != pair.1 && l != pair.2 && !d.refutes l with
        | some l =>
          -- the rule leaves this literal's row for that of `l`
          let graph := { v.graph with watched := v.graph.watched.insert id (other, l) }
          { v with graph := graph.watch l id }
        | none =>
          if d.refutes other then { v with kept := id :: v.kept, violated := some id }
          else { v with kept := id :: v.kept, units := (other, id) :: v.units }
    | _, _ => v

/-- Attends to all rules that watch the negation of a literal which has become true. -/
def propagate (g : WatchGraph) (l : Literal) (rules : RuleSet) (d : Decisions) :
    Propagation × WatchGraph :=
  let watching := g.watchersOf (-l)
  -- the row is rebuilt from the rules that stay in it
  let graph := { g with watchers := g.watchers.insert (-l) [] }
  let v := watching.foldl (visit rules d (-l)) { graph }
  let graph := { v.graph with watchers := v.graph.watchers.insert (-l) v.kept }
  match v.violated with
  | some id => (.violates id, graph)
  | none => (.forces v.units.reverse, graph)

end WatchGraph

end DepSolver
