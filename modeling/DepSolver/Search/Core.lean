import DepSolver.Search.Run

/-!
# Minimal unsatisfiable cores

When no decisions satisfy the rules in force, rules are left out one at a time, relations between
packages first and requests last. A rule without which the others could be satisfied stays; the
rules that stay are a *core*, from which none can be left out.
-/

namespace DepSolver.Search

/-- The rules in force, in the order in which they are left out. -/
def dropOrder (s : Search) : List Nat :=
  (List.range 4).flatMap fun k =>
    (s.rules.enabled.filter fun r => r.toClass.dropOrder == k).map (·.id)

/-- The search without a rule. -/
def without (s : Search) (id : Nat) : Search := { s with rules := s.rules.disable id }

/-- Tries to leave out one rule; one that is missed is put back and belongs to the core. -/
def tryDrop (s : Search) (core : List Nat) (id : Nat) : Search × List Nat :=
  -- a search without an answer counts as a conflict, so that the rule is left out
  if (s.without id).run.isSatisfied then (s, id :: core) else (s.without id, core)

/-- A minimal set of rules in force that cannot be satisfied together, ascending. -/
def minimalCore (s : Search) : List Nat :=
  let found := s.dropOrder.foldl (fun st id => tryDrop st.1 st.2 id) (s, [])
  s.rules.enabledIds.filter fun id => found.2.contains id

/-- The searches made while some rules are tried one after the other. -/
def dropSearches : List Nat → Search → List Search
  | [], _ => []
  | id :: ids, s => s.without id :: dropSearches ids (s.tryDrop [] id).1

/-- The searches made while a core is found. -/
def coreSearches (s : Search) : List Search := dropSearches s.dropOrder s

end DepSolver.Search
