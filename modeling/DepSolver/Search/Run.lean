import DepSolver.Search.Choice
import DepSolver.Search.WatchGraph

/-!
# The search

The search decides packages until every rule in force is satisfied. It propagates what is forced,
makes a choice where nothing is, and on a conflict goes back to the latest choice with alternatives
left. A search that takes too many rounds is given up without an answer.
-/

namespace DepSolver

/-- How a search ends. -/
inductive SearchResult where
  /-- All rules in force are satisfied by leaving out whatever is undecided. -/
  | satisfied (decisions : Decisions)
  /-- No decisions satisfy the rules in force. -/
  | unsatisfiable
  /-- The rounds ran out. -/
  | exhausted
deriving Inhabited

/-- Whether an answer is a solution. -/
def SearchResult.isSatisfied : SearchResult → Bool
  | satisfied _ => true
  | unsatisfiable | exhausted => false

/-- A choice that was made, with what is left of it. -/
structure Branch where
  /-- The level at which its literals are decided. -/
  level : Nat
  /-- The alternatives left, in the order in which they are tried. -/
  alternatives : List (List Literal)
  reason : Reason
deriving Repr

/-- Decisions together with what it takes to go on from them. -/
structure SearchState where
  decisions : Decisions
  graph : WatchGraph
  /-- The choices made, the latest first. -/
  branches : List Branch := []
  /-- How many decisions have been propagated. -/
  propagated : Nat := 0

namespace SearchState

/-- Decides literals that rules force, unless one of them is refused. -/
def decideUnits? (d : Decisions) : List (Literal × Nat) → Option Decisions
  | [] => some d
  | (l, rule) :: rest =>
    match d.decide l (.unit rule) with
    | (true, d) => decideUnits? d rest
    | (false, _) => none

/-- Propagates decisions, at most a number of them, until all are propagated or a rule is violated.
The answer is whether no rule was. -/
def propagate (rules : RuleSet) : Nat → SearchState → Bool × SearchState
  | 0, st => (true, st)
  | steps + 1, st =>
    match st.decisions.queue[st.propagated]? with
    | none => (true, st)
    | some (l, _) =>
      let (found, graph) := st.graph.propagate l rules st.decisions
      let st := { st with graph, propagated := st.propagated + 1 }
      match found with
      | .violates _ => (false, st)
      | .forces units =>
        match decideUnits? st.decisions units with
        | some decisions => propagate rules steps { st with decisions }
        | none => (false, st)

/-- The decisions below a branch, at the level of the branch. -/
def below (d : Decisions) (b : Branch) : Decisions := (d.revert (b.level - 1)).setLevel b.level

/-- Decides the first alternative that is not refused, and returns the ones after it. -/
def tryAlternatives (d : Decisions) (reason : Reason) :
    List (List Literal) → Option (Decisions × List (List Literal))
  | [] => none
  | first :: others =>
    match d.decideAll? reason first with
    | some decided => some (decided, others)
    | none => tryAlternatives d reason others

/-- Goes back to the latest of some choices that has an alternative left, and takes it. What was
decided below a choice had been propagated before it was made. -/
def resume (st : SearchState) : List Branch → Option SearchState
  | [] => none
  | b :: outer =>
    let base := below st.decisions b
    match tryAlternatives base b.reason b.alternatives with
    | some (decisions, alternatives) =>
      some
        { st with
          decisions
          branches := { b with alternatives } :: outer
          propagated := base.size }
    | none => st.resume outer

/-- Goes back to the latest choice that has an alternative left. -/
def backtrack (st : SearchState) : Option SearchState := st.resume st.branches

/-- Makes a choice at a new level. -/
def choose (st : SearchState) (c : Choice) : Option SearchState :=
  let decisions := st.decisions.incrementLevel
  let branch := { level := decisions.level, alternatives := c.others, reason := c.reason }
  let st := { st with decisions, branches := branch :: st.branches }
  match decisions.decideAll? c.reason c.first with
  | some decisions => some { st with decisions }
  | none => st.backtrack

end SearchState

namespace Search

/-- How many rounds a search may take. -/
def maxRounds : Nat := 100000

/-- A bound on the number of packages that can be decided. -/
def room (s : Search) : Nat :=
  s.rules.toList.foldl (fun n r => n + r.literals.length) s.world.packages.size + 1

/-- Decides the rules that leave only one way to satisfy them, unless there is a rule without
literals or two of them disagree. -/
def decideAssertions? : List Rule → Decisions → Option Decisions
  | [], d => some d
  | r :: rest, d =>
    match r.literals with
    | [] => none
    | [l] =>
      match d.decide l (.unit r.id) with
      | (true, d) => decideAssertions? rest d
      | (false, _) => none
    | _ => decideAssertions? rest d

/-- What comes of one round of a search. -/
structure Round where
  /-- How the search ends, or where it goes on from. -/
  next : SearchResult ⊕ SearchState
  /-- Whether the candidates could be put in order, if the round came to a choice. -/
  ranked : Bool := true

/-- One round: what is forced is propagated, and where nothing is a choice is made. -/
def round (s : Search) (enabled : List Rule) (room : Nat) (st : SearchState) : Round :=
  match st.propagate s.rules room with
  | (false, st) =>
    -- a conflict: the latest choice was wrong, or an earlier one
    match st.backtrack with
    | some st => { next := .inr st }
    | none => { next := .inl .unsatisfiable }
  | (true, st) =>
    match s.choice? enabled st.decisions with
    | none => { next := .inl (.satisfied st.decisions) }
    | some c =>
      match st.choose c with
      | some st => { next := .inr st, ranked := c.ranked }
      | none => { next := .inl .unsatisfiable, ranked := c.ranked }

/-- Goes on with a search for at most a number of rounds. -/
def rounds (s : Search) (enabled : List Rule) (room : Nat) : Nat → SearchState → SearchResult
  | 0, _ => .exhausted
  | left + 1, st =>
    match (s.round enabled room st).next with
    | .inl result => result
    | .inr st => s.rounds enabled room left st

/-- Whether the candidates of every choice in some rounds can be put in order. -/
def ranksRounds (s : Search) (enabled : List Rule) (room : Nat) : Nat → SearchState → Bool
  | 0, _ => true
  | left + 1, st =>
    let r := s.round enabled room st
    r.ranked &&
      match r.next with
      | .inl _ => true
      | .inr st => s.ranksRounds enabled room left st

/-- The decisions before any is made. Level 1 is that of the assertions, and stays when all choices
are taken back. -/
def start (s : Search) : Decisions := (Decisions.withCapacity s.world.packages.size).setLevel 1

/-- Searches for decisions that satisfy all rules in force. -/
def run (s : Search) : SearchResult :=
  match decideAssertions? s.rules.enabled s.start with
  | none => .unsatisfiable
  | some decisions =>
    s.rounds s.rules.enabled s.room maxRounds { decisions, graph := .ofRules s.rules }

/-- Whether a search can put all candidates in order that it comes to. -/
def ranksAll (s : Search) : Bool :=
  (decideAssertions? s.rules.enabled s.start).all fun decisions =>
    s.ranksRounds s.rules.enabled s.room maxRounds { decisions, graph := .ofRules s.rules }

end Search

end DepSolver
