import DepSolver.Generation.Package
import DepSolver.Search.Core
import DepSolver.Solution.Cleanup

/-!
# Solving a job

`solve` makes the rules of a job and searches. As long as no decisions satisfy the rules in force, a
minimal core of them is found and one of its rules is given up: a weak one silently, otherwise the
core is reported as a problem. The search then starts again, so that independent problems are all
found. Every pass but the last gives up a rule, so there are no more passes than rules and one.

`solve?` is what answers: it has no solution where a list of candidates cannot be put in order.
-/

namespace DepSolver

namespace Search

/-- The rule of some that is given up: one of a request if there is one, else one that speaks of an
installed package or of best candidates, else the first. -/
def ruleToBlame? (s : Search) (core : List Nat) : Option Nat :=
  let ofClass (classes : List RuleClass) :=
    core.find? fun id => (s.rules.get? id).any fun r => classes.contains r.toClass
  ((ofClass [.job]).or (ofClass [.best, .update, .distUpgrade])).or core.head?

/-- The first weak rule of some. -/
def weakRule? (s : Search) (core : List Nat) : Option Nat :=
  core.find? fun id => (s.rules.get? id).any (·.weak)

/-- The rules as they are in the end, the decisions, and the problems. -/
structure Verdict where
  rules : RuleSet
  decisions : Decisions := .empty
  problems : List Problem

/-- Searches, giving up rules until the others can be satisfied, at most a number of times. A search
without an answer ends it with a problem about which nothing is known. -/
def settle : Nat → List Problem → Search → Verdict
  | 0, problems, s => { rules := s.rules, problems := problems ++ [{}] }
  | left + 1, problems, s =>
    match s.run with
    | .satisfied decisions => { rules := s.rules, decisions, problems }
    | .exhausted => { rules := s.rules, problems := problems ++ [{}] }
    | .unsatisfiable =>
      let core := s.minimalCore
      -- a weak rule goes first, whatever else the core holds, and is no problem
      match s.weakRule? core with
      | some id => settle left problems (s.without id)
      | none =>
        match s.ruleToBlame? core with
        | some id => settle left (problems ++ [{ rules := core }]) (s.without id)
        | none => { rules := s.rules, problems := problems ++ [{}] }

/-- The searches made while rules are given up. -/
def settleSearches : Nat → Search → List Search
  | 0, _ => []
  | left + 1, s =>
    s ::
      match s.run with
      | .satisfied _ | .exhausted => []
      | .unsatisfiable =>
        s.coreSearches ++
          match (s.weakRule? s.minimalCore).or (s.ruleToBlame? s.minimalCore) with
          | some id => settleSearches left (s.without id)
          | none => []

end Search

namespace Setting

/-- The rules of a job over a universe. -/
def ruleSet (s : Setting) : RuleSet := .ofList s.rules

/-- A search over some rules in a setting. -/
def search (s : Setting) (rules : RuleSet) : Search where
  world := s.world
  flags := s.flags
  rules

end Setting

/-- What comes of a job, where all candidates can be put in order. -/
def solve (world : Universe) (flags : SolverFlags) (job : Job) : Solution :=
  let setting := Setting.ofJob world flags job
  let rules := setting.ruleSet
  let verdict := Search.settle (rules.size + 1) [] (setting.search rules)
  let solution : Solution :=
    { world, flags, job, context := setting.context, rules := verdict.rules
      decisions := verdict.decisions, problems := verdict.problems }
  if solution.isSolved then solution.cleanUp else solution

/-- The searches made while a job is solved. -/
def solveSearches (world : Universe) (flags : SolverFlags) (job : Job) : List Search :=
  let setting := Setting.ofJob world flags job
  Search.settleSearches (setting.ruleSet.size + 1) (setting.search setting.ruleSet)

/-- Whether all candidates can be put in order while a job is solved: those for the rules of
installed packages, and those that the searches come to. -/
def ranksJob (world : Universe) (flags : SolverFlags) (job : Job) : Bool :=
  (Setting.ofJob world flags job).ranksAll && (solveSearches world flags job).all (·.ranksAll)

/-- Solves a job. There is no answer where candidates cannot be put in order: what a sort does then
is left open. -/
def solve? (world : Universe) (flags : SolverFlags) (job : Job) : Option Solution :=
  if ranksJob world flags job then some (solve world flags job) else none

end DepSolver
