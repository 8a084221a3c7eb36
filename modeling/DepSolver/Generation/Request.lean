import DepSolver.Generation.Setting
import DepSolver.Rule.Basic

/-!
# Rules for requests

A request to install becomes the disjunction of its candidates, and a request to erase the absence
of each package it names. A request without candidates becomes a rule without literals, so that
nothing satisfies it unless it is given up.
-/

namespace DepSolver

namespace Setting

/-- The kind of the rule of a request without candidates. Whoever names a package must name one that
exists; for anything else it is the provider that is missing. -/
def missingKind (s : Setting) (target : JobTarget) : RuleKind :=
  match target with
  | .name relation _ =>
    if (s.world.packagesByName relation.name).isEmpty then .jobUnknownPackage
    else .jobNothingProvides
  | .package _ | .oneOf _ => .jobUnknownPackage
  | .provides .. | .repo _ | .all => .jobNothingProvides

def installRules (s : Setting) (e : JobEntry) : List Rule :=
  let candidates := e.target.resolve s.world
  let best := s.bestCandidates candidates
  let describe := e.target.describe s.world
  if candidates.isEmpty then [(Rule.make (s.missingKind e.target) []).withDep describe]
  else
    (Rule.make .job candidates).withDep describe ::
      -- the second rule says something only if it leaves candidates out
      if e.flags.contains .forcebest && best.length < candidates.length then [Rule.make .best best]
      else []

def eraseRules (s : Setting) (e : JobEntry) : List Rule :=
  (e.target.resolve s.world).map fun id => { Rule.make .job [-id] with source := some id }

/-- The rules of an entry, before they are marked with where they come from. -/
def entryRules (s : Setting) (e : JobEntry) : List Rule :=
  match e.action with
  | .install => s.installRules e
  | .erase => s.eraseRules e
  | _ => []

def jobRules (s : Setting) : List Rule :=
  s.job.zipIdx.flatMap fun p =>
    (s.entryRules p.1).map fun r => { r with job := some p.2, weak := p.1.isWeak }

end Setting

end DepSolver
