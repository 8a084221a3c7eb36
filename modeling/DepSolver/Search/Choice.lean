import DepSolver.Generation.Context
import DepSolver.Preference
import DepSolver.Rule.Set
import DepSolver.Search.Decisions

/-!
# What to try next

When nothing is forced, the search tries something: a way to satisfy the first rule that is neither
satisfied nor satisfied by leaving packages out; then a recommendation of a package about to be
installed; then, for installed packages that no rule speaks of, to leave them alone. A `Choice`
lists the alternatives in the order in which they are tried, and says whether they have one.
-/

namespace DepSolver

/-- A search problem: rules over the packages of a universe. -/
structure Search where
  world : Universe
  flags : SolverFlags
  rules : RuleSet

/-- Alternatives, each a row of literals to decide together. -/
structure Choice where
  /-- What is tried first. -/
  first : List Literal
  /-- What is tried if that fails. -/
  others : List (List Literal)
  reason : Reason
  /-- Whether the candidates could be put in order. -/
  ranked : Bool := true
deriving Repr

namespace Choice

/-- The choice between some alternatives, if there are any. -/
def ofAlternatives? (reason : Reason) (ranked : Bool) : List (List Literal) → Option Choice
  | [] => none
  | first :: others => some { first, others, reason, ranked }

end Choice

/-- How the candidates of a rule are ordered. Rules of installed packages list them in order. -/
def RuleClass.preference : RuleClass → Preference
  | job | best => .best
  | update | distUpgrade => .keep
  | package => .dependency

namespace Search

/-- The packages that could be added to satisfy a rule. There are none if the rule is satisfied, or
is satisfied by leaving an undecided package out. -/
def openCandidates (d : Decisions) (r : Rule) : List PackageId :=
  if r.literals.any fun l => d.satisfies l || (l < 0 && d.isUndecided l) then []
  else r.literals.filter fun l => 0 < l && d.isUndecided l

/-- The ways to satisfy a rule. -/
def ruleChoice? (s : Search) (d : Decisions) (r : Rule) : Option Choice :=
  let candidates := openCandidates d r
  if candidates.isEmpty then none
  else
    let preference := r.toClass.preference
    Choice.ofAlternatives? (.branch r.id) (s.world.ranks preference r.source candidates) <|
      (s.world.preferred preference r.source candidates).map fun id => [id]

/-- The ways to follow a recommendation of a package, or to decline all of them. There are none if
the recommendation is met, or if nothing is left to decide about it. -/
def recommendationChoice? (s : Search) (d : Decisions) (id : PackageId) (r : Relation) :
    Option Choice :=
  let providers := s.world.whatProvides r
  let undecided := providers.filter d.isUndecided
  if providers.any d.isPresent || undecided.isEmpty then none
  else
    -- to decline is the last alternative, so it is taken only if no provider will do
    Choice.ofAlternatives? .weakDep (s.world.ranks .dependency (some id) undecided) <|
      ((s.world.preferred .dependency (some id) undecided).map fun p => [p]) ++
        [undecided.map fun p => -p]

/-- The ways to follow the recommendations of a package that is about to be installed. -/
def packageChoice? (s : Search) (d : Decisions) (id : PackageId) : Option Choice :=
  if s.world.isInstalled id then none
  else (s.world.package? id).bind fun p => p.recommends.findSome? (s.recommendationChoice? d id)

/-- The first recommendation that is left to decide about. -/
def weakChoice? (s : Search) (d : Decisions) : Option Choice :=
  if s.flags.ignoreRecommended then none else d.present.findSome? (s.packageChoice? d)

/-- To leave alone the first undecided installed package, or else to drop it. -/
def keepChoice? (s : Search) (d : Decisions) : Option Choice :=
  (s.world.installedIds.find? d.isUndecided).map fun id =>
    { first := [id], others := [[-id]], reason := .keep }

/-- What to try next, if anything is left to decide. -/
def choice? (s : Search) (enabled : List Rule) (d : Decisions) : Option Choice :=
  match enabled.findSome? (s.ruleChoice? d) with
  | some c => some c
  | none =>
    match s.weakChoice? d with
    | some c => some c
    | none => s.keepChoice? d

end Search

end DepSolver
