import DepSolver.Order.Sort
import DepSolver.Universe.Basic

/-!
# Preferences among packages

Where several packages would do, they are tried in an order of preference: what is installed before
what is not, then repositories of lower priority values, then newer versions, then lower numbers.
`ranks` tells whether that puts them in an order at all. `bestCandidates` keeps, of every name, only
the packages of the top rank.
-/

namespace DepSolver

/-- How the candidates of a rule are ordered before one of them is tried. -/
inductive Preference where
  /-- Candidates of a request: installed ones first, then by repository and version. -/
  | best
  /-- In the order in which the rule lists them. -/
  | keep
  /-- Providers of a dependency: as `best`, but those that suit the architecture of the package
  that needs them come before the others. -/
  | dependency
deriving DecidableEq, Repr

namespace Universe

/-- The order in which yes comes before no. -/
def yesFirst : Bool → Bool → Ordering
  | true, false => .lt
  | false, true => .gt
  | _, _ => .eq

/-- The order of versions, newest first. Numbers without a package are ranked equal. -/
def compareNewest (u : Universe) (a b : PackageId) : Ordering :=
  match u.package? a, u.package? b with
  | some p, some q => q.evr.compare p.evr
  | _, _ => .eq

/-- The order by repository priority, then by version with the newest first, then by number. -/
def compareRank (u : Universe) (a b : PackageId) : Ordering :=
  ((compare (u.priority a) (u.priority b)).then (u.compareNewest a b)).then (compare a b)

/-- Whether a package is built for an architecture, or for all of them. -/
def suitsArch (u : Universe) (arch : String) (id : PackageId) : Bool :=
  (u.package? id).any fun p => p.arch == arch || p.isNoarch

/-- The order in which candidates are preferred, given the architecture they should suit. -/
def comparePreferred (u : Universe) (arch : Option String) (a b : PackageId) : Ordering :=
  ((yesFirst (u.isInstalled a) (u.isInstalled b)).then <|
    match arch with
    | some arch => yesFirst (u.suitsArch arch a) (u.suitsArch arch b)
    | none => .eq).then (u.compareRank a b)

/-- The comparison by which candidates are put in order of preference, unless they keep the order in
which they come. The source is the package that needs one of them. -/
def comparing? (u : Universe) (preference : Preference) (source : Option PackageId) :
    Option (PackageId → PackageId → Ordering) :=
  match preference with
  | .keep => none
  | .best => some (u.comparePreferred none)
  | .dependency => some (u.comparePreferred ((source.bind u.package?).map (·.arch)))

/-- Candidates in order of preference. -/
def preferred (u : Universe) (preference : Preference) (source : Option PackageId)
    (candidates : List PackageId) : List PackageId :=
  match u.comparing? preference source with
  | none => candidates
  | some cmp => sortBy cmp candidates

/-- Whether candidates can be put in order of preference. Versions are not ordered where one without
a release stands beside two that differ in theirs: it compares equal to both. -/
def ranks (u : Universe) (preference : Preference) (source : Option PackageId)
    (candidates : List PackageId) : Bool :=
  (u.comparing? preference source).all fun cmp => sorts cmp candidates

/-- The candidates of one name whose architecture is already installed under that name, if there
are any; otherwise all of them. A noarch package fits everything. -/
def keepInstalledArch (u : Universe) (name : String) (group : List PackageId) : List PackageId :=
  let archs := ((u.installedIds.filterMap u.package?).filter fun p => p.name == name).map (·.arch)
  let matching := group.filter fun id =>
    (u.package? id).any fun p =>
      p.isNoarch || archs.any fun arch => arch == p.arch || arch == "noarch"
  if archs.isEmpty || matching.isEmpty then group else matching

/-- The members of a group that share the top rank in priority and version. -/
def topRank (u : Universe) (group : List PackageId) : List PackageId :=
  match leastBy? u.compareRank group with
  | none => []
  | some top =>
    group.filter fun id =>
      u.priority id == u.priority top && (u.package? id).any fun p =>
        (u.package? top).any fun q => p.evr.compare q.evr == .eq

/-- The best candidates of every name, in the order of the candidates. With `keepArch`, a name that
is installed keeps to its architecture. -/
def bestCandidates (u : Universe) (keepArch : Bool) (candidates : List PackageId) :
    List PackageId :=
  candidates.filter fun id =>
    (u.package? id).any fun p =>
      let group := candidates.filter fun c => (u.package? c).any fun q => q.name == p.name
      (u.topRank (if keepArch then u.keepInstalledArch p.name group else group)).contains id

end Universe

end DepSolver
