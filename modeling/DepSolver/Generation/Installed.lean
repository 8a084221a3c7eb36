import DepSolver.Generation.Setting
import DepSolver.Rule.Basic

/-!
# Rules for installed packages

An installed package gets a rule that it stays or is replaced. Which packages may replace it, and
in which order they are tried, depends on what the job asks for: without an update the installed
package comes first, with an update the newer ones do, and a distribution upgrade offers whatever
the repositories hold. `Setting.ranksAll` tells whether candidates have such an order.
-/

namespace DepSolver

namespace Setting

def availableByName (s : Setting) (name : String) : List PackageId :=
  (s.world.packagesByName name).filter fun id => !s.world.isInstalled id

/-- The available packages that obsolete a package. -/
def obsoleters (s : Setting) (p : Package) : List PackageId :=
  s.world.considered.toList.filter fun id =>
    !s.world.isInstalled id && (s.world.package? id).any fun q => q.obsoletesPackage p

/-- Whether a package of the same name may take the place of an installed one. -/
def mayReplace (s : Setting) (candidate p : Package) : Bool :=
  candidate.archCompatible p
    && (s.flags.allowDowngrade || candidate.evr.compare p.evr != .lt)
    && (s.flags.allowVendorChange || candidate.vendor == p.vendor)

/-- The available packages that may replace an installed one. -/
def replacing (s : Setting) (p : Package) : List PackageId :=
  let u := s.world
  let sameName :=
    (s.availableByName p.name).filter fun id => (u.package? id).any (s.mayReplace · p)
  let obsoleting := (s.obsoleters p).filter fun id =>
    s.flags.yumObsoletes || (u.package? id).any (·.archCompatible p)
  sameName ++ obsoleting

/-- The available packages that may replace an installed one, the preferred ones first. -/
def replacements (s : Setting) (p : Package) : List PackageId :=
  s.world.preferred .best none (s.replacing p)

/-- Whether a candidate counts as an upgrade of a package. -/
def isUpgradeOf (candidate p : Package) : Bool :=
  if candidate.name == p.name then candidate.evr.compare p.evr == .gt
  else candidate.obsoletesPackage p

/-- The available packages that a distribution upgrade may bring an installed one in line with. -/
def syncing (s : Setting) (p : Package) (scope : Scope) : List PackageId :=
  let sameName := (s.availableByName p.name).filter fun c =>
    scope.allows c && (s.world.package? c).any (·.archCompatible p)
  sameName ++ if scope == .anywhere then s.obsoleters p else []

/-- What a distribution upgrade brings an installed package in line with, the preferred ones first.
A package just like the installed one stands for it, so that nothing is installed anew. -/
def distUpgradeCandidates (s : Setting) (id : PackageId) (p : Package) (scope : Scope) :
    List PackageId :=
  -- several builds just like the installed one all stand for it
  Rule.distinct <| (s.world.preferred .best none (s.syncing p scope)).map fun c =>
    if (s.world.package? c).any (·.sameNevra p) then id else c

/-- The available builds of a package that are newer than all the installed ones. -/
def newerBuilds (s : Setting) (p : Package) (scope : Scope) : List PackageId :=
  let u := s.world
  let siblings :=
    (((u.packagesByName p.name).filter u.isInstalled).filterMap u.package?).filter
      (·.archCompatible p)
  (s.availableByName p.name).filter fun c =>
    scope.allows c && (u.package? c).any fun q =>
      q.archCompatible p && (s.flags.allowVendorChange || q.vendor == p.vendor)
        && siblings.all fun sibling => q.evr.compare sibling.evr == .gt

/-- The rule by which an update of a package that is kept in several versions installs a build
newer than all the installed ones. The rule is weak: what cannot be installed leaves things as they
are. -/
def multiversionRules (s : Setting) (id : PackageId) (p : Package) (scope : Scope) : List Rule :=
  let newer := s.newerBuilds p scope
  if newer.isEmpty then []
  else
    let literals :=
      if s.wantsBest id then s.bestCandidates newer else s.world.preferred .best none newer
    [{ Rule.make .update literals with source := some id, weak := true }]

/-- The rules by which an installed package stays or is replaced. With an update asked for, newer
packages are tried before the installed one; otherwise the installed one comes first. -/
def keepRules (s : Setting) (id : PackageId) (p : Package) : List Rule :=
  let scope := s.updateScope id
  let replacements := s.replacements p
  if scope.isTouched then
    let newer := replacements.filter fun r =>
      scope.allows r && (s.world.package? r).any (isUpgradeOf · p)
    -- with nothing newer the best thing to do is to stay
    let best := if newer.isEmpty then [id] else s.bestCandidates newer
    let older := replacements.filter fun r => !newer.contains r
    (if s.wantsBest id then [{ Rule.make .best best with source := some id }] else []) ++
      [{ Rule.make .update (newer ++ id :: older) with source := some id }]
  else [{ Rule.make .update (id :: replacements) with source := some id }]

/-- The rules of an installed package that no distribution upgrade decides about. -/
def stayRules (s : Setting) (id : PackageId) (p : Package) : List Rule :=
  let scope := s.updateScope id
  let multiversion := s.context.multiversion.contains id
  (if multiversion && scope.isTouched then s.multiversionRules id p scope else []) ++
    if s.context.allowUninstall.contains id then []
    else if multiversion then [{ Rule.make .update [id] with source := some id }]
    else s.keepRules id p

/-- The rules of an installed package. One that is to be erased has none, and one that no repository
knows is dropped by a distribution upgrade unless orphans are kept. -/
def installedRules (s : Setting) (id : PackageId) (p : Package) : List Rule :=
  let scope := s.distUpgradeScope id
  let candidates := if scope.isTouched then s.distUpgradeCandidates id p scope else []
  if s.context.erase.contains id then []
  else if !candidates.isEmpty then [{ Rule.make .distUpgrade candidates with source := some id }]
  else if scope.isTouched && !s.flags.keepOrphans then
    [{ Rule.make .distUpgrade [-id] with source := some id }]
  else s.stayRules id p

def allInstalledRules (s : Setting) : List Rule :=
  s.world.installedIds.flatMap fun id =>
    match s.world.package? id with
    | some p => s.installedRules id p
    | none => []

/-! ## What is put in order for them -/

/-- The lists of candidates that are put in order for the rules by which a package stays. -/
def listsToStay (s : Setting) (id : PackageId) (p : Package) : List (List PackageId) :=
  let scope := s.updateScope id
  let multiversion := s.context.multiversion.contains id
  (if multiversion && scope.isTouched && !s.wantsBest id then [s.newerBuilds p scope] else []) ++
    if s.context.allowUninstall.contains id || multiversion then [] else [s.replacing p]

/-- The lists of candidates that are put in order for the rules of an installed package. -/
def listsOf (s : Setting) (id : PackageId) (p : Package) : List (List PackageId) :=
  let scope := s.distUpgradeScope id
  if s.context.erase.contains id then []
  else if scope.isTouched && !(s.syncing p scope).isEmpty then [s.syncing p scope]
  else if scope.isTouched && !s.flags.keepOrphans then []
  else s.listsToStay id p

/-- Whether all candidates can be put in order that the rules of installed packages speak of. -/
def ranksAll (s : Setting) : Bool :=
  s.world.installedIds.all fun id =>
    (s.world.package? id).all fun p => (s.listsOf id p).all (s.world.ranks .best none)

end Setting

end DepSolver
