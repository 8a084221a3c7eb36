import DepSolver.Job

/-!
# What a job says about packages

A job does two things: some of its entries become rules, and all of them mark packages for special
treatment. The marks are gathered here, in a `JobContext` and in the `Scope` of each installed
package: how far the job lets it move.
-/

namespace DepSolver

/-- Switches that decide which rules are made. -/
structure SolverFlags where
  /-- Installed packages may be replaced by older ones. -/
  allowDowngrade : Bool := false
  /-- Installed packages may be replaced by those of another vendor. -/
  allowVendorChange : Bool := false
  /-- A distribution upgrade keeps what no repository replaces. -/
  keepOrphans : Bool := false
  /-- The best candidates of an installed name keep to its architecture. -/
  bestObeyPolicy : Bool := false
  /-- What obsoletes an installed package may replace it whatever its architecture. -/
  yumObsoletes : Bool := false
  /-- Recommendations are not followed. -/
  ignoreRecommended : Bool := false
deriving DecidableEq, Repr, Inhabited

/-- The packages a job marks for special treatment. -/
structure JobContext where
  /-- Versions of these may be installed side by side. -/
  multiversion : PackageSet := .empty
  /-- These may be removed without being asked for. -/
  allowUninstall : PackageSet := .empty
  /-- These were installed because a user wanted them. -/
  userInstalled : PackageSet := .empty
  /-- The installed packages to be erased together with what they pulled in. -/
  cleandeps : PackageSet := .empty
  /-- The installed packages to be erased. -/
  erase : PackageSet := .empty
  /-- Whether what is installed has to be consistent. -/
  verify : Bool := false
deriving Inhabited

namespace JobContext

/-- The marks of one more entry. -/
def mark (u : Universe) (c : JobContext) (e : JobEntry) : JobContext :=
  let candidates := e.target.resolve u
  match e.action with
  | .multiversion => { c with multiversion := c.multiversion.insertMany candidates }
  | .allowUninstall => { c with allowUninstall := c.allowUninstall.insertMany candidates }
  | .userInstalled => { c with userInstalled := c.userInstalled.insertMany candidates }
  | .verify => { c with verify := true }
  | .erase =>
    let erased := candidates.filter u.isInstalled
    { c with
      erase := c.erase.insertMany erased
      cleandeps :=
        if e.flags.contains .cleandeps then c.cleandeps.insertMany erased else c.cleandeps }
  | .install | .update | .distUpgrade => c

def ofJob (u : Universe) (job : Job) : JobContext := job.foldl (mark u) {}

end JobContext

/-- How far an installed package may move. -/
inductive Scope where
  /-- No entry speaks of the package. -/
  | untouched
  /-- To any candidate. -/
  | anywhere
  /-- To some candidates only. -/
  | within (candidates : PackageSet)
deriving BEq, Repr

namespace Scope

/-- What two entries allow together. -/
def merge : Scope → Scope → Scope
  | untouched, s => s
  | s, untouched => s
  | within a, within b => within (a.union b)
  | _, _ => anywhere

def allows : Scope → PackageId → Bool
  | untouched, _ => false
  | anywhere, _ => true
  | within candidates, id => candidates.contains id

/-- Whether some entry speaks of the package. -/
def isTouched : Scope → Bool
  | untouched => false
  | _ => true

/-- The scope that the candidates of one entry give to an installed package. An installed candidate
may move anywhere; an available one is what other installed packages of its name may move to. -/
def ofCandidates (u : Universe) (candidates : List PackageId) (id : PackageId) : Scope :=
  if candidates.contains id then anywhere
  else
    let available := candidates.filter fun c =>
      !u.isInstalled c && (u.package? c).any fun q => (u.package? id).any fun p => p.name == q.name
    if available.isEmpty then untouched else within (PackageSet.ofList available)

end Scope

/-- The entries of one action, as their flags and candidates. -/
def Job.candidatesOf (job : Job) (u : Universe) (action : JobAction) :
    List (JobFlags × List PackageId) :=
  (job.filter fun e => e.action == action).map fun e => (e.flags, e.target.resolve u)

/-- The scope that several entries give to an installed package. -/
def Scope.ofEntries (u : Universe) (entries : List (JobFlags × List PackageId)) (id : PackageId) :
    Scope :=
  entries.foldl (fun s e => s.merge (Scope.ofCandidates u e.2 id)) untouched

end DepSolver
