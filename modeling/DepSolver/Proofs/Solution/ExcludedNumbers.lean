import Mathlib.Data.List.Basic
import DepSolver.Proofs.Search.MinimalCore
import DepSolver.Proofs.Solution.Verdict
import DepSolver.Stored.Testcase

/-!
# Excluded numbers that a solve overlooks

What is excluded matters to a solve only through the index: the excluded packages are missing from
it. Numbers that name no package may be excluded as well, and nothing asks for them. So two universes
whose indexes agree are solved alike, whichever numbers they exclude.

Most of what is computed over a universe never gets to see the excluded numbers, so that it is the
same by computation. Where a recursion stands in the way, an induction takes each step apart.
-/

namespace DepSolver

/-- The index depends on what is excluded among the packages. -/
theorem Index.build_excludes {c : Catalog} {excludes : PackageSet}
    (h : ∀ id ∈ c.ids, excludes.contains id = c.excludes.contains id) :
    build { c with excludes } = build c := by
  have hstep : ∀ (index : Index) (q : PackageId × Package), q ∈ c.numbered →
      addPackage { c with excludes } index q.1 q.2 = addPackage c index q.1 q.2 := by
    intro index q hq
    have hid := Catalog.mem_ids.mpr ⟨q.2, Catalog.mem_numbered.mp hq⟩
    unfold addPackage
    dsimp only
    rw [h q.1 hid]
  have hindex := List.foldl_ext
    (fun index (q : PackageId × Package) => addPackage { c with excludes } index q.1 q.2)
    (fun index q => addPackage c index q.1 q.2) {} hstep
  have hnumbered : ({ c with excludes } : Catalog).numbered = c.numbered := rfl
  unfold build
  rw [hnumbered, hindex]
  rfl

namespace Universe

/-- A universe is its catalog, whenever its index was built. -/
theorem eq_of_toCatalog {u v : Universe} (h : u.toCatalog = v.toCatalog) : u = v := by
  obtain ⟨c, index, hindex⟩ := u
  obtain ⟨c', index', hindex'⟩ := v
  dsimp only at h
  subst h
  obtain rfl := Thunk.ext (hindex.trans hindex'.symm)
  rfl

variable {u : Universe} {excludes : PackageSet}

/-- The universe with other numbers excluded, which its index does not tell apart. -/
def withExcludes (u : Universe) (excludes : PackageSet)
    (h : Index.build { u.toCatalog with excludes } = Index.build u.toCatalog) : Universe :=
  { u with excludes, index_get := u.index_get.trans h.symm }

theorem ofCatalog_excludes
    (h : Index.build { u.toCatalog with excludes } = Index.build u.toCatalog) :
    ofCatalog { u.toCatalog with excludes } = u.withExcludes excludes h := eq_of_toCatalog rfl

theorem visit_withExcludes
    (h : Index.build { u.toCatalog with excludes } = Index.build u.toCatalog)
    (next : PackageId → List PackageId) (steps : Nat) :
    ∀ (seen : PackageSet) (queue : List PackageId),
      (u.withExcludes excludes h).visit next steps seen queue = u.visit next steps seen queue := by
  induction steps with
  | zero => exact fun _ _ => rfl
  | succ steps ih =>
      intro seen queue
      have hdrop : (queue.dropWhile fun id =>
          seen.contains id || ((u.withExcludes excludes h).package? id).isNone) =
            queue.dropWhile fun id => seen.contains id || (u.package? id).isNone := rfl
      unfold visit
      rw [hdrop]
      split
      · rfl
      · rw [ih]

end Universe

/-! ## The same rules -/

namespace Setting

variable {s : Setting} {excludes : PackageSet}

/-- The setting in which other numbers are excluded. -/
def withExcludes (s : Setting) (excludes : PackageSet)
    (h : Index.build { s.world.toCatalog with excludes } = Index.build s.world.toCatalog) :
    Setting := { s with world := s.world.withExcludes excludes h }

variable (h : Index.build { s.world.toCatalog with excludes } = Index.build s.world.toCatalog)

theorem sameNameRules_withExcludes (packages : List (PackageId × Package)) :
    (s.withExcludes excludes h).sameNameRules packages = s.sameNameRules packages := by
  induction packages with
  | nil => rfl
  | cons a later ih =>
      rw [sameNameRules, sameNameRules, ih]
      rfl

theorem rules_withExcludes : (s.withExcludes excludes h).rules = s.rules := by
  have hvisited : ∀ rules, (s.withExcludes excludes h).visited rules = s.visited rules :=
    fun rules => Universe.visit_withExcludes h _ _ _ _
  unfold rules packageRules
  dsimp only
  rw [hvisited, sameNameRules_withExcludes]
  rfl

/-- A job has the same setting but for the world it is set in. -/
theorem ofJob_withExcludes (flags : SolverFlags) (job : Job) {world : Universe}
    (h : Index.build { world.toCatalog with excludes } = Index.build world.toCatalog) :
    Setting.ofJob (world.withExcludes excludes h) flags job =
      (Setting.ofJob world flags job).withExcludes excludes h := rfl

/-! ## The same search -/

/-- A search makes its choices from what the index lists. -/
theorem rounds_withExcludes (rules : RuleSet) (enabled : List Rule) (room rounds : Nat) :
    ∀ st : SearchState,
      ((s.withExcludes excludes h).search rules).rounds enabled room rounds st =
        (s.search rules).rounds enabled room rounds st := by
  induction rounds with
  | zero => exact fun _ => rfl
  | succ rounds ih =>
      intro st
      have hrules : ((s.withExcludes excludes h).search rules).rules = (s.search rules).rules := rfl
      have hchoice :
          ((s.withExcludes excludes h).search rules).choice? = (s.search rules).choice? := rfl
      rw [Search.rounds_succ, Search.rounds_succ, hrules, hchoice]
      simp only [ih]

theorem run_withExcludes (rules : RuleSet) :
    ((s.withExcludes excludes h).search rules).run = (s.search rules).run := by
  unfold Search.run
  simp only [rounds_withExcludes]
  rfl

theorem tryDrops_withExcludes : ∀ (ids : List Nat) (rules : RuleSet) (core : List Nat),
    (((s.withExcludes excludes h).search rules).tryDrops core ids).2 =
      ((s.search rules).tryDrops core ids).2
  | [], _, _ => rfl
  | id :: ids, rules, core => by
      have hwithout : ((s.withExcludes excludes h).search rules).without id =
          (s.withExcludes excludes h).search (rules.disable id) := rfl
      have hwithout' : (s.search rules).without id = s.search (rules.disable id) := rfl
      rw [Search.tryDrops_cons, Search.tryDrops_cons, hwithout, hwithout', run_withExcludes]
      by_cases hmissed : (s.search (rules.disable id)).run.isSatisfied
      · rw [if_pos hmissed, if_pos hmissed]
        exact tryDrops_withExcludes ids rules (id :: core)
      · rw [if_neg hmissed, if_neg hmissed]
        exact tryDrops_withExcludes ids (rules.disable id) core

theorem minimalCore_withExcludes (rules : RuleSet) :
    ((s.withExcludes excludes h).search rules).minimalCore = (s.search rules).minimalCore := by
  have hdrops := tryDrops_withExcludes h (s.search rules).dropOrder rules []
  exact congrArg (fun core : List Nat => rules.enabledIds.filter fun id => core.contains id) hdrops

theorem settle_withExcludes (passes : Nat) : ∀ (problems : List Problem) (rules : RuleSet),
    Search.settle passes problems ((s.withExcludes excludes h).search rules) =
      Search.settle passes problems (s.search rules) := by
  induction passes with
  | zero => exact fun _ _ => rfl
  | succ passes ih =>
      intro problems rules
      have hnext : ∀ id, ((s.withExcludes excludes h).search rules).without id =
          (s.withExcludes excludes h).search (rules.disable id) := fun _ => rfl
      unfold Search.settle
      rw [run_withExcludes, minimalCore_withExcludes]
      simp only [hnext, ih]
      rfl

end Setting

/-! ## The same solution -/

namespace Solution

variable {excludes : PackageSet} {world : Universe}

/-- The solution as that of another job in another world. -/
def retold (s : Solution) (world : Universe) (job : Job) : Solution := { s with world, job }

variable (h : Index.build { world.toCatalog with excludes } = Index.build world.toCatalog)

theorem eraseLeftBehind_retold (job : Job) (left : Nat) : ∀ (erased : PackageSet) (s : Solution),
    s.world = world → eraseLeftBehind left erased (s.retold (world.withExcludes excludes h) job) =
      (eraseLeftBehind left erased s).retold (world.withExcludes excludes h) job := by
  induction left with
  | zero => exact fun _ _ _ => rfl
  | succ left ih =>
      intro erased s hworld
      subst hworld
      have hleft : (s.retold (s.world.withExcludes excludes h) job).isLeftBehind erased =
        s.isLeftBehind erased := rfl
      have hpresent : (s.retold (s.world.withExcludes excludes h) job).decisions.present =
        s.decisions.present := rfl
      unfold eraseLeftBehind
      rw [hleft, hpresent]
      cases hfind : s.decisions.present.find? (s.isLeftBehind erased) with
      | none => rfl
      | some id =>
          exact ih (erased.insert id) { s with decisions := s.decisions.override (-id) .cleanDeps }
            rfl

/-- Cleaning up looks neither at excluded numbers nor at the job. -/
theorem cleanUp_retold (job : Job) {s : Solution} (hworld : s.world = world) :
    (s.retold (world.withExcludes excludes h) job).cleanUp =
      s.cleanUp.retold (world.withExcludes excludes h) job := by
  have herase := eraseLeftBehind_retold h job s.decisions.present.length s.context.cleandeps s
    hworld
  unfold cleanUp
  show (if s.context.cleandeps.isEmpty then _ else _) = _
  split
  · rfl
  · exact herase

/-- Nor does the record of a solution. -/
theorem result_retold (job : Job) {s : Solution} (hworld : s.world = world) :
    (s.retold (world.withExcludes excludes h) job).result = s.result := by
  subst hworld
  rfl

end Solution

/-- **A solve overlooks which numbers are excluded**, as long as the index does. -/
theorem solve_withExcludes {world : Universe} {excludes : PackageSet} (flags : SolverFlags)
    (job : Job)
    (h : Index.build { world.toCatalog with excludes } = Index.build world.toCatalog) :
    solve (world.withExcludes excludes h) flags job =
      (solve world flags job).retold (world.withExcludes excludes h) job := by
  have hruleSet : (Setting.ofJob (world.withExcludes excludes h) flags job).ruleSet =
      (Setting.ofJob world flags job).ruleSet := by
    rw [Setting.ofJob_withExcludes]
    exact congrArg RuleSet.ofList (Setting.rules_withExcludes h)
  have huncleaned : uncleaned (world.withExcludes excludes h) flags job =
      (uncleaned world flags job).retold (world.withExcludes excludes h) job := by
    have hsettle := Setting.settle_withExcludes (s := Setting.ofJob world flags job) h
      ((Setting.ofJob world flags job).ruleSet.size + 1) []
      (Setting.ofJob world flags job).ruleSet
    unfold uncleaned
    dsimp only
    rw [hruleSet, Setting.ofJob_withExcludes, hsettle]
    rfl
  have hsolved : (uncleaned (world.withExcludes excludes h) flags job).isSolved =
      (uncleaned world flags job).isSolved := by
    rw [huncleaned]
    rfl
  rw [solve_eq, solve_eq, hsolved]
  split
  · rw [huncleaned]
    exact Solution.cleanUp_retold h job rfl
  · exact huncleaned

end DepSolver
