import DepSolver.Proofs.Solution.BrokenSystem

/-!
# Updates have no say over packages that may go

The rule that keeps an installed package also carries the update of the package: newer packages are
tried before the installed one. An installed package that may go has no such rule, and so no rule of
an update either. When every package may go, a job of updates comes down to the same rules as a job
without them. It is solved, because it would do to keep nothing at all, and it updates nothing.

Packages kept in several versions are another matter: the rule of their update is made apart from
the rule that keeps them, whether or not they may go.
-/

namespace DepSolver

namespace Setting

variable {s t : Setting}

/-! ## What the rules of dependencies look at -/

/-- The rules of packages know nothing of the job but what it marks. -/
theorem packageRules_congr (hworld : s.world = t.world) (hflags : s.flags = t.flags)
    (hcontext : s.context = t.context) (rules : List Rule) :
    s.packageRules rules = t.packageRules rules := by
  obtain ⟨world, flags, job, context, updates, distUpgrades⟩ := s
  obtain ⟨world', flags', job', context', updates', distUpgrades'⟩ := t
  dsimp only at hworld hflags hcontext
  subst hworld hflags hcontext
  have hsame : ∀ packages : List (PackageId × Package),
      sameNameRules ⟨world, flags, job, context, updates, distUpgrades⟩ packages =
        sameNameRules ⟨world, flags, job', context, updates', distUpgrades'⟩ packages := by
    intro packages
    induction packages with
    | nil => rfl
    | cons a later ih =>
      rw [sameNameRules, sameNameRules, ih]
      rfl
  unfold packageRules
  dsimp only
  rw [hsame]
  rfl

/-- If nothing is present, every dependency is satisfied. -/
theorem consistent_absent (s : Setting) (visited : PackageId → Prop) :
    s.Consistent visited fun _ => false where
  requires _ _ hin := absurd hin (by simp)
  conflicts _ _ hin := absurd hin (by simp)
  sameName _ _ _ _ _ _ _ := .inl rfl
  obsoletes _ _ hin := absurd hin (by simp)

/-! ## Installed packages that may go -/

/-- **An installed package that may go has no rule**, unless it is kept in several versions. -/
theorem stayRules_of_allowed {id : PackageId} (p : Package)
    (hallow : s.context.allowUninstall.contains id = true)
    (hmulti : s.context.multiversion.contains id = false) : s.stayRules id p = [] := by
  unfold stayRules
  dsimp only
  rw [hmulti, hallow]
  rfl

/-- Whether every installed package may go. -/
structure LetsAllGo (s : Setting) : Prop where
  allowed : ∀ id ∈ s.world.installedIds, s.context.allowUninstall.contains id = true
  single : ∀ id, s.context.multiversion.contains id = false
  distUpgrades : s.distUpgrades = []
  requests : s.jobRules = []

theorem LetsAllGo.allInstalledRules (h : s.LetsAllGo) : s.allInstalledRules = [] := by
  refine List.flatMap_eq_nil_iff.mpr fun id hid => ?_
  cases s.world.package? id with
  | none => rfl
  | some p =>
      dsimp only
      rw [installedRules_of_untouched (distUpgradeScope_of_nil h.distUpgrades id),
        stayRules_of_allowed p (h.allowed id hid) (h.single id)]
      exact ite_self []

/-- Nothing has to be put in order for them. -/
theorem LetsAllGo.ranksAll (h : s.LetsAllGo) : s.ranksAll = true := by
  unfold Setting.ranksAll
  refine List.all_eq_true.mpr fun id hid => ?_
  cases s.world.package? id with
  | none => rfl
  | some p =>
      have hlists : s.listsOf id p = [] := by
        unfold listsOf listsToStay
        dsimp only
        rw [distUpgradeScope_of_nil h.distUpgrades id, h.allowed id hid, h.single id]
        exact ite_self []
      rw [Option.all_some, hlists]
      rfl

/-- **Only the rules of dependencies are left.** -/
theorem LetsAllGo.rules (h : s.LetsAllGo) : s.rules = s.packageRules [] := by
  rw [rules_eq, requested, h.requests, h.allInstalledRules]
  rfl

end Setting

/-! ## Updates and an entry that lets all packages go -/

variable {world : Universe} {flags : SolverFlags} {updates : Job}

/-- The entry that allows every package to go. -/
def allowAllEntry : JobEntry := { action := .allowUninstall, target := .all }

/-- Whether a job consists of updates. -/
def Job.OnlyUpdates (updates : Job) : Prop := ∀ e ∈ updates, e.action = .update

namespace Job.OnlyUpdates

theorem action_eq (h : updates.OnlyUpdates) {e : JobEntry} (he : e ∈ updates ++ [allowAllEntry]) :
    e.action = .update ∨ e.action = .allowUninstall := by
  rcases List.mem_append.mp he with he | he
  · exact .inl (h e he)
  · rw [List.mem_singleton.mp he]
    exact .inr rfl

theorem action_ne (h : updates.OnlyUpdates) {action : JobAction} (hupdate : action ≠ .update)
    (hallow : action ≠ .allowUninstall) :
    ∀ e ∈ updates ++ [allowAllEntry], e.action ≠ action := by
  intro e he heq
  rcases h.action_eq he with hact | hact
  · exact hupdate (heq.symm.trans hact)
  · exact hallow (heq.symm.trans hact)

theorem context_eq (h : updates.OnlyUpdates) :
    JobContext.ofJob world (updates ++ [allowAllEntry]) =
      JobContext.ofJob world [allowAllEntry] := by
  have hnone : ∀ (job : Job) (c : JobContext), job.OnlyUpdates →
      job.foldl (JobContext.mark world) c = c := by
    intro job
    -- an update marks nothing
    induction job with
    | nil => exact fun c _ => rfl
    | cons e job ih =>
      intro c hjob
      have hmark : JobContext.mark world c e = c := by
        unfold JobContext.mark
        rw [hjob e (List.mem_cons_self ..)]
      rw [List.foldl_cons, hmark]
      exact ih c fun x hx => hjob x (List.mem_cons_of_mem _ hx)
  unfold JobContext.ofJob
  rw [List.foldl_append, hnone updates {} h]

theorem letsAllGo (h : updates.OnlyUpdates) :
    (Setting.ofJob world flags (updates ++ [allowAllEntry])).LetsAllGo where
  allowed := by
    intro id hid
    have hconsidered : world.isConsidered id = true :=
      Universe.isConsidered_of_isInstalled (Universe.mem_installedIds.mp hid)
    refine ((JobContext.gathers_ofJob world _).allowUninstall id).mpr ⟨allowAllEntry, ?_, rfl, ?_⟩
    · exact List.mem_append_right _ (List.mem_singleton_self _)
    · exact Universe.mem_considered_toList.mpr hconsidered
  single := by
    intro id
    refine Bool.eq_false_iff.mpr fun hmulti => ?_
    obtain ⟨e, he, hact, -⟩ := ((JobContext.gathers_ofJob world _).multiversion id).mp hmulti
    exact h.action_ne (by decide) (by decide) e he hact
  distUpgrades := candidatesOf_eq_nil (h.action_ne (by decide) (by decide))
  requests := Setting.jobRules_eq_nil fun e he =>
    ⟨h.action_ne (by decide) (by decide) e he, h.action_ne (by decide) (by decide) e he⟩

/-- **The rules are those of a job without the updates.** -/
theorem rules_eq (h : updates.OnlyUpdates) :
    (Setting.ofJob world flags (updates ++ [allowAllEntry])).rules =
      (Setting.ofJob world flags [allowAllEntry]).rules := by
  have hnone : Job.OnlyUpdates [] := fun e he => absurd he (by simp)
  have halone : (Setting.ofJob world flags [allowAllEntry]).LetsAllGo := hnone.letsAllGo
  have hcontext : (Setting.ofJob world flags (updates ++ [allowAllEntry])).context =
      (Setting.ofJob world flags [allowAllEntry]).context := h.context_eq
  rw [h.letsAllGo.rules, halone.rules]
  refine Setting.packageRules_congr ?_ ?_ hcontext []
  · rfl
  · rfl

theorem ruleSet_eq (h : updates.OnlyUpdates) :
    (Setting.ofJob world flags (updates ++ [allowAllEntry])).ruleSet =
      (Setting.ofJob world flags [allowAllEntry]).ruleSet := congrArg RuleSet.ofList h.rules_eq

/-- The searches are the same, and nothing else has to be put in order. -/
theorem ranksJob_eq (h : updates.OnlyUpdates) :
    ranksJob world flags (updates ++ [allowAllEntry]) = ranksJob world flags [allowAllEntry] := by
  have hnone : Job.OnlyUpdates [] := fun e he => absurd he (by simp)
  have halone : (Setting.ofJob world flags [allowAllEntry]).LetsAllGo := hnone.letsAllGo
  have hsearches : solveSearches world flags (updates ++ [allowAllEntry]) =
      solveSearches world flags [allowAllEntry] := by
    unfold solveSearches
    dsimp only
    rw [h.ruleSet_eq]
    rfl
  unfold ranksJob
  rw [h.letsAllGo.ranksAll, halone.ranksAll, hsearches]

/-- **And so is what comes of them.** -/
theorem solve_eq (h : updates.OnlyUpdates) :
    solve world flags (updates ++ [allowAllEntry]) =
      { solve world flags [allowAllEntry] with job := updates ++ [allowAllEntry] } := by
  have hruleSet : (Setting.ofJob world flags (updates ++ [allowAllEntry])).ruleSet =
      (Setting.ofJob world flags [allowAllEntry]).ruleSet := h.ruleSet_eq
  have hcontext : (Setting.ofJob world flags (updates ++ [allowAllEntry])).context =
      (Setting.ofJob world flags [allowAllEntry]).context := h.context_eq
  -- neither job erases anything, so there is nothing to clean up after
  rw [solve_eq_uncleaned fun e he hact => absurd hact (h.action_ne (by decide) (by decide) e he),
    solve_eq_uncleaned fun e he hact => by
      rw [List.mem_singleton.mp he] at hact
      exact absurd hact (by decide)]
  unfold uncleaned
  dsimp only
  rw [hruleSet, hcontext]
  rfl

end Job.OnlyUpdates

/--
**When every package may go, updates have no say.**

Whatever a job of updates asks for, followed by an entry that lets all packages go it is answered as
that entry alone is. As long as no search runs out of rounds the answer is a solution. With fewer
packages than a search may take rounds, and no installed package that conflicts with itself, it is a
solution with an empty transaction: nothing is updated. Where versions are ordered there is an
answer.
-/
theorem updates_without_say (world : Universe) (flags : SolverFlags) (updates : Job)
    (hupdates : ∀ e ∈ updates, e.action = .update) :
    solve? world flags (updates ++ [allowAllEntry]) =
      (solve? world flags [allowAllEntry]).map
        (fun s => { s with job := updates ++ [allowAllEntry] }) ∧
    (∀ s, solve? world flags (updates ++ [allowAllEntry]) = some s →
      ((∀ t ∈ solveSearches world flags (updates ++ [allowAllEntry]), t.run.isExhausted = false) →
        s.isSolved = true) ∧
      (world.packages.size < 100000 →
        (∀ id ∈ world.installedIds, world.conflictsWithItself id = false) →
          s.isSolved = true ∧ s.transaction.steps = [])) ∧
    (world.OrdersVersions → (solve? world flags (updates ++ [allowAllEntry])).isSome = true) := by
  have honly : updates.OnlyUpdates := hupdates
  refine ⟨?_, fun s hs => ?_, fun h => isSome_solve?_of_ordersVersions h flags _⟩
  · unfold solve?
    rw [honly.ranksJob_eq, honly.solve_eq]
    cases ranksJob world flags [allowAllEntry] <;> rfl
  obtain ⟨-, rfl⟩ := solve?_eq_some.mp hs
  refine ⟨fun hx => ?_, fun hsize hself => ?_⟩
  · -- to leave out everything satisfies the rules that are left
    have habsent : Assignment.Models (fun _ => false)
        (Setting.ofJob world flags (updates ++ [allowAllEntry])).rules := by
      rw [honly.letsAllGo.rules]
      exact Setting.models_packageRules.mpr (Setting.consistent_absent _ _)
    have hmodels := (RuleSet.represents_ofList _).models_iff.mpr habsent
    have hhard : Assignment.ModelsHard (fun _ => false)
        (Setting.ofJob world flags (updates ++ [allowAllEntry])).ruleSet.toList :=
      fun r hr _ => hmodels r hr
    exact isSolved_of_modelsHard hx hhard
  · have hmarks : Job.OnlyMarks [allowAllEntry] := by
      intro e he
      rw [List.mem_singleton.mp he]
      decide
    obtain ⟨hsolved, hempty, -⟩ : LeavesAlone world flags [allowAllEntry] :=
      hmarks.leavesAlone hsize hself
    rw [honly.solve_eq]
    generalize solve world flags [allowAllEntry] = s at hsolved hempty ⊢
    exact ⟨hsolved, hempty⟩

/-- An installed package of which a newer version is available. -/
def outdated : Universe :=
  .ofCatalog <| .ofSystem
    [plainPackage "a" "1" 0]
    [plainPackage "a" "2" 1]

/-- The entry that updates every package. -/
def updateAllEntry : JobEntry := { action := .update, target := .all }

/-- The package is updated, but not if all packages may go. -/
theorem updates_without_say_outdated :
    (∃ s, solve? outdated {} [updateAllEntry] = some s ∧ s.isSolved = true ∧
      ∃ step ∈ s.transaction.steps, step.kind = .replace .upgrade) ∧
    ∃ s, solve? outdated {} [updateAllEntry, allowAllEntry] = some s ∧ s.isSolved = true ∧
      s.transaction.steps = [] := by
  have hself : ∀ id ∈ outdated.installedIds, outdated.conflictsWithItself id = false := by
    decide +kernel
  have hordered : outdated.OrdersVersions :=
    Universe.ordersVersions_of_hasRelease (by decide +kernel)
  constructor
  · obtain ⟨s, hs⟩ := Option.isSome_iff_exists.mp
      (isSome_solve?_of_ordersVersions hordered {} [updateAllEntry])
    refine ⟨s, hs, ?_⟩
    obtain ⟨-, rfl⟩ := solve?_eq_some.mp hs
    decide +kernel
  · obtain ⟨-, hanswer, hsome⟩ := updates_without_say outdated {} [updateAllEntry] (by decide)
    obtain ⟨s, hs⟩ := Option.isSome_iff_exists.mp (hsome hordered)
    exact ⟨s, hs, (hanswer s hs).2 (by decide) hself⟩

end DepSolver
