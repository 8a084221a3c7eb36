import Mathlib.Data.List.SplitBy
import DepSolver.Proofs.Goal.Protection
import DepSolver.Proofs.Solution.Problems
import DepSolver.Proofs.Solution.Removal

/-!
# What limiting install-only packages does to everything else

When a solution keeps too many versions of an install-only package, its job is extended and solved
once more. The entries added install and erase install-only packages, and let every package go that
is not protected. So they change the rules of installed packages, and nothing else: requests stay,
relations between packages stay, and so do the rules of a distribution upgrade and those of
protected packages. What these rule out of a solution is out of the last one too.

The rule that keeps an installed package carries its update as well. With the package free to go the
rule is not made, and an update on which nothing else insists is lost.
-/

namespace DepSolver

/-- Whether a package provides an install-only name. -/
def Universe.providesInstallonly (u : Universe) (id : PackageId) : Bool :=
  u.installonly.any fun name => (u.whatProvides (.ofName name)).contains id

/-! ## The entries that limit -/

namespace Solution

variable {s : Solution} {e : JobEntry}

theorem mem_of_mem_installonlyGroups {kept group : List PackageId} {id : PackageId}
    (hgroup : group ∈ s.installonlyGroups kept) (hid : id ∈ group) : id ∈ kept := by
  have hmem : id ∈ (s.installonlyGroups kept).flatten := List.mem_flatten.mpr ⟨group, hgroup, hid⟩
  unfold installonlyGroups at hmem
  rw [List.flatten_splitBy, List.mem_reverse, mem_sortBy] at hmem
  exact hmem

/-- **Only install-only packages are limited**: each entry installs or erases one, and has no
modifiers. -/
theorem of_mem_limitEntries (he : e ∈ s.limitEntries) :
    (e.action = .install ∨ e.action = .erase) ∧ e.flags = {} ∧
      ∃ id, e.target = .package id ∧ s.world.providesInstallonly id = true := by
  unfold limitEntries at he
  dsimp only at he
  split at he
  · exact absurd he (by simp)
  · obtain ⟨name, hname, he⟩ := List.mem_flatMap.mp he
    unfold limitName at he
    dsimp only at he
    split at he
    · exact absurd he (by simp)
    · obtain ⟨group, hgroup, he⟩ := List.mem_flatMap.mp he
      have hprovides : ∀ id ∈ group, s.world.providesInstallonly id = true := by
        intro id hid
        have hmem := (List.mem_filter.mp (mem_of_mem_installonlyGroups hgroup hid)).1
        exact List.any_eq_true.mpr ⟨name, hname, List.contains_iff_mem.mpr hmem⟩
      unfold limitGroup at he
      split at he
      · exact absurd he (by simp)
      · rcases List.mem_append.mp he with he | he
        · obtain ⟨id, hid, rfl⟩ := List.mem_map.mp he
          exact ⟨.inl rfl, rfl, id, rfl, hprovides id (List.mem_of_mem_take hid)⟩
        · obtain ⟨id, hid, rfl⟩ := List.mem_map.mp he
          exact ⟨.inr rfl, rfl, id, rfl, hprovides id (List.mem_of_mem_drop hid)⟩

end Solution

theorem JobTarget.mem_resolve_package {u : Universe} {x id : PackageId} :
    x ∈ (JobTarget.package id).resolve u ↔ u.isConsidered id = true ∧ x = id := by
  unfold resolve
  dsimp only
  split
  · rename_i hid
    rw [List.mem_singleton, and_iff_right hid]
  · rename_i hid
    exact iff_of_false (by simp) fun h => hid h.1

namespace Goal

variable {g : Goal} {sf : SolverFlags} {job : Job} {e : JobEntry} {id : PackageId}

theorem of_mem_limiting (he : e ∈ g.limiting sf job) :
    (e.action = .install ∨ e.action = .erase) ∧
      ∃ id, e.target = .package id ∧ g.world.providesInstallonly id = true := by
  unfold limiting at he
  split at he
  · have h := Solution.of_mem_limitEntries he
    rw [world_solve] at h
    exact ⟨h.1, h.2.2⟩
  · exact absurd he (by simp)

theorem flags_of_mem_limiting (he : e ∈ g.limiting sf job) : e.flags = {} := by
  unfold limiting at he
  split at he
  · exact (Solution.of_mem_limitEntries he).2.1
  · exact absurd he (by simp)

/-- Every package that is not protected may go. -/
theorem mem_uninstallEntries : e ∈ g.uninstallEntries ↔
    ∃ id, (g.world.isInstalled id = true ∧ g.protectedSet.contains id = false) ∧
      e = { action := .allowUninstall, target := .package id } := by
  unfold uninstallEntries
  rw [List.mem_map]
  refine exists_congr fun id => ?_
  rw [List.mem_filter, Universe.mem_installedIds, Bool.and_eq_true, Bool.not_eq_true']
  refine ⟨fun h => ⟨⟨h.1.1, h.1.2.2⟩, h.2.symm⟩, fun h => ⟨⟨h.1.1, ?_, h.1.2⟩, h.2.symm⟩⟩
  exact Universe.isConsidered_of_isInstalled h.1.1

/-- What neither kind of entry says, the limited job says no more than the job. -/
theorem exists_mem_limitedJob {P : JobEntry → Prop} (hlimit : ∀ e ∈ g.limiting sf job, ¬P e)
    (huninstall : ∀ e ∈ g.uninstallEntries, ¬P e) :
    (∃ e ∈ g.limitedJob sf job, P e) ↔ ∃ e ∈ job, P e := by
  unfold limitedJob
  refine ⟨fun h => ?_, fun h => ?_⟩
  · obtain ⟨e, he, hP⟩ := h
    rcases List.mem_append.mp he with he | he
    · rcases List.mem_append.mp he with he | he
      · exact ⟨e, he, hP⟩
      · exact absurd hP (hlimit e he)
    · exact absurd hP (huninstall e he)
  · obtain ⟨e, he, hP⟩ := h
    exact ⟨e, List.mem_append_left _ (List.mem_append_left _ he), hP⟩

/-- The actions of the entries that limit. -/
theorem action_ne_of_mem (g : Goal) (sf : SolverFlags) (job : Job) {action : JobAction}
    (h : action ∉ [JobAction.install, .erase, .allowUninstall]) :
    (∀ e ∈ g.limiting sf job, e.action ≠ action) ∧
      ∀ e ∈ g.uninstallEntries, e.action ≠ action := by
  refine ⟨fun e he heq => h ?_, fun e he heq => h ?_⟩
  · rw [← heq]
    rcases (of_mem_limiting he).1 with hact | hact <;> simp [hact]
  · obtain ⟨x, -, rfl⟩ := mem_uninstallEntries.mp he
    rw [← heq]
    simp

/-! ## What the limited job says about packages -/

theorem candidatesOf_limitedJob {action : JobAction}
    (h : action ∉ [JobAction.install, .erase, .allowUninstall]) :
    (g.limitedJob sf job).candidatesOf g.world action = job.candidatesOf g.world action := by
  obtain ⟨hlimit, huninstall⟩ := action_ne_of_mem g sf job h
  have happend : ∀ a b : Job, (a ++ b).candidatesOf g.world action =
      a.candidatesOf g.world action ++ b.candidatesOf g.world action := by
    intro a b
    unfold Job.candidatesOf
    rw [List.filter_append, List.map_append]
  unfold limitedJob
  rw [happend, happend, candidatesOf_eq_nil hlimit, candidatesOf_eq_nil huninstall,
    List.append_nil, List.append_nil]

/-- The setting of the job, told by that of the limited job. -/
theorem setting_eq (g : Goal) (sf : SolverFlags) (job : Job) :
    Setting.ofJob g.world sf job =
      (Setting.ofJob g.world sf (g.limitedJob sf job)).withJob job (.ofJob g.world job) := by
  unfold Setting.ofJob Setting.withJob
  rw [candidatesOf_limitedJob (by decide), candidatesOf_limitedJob (by decide)]

/-- **Limiting says nothing about the relations between packages.** -/
theorem relates_limitedJob (g : Goal) (sf : SolverFlags) (job : Job) :
    (Setting.ofJob g.world sf (g.limitedJob sf job)).Relates (.ofJob g.world job) := by
  have hlimited := JobContext.gathers_ofJob g.world (g.limitedJob sf job)
  have hjob := JobContext.gathers_ofJob g.world job
  have hverify : JobAction.verify ∉ [JobAction.install, .erase, .allowUninstall] := by decide
  have hmulti : JobAction.multiversion ∉ [JobAction.install, .erase, .allowUninstall] := by decide
  have hverify := action_ne_of_mem g sf job hverify
  have hmulti := action_ne_of_mem g sf job hmulti
  refine ⟨Bool.eq_iff_iff.mpr ?_, fun id => Bool.eq_iff_iff.mpr ?_⟩
  · exact hjob.verify.trans ((exists_mem_limitedJob hverify.1 hverify.2).symm.trans
      hlimited.verify.symm)
  · refine (hjob.multiversion id).trans (Iff.trans ?_ (hlimited.multiversion id).symm)
    exact (exists_mem_limitedJob (fun e he h => hmulti.1 e he h.1)
      fun e he h => hmulti.2 e he h.1).symm

/-- What is not install-only is not erased for the limit, -/
theorem erase_limitedJob (hordinary : g.world.providesInstallonly id = false) :
    (JobContext.ofJob g.world (g.limitedJob sf job)).erase.contains id =
      (JobContext.ofJob g.world job).erase.contains id := by
  refine Bool.eq_iff_iff.mpr (((JobContext.gathers_ofJob _ _).erase id).trans
    (Iff.trans ?_ ((JobContext.gathers_ofJob _ _).erase id).symm))
  refine exists_mem_limitedJob (fun e he h => ?_) fun e he h => ?_
  · obtain ⟨x, htarget, hprovides⟩ := (of_mem_limiting he).2
    have hmem := h.1.2
    rw [htarget, JobTarget.mem_resolve_package] at hmem
    rw [hmem.2, hprovides] at hordinary
    exact absurd hordinary (by simp)
  · obtain ⟨x, -, rfl⟩ := mem_uninstallEntries.mp he
    exact absurd h.1.1 (by simp)

/-- and may go exactly if it might before, or is installed and not protected. -/
theorem allowUninstall_limitedJob :
    (JobContext.ofJob g.world (g.limitedJob sf job)).allowUninstall.contains id = true ↔
      (JobContext.ofJob g.world job).allowUninstall.contains id = true ∨
        (g.world.isInstalled id = true ∧ g.protectedSet.contains id = false) := by
  rw [(JobContext.gathers_ofJob _ _).allowUninstall, (JobContext.gathers_ofJob _ _).allowUninstall]
  unfold limitedJob
  refine ⟨fun h => ?_, fun h => ?_⟩
  · obtain ⟨e, he, hnames⟩ := h
    rcases List.mem_append.mp he with he | he
    · rcases List.mem_append.mp he with he | he
      · exact .inl ⟨e, he, hnames⟩
      · -- no entry of this action limits
        exact absurd hnames.1 fun hact => by
          rcases (of_mem_limiting he).1 with h | h <;> rw [hact] at h <;> exact absurd h (by decide)
    · obtain ⟨x, hx, rfl⟩ := mem_uninstallEntries.mp he
      obtain ⟨-, rfl⟩ := JobTarget.mem_resolve_package.mp hnames.2
      exact .inr hx
  · rcases h with h | h
    · obtain ⟨e, he, hnames⟩ := h
      exact ⟨e, List.mem_append_left _ (List.mem_append_left _ he), hnames⟩
    · refine ⟨_, List.mem_append_right _ (mem_uninstallEntries.mpr ⟨id, h, rfl⟩), rfl, ?_⟩
      exact JobTarget.mem_resolve_package.mpr ⟨Universe.isConsidered_of_isInstalled h.1, rfl⟩

/-- **A protected package keeps its rules**, if it is not install-only. -/
theorem installedRules_of_protected (hordinary : g.world.providesInstallonly id = false)
    (hprotected : g.protectedSet.contains id = true) (p : Package) :
    (Setting.ofJob g.world sf (g.limitedJob sf job)).installedRules id p =
      (Setting.ofJob g.world sf job).installedRules id p := by
  rw [setting_eq g sf job]
  refine ((relates_limitedJob g sf job).installedRules_eq p (erase_limitedJob hordinary).symm
    ?_).symm
  refine Bool.eq_iff_iff.mpr (allowUninstall_limitedJob.trans (or_iff_left ?_)).symm
  rw [hprotected]
  simp

/-! ## Rules that last -/

variable {p : Package} {r : Rule}

/-- **The rules that limiting leaves alone**: those of requests, those of installed packages that
are not install-only if they come of a distribution upgrade or the package is protected, and the
relations between packages. -/
def lastingRules (g : Goal) (s : Setting) : List Rule :=
  s.jobRules ++
    (s.world.installedIds.flatMap fun id =>
      match s.world.package? id with
      | some p => (s.installedRules id p).filter fun r =>
          !s.world.providesInstallonly id &&
            (r.toClass == .distUpgrade || g.protectedSet.contains id)
      | none => []) ++
    s.packageRules s.requested

theorem mem_jobRules_limitedJob (hr : r ∈ (Setting.ofJob g.world sf job).jobRules) :
    r ∈ (Setting.ofJob g.world sf (g.limitedJob sf job)).jobRules := by
  obtain ⟨q, hq, hr⟩ := List.mem_flatMap.mp hr
  refine List.mem_flatMap.mpr ⟨q, ?_, hr⟩
  have hjob : (Setting.ofJob g.world sf (g.limitedJob sf job)).job =
    job ++ g.limiting sf job ++ g.uninstallEntries := rfl
  rw [hjob, List.append_assoc, List.zipIdx_append]
  exact List.mem_append_left _ hq

/-- A rule of an installed package lasts if it comes of a distribution upgrade or the package is
protected. -/
theorem mem_installedRules_limitedJob (hordinary : g.world.providesInstallonly id = false)
    (hlasts : r.toClass = .distUpgrade ∨ g.protectedSet.contains id = true)
    (hr : r ∈ (Setting.ofJob g.world sf job).installedRules id p) :
    r ∈ (Setting.ofJob g.world sf (g.limitedJob sf job)).installedRules id p := by
  rcases hlasts with hclass | hprotected
  · rw [setting_eq] at hr
    refine Setting.mem_installedRules_of_withJob (fun herase => ?_) (fun hstays => ?_) hr
    · rw [← erase_limitedJob hordinary]
      exact herase
    · -- a rule that the package stays is of another class
      rcases Setting.toClass_of_mem_stayRules hstays with h | h <;>
        · rw [hclass] at h
          exact absurd h (by decide)
  · rw [← installedRules_of_protected hordinary hprotected] at hr
    exact hr

/-- **What satisfies the hard rules of the limited job satisfies those that last.** -/
theorem modelsHard_lastingRules {α : Assignment}
    (hα : α.ModelsHard (Setting.ofJob g.world sf (g.limitedJob sf job)).rules) :
    let s := Setting.ofJob g.world sf (g.limitedJob sf job)
    (α.restrict (s.visited s.requested)).ModelsHard
      (g.lastingRules (Setting.ofJob g.world sf job)) := by
  intro s r hr hhard
  unfold lastingRules at hr
  rcases List.mem_append.mp hr with hr | hr
  · rcases List.mem_append.mp hr with hr | hr
    · have hrequested := List.mem_append_left s.allInstalledRules (mem_jobRules_limitedJob hr)
      exact Setting.satisfies_restrict_of_mem_requested hα hrequested hhard
    · -- a rule of an installed package of which limiting says nothing
      obtain ⟨id, hid, hr⟩ := List.mem_flatMap.mp hr
      refine Setting.satisfies_restrict_of_mem_requested hα
        (List.mem_append_right _ (List.mem_flatMap.mpr ⟨id, hid, ?_⟩)) hhard
      have hworld : (Setting.ofJob g.world sf job).world = s.world := rfl
      rw [hworld] at hr
      cases hp : s.world.package? id with
      | none =>
          rw [hp] at hr
          exact absurd hr (by simp)
      | some p =>
          rw [hp] at hr
          obtain ⟨hr, hlasts⟩ := List.mem_filter.mp hr
          rw [Bool.and_eq_true, Bool.not_eq_true', Bool.or_eq_true, beq_iff_eq] at hlasts
          exact mem_installedRules_limitedJob hlasts.1 hlasts.2 hr
  · rw [setting_eq] at hr
    exact Setting.models_packageRules.mpr
      ((relates_limitedJob g sf job).consistent job (Setting.consistent_of_modelsHard hα) _) r hr

/-- So a package that these rules leave out is absent from the last solution. -/
theorem not_mem_present_of_lastingRules
    (hsolved : (solve g.world sf (g.limitedJob sf job)).isSolved = true)
    (hinstalled : g.world.isInstalled id = true)
    (hout : ∀ α : Assignment, α.ModelsHard (g.lastingRules (Setting.ofJob g.world sf job)) →
      α id = false) :
    id ∉ (solve g.world sf (g.limitedJob sf job)).decisions.present := by
  intro hpresent
  have hmodels := (RuleSet.represents_ofList _).modelsHard_iff.mp (modelsHard_of_isSolved hsolved)
  have habsent := hout _ (modelsHard_lastingRules hmodels)
  rw [Assignment.restrict_eq_true.mpr ⟨presence_of_mem_solve hsolved hpresent,
    Setting.visited_of_installed _ hinstalled⟩] at habsent
  exact absurd habsent (by simp)

/-- **A package that may go has no rule left.** Neither its update nor anything else that would ask
for it to stay or to be replaced is among the rules. -/
theorem installedRules_limitedJob (hp : g.world.package? id = some p)
    (hinstalled : g.world.isInstalled id = true) (hunprotected : g.protectedSet.contains id = false)
    (hsync : ¬job.Syncs g.world id p) (hversions : ¬job.KeepsVersions g.world id) :
    (Setting.ofJob g.world sf (g.limitedJob sf job)).installedRules id p = [] := by
  have hscopes : (Setting.ofJob g.world sf (g.limitedJob sf job)).distUpgradeScope id =
      (Setting.ofJob g.world sf job).distUpgradeScope id := by
    rw [setting_eq g sf job]
    rfl
  have huntouched : (Setting.ofJob g.world sf (g.limitedJob sf job)).distUpgradeScope id =
      .untouched := by
    rw [hscopes]
    exact Scope.eq_untouched fun htouched => hsync ((syncs_iff hp).mp htouched)
  have hmulti : (Setting.ofJob g.world sf
      (g.limitedJob sf job)).context.multiversion.contains id = false := by
    refine Bool.eq_false_iff.mpr fun h => hversions (multiversion_iff.mp ?_)
    exact ((relates_limitedJob g sf job).multiversion id).trans h
  have hallow : (Setting.ofJob g.world sf
      (g.limitedJob sf job)).context.allowUninstall.contains id = true :=
    allowUninstall_limitedJob.mpr (.inr ⟨hinstalled, hunprotected⟩)
  rw [Setting.installedRules_of_untouched huntouched, Setting.stayRules_of_allowed p hallow hmulti]
  exact ite_self []

theorem isSolved_of_outcome {s : Solution} {events : List GoalEvent}
    (h : (g.conclude s events).outcome = .ok ()) : s.isSolved = true := by
  refine Classical.byContradiction fun hnot => ?_
  unfold conclude at h
  dsimp only at h
  rw [if_neg hnot] at h
  cases h

/--
**What limiting install-only packages leaves of an upgrade.**

Let the first solve of a run succeed, let it be limited and solved again, and let the run succeed.
An installed package that the lasting rules of the first solve leave out is taken out by the
transaction: requests, relations between packages, distribution upgrades and the rules of protected
packages are not lost. A protected package that is not install-only has the rules it had, those of
its update among them. But of an installed package that is neither protected nor kept in several
versions nor spoken of by a distribution upgrade no rule is left at all. So whatever updates were
asked for, they have no say in whether it is replaced.
-/
theorem upgrade_after_limiting (g : Goal) (flags : GoalActions) (id : PackageId) (p : Package)
    (hlimited : (g.ready flags).limiting (g.runFlags flags) (g.runJob flags) ≠ [])
    (hok : (g.run flags).outcome = .ok ()) (hp : g.world.package? id = some p)
    (hinstalled : g.world.isInstalled id = true) :
    ((∀ α : Assignment, α.ModelsHard ((g.ready flags).lastingRules
        (Setting.ofJob g.world (g.runFlags flags) (g.runJob flags))) → α id = false) →
      ∃ t, (g.run flags).goal.transaction? = some t ∧
        ∃ step ∈ t.steps, step.id = id ∧ step.isIncoming = false) ∧
    (g.world.providesInstallonly id = false → (g.ready flags).protectedSet.contains id = true →
      (Setting.ofJob g.world (g.runFlags flags)
          ((g.ready flags).limitedJob (g.runFlags flags) (g.runJob flags))).installedRules id p =
        (Setting.ofJob g.world (g.runFlags flags) (g.runJob flags)).installedRules id p) ∧
    ((g.ready flags).protectedSet.contains id = false → ¬(g.runJob flags).Syncs g.world id p →
      ¬(g.runJob flags).KeepsVersions g.world id →
        (Setting.ofJob g.world (g.runFlags flags)
          ((g.ready flags).limitedJob (g.runFlags flags) (g.runJob flags))).installedRules id p =
            []) := by
  have hlast : (g.resolved flags).1 = solve (g.ready flags).world (g.runFlags flags)
      ((g.ready flags).limitedJob (g.runFlags flags) (g.runJob flags)) := by
    unfold resolved
    rw [fst_resolve, if_neg]
    rw [List.isEmpty_iff]
    exact hlimited
  rw [← world_ready g flags] at hp hinstalled ⊢
  refine ⟨fun hout => ?_, fun hordinary hprotected => installedRules_of_protected hordinary
    hprotected p, installedRules_limitedJob hp hinstalled⟩
  rw [run_eq] at hok
  have hsolved := isSolved_of_outcome hok
  have htransaction := ((g.ready flags).conclude_of_isSolved hsolved (g.resolved flags).2).2.1
  refine ⟨(g.resolved flags).1.transaction, ?_, ?_⟩
  · rw [run_eq]
    exact htransaction
  · rw [hlast] at hsolved ⊢
    have hunkept : ¬(solve (g.ready flags).world (g.runFlags flags) ((g.ready flags).limitedJob
        (g.runFlags flags) (g.runJob flags))).kept.contains id = true := by
      rw [kept_iff_of_isInstalled hsolved hinstalled]
      exact not_mem_present_of_lastingRules hsolved hinstalled hout
    unfold Solution.transaction
    rw [world_solve]
    exact Transaction.exists_step_out hinstalled (Bool.eq_false_iff.mpr hunkept)

/-- A goal that updates everything and insists on the newer `b`. One kernel is too many. -/
def crowded : Goal where
  world :=
    .ofCatalog
      { Catalog.ofSystem
          [plainPackage "kernel" "1" 0,
           plainPackage "kernel" "2" 0,
           plainPackage "a" "1" 0,
           plainPackage "b" "1" 0]
          [plainPackage "kernel" "3" 1,
           plainPackage "a" "2" 1,
           plainPackage "b" "2" 1] with
        installonly := ["kernel"]
        installonlyLimit := 2 }
  staged :=
    [{ action := .update, target := .all }, { action := .install, target := .package 7 }]

/-- Of the two upgrades of the first solve one is left: `b` is replaced, `a` is not. -/
theorem upgrade_after_limiting_crowded :
    (∀ id ∈ [3, 4], crowded.world.providesInstallonly id = false ∧
      ∃ step ∈ (solve crowded.world (crowded.runFlags {}) (crowded.runJob {})).transaction.steps,
        step.id = id ∧ step.kind = .replaced .upgrade) ∧
    (crowded.ready {}).limiting (crowded.runFlags {}) (crowded.runJob {}) ≠ [] ∧
    (crowded.run {}).outcome = .ok () ∧
    (∃ t, (crowded.run {}).goal.transaction? = some t ∧
      (∃ step ∈ t.steps, step.id = 4 ∧ step.isIncoming = false) ∧
      ∀ step ∈ t.steps, step.id ≠ 3) ∧
    (Setting.ofJob crowded.world (crowded.runFlags {})
      ((crowded.ready {}).limitedJob (crowded.runFlags {}) (crowded.runJob {}))).installedRules 3
        (plainPackage "a" "1" 0) = [] := by
  have hfirst : ∀ id ∈ [3, 4], crowded.world.providesInstallonly id = false ∧
      ∃ step ∈ (solve crowded.world (crowded.runFlags {}) (crowded.runJob {})).transaction.steps,
        step.id = id ∧ step.kind = .replaced .upgrade := by
    decide +kernel
  have hlimited : (crowded.ready {}).limiting (crowded.runFlags {}) (crowded.runJob {}) ≠ [] := by
    decide +kernel
  have hok : (crowded.run {}).outcome = .ok () := by
    decide +kernel
  have hpackage : crowded.world.package? 3 = some (plainPackage "a" "1" 0) := by decide +kernel
  have hsync : ¬(crowded.runJob {}).Syncs crowded.world 3 (plainPackage "a" "1" 0) := by
    have huntouched : ((Setting.ofJob crowded.world (crowded.runFlags {})
        (crowded.runJob {})).distUpgradeScope 3).isTouched = false := by
      decide +kernel
    exact fun h => Bool.eq_false_iff.mp huntouched ((syncs_iff hpackage).mpr h)
  have hversions : ¬(crowded.runJob {}).KeepsVersions crowded.world 3 := by
    have hmulti : (JobContext.ofJob crowded.world (crowded.runJob {})).multiversion.contains 3 =
        false := by
      decide +kernel
    exact fun h => Bool.eq_false_iff.mp hmulti (multiversion_iff.mpr h)
  have hsilent := (upgrade_after_limiting crowded {} 3 _ hlimited hok hpackage
    (by decide +kernel)).2.2 (by decide +kernel) hsync hversions
  have hforced := (upgrade_after_limiting crowded {} 4 (plainPackage "b" "1" 0) hlimited hok
    (by decide +kernel) (by decide +kernel)).1
  -- the newer `b` is wanted, and the older one is in its way
  have hwanted : ∃ r ∈ (crowded.ready {}).lastingRules
      (Setting.ofJob crowded.world (crowded.runFlags {}) (crowded.runJob {})),
      r.weak = false ∧ r.literals = [7] := by
    decide +kernel
  have hinTheWay : ∃ r ∈ (crowded.ready {}).lastingRules
      (Setting.ofJob crowded.world (crowded.runFlags {}) (crowded.runJob {})),
      r.weak = false ∧ r.literals = [-4, -7] := by
    decide +kernel
  have hout : ∀ α : Assignment, α.ModelsHard ((crowded.ready {}).lastingRules
      (Setting.ofJob crowded.world (crowded.runFlags {}) (crowded.runJob {}))) → α 4 = false := by
    intro α hα
    obtain ⟨r, hr, hhard, hliterals⟩ := hwanted
    have hnew := hα r hr hhard
    obtain ⟨r', hr', hhard', hliterals'⟩ := hinTheWay
    have hexcludes := hα r' hr' hhard'
    unfold Assignment.satisfies at hnew hexcludes
    rw [hliterals] at hnew
    rw [hliterals'] at hexcludes
    have hpresent : α 7 = true := by simpa [Assignment.holds] using hnew
    simpa [Assignment.holds, hpresent] using hexcludes
  obtain ⟨t, ht, hgoes⟩ := hforced hout
  have hstays : (crowded.run {}).goal.transaction?.all
      (fun t => decide (∀ step ∈ t.steps, step.id ≠ 3)) = true := by
    decide +kernel
  rw [ht] at hstays
  exact ⟨hfirst, hlimited, hok, ⟨t, ht, hgoes, of_decide_eq_true hstays⟩, hsilent⟩

end Goal

end DepSolver
