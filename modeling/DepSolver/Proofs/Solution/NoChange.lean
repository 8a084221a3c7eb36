import DepSolver.Proofs.Search.Persistence
import DepSolver.Proofs.Solution.Requests
import DepSolver.Proofs.Transaction.Changes
import DepSolver.Stored.Testcase

/-!
# Jobs that leave the installed packages alone

Without an update or a distribution upgrade, the rule of an installed package names the package
first. So if the packages as they are installed satisfy all rules of a job, the search can leave
them alone and does so; nothing is erased, so nothing is left behind; and the transaction is empty.
-/

namespace DepSolver

/-! ## Which rules list their candidates in order -/

namespace Setting

variable {s : Setting} {r : Rule} {rules : List Rule} {id : PackageId} {p : Package}

theorem toClass_of_mem_entryRules {e : JobEntry} (hr : r ∈ s.entryRules e) :
    r.toClass = .job ∨ r.toClass = .best := by
  unfold entryRules at hr
  split at hr
  · unfold installRules at hr
    dsimp only at hr
    split at hr
    · -- whatever is missing, its rule is one of a request
      have hkind : (s.missingKind e.target).toClass = .job := by
        unfold missingKind
        split
        · split <;> rfl
        all_goals rfl
      rw [List.mem_singleton.mp hr]
      exact .inl hkind
    · rcases List.mem_cons.mp hr with heq | hr
      · rw [heq]
        exact .inl rfl
      · split at hr
        · rw [List.mem_singleton.mp hr]
          exact .inr rfl
        · exact absurd hr (by simp)
  · obtain ⟨id, -, rfl⟩ := List.mem_map.mp hr
    exact .inl rfl
  · exact absurd hr (by simp)

theorem toClass_of_mem_jobRules (hr : r ∈ s.jobRules) : r.toClass = .job ∨ r.toClass = .best := by
  obtain ⟨q, -, hq⟩ := List.mem_flatMap.mp hr
  obtain ⟨r', hr', rfl⟩ := List.mem_map.mp hq
  exact toClass_of_mem_entryRules (r := r') hr'

theorem toClass_of_mem_dependencyRules (hr : r ∈ s.dependencyRules id) :
    r.toClass = .package := by
  unfold dependencyRules at hr
  split at hr
  · rcases List.mem_append.mp hr with hr | hr
    · obtain ⟨q, -, rfl⟩ := List.mem_map.mp hr
      split <;> rfl
    · obtain ⟨c, -, hr⟩ := List.mem_flatMap.mp hr
      obtain ⟨x, -, hr⟩ := List.mem_filterMap.mp hr
      split at hr
      · rw [← Option.some.inj hr]
        rfl
      · split at hr
        · exact absurd hr (by simp)
        · rw [← Option.some.inj hr]
          rfl
  · exact absurd hr (by simp)

theorem toClass_of_mem_sameNameRules : ∀ {packages : List (PackageId × Package)},
    r ∈ s.sameNameRules packages → r.toClass = .package
  | [], hr => absurd hr (by simp [sameNameRules])
  | a :: later, hr => by
      rcases List.mem_append.mp hr with hr | hr
      · obtain ⟨b, -, rfl⟩ := List.mem_map.mp hr
        rfl
      · exact toClass_of_mem_sameNameRules hr

theorem toClass_of_mem_packageRules (hr : r ∈ s.packageRules rules) : r.toClass = .package := by
  rcases List.mem_append.mp hr with hr | hr
  · rcases List.mem_append.mp hr with hr | hr
    · obtain ⟨id, -, hr⟩ := List.mem_flatMap.mp hr
      exact toClass_of_mem_dependencyRules hr
    · exact toClass_of_mem_sameNameRules hr
  · obtain ⟨a, -, hr⟩ := List.mem_flatMap.mp hr
    obtain ⟨o, -, hr⟩ := List.mem_flatMap.mp hr
    obtain ⟨x, -, rfl⟩ := List.mem_map.mp hr
    unfold Rule.obsoletes
    split <;> rfl

/-- So only rules of installed packages do. -/
theorem mem_allInstalledRules_of_preference (hr : r ∈ s.rules)
    (hkeep : r.toClass.preference = .keep) : r ∈ s.allInstalledRules := by
  rw [rules_eq, requested, List.append_assoc, List.mem_append, List.mem_append] at hr
  rcases hr with hr | hr | hr
  · rcases toClass_of_mem_jobRules hr with hclass | hclass <;>
      · rw [hclass] at hkeep
        exact absurd hkeep (by decide)
  · exact hr
  · rw [toClass_of_mem_packageRules hr] at hkeep
    exact absurd hkeep (by decide)

/-! ## Rules of installed packages without updates -/

/-- Without a distribution upgrade an installed package stays as far as updates allow. -/
theorem installedRules_of_untouched (h : s.distUpgradeScope id = .untouched) :
    s.installedRules id p = if s.context.erase.contains id then [] else s.stayRules id p := by
  unfold installedRules
  rw [h]
  rfl

theorem distUpgradeScope_of_nil (h : s.distUpgrades = []) (id : PackageId) :
    s.distUpgradeScope id = .untouched := by
  unfold distUpgradeScope
  rw [h]
  rfl

/-- Whether a setting asks for neither updates nor a distribution upgrade. -/
structure AsksForNoUpdate (s : Setting) : Prop where
  updates : s.updates = []
  distUpgrades : s.distUpgrades = []

theorem AsksForNoUpdate.updateScope (h : s.AsksForNoUpdate) (id : PackageId) :
    s.updateScope id = .untouched := by
  unfold Setting.updateScope
  rw [h.updates]
  rfl

theorem AsksForNoUpdate.keepRules (h : s.AsksForNoUpdate) (id : PackageId) (p : Package) :
    s.keepRules id p =
      [{ Rule.make .update (id :: s.replacements p) with source := some id }] := by
  unfold Setting.keepRules
  rw [h.updateScope]
  rfl

theorem AsksForNoUpdate.stayRules (h : s.AsksForNoUpdate) (id : PackageId) (p : Package) :
    s.stayRules id p =
      if s.context.allowUninstall.contains id then []
      else if s.context.multiversion.contains id then
        [{ Rule.make .update [id] with source := some id }]
      else [{ Rule.make .update (id :: s.replacements p) with source := some id }] := by
  have huntouched : (s.updateScope id).isTouched = false := by rw [h.updateScope]; rfl
  unfold Setting.stayRules
  dsimp only
  rw [h.keepRules, huntouched, Bool.and_false, if_neg Bool.false_ne_true, List.nil_append]

/-- **Without updates the rule of an installed package names the package first.** -/
theorem AsksForNoUpdate.first_of_mem_installedRules (h : s.AsksForNoUpdate)
    (hr : r ∈ s.installedRules id p) : ∃ rest, r.literals = id :: rest := by
  have hmake : ∀ rest, ∃ rest', (Rule.make .update (id :: rest)).literals = id :: rest' :=
    fun rest => ⟨_, rfl⟩
  rw [installedRules_of_untouched (distUpgradeScope_of_nil h.distUpgrades id), h.stayRules] at hr
  split at hr
  · exact absurd hr (by simp)
  · split at hr
    · exact absurd hr (by simp)
    · split at hr
      · rw [List.mem_singleton.mp hr]
        exact hmake []
      · rw [List.mem_singleton.mp hr]
        exact hmake (s.replacements p)

theorem AsksForNoUpdate.first_of_mem_allInstalledRules (h : s.AsksForNoUpdate)
    (hr : r ∈ s.allInstalledRules) :
    ∃ id rest, r.literals = id :: rest ∧ s.world.isInstalled id = true := by
  obtain ⟨id, hid, hr⟩ := List.mem_flatMap.mp hr
  split at hr
  · obtain ⟨rest, hlits⟩ := h.first_of_mem_installedRules hr
    exact ⟨id, rest, hlits, Universe.mem_installedIds.mp hid⟩
  · exact absurd hr (by simp)

/-- **Without updates a search is at rest** if the packages as they are satisfy the rules. -/
theorem AsksForNoUpdate.atRest (h : s.AsksForNoUpdate)
    (hmodels : s.world.asInstalled.Models s.rules) : (s.search s.ruleSet).AtRest where
  models r hr := (RuleSet.represents_ofList s.rules).models_iff.mpr hmodels r
    (mem_enabled_ruleSet.mp hr)
  first := by
    intro r hr hkeep
    obtain ⟨r', hr', hkey, hlits, -⟩ :=
      (RuleSet.represents_ofList s.rules).origin (mem_enabled_ruleSet.mp hr)
    have hclass : r'.toClass = r.toClass := by
      unfold Rule.toClass
      rw [(Rule.key_inj hkey).1]
    rw [← hclass] at hkeep
    rw [hlits]
    exact h.first_of_mem_allInstalledRules (mem_allInstalledRules_of_preference hr' hkeep)

end Setting

/-! ## What comes of the job -/

variable {world : Universe} {flags : SolverFlags} {job : Job}

/-- What is present in the end, and what is installed and undecided. -/
theorem Solution.kept_contains_iff {s : Solution} {id : PackageId} :
    s.kept.contains id = true ↔ (0 < id ∧ id ∈ s.decisions.present) ∨
      (s.world.isInstalled id = true ∧ s.decisions.isUndecided id = true) := by
  unfold kept
  rw [PackageSet.contains_insertMany, PackageSet.contains_ofList, List.mem_filter,
    Universe.mem_installedIds]
  refine or_congr_right (and_iff_right_of_imp fun h => ?_)
  exact Universe.pos_of_isInstalled h.1

theorem Solution.steps_eq_nil_of_present {s : Solution}
    (h : ∀ id, id ∈ s.decisions.present ↔ s.world.isInstalled id = true) :
    s.transaction.steps = [] := by
  refine Transaction.steps_eq_nil_iff.mpr fun id p hp => ?_
  rw [Solution.kept_contains_iff, h]
  refine ⟨?_, ?_⟩
  · intro hkept
    rcases hkept with hin | hundecided
    · exact hin.2
    · exact hundecided.1
  · intro hid
    exact .inl ⟨Universe.pos_of_isInstalled hid, hid⟩

theorem natAbs_mem_range_of_stays {s : Setting} {rules : List Rule} {l : Literal}
    (h : s.Stays rules l) : l.natAbs ∈ List.range' 1 s.world.packages.size := by
  obtain ⟨id, hid, hl⟩ := h.1
  have hrange := Catalog.natAbs_mem_range (Universe.mem_ids_of_isConsidered hid)
  rcases hl with hl | hl
  · rw [hl]
    exact hrange
  · rw [hl, Int.natAbs_neg]
    exact hrange

theorem candidatesOf_eq_nil {action : JobAction} (h : ∀ e ∈ job, e.action ≠ action) :
    job.candidatesOf world action = [] := by
  unfold Job.candidatesOf
  rw [List.filter_eq_nil_iff.mpr fun e he => by rw [beq_iff_eq]; exact h e he]
  rfl

/-- What is to be erased with what it pulled in is not installed, if the packages as they are
satisfy the rules. -/
theorem cleandeps_eq_false
    (hmodels : world.asInstalled.Models (Setting.ofJob world flags job).rules) (id : PackageId) :
    (JobContext.ofJob world job).cleandeps.contains id = false := by
  refine Bool.eq_false_iff.mpr fun hclean => ?_
  obtain ⟨e, he, hact, -, hmem, hid⟩ := cleandeps_iff.mp hclean
  have hrule : { Rule.make .job [-id] with source := some id } ∈
      (Setting.ofJob world flags job).entryRules e := by
    unfold Setting.entryRules
    rw [hact]
    exact List.mem_map_of_mem hmem
  obtain ⟨i, hi⟩ := mem_rules_of_mem_entryRules he hrule
  have hsat := hmodels _ hi
  have hsatisfies : world.asInstalled.satisfies (.make .job [-id]) = true := hsat
  have hout := (Assignment.satisfies_make_neg .job (Universe.pos_of_isInstalled hid)).mp hsatisfies
  rw [Universe.asInstalled, hid] at hout
  exact absurd hout (by simp)

/-- **What comes of a job that leaves the installed packages alone.** -/
structure LeavesAlone (world : Universe) (flags : SolverFlags) (job : Job) : Prop where
  solved : (solve world flags job).isSolved = true
  empty : (solve world flags job).transaction.steps = []
  present : ∀ id, id ∈ (solve world flags job).decisions.present ↔ world.isInstalled id = true

/-- **A job that the packages as they are satisfy leaves them alone.** -/
theorem leavesAlone_of_models (hsize : world.packages.size < Search.maxRounds)
    (hnone : (Setting.ofJob world flags job).AsksForNoUpdate)
    (hmodels : world.asInstalled.Models (Setting.ofJob world flags job).rules) :
    LeavesAlone world flags job := by
  have hrest := hnone.atRest hmodels
  obtain ⟨d, hrun, hpresent⟩ := hrest.run (Setting.admits_search (.refl _))
    (fun _ hl => natAbs_mem_range_of_stays hl) hsize
  -- the first search ends with a solution, so no rule is given up
  have hsettle : Search.settle ((Setting.ofJob world flags job).ruleSet.size + 1) []
      ((Setting.ofJob world flags job).search (Setting.ofJob world flags job).ruleSet) =
        { rules := (Setting.ofJob world flags job).ruleSet, decisions := d, problems := [] } := by
    rw [Search.settle, hrun]
    rfl
  have huncleaned : (uncleaned world flags job).problems = [] ∧
      (uncleaned world flags job).decisions = d := by
    unfold uncleaned
    dsimp only
    rw [hsettle]
    exact ⟨rfl, rfl⟩
  have hsolved : (solve world flags job).isSolved = true := by
    rw [isSolved_solve, Solution.isSolved_iff]
    exact huncleaned.1
  have hsame : solve world flags job = uncleaned world flags job :=
    (cleans_solve hsolved).eq_of_spared (cleandeps_eq_false hmodels)
  have hin : ∀ id, id ∈ (solve world flags job).decisions.present ↔
      world.isInstalled id = true := by
    intro id
    rw [hsame, huncleaned.2]
    exact hpresent id
  have hworld : (solve world flags job).world = world := by rw [hsame]; rfl
  refine ⟨hsolved, Solution.steps_eq_nil_of_present fun id => ?_, hin⟩
  rw [hworld]
  exact hin id

/--
**No gratuitous change.**

If leaving the installed packages as they are satisfies every rule of a job, weak ones included,
then what is answered to the job is a solution with an empty transaction. That holds for all
switches and whatever else would satisfy the rules, as long as the job asks for no update and there
are fewer packages than a search may take rounds. Where versions are ordered there is an answer.
-/
theorem unchanged_of_models (world : Universe) (flags : SolverFlags) (job : Job)
    (hsize : world.packages.size < 100000)
    (hjob : ∀ e ∈ job, e.action ≠ .update ∧ e.action ≠ .distUpgrade)
    (hmodels : ∀ r ∈ (Setting.ofJob world flags job).ruleSet.toList,
      world.asInstalled.satisfies r = true) :
    (∀ s, solve? world flags job = some s →
      s.isSolved = true ∧ s.transaction.steps = [] ∧
        ∀ id, id ∈ s.decisions.present ↔ world.isInstalled id = true) ∧
    (world.OrdersVersions → (solve? world flags job).isSome = true) := by
  have hnone : (Setting.ofJob world flags job).AsksForNoUpdate :=
    ⟨candidatesOf_eq_nil fun e he => (hjob e he).1, candidatesOf_eq_nil fun e he => (hjob e he).2⟩
  have h := leavesAlone_of_models hsize hnone ((RuleSet.represents_ofList _).models_iff.mp hmodels)
  refine ⟨fun s hs => ?_, fun h => isSome_solve?_of_ordersVersions h flags job⟩
  obtain ⟨-, rfl⟩ := solve?_eq_some.mp hs
  exact ⟨h.solved, h.empty, h.present⟩

/-- Two installed packages of which one requires and recommends, with an update, another provider
and the recommended package all available. -/
def tempting : Universe :=
  .ofCatalog <| .ofSystem
    [{ plainPackage "app" "1" 0 with
       requires := [Relation.ofName "lib"], recommends := [Relation.ofName "extra"] },
     plainPackage "lib" "1" 0]
    [plainPackage "lib" "2" 1,
     { plainPackage "alt" "1" 1 with provides := [Relation.ofName "lib"] },
     plainPackage "extra" "1" 1]

/-- What is asked for is there already. -/
theorem unchanged_tempting :
    ∃ s, solve? tempting {} [libEntry] = some s ∧
      s.isSolved = true ∧ s.transaction.steps = [] := by
  have hjob : ∀ e ∈ [libEntry], e.action ≠ .update ∧ e.action ≠ .distUpgrade := by decide
  have hmodels : ∀ r ∈ (Setting.ofJob tempting {} [libEntry]).ruleSet.toList,
      tempting.asInstalled.satisfies r = true := by
    decide +kernel
  obtain ⟨hanswer, hsome⟩ := unchanged_of_models tempting {} [libEntry] (by decide) hjob hmodels
  obtain ⟨s, hs⟩ := Option.isSome_iff_exists.mp
    (hsome (Universe.ordersVersions_of_hasRelease (by decide +kernel)))
  obtain ⟨hsolved, hempty, -⟩ := hanswer s hs
  exact ⟨s, hs, hsolved, hempty⟩

end DepSolver
