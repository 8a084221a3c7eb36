import DepSolver.Proofs.Solution.NoChange

/-!
# A broken system can be left alone

A job that neither requests nor verifies anything asks nothing of the installed packages but what
their own rules do. Of their dependencies, those that are broken already are no rules: a requirement
that nothing installed meets, and a conflict, a shared name or an obsoletion between two installed
packages. So such a job is solved, however broken the system is, and changes nothing.

There is one exception. An installed package that conflicts with something it provides itself gets
the rule of that conflict like any other package, and so has to go. It is the only one: without such
a package the job leaves everything as it is, and with one it does not.
-/

namespace DepSolver

/-- Whether a package conflicts with something it provides itself. -/
def Universe.conflictsWithItself (u : Universe) (id : PackageId) : Bool :=
  (u.package? id).any fun p => p.conflicts.any fun c => (u.whatProvides c).contains id

theorem Universe.conflictsWithItself_eq_false {u : Universe} {id : PackageId} {p : Package}
    (hp : u.package? id = some p) :
    u.conflictsWithItself id = false ↔ ∀ c ∈ p.conflicts, id ∉ u.whatProvides c := by
  unfold conflictsWithItself
  rw [hp, Option.any_some, List.any_eq_false]
  simp only [List.contains_iff_mem]

namespace Setting

variable {s : Setting} {visited : PackageId → Prop}

/-! ## What is installed is consistent but for conflicts with itself -/

/-- Unless they are verified, installed packages are consistent among each other, if none conflicts
with itself. -/
theorem consistent_asInstalled (hverify : s.context.verify = false)
    (hself : ∀ id ∈ s.world.installedIds, s.world.conflictsWithItself id = false) :
    s.Consistent visited s.world.asInstalled := by
  have htolerates : ∀ id, s.toleratesBroken id = s.world.isInstalled id := by
    intro id
    unfold toleratesBroken
    rw [hverify, Bool.not_false, Bool.and_true]
  refine ⟨?_, ?_, ?_, ?_⟩
  · -- a requirement that is left is met by an installed package
    intro id p _ _ hid q hq
    have hinstalled : s.world.isInstalled id = true := hid
    have hlive := (List.mem_filter.mp hq).2
    unfold isBrokenRequirement at hlive
    rw [htolerates, hinstalled, Bool.true_and, Bool.not_not, Bool.and_eq_true] at hlive
    exact List.any_eq_true.mp hlive.2
  · intro id p _ hp hid c hc x hx
    have hinstalled : s.world.isInstalled id = true := hid
    have hnot := hself id (Universe.mem_installedIds.mpr hinstalled)
    refine ⟨fun he => ?_, fun htol => ?_⟩
    · rw [he] at hx
      exact (Universe.conflictsWithItself_eq_false hp).mp hnot c hc hx
    · rw [htolerates, hinstalled, Bool.true_and] at htol
      exact htol
  · -- two packages exclude each other only if one is not installed
    intro a b p q _ _ _ _ _ _ hex
    unfold excludesSameName at hex
    rw [hverify, Bool.false_or, Bool.and_eq_true, Bool.and_eq_true, Bool.not_eq_true',
      Bool.and_eq_false_iff] at hex
    exact hex.1.2
  · intro id p _ _ hid o _ x q _ _ _ htol _ _ _
    have hinstalled : s.world.isInstalled id = true := hid
    rw [hinstalled, Bool.true_and] at htol
    exact htol

/-! ## Jobs of marks -/

theorem jobRules_eq_nil (h : ∀ e ∈ s.job, e.action ≠ .install ∧ e.action ≠ .erase) :
    s.jobRules = [] := by
  refine List.flatMap_eq_nil_iff.mpr fun q hq => ?_
  obtain ⟨hinstall, herase⟩ := h q.1 (List.fst_mem_of_mem_zipIdx hq)
  have hnone : s.entryRules q.1 = [] := by
    unfold entryRules
    split
    · rename_i hact
      exact absurd hact hinstall
    · rename_i hact
      exact absurd hact herase
    · rfl
  rw [hnone]
  rfl

/-- Without requests and updates the packages as they are satisfy all rules, if those of their
dependencies are satisfied. -/
theorem AsksForNoUpdate.models_asInstalled (h : s.AsksForNoUpdate) (hjob : s.jobRules = [])
    (hconsistent : s.Consistent (· ∈ s.visited s.requested) s.world.asInstalled) :
    s.world.asInstalled.Models s.rules := by
  rw [rules_eq, models_append]
  refine ⟨fun r hr => ?_, models_packageRules.mpr hconsistent⟩
  rw [requested, hjob, List.nil_append] at hr
  obtain ⟨id, rest, hlits, hid⟩ := h.first_of_mem_allInstalledRules hr
  refine Assignment.satisfies_iff.mpr ⟨id, ?_, ?_⟩
  · rw [hlits]
    exact List.mem_cons_self ..
  · exact (Universe.asInstalled_holds (Universe.pos_of_isInstalled hid)).mpr hid

end Setting

/-! ## What comes of such a job -/

variable {world : Universe} {flags : SolverFlags} {job : Job}

/-- Whether a job only marks packages: it neither requests nor verifies anything. -/
def Job.OnlyMarks (job : Job) : Prop :=
  ∀ e ∈ job, e.action ∉ [JobAction.install, .erase, .update, .distUpgrade, .verify]

theorem Job.OnlyMarks.ne (h : job.OnlyMarks) {e : JobEntry} (he : e ∈ job) {action : JobAction}
    (haction : action ∈ [JobAction.install, .erase, .update, .distUpgrade, .verify]) :
    e.action ≠ action := by
  intro heq
  rw [← heq] at haction
  exact h e he haction

/-- **A job that only marks packages leaves the others alone**, if none conflicts with itself. -/
theorem Job.OnlyMarks.leavesAlone (h : job.OnlyMarks)
    (hsize : world.packages.size < Search.maxRounds)
    (hself : ∀ id ∈ world.installedIds, world.conflictsWithItself id = false) :
    LeavesAlone world flags job := by
  have hnone : (Setting.ofJob world flags job).AsksForNoUpdate :=
    ⟨candidatesOf_eq_nil fun e he => h.ne he (by decide),
      candidatesOf_eq_nil fun e he => h.ne he (by decide)⟩
  have hjob : (Setting.ofJob world flags job).jobRules = [] :=
    Setting.jobRules_eq_nil fun e he => ⟨h.ne he (by decide), h.ne he (by decide)⟩
  have hverify : (JobContext.ofJob world job).verify = false :=
    verify_eq_false.mpr fun e he => h.ne he (by decide)
  exact leavesAlone_of_models hsize hnone
    (hnone.models_asInstalled hjob (Setting.consistent_asInstalled hverify hself))

/-- What an empty transaction leaves installed, the search had decided to be present. -/
theorem presence_of_steps_eq_nil (h : (solve world flags job).isSolved = true)
    (herase : ∀ e ∈ job, e.action ≠ .erase)
    (hempty : (solve world flags job).transaction.steps = []) {id : PackageId}
    (hid : world.isInstalled id = true) :
    (uncleaned world flags job).decisions.presence id = true := by
  have hsame : solve world flags job = uncleaned world flags job :=
    solve_eq_uncleaned fun e he hact => absurd hact (herase e he)
  obtain ⟨p, hp⟩ := Catalog.mem_ids.mp (Catalog.mem_ids_of_isInstalled hid)
  rw [hsame] at hempty
  have hkept : (uncleaned world flags job).kept.contains id = true :=
    (Transaction.steps_eq_nil_iff.mp hempty id p hp).mpr hid
  rcases Solution.kept_contains_iff.mp hkept with ⟨-, hin⟩ | ⟨-, hundecided⟩
  · exact ((coherent_uncleaned h).mem_present.mp hin).2
  · exact absurd hundecided ((solves_of_isSolved h).2.not_isUndecided_of_isInstalled hid)

/--
**When a broken system can be left alone.**

A job that neither requests nor verifies anything is solved with an empty transaction exactly if it
has an answer and no installed package conflicts with something it provides itself. Whatever else is
broken among the installed packages does not matter. Where versions are ordered there is an answer.
-/
theorem leftAlone_iff (world : Universe) (flags : SolverFlags) (job : Job)
    (hsize : world.packages.size < 100000)
    (hjob : ∀ e ∈ job,
      e.action ∉ [JobAction.install, .erase, .update, .distUpgrade, .verify]) :
    ((∃ s, solve? world flags job = some s ∧ s.isSolved = true ∧ s.transaction.steps = []) ↔
      (solve? world flags job).isSome = true ∧
        ∀ id ∈ world.installedIds, world.conflictsWithItself id = false) ∧
    (world.OrdersVersions → (solve? world flags job).isSome = true) := by
  have hmarks : job.OnlyMarks := hjob
  refine ⟨⟨fun h => ?_, fun h => ?_⟩, fun h => isSome_solve?_of_ordersVersions h flags job⟩
  · obtain ⟨s, hs, hsolved, hempty⟩ := h
    refine ⟨Option.isSome_iff_exists.mpr ⟨s, hs⟩, fun id hid => ?_⟩
    obtain ⟨-, rfl⟩ := solve?_eq_some.mp hs
    -- the package is present, and with it stands the rule of its own conflict
    have hinstalled := Universe.mem_installedIds.mp hid
    obtain ⟨p, hp⟩ := Catalog.mem_ids.mp (Catalog.mem_ids_of_isInstalled hinstalled)
    have hpresent := presence_of_steps_eq_nil hsolved (fun e he => hmarks.ne he (by decide)) hempty
      hinstalled
    have hvisited := Setting.visited_of_installed (s := .ofJob world flags job)
      (Setting.ofJob world flags job).requested hinstalled
    refine (Universe.conflictsWithItself_eq_false hp).mpr fun c hc hprovides => ?_
    exact ((consistent_uncleaned hsolved).conflicts hvisited hp hpresent c hc id hprovides).1 rfl
  · obtain ⟨hsome, hself⟩ := h
    obtain ⟨s, hs⟩ := Option.isSome_iff_exists.mp hsome
    -- nothing else of what is broken is a rule
    have hleft : LeavesAlone world flags job := hmarks.leavesAlone hsize hself
    refine ⟨s, hs, ?_⟩
    obtain ⟨-, rfl⟩ := solve?_eq_some.mp hs
    exact ⟨hleft.solved, hleft.empty⟩

/-- Installed packages at odds with each other in every way: `a` lacks a requirement, which is
available, `b` conflicts with `a` and is obsoleted by `c`, and `a` is there in two versions. -/
def brokenSystem : Universe :=
  .ofCatalog <| .ofSystem
    [{ plainPackage "a" "1" 0 with requires := [Relation.ofName "gone"] },
     { plainPackage "b" "1" 0 with conflicts := [Relation.ofName "a"] },
     { plainPackage "c" "1" 0 with obsoletes := [Relation.ofName "b"] },
     plainPackage "a" "2" 0]
    [plainPackage "gone" "1" 1,
     plainPackage "b" "2" 1]

/-- An installed package that conflicts with something it provides itself. -/
def atOddsWithItself : Universe :=
  .ofCatalog
    { packages :=
        #[{ plainPackage "a" "1" 0 with
            provides := [Relation.ofName "x"], conflicts := [Relation.ofName "x"] }]
      repos := #[{ name := systemRepoName, priority := defaultPriority, installed := true }]
      installedRepo? := some 0 }

/-- The broken system is left alone, and the package that is at odds with itself is not. -/
theorem leftAlone_brokenSystem :
    (∃ s, solve? brokenSystem {} [] = some s ∧ s.isSolved = true ∧ s.transaction.steps = []) ∧
    (solve? atOddsWithItself {} []).isSome = true ∧
    ¬∃ s, solve? atOddsWithItself {} [] = some s ∧ s.isSolved = true ∧ s.transaction.steps = [] := by
  have hbroken : ∀ id ∈ brokenSystem.installedIds, brokenSystem.conflictsWithItself id = false := by
    decide +kernel
  have hself : ¬∀ id ∈ atOddsWithItself.installedIds,
      atOddsWithItself.conflictsWithItself id = false := by
    decide +kernel
  obtain ⟨hiff, hanswer⟩ := leftAlone_iff brokenSystem {} [] (by decide) (by decide)
  obtain ⟨hiff', hanswer'⟩ := leftAlone_iff atOddsWithItself {} [] (by decide) (by decide)
  refine ⟨?_, ?_, ?_⟩
  · exact hiff.mpr
      ⟨hanswer (Universe.ordersVersions_of_hasRelease (by decide +kernel)), hbroken⟩
  · exact hanswer' (Universe.ordersVersions_of_hasRelease (by decide +kernel))
  · exact fun h => hself (hiff'.mp h).2

end DepSolver
