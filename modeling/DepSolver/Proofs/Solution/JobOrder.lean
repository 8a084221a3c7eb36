import DepSolver.Proofs.Solution.Updates

/-!
# Jobs in another order

The order of a job decides the order of its rules, where a search branches and which weak rule is
given up first. It does not decide whether the job is solved: the marks of a job are sets, and how
far an installed package may move is what all entries allow together, in whatever order they are
merged. So a job in another order makes the same rules for installed packages and asks for the same
literals, and its hard rules can be satisfied exactly if those of the job can.
-/

namespace DepSolver

/-! ## Merging in another order -/

namespace PackageSet

theorem union_comm (s t : PackageSet) : s.union t = t.union s := by
  refine congrArg PackageSet.mk (Array.ext_getElem? fun i => ?_)
  rw [Array.getElem?_zipWithAll, Array.getElem?_zipWithAll]
  cases s.words[i]? <;> cases t.words[i]? <;> simp [UInt64.or_comm]

theorem union_assoc (s t v : PackageSet) : (s.union t).union v = s.union (t.union v) := by
  refine congrArg PackageSet.mk (Array.ext_getElem? fun i => ?_)
  unfold union
  simp only [Array.getElem?_zipWithAll]
  cases s.words[i]? <;> cases t.words[i]? <;> cases v.words[i]? <;> simp [UInt64.or_assoc]

end PackageSet

namespace Scope

/-- What two more entries allow does not depend on which comes first. -/
theorem merge_right_comm (s a b : Scope) : (s.merge a).merge b = (s.merge b).merge a := by
  have hcomm : ∀ c d : PackageSet, (within c).merge (within d) = (within d).merge (within c) :=
    fun c d => congrArg within (PackageSet.union_comm c d)
  have hthree : ∀ c d e : PackageSet,
      ((within c).merge (within d)).merge (within e) =
        ((within c).merge (within e)).merge (within d) := by
    intro c d e
    show within ((c.union d).union e) = within ((c.union e).union d)
    rw [PackageSet.union_assoc, PackageSet.union_comm d e, ← PackageSet.union_assoc]
  cases s with
  | untouched => cases a <;> cases b <;> first | rfl | exact hcomm _ _
  | anywhere => cases a <;> cases b <;> rfl
  | within c => cases a <;> cases b <;> first | rfl | exact hthree _ _ _

/-- **How far a package may move does not depend on the order of the entries.** -/
theorem ofEntries_perm {entries entries' : List (JobFlags × List PackageId)} (u : Universe)
    (h : entries.Perm entries') (id : PackageId) :
    ofEntries u entries id = ofEntries u entries' id :=
  h.foldl_eq' (fun _ _ _ _ s => merge_right_comm s _ _) untouched

end Scope

theorem Job.candidatesOf_perm {job job' : Job} (u : Universe) (h : job.Perm job')
    (action : JobAction) : (job.candidatesOf u action).Perm (job'.candidatesOf u action) :=
  (h.filter _).map _

namespace Setting

/-! ## Updates that come to the same -/

/-- The setting with other entries that ask for updates. -/
def withUpdates (s : Setting) (updates distUpgrades : List (JobFlags × List PackageId)) : Setting :=
  { s with updates, distUpgrades }

/-- Whether other entries let installed packages move just as far, and insist on the best for the
same ones. -/
structure SameUpdates (s : Setting) (updates distUpgrades : List (JobFlags × List PackageId)) :
    Prop where
  updateScope : ∀ id, Scope.ofEntries s.world updates id = s.updateScope id
  distUpgradeScope : ∀ id, Scope.ofEntries s.world distUpgrades id = s.distUpgradeScope id
  wantsBest : ∀ id, (s.withUpdates updates distUpgrades).wantsBest id = s.wantsBest id

section Updates

variable {s : Setting} {updates distUpgrades : List (JobFlags × List PackageId)}

theorem sameUpdates_of_perm (hupdates : s.updates.Perm updates)
    (hdist : s.distUpgrades.Perm distUpgrades) : s.SameUpdates updates distUpgrades where
  updateScope id := (Scope.ofEntries_perm s.world hupdates id).symm
  distUpgradeScope id := (Scope.ofEntries_perm s.world hdist id).symm
  wantsBest _ := hupdates.any_eq.symm

theorem SameUpdates.stayRules (h : s.SameUpdates updates distUpgrades) (id : PackageId)
    (p : Package) : (s.withUpdates updates distUpgrades).stayRules id p = s.stayRules id p := by
  have hscope : (s.withUpdates updates distUpgrades).updateScope id = s.updateScope id :=
    h.updateScope id
  have hkeep : (s.withUpdates updates distUpgrades).keepRules id p = s.keepRules id p := by
    unfold keepRules
    rw [hscope, h.wantsBest]
    rfl
  have hmulti : ∀ scope, (s.withUpdates updates distUpgrades).multiversionRules id p scope =
      s.multiversionRules id p scope := by
    intro scope
    unfold multiversionRules
    rw [h.wantsBest]
    rfl
  unfold Setting.stayRules
  dsimp only
  rw [hscope, hkeep, hmulti]
  rfl

/-- **Installed packages have the same rules if updates come to the same.** -/
theorem SameUpdates.allInstalledRules (h : s.SameUpdates updates distUpgrades) :
    (s.withUpdates updates distUpgrades).allInstalledRules = s.allInstalledRules := by
  have hrules : (s.withUpdates updates distUpgrades).installedRules = s.installedRules := by
    funext id p
    have hscope : (s.withUpdates updates distUpgrades).distUpgradeScope id =
      s.distUpgradeScope id := h.distUpgradeScope id
    unfold installedRules
    rw [hscope, h.stayRules]
    rfl
  unfold Setting.allInstalledRules
  rw [hrules]
  rfl

/-- All rules are the same, since relations between packages do not depend on what is updated. -/
theorem SameUpdates.rules (h : s.SameUpdates updates distUpgrades) :
    (s.withUpdates updates distUpgrades).rules = s.rules := by
  have hrequested : (s.withUpdates updates distUpgrades).requested = s.requested :=
    congrArg (s.jobRules ++ ·) h.allInstalledRules
  have hpackages : (s.withUpdates updates distUpgrades).packageRules s.requested =
      s.packageRules s.requested := by
    refine packageRules_congr ?_ ?_ ?_ _
    · rfl
    · rfl
    · rfl
  rw [rules_eq, rules_eq, hrequested, hpackages]

end Updates

/-! ## A job in another order -/

/-- A job asks for no more than one with the same entries. -/
theorem loosens_of_perm {job job' : Job} (u : Universe) (flags : SolverFlags)
    (h : job.Perm job') : (Setting.ofJob u flags job).Loosens job' (.ofJob u job') := by
  have hgathers := JobContext.gathers_ofJob u job
  have hgathers' := JobContext.gathers_ofJob u job'
  have hexists : ∀ P : JobEntry → Prop, (∃ e ∈ job', P e) ↔ ∃ e ∈ job, P e := fun P =>
    exists_congr fun e => and_congr_left fun _ => h.mem_iff.symm
  refine ⟨?_, fun id => ?_, fun id hid => ?_, fun id hid => ?_, fun r hr hhard => ?_⟩
  · exact Bool.eq_iff_iff.mpr (hgathers'.verify.trans ((hexists _).trans hgathers.verify.symm))
  · exact Bool.eq_iff_iff.mpr ((hgathers'.multiversion id).trans
      ((hexists _).trans (hgathers.multiversion id).symm))
  · exact (hgathers'.erase id).mpr ((hexists _).mpr ((hgathers.erase id).mp hid))
  · exact (hgathers'.allowUninstall id).mpr ((hexists _).mpr ((hgathers.allowUninstall id).mp hid))
  · obtain ⟨q, hq, hr⟩ := List.mem_flatMap.mp hr
    obtain ⟨r₀, hr₀, rfl⟩ := List.mem_map.mp hr
    -- the entry stands in the other job too, at some position
    obtain ⟨i, hi⟩ := List.mem_iff_getElem?.mp (h.mem_iff.mpr (List.fst_mem_of_mem_zipIdx hq))
    refine ⟨{ r₀ with job := some i, weak := q.1.isWeak }, ?_, hhard, rfl⟩
    refine List.mem_flatMap.mpr ⟨(q.1, i), List.mem_zipIdx_iff_getElem?.mpr hi, ?_⟩
    exact List.mem_map.mpr ⟨r₀, hr₀, rfl⟩

/-- The hard rules of a job can be satisfied in any order of its entries. -/
theorem modelsHard_of_perm {job job' : Job} {u : Universe} {flags : SolverFlags}
    (h : job.Perm job') {α : Assignment} (hα : α.ModelsHard (Setting.ofJob u flags job).rules) :
    ∃ β : Assignment, β.ModelsHard (Setting.ofJob u flags job').rules := by
  have hupdates := Job.candidatesOf_perm u h .update
  have hdist := Job.candidatesOf_perm u h .distUpgrade
  have heq : Setting.ofJob u flags job' =
      ((Setting.ofJob u flags job).withJob job' (.ofJob u job')).withUpdates
        (job'.candidatesOf u .update) (job'.candidatesOf u .distUpgrade) := rfl
  have hsame := sameUpdates_of_perm (s := (Setting.ofJob u flags job).withJob job' (.ofJob u job'))
    hupdates hdist
  rw [heq, hsame.rules]
  exact ⟨_, (loosens_of_perm u flags h).modelsHard hα⟩

end Setting

variable {world : Universe} {flags : SolverFlags} {job job' : Job}

/-- A job is solved if it is solved in another order. -/
theorem isSolved_of_perm (h : job.Perm job')
    (hx' : ∀ t ∈ solveSearches world flags job', t.run.isExhausted = false)
    (hsolved : (solve world flags job).isSolved = true) :
    (solve world flags job').isSolved = true := by
  have hα := (RuleSet.represents_ofList _).modelsHard_iff.mp (modelsHard_of_isSolved hsolved)
  obtain ⟨β, hβ⟩ := Setting.modelsHard_of_perm h hα
  exact isSolved_of_modelsHard hx' ((RuleSet.represents_ofList _).modelsHard_iff.mpr hβ)

/--
**The order of requests does not decide whether a job is solved.**

As long as no search runs out of rounds, what is answered to a job and to any permutation of it has
the same verdict. Where versions are ordered both have an answer.
-/
theorem isSolved_perm (world : Universe) (flags : SolverFlags) {job job' : Job}
    (h : job.Perm job')
    (hx : ∀ t ∈ solveSearches world flags job, t.run.isExhausted = false)
    (hx' : ∀ t ∈ solveSearches world flags job', t.run.isExhausted = false) :
    (∀ s s', solve? world flags job = some s → solve? world flags job' = some s' →
      s.isSolved = s'.isSolved) ∧
    (world.OrdersVersions →
      (solve? world flags job).isSome = true ∧ (solve? world flags job').isSome = true) := by
  refine ⟨fun s s' hs hs' => ?_, fun hordered => ?_⟩
  · obtain ⟨-, rfl⟩ := solve?_eq_some.mp hs
    obtain ⟨-, rfl⟩ := solve?_eq_some.mp hs'
    exact Bool.eq_iff_iff.mpr ⟨isSolved_of_perm h hx', isSolved_of_perm h.symm hx⟩
  · exact ⟨isSome_solve?_of_ordersVersions hordered flags job,
      isSome_solve?_of_ordersVersions hordered flags job'⟩

/-- A request that has to be given up, before or behind one that can be met. -/
theorem isSolved_perm_weakInstall :
    let weak : JobEntry := { action := .install, target := .ofName "gone", flags := .weak }
    (∀ t ∈ solveSearches stubborn {} [weak, wantedEntry], t.run.isExhausted = false) ∧
    (∀ t ∈ solveSearches stubborn {} [wantedEntry, weak], t.run.isExhausted = false) ∧
    ∃ s s', solve? stubborn {} [weak, wantedEntry] = some s ∧
      solve? stubborn {} [wantedEntry, weak] = some s' ∧ s.isSolved = s'.isSolved := by
  intro weak
  have hx : ∀ t ∈ solveSearches stubborn {} [weak, wantedEntry], t.run.isExhausted = false := by
    decide +kernel
  have hx' : ∀ t ∈ solveSearches stubborn {} [wantedEntry, weak], t.run.isExhausted = false := by
    decide +kernel
  obtain ⟨hsame, hanswers⟩ :=
    isSolved_perm stubborn {} (List.Perm.swap wantedEntry weak []) hx hx'
  obtain ⟨hfirst, hsecond⟩ :=
    hanswers (Universe.ordersVersions_of_hasRelease (by decide +kernel))
  obtain ⟨s, hs⟩ := Option.isSome_iff_exists.mp hfirst
  obtain ⟨s', hs'⟩ := Option.isSome_iff_exists.mp hsecond
  exact ⟨hx, hx', s, s', hs, hs', hsame s s' hs hs'⟩

end DepSolver
