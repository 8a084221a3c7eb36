import DepSolver.Proofs.Generation.Demands
import DepSolver.Proofs.Solution.Answer
import DepSolver.Proofs.Solution.Cleanup
import DepSolver.Proofs.Solution.Settlement

/-!
# The verdict of a solve

A job is solved exactly if some assignment satisfies its hard rules. That is what all of searching,
finding cores and giving up weak rules comes down to, provided every search has an answer. It is
said of what `solve?` answers. There is no answer only where candidates cannot be put in order, so
there is one wherever versions are ordered.

So an entry of which only weak rules come cannot keep a job from being solved. This is true of
entries that install or erase. It is not true of every entry that is marked as weak: an update, a
distribution upgrade, a verification or a note about versions kept side by side changes the hard
rules of installed packages, and their rules stay as hard as they are.
-/

namespace DepSolver

variable {world : Universe} {flags : SolverFlags} {job : Job}

/-! ## Where a solve starts -/

namespace Setting

variable {s : Setting}

/-- All rules are in force at first. -/
theorem enabled_ruleSet (s : Setting) : ∀ r ∈ s.ruleSet.toList, r.disabled = false := by
  intro r hr
  obtain ⟨r', hr', -, -, hdis⟩ := (RuleSet.represents_ofList s.rules).origin hr
  rw [hdis]
  exact (s.allFresh_rules r' hr').enabled

theorem mem_enabled_ruleSet {r : Rule} : r ∈ s.ruleSet.enabled ↔ r ∈ s.ruleSet.toList :=
  RuleSet.mem_enabled_iff.trans (and_iff_left_of_imp (s.enabled_ruleSet r))

/-- Every rule in force has the literals of a rule that was made. -/
theorem exists_mem_rules {t : RuleSet} (ht : s.ruleSet.Yields t) :
    ∀ r ∈ t.enabled, ∃ r' ∈ s.rules, r.literals = r'.literals := by
  intro r hr
  have hmem := mem_enabled_ruleSet.mp (ht.mem_enabled hr)
  obtain ⟨r', hr', -, hlits, -⟩ := (RuleSet.represents_ofList s.rules).origin hmem
  exact ⟨r', hr', hlits⟩

theorem admits_search {t : RuleSet} (ht : s.ruleSet.Yields t) :
    (s.search t).Admits (s.Stays s.requested) := admits_stays (exists_mem_rules ht)

theorem sparesZero_search (s : Setting) : (s.search s.ruleSet).SparesZero := fun _ hr _ hl =>
  (admits_search (.refl _)).ne_zero hr hl

theorem length_enabled_ruleSet (s : Setting) :
    (s.search s.ruleSet).rules.enabled.length < s.ruleSet.size + 1 := by
  have hle := List.length_filter_le Rule.isEnabled s.ruleSet.toList
  have hsize : s.ruleSet.toList.length = s.ruleSet.size := Array.length_toList
  rw [hsize] at hle
  exact Nat.lt_succ_of_le hle

/-- What is in force in the end holds all hard rules. -/
theorem modelsHard_of_models {t : RuleSet} (ht : s.ruleSet.Yields t) {α : Assignment}
    (hα : α.Models t.enabled) : α.ModelsHard s.ruleSet.toList := fun r hr hhard =>
  hα r (ht.mem_enabled_of_hard (mem_enabled_ruleSet.mpr hr) hhard)

end Setting

/-! ## Where a solve ends -/

/-- What comes of a job before anything is erased as left behind. -/
def uncleaned (world : Universe) (flags : SolverFlags) (job : Job) : Solution :=
  let setting := Setting.ofJob world flags job
  let verdict := Search.settle (setting.ruleSet.size + 1) [] (setting.search setting.ruleSet)
  { world, flags, job, context := setting.context, rules := verdict.rules
    decisions := verdict.decisions, problems := verdict.problems }

theorem solve_eq (world : Universe) (flags : SolverFlags) (job : Job) : solve world flags job =
    if (uncleaned world flags job).isSolved then (uncleaned world flags job).cleanUp
    else uncleaned world flags job := rfl

theorem Solution.isSolved_iff {s : Solution} : s.isSolved = true ↔ s.problems = [] :=
  List.isEmpty_iff

theorem isSolved_cleanUp (s : Solution) : s.cleanUp.isSolved = s.isSolved := by
  unfold Solution.isSolved
  rw [(Solution.cleans_cleanUp s).problems]

theorem isSolved_solve (world : Universe) (flags : SolverFlags) (job : Job) :
    (solve world flags job).isSolved = (uncleaned world flags job).isSolved := by
  rw [solve_eq]
  split
  · exact isSolved_cleanUp _
  · rfl

/-- A solved job was cleaned up. -/
theorem cleans_solve (h : (solve world flags job).isSolved = true) :
    Solution.Cleans (uncleaned world flags job).context.cleandeps (uncleaned world flags job)
      (solve world flags job) := by
  rw [isSolved_solve] at h
  rw [solve_eq, if_pos h]
  exact Solution.cleans_cleanUp _

/-- **A job that is solved**: only weak rules were given up, and what the search decided satisfies
all others. -/
theorem solves_of_isSolved (h : (solve world flags job).isSolved = true) :
    let s := Setting.ofJob world flags job
    s.ruleSet.Yields (uncleaned world flags job).rules ∧
      Solves (s.search (uncleaned world flags job).rules) (s.Stays s.requested)
        (uncleaned world flags job).decisions := by
  intro s
  rw [isSolved_solve, Solution.isSolved_iff] at h
  obtain ⟨-, hyields, hrun⟩ := Search.settle_of_problems_eq_nil _ _ _ h
  have hyields : s.ruleSet.Yields (uncleaned world flags job).rules := hyields
  have hrun : (s.search (uncleaned world flags job).rules).run =
    .satisfied (uncleaned world flags job).decisions := hrun
  have hcorrect := Search.run_correct (Setting.admits_search hyields)
  rw [hrun] at hcorrect
  exact ⟨hyields, hcorrect⟩

/-- The hard rules of a solved job can be satisfied. -/
theorem modelsHard_of_isSolved (h : (solve world flags job).isSolved = true) :
    (uncleaned world flags job).decisions.presence.ModelsHard
      (Setting.ofJob world flags job).ruleSet.toList := by
  obtain ⟨hyields, hsolves⟩ := solves_of_isSolved h
  exact Setting.modelsHard_of_models hyields hsolves.models

/-- If they can, the job is solved. -/
theorem isSolved_of_modelsHard
    (hx : ∀ t ∈ solveSearches world flags job, t.run.isExhausted = false) {α : Assignment}
    (hα : α.ModelsHard (Setting.ofJob world flags job).ruleSet.toList) :
    (solve world flags job).isSolved = true := by
  rw [isSolved_solve, Solution.isSolved_iff]
  have hα' : α.ModelsHard (Setting.ofJob world flags job).ruleSet.enabled := fun r hr =>
    hα r (Setting.mem_enabled_ruleSet.mp hr)
  exact Search.problems_settle _ _ (Setting.sparesZero_search _) (Setting.length_enabled_ruleSet _)
    hx α hα'

/--
**The verdict of a solve.**

As long as no search runs out of rounds, what is answered to a job is a solution exactly if some
assignment satisfies all hard rules of the job. Only weak rules are given up for it, and a weak
entry that installs, erases or marks packages never keeps a job from being solved. Where versions
are ordered there is an answer.
-/
theorem isSolved_iff_hard_satisfiable (world : Universe) (flags : SolverFlags) (job : Job)
    (hx : ∀ t ∈ solveSearches world flags job, t.run.isExhausted = false) :
    (∀ s, solve? world flags job = some s →
      (s.isSolved = true ↔
        ∃ α : Assignment, ∀ r ∈ (Setting.ofJob world flags job).ruleSet.toList,
          r.weak = false → α.satisfies r = true) ∧
      (s.isSolved = true → ∀ r ∈ s.rules.toList, r.disabled = true → r.weak = true) ∧
      ∀ (before : Job) (e : JobEntry) (after : Job), job = before ++ e :: after →
        e.isWeak = true → e.action ∈ [.install, .erase, .allowUninstall, .userInstalled] →
          ∀ without, solve? world flags (before ++ after) = some without →
            without.isSolved = true → s.isSolved = true) ∧
    (world.OrdersVersions → (solve? world flags job).isSome = true) := by
  refine ⟨fun s hs => ?_, fun h => isSome_solve?_of_ordersVersions h flags job⟩
  obtain ⟨-, rfl⟩ := solve?_eq_some.mp hs
  refine ⟨⟨fun h => ?_, fun h => ?_⟩, fun h r hr hdis => ?_,
    fun before e after hjob hweak hact without hwithout h => ?_⟩
  · exact ⟨_, modelsHard_of_isSolved h⟩
  · obtain ⟨α, hα⟩ := h
    exact isSolved_of_modelsHard hx hα
  · obtain ⟨hyields, -⟩ := solves_of_isSolved h
    rw [(cleans_solve h).rules] at hr
    exact hyields.weak_of_disabled (Setting.enabled_ruleSet _) hr hdis
  · have hyields : e.action.yields = true := by
      simp only [List.mem_cons, List.not_mem_nil, or_false] at hact
      rcases hact with h | h | h | h <;> rw [h] <;> rfl
    obtain ⟨-, rfl⟩ := solve?_eq_some.mp hwithout
    -- without the entry the hard rules can be satisfied, so they can with it
    have hsmall := (RuleSet.represents_ofList _).modelsHard_iff.mp (modelsHard_of_isSolved h)
    obtain ⟨β, hβ⟩ := Setting.modelsHard_of_isWeak hweak hyields hsmall
    rw [← hjob] at hβ
    exact isSolved_of_modelsHard hx ((RuleSet.represents_ofList _).modelsHard_iff.mpr hβ)

/-! ## Weak entries that do not yield -/

/-- A package that is wanted, and three installed ones: an update of `a` requires what nothing
provides, `b` lacks a requirement already, and `c` is in the way of the wanted package. -/
def stubborn : Universe :=
  .ofCatalog <| .ofSystem
    [plainPackage "a" "1" 0,
     { plainPackage "b" "1" 0 with requires := [Relation.ofName "gone"] },
     plainPackage "c" "1" 0]
    [{ plainPackage "a" "2" 1 with requires := [Relation.ofName "gone"] },
     plainPackage "c" "2" 1,
     { plainPackage "wanted" "1" 1 with
       conflicts := [(plainPackage "c" "1" 0).selfProvide] }]

/-- The request for the wanted package. -/
def wantedEntry : JobEntry := { action := .install, target := .ofName "wanted" }

/-- An entry for all packages that is marked as weak. -/
def weakEntry (action : JobAction) : JobEntry where
  action
  target := .all
  flags := .weak ||| .forcebest

/-- Twenty-one providers of a library, the second of which has no release: it compares equal to all
others, so that no list of them is in order. -/
def unordered : List Package :=
  (List.range 21).map fun i =>
    { name := "lib" ++ toString i
      evr := { epoch := 0, version := "1", release := if i = 1 then none else some (toString i) }
      arch := "noarch"
      repo := 1
      provides := [Relation.ofName "lib"] }

/-- A system to which all of them are available. -/
def unorderedSystem : Universe := .ofCatalog (.ofSystem [] unordered)

/-- The request for a library. -/
def libEntry : JobEntry := { action := .install, target := .ofProvide (Relation.ofName "lib") }

/-- A weak entry may keep a job from being solved; and there may be no answer although the hard
rules can be satisfied. -/
theorem weakEntry_unsolved :
    ((solve? stubborn {} [wantedEntry]).map (·.isSolved) = some true ∧
      ∀ action ∈ [JobAction.update, .distUpgrade, .verify, .multiversion],
        (weakEntry action).isWeak = true ∧
          (∀ t ∈ solveSearches stubborn {} [wantedEntry, weakEntry action],
            t.run.isExhausted = false) ∧
          (solve? stubborn {} [wantedEntry, weakEntry action]).map (·.isSolved) = some false) ∧
    (∀ t ∈ solveSearches unorderedSystem {} [libEntry], t.run.isExhausted = false) ∧
    (∃ α : Assignment, ∀ r ∈ (Setting.ofJob unorderedSystem {} [libEntry]).ruleSet.toList,
      r.weak = false → α.satisfies r = true) ∧
    solve? unorderedSystem {} [libEntry] = none := by
  refine ⟨by decide +kernel, by decide +kernel, ⟨fun id => id == 1, by decide +kernel⟩, ?_⟩
  exact Option.isNone_iff_eq_none.mp (by decide +kernel)

/-- A request that cannot be met is given up if it is weak. -/
theorem isSolved_weakInstall :
    (∀ t ∈ solveSearches stubborn {}
        [wantedEntry, { action := .install, target := .ofName "gone", flags := .weak }],
      t.run.isExhausted = false) ∧
    ∃ s without,
      solve? stubborn {}
        [wantedEntry, { action := .install, target := .ofName "gone", flags := .weak }] = some s ∧
      solve? stubborn {} [wantedEntry] = some without ∧
      without.isSolved = true ∧ s.isSolved = true := by
  have hx : ∀ t ∈ solveSearches stubborn {}
      [wantedEntry, { action := .install, target := .ofName "gone", flags := .weak }],
        t.run.isExhausted = false := by
    decide +kernel
  have hordered : stubborn.OrdersVersions :=
    Universe.ordersVersions_of_hasRelease (by decide +kernel)
  obtain ⟨hanswer, hsome⟩ := isSolved_iff_hard_satisfiable stubborn {}
    [wantedEntry, { action := .install, target := .ofName "gone", flags := .weak }] hx
  obtain ⟨s, hs⟩ := Option.isSome_iff_exists.mp (hsome hordered)
  obtain ⟨without, hwithout⟩ := Option.isSome_iff_exists.mp
    (isSome_solve?_of_ordersVersions hordered {} [wantedEntry])
  have hsolved : without.isSolved = true := by
    obtain ⟨-, rfl⟩ := solve?_eq_some.mp hwithout
    decide +kernel
  exact ⟨hx, s, without, hs, hwithout, hsolved,
    (hanswer s hs).2.2 [wantedEntry] _ [] rfl (by decide) (by decide) without hwithout hsolved⟩

end DepSolver
