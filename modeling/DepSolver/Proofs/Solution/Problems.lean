import DepSolver.Proofs.Solution.NoChange
import DepSolver.Proofs.Solution.Passes
import DepSolver.Proofs.Solution.Updates

/-!
# Problems blame what was asked for

Relations between packages alone never conflict: with no package present at all, every one of them
holds. So the core of a problem holds a rule of a request, of an installed package or of best
candidates, and such a rule is the one that is given up for it, one of a request if there is one.
-/

namespace DepSolver

/-! ## Relations between packages never conflict -/

namespace Setting

variable {s : Setting} {r : Rule}

theorem toClass_of_mem_multiversionRules {id : PackageId} {p : Package} {scope : Scope}
    (hr : r ∈ s.multiversionRules id p scope) : r.toClass = .update := by
  unfold multiversionRules at hr
  dsimp only at hr
  split at hr
  · exact absurd hr (by simp)
  · rw [List.mem_singleton.mp hr]
    rfl

theorem toClass_of_mem_keepRules {id : PackageId} {p : Package} (hr : r ∈ s.keepRules id p) :
    r.toClass = .best ∨ r.toClass = .update := by
  unfold keepRules at hr
  dsimp only at hr
  split at hr
  · rcases List.mem_append.mp hr with hr | hr
    · split at hr
      · rw [List.mem_singleton.mp hr]
        exact .inl rfl
      · exact absurd hr (by simp)
    · rw [List.mem_singleton.mp hr]
      exact .inr rfl
  · rw [List.mem_singleton.mp hr]
    exact .inr rfl

theorem toClass_of_mem_stayRules {id : PackageId} {p : Package} (hr : r ∈ s.stayRules id p) :
    r.toClass = .best ∨ r.toClass = .update := by
  unfold stayRules at hr
  dsimp only at hr
  rcases List.mem_append.mp hr with hr | hr
  · split at hr
    · exact .inr (toClass_of_mem_multiversionRules hr)
    · exact absurd hr (by simp)
  · split at hr
    · exact absurd hr (by simp)
    · split at hr
      · rw [List.mem_singleton.mp hr]
        exact .inr rfl
      · exact toClass_of_mem_keepRules hr

theorem toClass_of_mem_installedRules {id : PackageId} {p : Package}
    (hr : r ∈ s.installedRules id p) : r.toClass ∈ RuleClass.requested := by
  have hdistUpgrade : RuleClass.distUpgrade ∈ RuleClass.requested := by decide
  unfold installedRules at hr
  dsimp only at hr
  generalize (if (s.distUpgradeScope id).isTouched then _ else _) = candidates at hr
  split at hr
  · exact absurd hr (by simp)
  · split at hr
    · rw [List.mem_singleton.mp hr]
      exact hdistUpgrade
    · split at hr
      · rw [List.mem_singleton.mp hr]
        exact hdistUpgrade
      · rcases toClass_of_mem_stayRules hr with hbest | hupdate
        · rw [hbest]
          decide
        · rw [hupdate]
          decide

/-- The rules of class `package` are the package rules. -/
theorem mem_packageRules_of_toClass (hr : r ∈ s.rules) (hclass : r.toClass = .package) :
    r ∈ s.packageRules s.requested := by
  rw [rules_eq] at hr
  refine (List.mem_append.mp hr).resolve_left fun hr => ?_
  rcases List.mem_append.mp hr with hr | hr
  · rcases toClass_of_mem_jobRules hr with hjob | hbest
    · rw [hclass] at hjob
      exact absurd hjob (by decide)
    · rw [hclass] at hbest
      exact absurd hbest (by decide)
  · obtain ⟨id, -, hr⟩ := List.mem_flatMap.mp hr
    split at hr
    · exact RuleClass.mem_requested_iff.mp (toClass_of_mem_installedRules hr) hclass
    · exact absurd hr (by simp)

/-- **If nothing is present, every relation between packages holds.** -/
theorem satisfies_absent (hr : r ∈ s.ruleSet.toList) (hclass : r.toClass = .package) :
    Assignment.satisfies (fun _ => false) r = true := by
  obtain ⟨r', hr', hkey, hlits, -⟩ := (RuleSet.represents_ofList s.rules).origin hr
  have hclass' : r'.toClass = .package := by
    unfold Rule.toClass at hclass ⊢
    rw [← (Rule.key_inj hkey).1]
    exact hclass
  have hmodels := models_packageRules.mpr (s.consistent_absent (· ∈ s.visited s.requested))
  have hsame : Assignment.satisfies (fun _ => false) r = Assignment.satisfies (fun _ => false) r' :=
    Assignment.satisfies_congr fun l => by rw [hlits]
  rw [hsame]
  exact hmodels r' (mem_packageRules_of_toClass hr' hclass')

/-- **A conflict between rules of a job** is not one between relations of packages alone. -/
theorem exists_requested {t : RuleSet} {ids : List Nat} (hsame : s.ruleSet.SameRules t)
    (hconflict : t.MinimalConflict ids) :
    ∃ id ∈ ids, ∃ c ∈ RuleClass.requested, t.classOf? id = some c := by
  refine Classical.byContradiction fun hnone => hconflict.incompatible ?_
  refine hsame.compatible ⟨fun _ => false, fun id hid r hr => ?_⟩
  refine satisfies_absent (RuleSet.mem_of_get? hr) (Classical.byContradiction fun hclass => ?_)
  refine hnone ⟨id, hid, r.toClass, RuleClass.mem_requested_iff.mpr hclass, ?_⟩
  rw [← hsame.classOf?_eq, RuleSet.classOf?, hr]
  rfl

end Setting

/-! ## The problems of a job that is not solved -/

variable {world : Universe} {flags : SolverFlags} {job : Job}

/-- **What is to be said about a problem**, given the rules it is about. -/
structure Problem.Justified (rules : RuleSet) (p : Problem) : Prop where
  conflict : rules.MinimalConflict p.rules
  /-- None of its rules could have been given up silently. -/
  hard : ∀ id ∈ p.rules, ∀ r, rules.get? id = some r → r.weak = false
  /-- It does not come of relations between packages alone. -/
  requested : ∃ id ∈ p.rules, ∃ c ∈ RuleClass.requested, rules.classOf? id = some c

/-- **What is to be said about the rule given up for a problem.** -/
structure Search.Pass.Blames (p : Search.Pass) : Prop where
  /-- The rules in conflict were in force, and all but one of them still are. -/
  enabled : ∀ id ∈ p.core, id ∈ p.search.rules.enabledIds ∧
    (id ∈ p.next.rules.enabledIds ↔ id ≠ p.rule)
  mem_core : p.rule ∈ p.core
  /-- It is the rule of a request if there is one. -/
  job : (∃ id ∈ p.core, p.search.rules.classOf? id = some .job) →
    p.search.rules.classOf? p.rule = some .job
  /-- It is never a relation between packages. -/
  requested : ∃ c ∈ RuleClass.requested, p.search.rules.classOf? p.rule = some c

theorem SolveSettles.justified (h : SolveSettles world flags job) {p : Search.Pass}
    (hp : p ∈ solvePasses world flags job) (hproblem : p.isProblem = true) :
    Problem.Justified p.search.rules { rules := p.core } where
  conflict := (h.sound p hp).conflict
  hard _ hid _ hr := Search.Pass.hard_of_isProblem hproblem hid hr
  requested := Setting.exists_requested (h.sameRules hp).1 (h.sound p hp).conflict

theorem SolveSettles.blames (h : SolveSettles world flags job) {p : Search.Pass}
    (hp : p ∈ solvePasses world flags job) (hproblem : p.isProblem = true) : p.Blames where
  enabled id hid :=
    ⟨(h.sound p hp).enabled id hid, (h.sound p hp).mem_enabledIds_next hid⟩
  mem_core := (h.sound p hp).mem_core
  job := Search.classOf?_ruleToBlame?_of_job ((h.sound p hp).blamed hproblem)
  requested := Search.classOf?_ruleToBlame? ((h.sound p hp).blamed hproblem)
    (h.justified hp hproblem).requested

theorem Problem.Justified.congr {s t : RuleSet} {p : Problem} (h : p.Justified s)
    (hsame : s.SameRules t) : p.Justified t where
  conflict := hsame.minimalConflict h.conflict
  hard id hid := hsame.hard (h.hard id hid)
  requested := by
    obtain ⟨id, hid, c, hc, hclass⟩ := h.requested
    exact ⟨id, hid, c, hc, hsame.classOf?_eq id ▸ hclass⟩

/--
**Problems are minimal and blame the right rules.**

As long as no search runs out of rounds, a job that is not solved has problems, and each is a
minimal conflict of hard rules, not all of them relations between packages. The problems are the
cores of the passes that gave up a hard rule: exactly one of the core, one of a request if there is
one, and never a relation between packages. Finding a core puts everything back that it tried to
leave out. And what is decided in the end satisfies all rules that are still in force.
-/
theorem problems_minimal (world : Universe) (flags : SolverFlags) (job : Job)
    (hx : ∀ t ∈ solveSearches world flags job, t.run.isExhausted = false)
    (hunsolved : (solve world flags job).isSolved = false) :
    (solve world flags job).problems ≠ [] ∧
    (∀ p ∈ (solve world flags job).problems, p.Justified (solve world flags job).rules) ∧
    (Search.Leads { world, flags, rules := (Setting.ofJob world flags job).ruleSet }
        (solvePasses world flags job) { world, flags, rules := (solve world flags job).rules } ∧
      (solve world flags job).problems =
        ((solvePasses world flags job).filter (·.isProblem)).map fun p => { rules := p.core }) ∧
    (∀ p ∈ solvePasses world flags job, p.isProblem = true → p.Blames) ∧
    (∀ p ∈ solvePasses world flags job, ∀ i,
      (p.search.leftOut.foldl RuleSet.enable p.search.reduced.rules).get? i =
        p.search.rules.get? i) ∧
    (solve world flags job).decisions.presence.Models (solve world flags job).rules.enabled := by
  have h := solveSettles hx
  have huncleaned : solve world flags job = uncleaned world flags job := by
    rw [isSolved_solve] at hunsolved
    rw [solve_eq, hunsolved, if_neg Bool.false_ne_true]
  refine ⟨fun hnil => ?_, fun p hp => ?_, ⟨h.leads, h.problems⟩, fun p hp => h.blames hp,
    fun p _ => p.search.get?_putBack, ?_⟩
  · rw [Solution.isSolved_iff.mpr hnil] at hunsolved
    exact absurd hunsolved (by simp)
  · -- every problem was found in some pass
    rw [h.problems] at hp
    obtain ⟨pass, hpass, rfl⟩ := List.mem_map.mp hp
    obtain ⟨hmem, hproblem⟩ := List.mem_filter.mp hpass
    exact (h.justified hmem hproblem).congr (h.sameRules hmem).2
  · rw [huncleaned]
    exact models_uncleaned hx

/-- Two packages that are wanted though one conflicts with the other, and one that nothing has. -/
def rivals : Universe :=
  .ofCatalog
    { packages :=
        #[plainPackage "a" "1" 0,
          { plainPackage "b" "1" 0 with conflicts := [Relation.ofName "a"] }]
      repos := #[{ name := "available", priority := defaultPriority, installed := false }] }

def rivalJob : Job :=
  [{ action := .install, target := .ofName "gone", flags := .weak },
    { action := .install, target := .ofName "a" }, { action := .install, target := .ofName "b" }]

/-- The request that nothing meets is given up silently, and one of the others for a problem. -/
theorem problems_rivals :
    (solve rivals {} rivalJob).isSolved = false ∧
      (solve rivals {} rivalJob).problems = [{ rules := [1, 2, 3] }] ∧
      (solve rivals {} rivalJob).rules.disabledIds = [0, 1] ∧
      ∀ p ∈ (solve rivals {} rivalJob).problems, p.Justified (solve rivals {} rivalJob).rules := by
  have hx : ∀ t ∈ solveSearches rivals {} rivalJob, t.run.isExhausted = false := by decide +kernel
  have hunsolved : (solve rivals {} rivalJob).isSolved = false := by decide +kernel
  exact ⟨hunsolved, by decide +kernel, by decide +kernel,
    (problems_minimal rivals {} rivalJob hx hunsolved).2.1⟩

end DepSolver
