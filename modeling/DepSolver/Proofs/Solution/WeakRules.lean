import DepSolver.Proofs.Solution.Passes

/-!
# Weak rules that were given up

A weak rule is given up for a core, and nothing of that core is left out of the account later: each
of its rules is still in force in the end, is the rule itself, or is a weak rule given up after it.
Together these still conflict.

That leaves open what was given up before. A weak rule that stood in the way of another one may turn
out to be impossible in itself, and then the first to be given up was given up for nothing: once a
rule is out of force it is never looked at again.
-/

namespace DepSolver

variable {world : Universe} {flags : SolverFlags} {job : Job}

/-- The rules given up while a job is solved, in order. -/
def givenUp (world : Universe) (flags : SolverFlags) (job : Job) : List Nat :=
  (solvePasses world flags job).map (·.rule)

/-- **What was given up is what is out of force.** -/
theorem SolveSettles.disabled_iff (h : SolveSettles world flags job) {r : Rule}
    (hr : r ∈ (solve world flags job).rules.toList) :
    r.disabled = true ↔ r.id ∈ givenUp world flags job := by
  -- every rule was in force at first
  obtain ⟨u, hu, -⟩ := h.leads.sameRules.symm.exists_get? (RuleSet.get?_id hr)
  have hfirst : r.id ∈ (Setting.ofJob world flags job).ruleSet.enabledIds := by
    refine List.mem_map.mpr ⟨u, ?_, RuleSet.id_of_get? hu⟩
    exact Setting.mem_enabled_ruleSet.mpr (RuleSet.mem_of_get? hu)
  have hlast : r.id ∈ (solve world flags job).rules.enabledIds ↔ r.disabled = false := by
    refine ⟨fun hid => ?_, fun henabled => ?_⟩
    · obtain ⟨t, ht, hid⟩ := List.mem_map.mp hid
      obtain ⟨hmem, henabled⟩ := RuleSet.mem_enabled_iff.mp ht
      rw [← RuleSet.eq_of_id hmem hr hid]
      exact henabled
    · exact List.mem_map_of_mem (RuleSet.mem_enabled_iff.mpr ⟨hr, henabled⟩)
  have hpassed : r.disabled = false ↔ ∀ p ∈ solvePasses world flags job, p.rule ≠ r.id := by
    rw [← hlast, h.leads.mem_enabledIds, and_iff_right hfirst]
  unfold givenUp
  rw [← Bool.not_eq_false, hpassed, List.mem_map]
  simp only [ne_eq, Classical.not_forall, not_not, exists_prop]

/-- **A rule given up conflicts with what is in force in the end and what was given up later.** -/
theorem SolveSettles.incompatible (h : SolveSettles world flags job) {before after : List Nat}
    {id : Nat} (hsplit : givenUp world flags job = before ++ id :: after) :
    ¬(solve world flags job).rules.Compatible
      ((solve world flags job).rules.enabledIds ++ id :: after) := by
  obtain ⟨ps, qs, hpasses, -, hqs⟩ := List.map_eq_append_iff.mp hsplit
  obtain ⟨p, later, rfl, rfl, rfl⟩ := List.map_eq_cons_iff.mp hqs
  have hp : p ∈ solvePasses world flags job := by
    rw [hpasses]
    exact List.mem_append_right _ (List.mem_cons_self ..)
  have hleads := h.leads
  rw [hpasses, Search.leads_append] at hleads
  obtain ⟨u, -, hrest⟩ := hleads
  have hstart : p.search = u := hrest.1
  rw [← hstart] at hrest
  intro hcompatible
  refine (h.sound p hp).conflict.incompatible (hrest.sameRules.symm.compatible ?_)
  refine hcompatible.mono fun id hid => ?_
  -- a rule of the core is in force still, or it was given up here or later
  by_cases hgone : ∃ q ∈ p :: later, q.rule = id
  · obtain ⟨q, hq, rfl⟩ := hgone
    exact List.mem_append_right _ (List.mem_map_of_mem (f := (·.rule)) hq)
  · refine List.mem_append_left _ (hrest.mem_enabledIds.mpr ⟨(h.sound p hp).enabled id hid, ?_⟩)
    exact fun q hq he => hgone ⟨q, hq, he⟩

/-- What was given up is a rule. -/
theorem SolveSettles.exists_rule (h : SolveSettles world flags job) {id : Nat}
    (hid : id ∈ givenUp world flags job) : ∃ r, (solve world flags job).rules.get? id = some r := by
  obtain ⟨p, hp, rfl⟩ := List.mem_map.mp hid
  obtain ⟨r, hr⟩ := (h.sound p hp).conflict.known _ (h.sound p hp).mem_core
  obtain ⟨u, hu, -⟩ := (h.sameRules hp).2.exists_get? hr
  exact ⟨u, hu⟩

theorem SolveSettles.mem_disabledIds (h : SolveSettles world flags job) {id : Nat} :
    id ∈ (solve world flags job).rules.disabledIds ↔ id ∈ givenUp world flags job := by
  unfold RuleSet.disabledIds
  rw [List.mem_map]
  refine ⟨?_, ?_⟩
  · intro hid
    obtain ⟨r, hr, rfl⟩ := hid
    obtain ⟨hmem, hdis⟩ := List.mem_filter.mp hr
    exact (h.disabled_iff hmem).mp hdis
  · intro hid
    obtain ⟨r, hr⟩ := h.exists_rule hid
    have hrid := RuleSet.id_of_get? hr
    have hmem := RuleSet.mem_of_get? hr
    exact ⟨r, List.mem_filter.mpr ⟨hmem, (h.disabled_iff hmem).mpr (hrid ▸ hid)⟩, hrid⟩

/--
**Weak rules are given up for what cannot be satisfied with them.**

As long as no search runs out of rounds, a solved job has out of force exactly the rules given up on
the way, pass by pass, and all of them are weak. Each conflicts with the rules in force in the end
together with the rules given up after it. So the last one to be given up, and the only one if there
is one only, conflicts with the rules in force in the end.
-/
theorem dropped_incompatible (world : Universe) (flags : SolverFlags) (job : Job)
    (hx : ∀ t ∈ solveSearches world flags job, t.run.isExhausted = false)
    (hsolved : (solve world flags job).isSolved = true) :
    Search.Leads { world, flags, rules := (Setting.ofJob world flags job).ruleSet }
      (solvePasses world flags job) { world, flags, rules := (solve world flags job).rules } ∧
    (∀ id, id ∈ (solve world flags job).rules.disabledIds ↔ id ∈ givenUp world flags job) ∧
    (∀ r ∈ (solve world flags job).rules.toList, r.disabled = true → r.weak = true) ∧
    (∀ before id after, givenUp world flags job = before ++ id :: after →
      ¬(solve world flags job).rules.Compatible
        ((solve world flags job).rules.enabledIds ++ id :: after)) ∧
    (∀ id, (solve world flags job).rules.disabledIds = [id] →
      ¬(solve world flags job).rules.Compatible
        ((solve world flags job).rules.enabledIds ++ [id])) := by
  have h := solveSettles hx
  refine ⟨h.leads, fun id => h.mem_disabledIds, fun r hr hdis => ?_,
    fun before id after hsplit => h.incompatible hsplit, fun id honly hcompatible => ?_⟩
  · obtain ⟨hyields, -⟩ := solves_of_isSolved hsolved
    rw [rules_solve] at hr
    exact hyields.weak_of_disabled (Setting.enabled_ruleSet _) hr hdis
  · have hid : id ∈ givenUp world flags job := by
      rw [← h.mem_disabledIds, honly]
      exact List.mem_singleton_self id
    obtain ⟨before, after, hsplit⟩ := List.append_of_mem hid
    refine h.incompatible hsplit (hcompatible.mono fun i hi => ?_)
    -- whatever was given up later is this rule again
    rcases List.mem_append.mp hi with hi | hi
    · exact List.mem_append_left _ hi
    · have hgiven : i ∈ givenUp world flags job := by
        rw [hsplit]
        exact List.mem_append_right _ hi
      rw [← h.mem_disabledIds, honly] at hgiven
      exact List.mem_append_right _ hgiven

/-! ## A request that was given up for nothing -/

/-- Two packages of which the second conflicts with the first and requires what nothing provides. -/
def hopeless : Universe :=
  .ofCatalog
    { packages :=
        #[plainPackage "a" "1" 0,
          { plainPackage "b" "1" 0 with
            requires := [Relation.ofName "gone"], conflicts := [Relation.ofName "a"] }]
      repos := #[{ name := "available", priority := defaultPriority, installed := false }] }

/-- Optional requests for both packages. -/
def optionalJob : Job :=
  [{ action := .install, target := .ofName "a", flags := .weak },
    { action := .install, target := .ofName "b", flags := .weak }]

/-- The first request fits the result after all. -/
theorem droppedFits_hopeless :
    (∀ t ∈ solveSearches hopeless {} optionalJob, t.run.isExhausted = false) ∧
    (solve hopeless {} optionalJob).isSolved = true ∧
    ¬∀ r ∈ (solve hopeless {} optionalJob).rules.toList, r.weak = true → r.disabled = true →
      ¬(solve hopeless {} optionalJob).rules.Compatible
        ((solve hopeless {} optionalJob).rules.enabledIds ++ [r.id]) := by
  have hx : ∀ t ∈ solveSearches hopeless {} optionalJob, t.run.isExhausted = false := by
    decide +kernel
  have hsolved : (solve hopeless {} optionalJob).isSolved = true := by decide +kernel
  have hfirst : ((solve hopeless {} optionalJob).rules.get? 0).any
      (fun r => r.weak && r.disabled) = true := by
    decide +kernel
  have hfits : ∀ id ∈ (solve hopeless {} optionalJob).rules.enabledIds ++ [0],
      ∀ r ∈ (solve hopeless {} optionalJob).rules.get? id,
        Assignment.satisfies (fun x => x == 1) r = true := by
    decide +kernel
  refine ⟨hx, hsolved, fun hall => ?_⟩
  obtain ⟨r, hr, hgone⟩ := (Option.any_eq_true ..).mp hfirst
  obtain ⟨hweak, hdis⟩ := Bool.and_eq_true_iff.mp hgone
  refine hall r (RuleSet.mem_of_get? hr) hweak hdis ?_
  rw [RuleSet.id_of_get? hr]
  exact ⟨_, hfits⟩

/-- It was given up in favour of the second one, which was given up next. -/
theorem dropped_hopeless : (solve hopeless {} optionalJob).isSolved = true ∧
    givenUp hopeless {} optionalJob = [0, 1] ∧
    ¬(solve hopeless {} optionalJob).rules.Compatible
      ((solve hopeless {} optionalJob).rules.enabledIds ++ [0, 1]) ∧
    ¬(solve hopeless {} optionalJob).rules.Compatible
      ((solve hopeless {} optionalJob).rules.enabledIds ++ [1]) := by
  have hx : ∀ t ∈ solveSearches hopeless {} optionalJob, t.run.isExhausted = false := by
    decide +kernel
  have hsolved : (solve hopeless {} optionalJob).isSolved = true := by decide +kernel
  have hgiven : givenUp hopeless {} optionalJob = [0, 1] := by decide +kernel
  have h := dropped_incompatible hopeless {} optionalJob hx hsolved
  exact ⟨hsolved, hgiven, h.2.2.2.1 [] 0 [1] hgiven, h.2.2.2.1 [0] 1 [] hgiven⟩

end DepSolver
