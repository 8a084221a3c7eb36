import Mathlib.Data.List.Perm.Subperm
import DepSolver.Proofs.Search.Core
import DepSolver.Solution.Solve

/-!
# Which rules are given up

`Search.settle` gives up one rule of a core after the other. A core cannot be satisfied, so if some
assignment satisfies all hard rules, no core consists of hard rules alone: each holds a weak one,
and that is the one given up. Hence no hard rule is ever given up and no problem ever reported.

Every pass takes a rule out of force that was in force before, so with more passes than rules the
search comes to an end by itself.
-/

namespace DepSolver

namespace RuleSet

variable {s t : RuleSet}

/-- Whether the second rule set is the first with some weak rules out of force. -/
def Yields (s t : RuleSet) : Prop :=
  ∀ i, t.get? i = s.get? i ∨
    ∃ r, s.get? i = some r ∧ r.weak = true ∧ t.get? i = some { r with disabled := true }

theorem Yields.refl (s : RuleSet) : s.Yields s := fun _ => .inl rfl

theorem Yields.trans {u : RuleSet} (hst : s.Yields t) (htu : t.Yields u) : s.Yields u := by
  intro i
  rcases htu i with heq | ⟨r, hr, hw, hu⟩
  · rw [heq]
    exact hst i
  · rcases hst i with heq | ⟨x, hx, hwx, htx⟩
    · rw [heq] at hr
      exact .inr ⟨r, hr, hw, hu⟩
    · -- what was given up before may be given up again
      rw [htx] at hr
      rw [← Option.some.inj hr] at hu
      exact .inr ⟨x, hx, hwx, hu⟩

theorem yields_disable {id : Nat} (hweak : (s.get? id).any (·.weak) = true) :
    s.Yields (s.disable id) := by
  intro i
  rw [RuleSet.disable, get?_setDisabled]
  by_cases hi : id = i
  · subst hi
    rw [if_pos rfl]
    obtain ⟨r, hr, hw⟩ := (Option.any_eq_true ..).mp hweak
    rw [hr]
    exact .inr ⟨r, rfl, hw, rfl⟩
  · rw [if_neg hi]
    exact .inl rfl

/-- What is in force still was in force before. -/
theorem Yields.mem_enabled (h : s.Yields t) {r : Rule} (hr : r ∈ t.enabled) : r ∈ s.enabled := by
  obtain ⟨hmem, hdis⟩ := mem_enabled_iff.mp hr
  have hget := get?_id hmem
  rcases h r.id with heq | ⟨u, -, -, ht⟩
  · rw [heq] at hget
    exact mem_enabled_iff.mpr ⟨mem_of_get? hget, hdis⟩
  · rw [ht] at hget
    rw [← Option.some.inj hget] at hdis
    exact absurd hdis (by simp)

/-- No hard rule was given up. -/
theorem Yields.mem_enabled_of_hard (h : s.Yields t) {r : Rule} (hr : r ∈ s.enabled)
    (hhard : r.weak = false) : r ∈ t.enabled := by
  obtain ⟨hmem, hdis⟩ := mem_enabled_iff.mp hr
  have hget := get?_id hmem
  rcases h r.id with heq | ⟨u, hu, hw, -⟩
  · rw [← heq] at hget
    exact mem_enabled_iff.mpr ⟨mem_of_get? hget, hdis⟩
  · rw [hget] at hu
    rw [← Option.some.inj hu, hhard] at hw
    exact absurd hw (by simp)

/-- What was given up is weak. -/
theorem Yields.weak_of_disabled (h : s.Yields t) (hs : ∀ r ∈ s.toList, r.disabled = false)
    {r : Rule} (hr : r ∈ t.toList) (hdis : r.disabled = true) : r.weak = true := by
  have hget := get?_id hr
  rcases h r.id with heq | ⟨u, -, hw, ht⟩
  · rw [heq] at hget
    rw [hs r (mem_of_get? hget)] at hdis
    exact absurd hdis (by simp)
  · rw [ht] at hget
    rw [← Option.some.inj hget]
    exact hw

theorem length_enabledIds (s : RuleSet) : s.enabledIds.length = s.enabled.length :=
  List.length_map ..

/-- A rule that is given up leaves fewer in force. -/
theorem length_enabled_disable {id : Nat} (h : id ∈ s.enabledIds) :
    (s.disable id).enabled.length < s.enabled.length := by
  have hsub : (s.disable id).enabledIds ⊆ s.enabledIds.erase id := by
    intro i hi
    obtain ⟨r, hr, rfl⟩ := List.mem_map.mp hi
    obtain ⟨henabled, hne⟩ := mem_enabled_disable.mp hr
    exact (List.mem_erase_of_ne hne).mpr (List.mem_map_of_mem henabled)
  have hle := (List.subperm_of_subset (nodup_enabledIds _) hsub).length_le
  have herase := List.length_erase_of_mem h
  have hpos := List.length_pos_of_mem h
  rw [length_enabledIds] at hle
  rw [length_enabledIds] at herase hpos
  omega

end RuleSet

namespace Search

variable {s : Search}

/-! ## The rule that is given up -/

theorem weakRule?_eq_some {core : List Nat} {id : Nat} (h : s.weakRule? core = some id) :
    id ∈ core ∧ (s.rules.get? id).any (·.weak) = true := by
  unfold weakRule? at h
  exact ⟨List.mem_of_find?_eq_some h, List.find?_some (p := fun i => (s.rules.get? i).any _) h⟩

/-- Without a weak rule to give up, a core is made of hard ones. -/
theorem hard_of_weakRule?_eq_none {core : List Nat} (h : s.weakRule? core = none) {r : Rule}
    (hr : r ∈ s.rules.toList) (hid : r.id ∈ core) : r.weak = false := by
  have hnone := List.find?_eq_none.mp h r.id hid
  rw [RuleSet.get?_id hr] at hnone
  exact Bool.eq_false_iff.mpr hnone

/-! ## A job that is solved -/

/-- **Without problems only weak rules were given up**, and the decisions are those of the last
search. -/
theorem settle_of_problems_eq_nil : ∀ (left : Nat) (problems : List Problem) (s : Search),
    (settle left problems s).problems = [] →
      problems = [] ∧ s.rules.Yields (settle left problems s).rules ∧
        ({ s with rules := (settle left problems s).rules } : Search).run =
          .satisfied (settle left problems s).decisions := by
  intro left
  induction left with
  | zero =>
    intro problems s h
    exact absurd h (by simp [settle])
  | succ left ih =>
    intro problems s h
    rw [settle] at h ⊢
    cases hrun : s.run with
    | satisfied d =>
        rw [hrun] at h
        exact ⟨h, .refl _, hrun⟩
    | exhausted =>
        rw [hrun] at h
        exact absurd h (by simp)
    | unsatisfiable =>
        rw [hrun] at h
        dsimp only at h ⊢
        cases hweak : s.weakRule? s.minimalCore with
        | some id =>
            rw [hweak] at h
            dsimp only at h ⊢
            -- a weak rule was given up, and the rest goes on from there
            obtain ⟨hnil, hyields, hlast⟩ := ih problems (s.without id) h
            exact ⟨hnil, (RuleSet.yields_disable (weakRule?_eq_some hweak).2).trans hyields, hlast⟩
        | none =>
            rw [hweak] at h
            dsimp only at h
            cases hblame : s.ruleToBlame? s.minimalCore with
            | some id =>
                -- a problem was noted, and problems are never taken back
                rw [hblame] at h
                exact absurd (ih _ _ h).1 (by simp)
            | none =>
                rw [hblame] at h
                exact absurd h (by simp)

/-! ## A job that can be solved -/

/-- An assignment that satisfies the hard rules violates a weak rule of every core. -/
theorem weakRule?_isSome (h0 : s.SparesZero) (hunsat : s.run = .unsatisfiable)
    (hx : ∀ t ∈ s.coreSearches, t.run.isExhausted = false) {α : Assignment}
    (hα : α.ModelsHard s.rules.enabled) :
    s.weakRule? s.minimalCore ≠ none := by
  intro hnone
  have hall : ¬Satisfiable s.rules.enabled :=
    not_satisfiable_of_run h0 (by rw [hunsat]; rfl) (by rw [hunsat]; rfl)
  refine not_satisfiable_minimalCore h0 hall hx ⟨α, fun r hr => ?_⟩
  obtain ⟨henabled, hcore⟩ := List.mem_filter.mp hr
  have hmem := (RuleSet.mem_enabled_iff.mp henabled).1
  exact hα r henabled (hard_of_weakRule?_eq_none hnone hmem (List.contains_iff_mem.mp hcore))

/-- **If the hard rules can be satisfied there are no problems.** -/
theorem problems_settle : ∀ (left : Nat) (s : Search), s.SparesZero →
    s.rules.enabled.length < left →
      (∀ t ∈ settleSearches left s, t.run.isExhausted = false) → ∀ α : Assignment,
        α.ModelsHard s.rules.enabled → (settle left [] s).problems = [] := by
  intro left
  induction left with
  | zero =>
    intro s _ hleft
    omega
  | succ left ih =>
    intro s h0 hleft hx α hα
    rw [settleSearches, List.forall_mem_cons] at hx
    obtain ⟨hfirst, hrest⟩ := hx
    rw [settle]
    cases hrun : s.run with
    | satisfied d => rfl
    | exhausted =>
        rw [hrun] at hfirst
        exact absurd hfirst (by simp [SearchResult.isExhausted])
    | unsatisfiable =>
        rw [hrun] at hrest
        obtain ⟨hcore, hnext⟩ := List.forall_mem_append.mp hrest
        dsimp only
        cases hweak : s.weakRule? s.minimalCore with
        | none => exact absurd hweak (weakRule?_isSome h0 hrun hcore hα)
        | some id =>
            rw [hweak] at hnext
            have hid := (mem_minimalCore.mp (weakRule?_eq_some hweak).1).1
            have hless : (s.without id).rules.enabled.length < s.rules.enabled.length :=
              RuleSet.length_enabled_disable hid
            have hleft' : (s.without id).rules.enabled.length < left := by omega
            refine ih (s.without id) (h0.without id) hleft' hnext α fun r hr hhard => ?_
            exact hα r (mem_enabled_without.mp hr).1 hhard

end Search

end DepSolver
