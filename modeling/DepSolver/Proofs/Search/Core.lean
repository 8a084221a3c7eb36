import DepSolver.Proofs.Search.Correctness
import DepSolver.Search.Core

/-!
# Cores cannot be satisfied

A minimal core is found by leaving out rules one at a time, as long as the others still cannot be
satisfied. So at any point what is in force cannot be satisfied, and once every rule was tried,
what is in force is the core.

A search that runs out of rounds counts as one that found nothing, although it proved nothing. The
theorems here therefore ask that every search made along the way has an answer.
-/

namespace DepSolver

/-- Whether a search ran out of rounds. -/
def SearchResult.isExhausted : SearchResult → Bool
  | exhausted => true
  | satisfied _ | unsatisfiable => false

namespace Search

variable {s : Search}

/-- Whether no rule in force speaks of package 0. -/
def SparesZero (s : Search) : Prop := ∀ r ∈ s.rules.enabled, ∀ l ∈ r.literals, l ≠ 0

theorem not_satisfiable_of_run (h0 : s.SparesZero) (hs : s.run.isSatisfied = false)
    (hx : s.run.isExhausted = false) : ¬Satisfiable s.rules.enabled := by
  have hcorrect := run_correct (admits_knows h0)
  cases hrun : s.run with
  | satisfied d =>
      rw [hrun] at hs
      exact absurd hs (by simp [SearchResult.isSatisfied])
  | unsatisfiable =>
      rw [hrun] at hcorrect
      exact hcorrect
  | exhausted =>
      rw [hrun] at hx
      exact absurd hx (by simp [SearchResult.isExhausted])

/-! ## Leaving out rules -/

theorem mem_enabled_without {id : Nat} {r : Rule} :
    r ∈ (s.without id).rules.enabled ↔ r ∈ s.rules.enabled ∧ r.id ≠ id :=
  RuleSet.mem_enabled_disable

theorem SparesZero.without (h0 : s.SparesZero) (id : Nat) : (s.without id).SparesZero := by
  intro r hr
  exact h0 r (mem_enabled_without.mp hr).1

theorem tryDrop_eq (s : Search) (core : List Nat) (id : Nat) : s.tryDrop core id =
    if (s.without id).run.isSatisfied then (s, id :: core) else (s.without id, core) := rfl

/-- Tries to leave out rules one after the other. -/
def tryDrops (s : Search) (core ids : List Nat) : Search × List Nat :=
  ids.foldl (fun st id => tryDrop st.1 st.2 id) (s, core)

/--
**What remains when some rules were tried.**

It cannot be satisfied, nothing was added to it, and of the rules tried it holds those of the core
alone.
-/
structure Reduces (s : Search) (core ids : List Nat) (found : Search × List Nat) : Prop where
  unsatisfiable : ¬Satisfiable found.1.rules.enabled
  enabled : ∀ r ∈ found.1.rules.enabled, r ∈ s.rules.enabled
  known : ∀ id ∈ core, id ∈ found.2
  tried : ∀ r ∈ found.1.rules.enabled, r.id ∈ ids → r.id ∈ found.2

theorem reduces_tryDrops : ∀ (ids : List Nat) (s : Search) (core : List Nat), s.SparesZero →
    ¬Satisfiable s.rules.enabled → (∀ t ∈ dropSearches ids s, t.run.isExhausted = false) →
      Reduces s core ids (s.tryDrops core ids) := by
  intro ids
  induction ids with
  | nil =>
    intro s core _ hunsat _
    exact ⟨hunsat, fun _ hr => hr, fun _ hid => hid, fun _ _ hid => absurd hid (by simp)⟩
  | cons id ids ih =>
    intro s core h0 hunsat hx
    rw [dropSearches, List.forall_mem_cons] at hx
    obtain ⟨hfirst, hrest⟩ := hx
    rw [tryDrop_eq] at hrest
    have hstep : s.tryDrops core (id :: ids) =
        (s.tryDrop core id).1.tryDrops (s.tryDrop core id).2 ids := rfl
    rw [hstep, tryDrop_eq]
    cases hsat : (s.without id).run.isSatisfied with
    | true =>
        -- the rule is missed, so it stays and belongs to the core
        rw [hsat, if_pos rfl] at hrest
        rw [if_pos rfl]
        have h := ih s (id :: core) h0 hunsat hrest
        refine ⟨h.unsatisfiable, h.enabled,
          fun i hi => h.known i (List.mem_cons_of_mem _ hi), fun r hr hid => ?_⟩
        cases List.mem_cons.mp hid with
        | inl heq => exact heq ▸ h.known id (List.mem_cons_self ..)
        | inr hid => exact h.tried r hr hid
    | false =>
        -- the others cannot be satisfied either, so it is left out for good
        rw [hsat, if_neg Bool.false_ne_true] at hrest
        rw [if_neg Bool.false_ne_true]
        have hunsat' := not_satisfiable_of_run (h0.without id) hsat hfirst
        have h := ih (s.without id) core (h0.without id) hunsat' hrest
        refine ⟨h.unsatisfiable, fun r hr => (mem_enabled_without.mp (h.enabled r hr)).1, h.known,
          fun r hr hid => ?_⟩
        have hne := (mem_enabled_without.mp (h.enabled r hr)).2
        exact h.tried r hr ((List.mem_cons.mp hid).resolve_left hne)

/-! ## The core -/

theorem dropOrder_lt (c : RuleClass) : c.dropOrder < 4 := by
  cases c <;> decide

/-- Every rule in force is tried. -/
theorem mem_dropOrder {r : Rule} (hr : r ∈ s.rules.enabled) : r.id ∈ s.dropOrder := by
  unfold dropOrder
  refine List.mem_flatMap.mpr ⟨r.toClass.dropOrder, ?_, ?_⟩
  · exact List.mem_range.mpr (dropOrder_lt _)
  · exact List.mem_map_of_mem (List.mem_filter.mpr ⟨hr, beq_self_eq_true _⟩)

theorem mem_minimalCore {id : Nat} : id ∈ s.minimalCore ↔
    id ∈ s.rules.enabledIds ∧ id ∈ (s.tryDrops [] s.dropOrder).2 := by
  have heq : s.minimalCore =
    s.rules.enabledIds.filter fun id => (s.tryDrops [] s.dropOrder).2.contains id := rfl
  rw [heq, List.mem_filter, List.contains_iff_mem]

/-- **No assignment satisfies a core.** -/
theorem not_satisfiable_minimalCore (h0 : s.SparesZero) (hunsat : ¬Satisfiable s.rules.enabled)
    (hx : ∀ t ∈ s.coreSearches, t.run.isExhausted = false) :
    ¬Satisfiable (s.rules.enabled.filter fun r => s.minimalCore.contains r.id) := by
  have h := reduces_tryDrops s.dropOrder s [] h0 hunsat hx
  refine fun hsat => h.unsatisfiable (hsat.mono fun r hr => ?_)
  have henabled := h.enabled r hr
  refine List.mem_filter.mpr ⟨henabled, List.contains_iff_mem.mpr (mem_minimalCore.mpr ⟨?_, ?_⟩)⟩
  · exact List.mem_map_of_mem henabled
  · exact h.tried r hr (mem_dropOrder henabled)

end Search

end DepSolver
