import DepSolver.Proofs.Generation.Literals
import DepSolver.Proofs.Rule.Duplicates
import DepSolver.Proofs.Search.Core
import DepSolver.Proofs.Universe.Ranking

/-!
# Where a job has an answer

A solve has no answer only where candidates cannot be put in order, and that takes versions which
are not ordered. All candidates are packages: those for the rules of installed packages, those that
a rule offers and those that provide what is recommended. So in a universe that orders its versions
no list comes up that cannot be sorted, in none of the searches, whichever rules are in force.
-/

namespace DepSolver

theorem Universe.mem_ids_of_mem_whatProvides {u : Universe} {r : Relation} {id : PackageId}
    (h : id ∈ u.whatProvides r) : id ∈ u.ids :=
  mem_ids_of_isConsidered (isConsidered_of_mem_whatProvides h)

theorem Choice.ranked_of_ofAlternatives? {reason : Reason} {ranked : Bool}
    {rows : List (List Literal)} {c : Choice} (h : ofAlternatives? reason ranked rows = some c) :
    c.ranked = ranked := by
  cases rows with
  | nil => exact absurd h (by simp [ofAlternatives?])
  | cons first others =>
      rw [ofAlternatives?, Option.some.injEq] at h
      rw [← h]

namespace Search

/-- **A search over ordered versions.** -/
structure Ordered (s : Search) : Prop where
  versions : s.world.OrdersVersions
  /-- What a rule offers is a package. -/
  offers : ∀ r ∈ s.rules.enabled, ∀ id ∈ r.literals, 0 < id → id ∈ s.world.ids

variable {s : Search} {d : Decisions} {c : Choice}

theorem Ordered.without (h : s.Ordered) (id : Nat) : (s.without id).Ordered where
  versions := h.versions
  offers r hr := h.offers r (mem_enabled_without.mp hr).1

/-! ## One search -/

theorem mem_literals_of_mem_openCandidates {r : Rule} {id : PackageId}
    (h : id ∈ openCandidates d r) : id ∈ r.literals ∧ 0 < id := by
  unfold openCandidates at h
  split at h
  · exact absurd h List.not_mem_nil
  · obtain ⟨hmem, hopen⟩ := List.mem_filter.mp h
    rw [Bool.and_eq_true, decide_eq_true_iff] at hopen
    exact ⟨hmem, hopen.1⟩

theorem Ordered.ranked_of_ruleChoice? (h : s.Ordered) {r : Rule} (hr : r ∈ s.rules.enabled)
    (hc : s.ruleChoice? d r = some c) : c.ranked = true := by
  unfold ruleChoice? at hc
  dsimp only at hc
  split at hc
  · exact absurd hc (by simp)
  · rw [Choice.ranked_of_ofAlternatives? hc]
    refine h.versions.ranks (fun id hid => ?_) _ _
    obtain ⟨hmem, hpos⟩ := mem_literals_of_mem_openCandidates hid
    exact h.offers r hr id hmem hpos

theorem Ordered.ranked_of_recommendationChoice? (h : s.Ordered) {id : PackageId} {r : Relation}
    (hc : s.recommendationChoice? d id r = some c) : c.ranked = true := by
  unfold recommendationChoice? at hc
  dsimp only at hc
  split at hc
  · exact absurd hc (by simp)
  · rw [Choice.ranked_of_ofAlternatives? hc]
    exact h.versions.ranks
      (fun q hq => Universe.mem_ids_of_mem_whatProvides (List.mem_filter.mp hq).1) _ _

theorem Ordered.ranked_of_weakChoice? (h : s.Ordered) (hc : s.weakChoice? d = some c) :
    c.ranked = true := by
  unfold weakChoice? at hc
  split at hc
  · exact absurd hc (by simp)
  · obtain ⟨id, -, hid⟩ := List.exists_of_findSome?_eq_some hc
    unfold packageChoice? at hid
    split at hid
    · exact absurd hid (by simp)
    · obtain ⟨p, -, hp⟩ := Option.bind_eq_some_iff.mp hid
      obtain ⟨r, -, hr⟩ := List.exists_of_findSome?_eq_some hp
      exact h.ranked_of_recommendationChoice? hr

theorem ranked_of_keepChoice? (hc : s.keepChoice? d = some c) : c.ranked = true := by
  unfold keepChoice? at hc
  obtain ⟨id, -, rfl⟩ := Option.map_eq_some_iff.mp hc
  rfl

/-- The candidates of every choice can be put in order. -/
theorem Ordered.ranked_of_choice? (h : s.Ordered) (hc : s.choice? s.rules.enabled d = some c) :
    c.ranked = true := by
  unfold choice? at hc
  split at hc
  · rename_i found hfound
    obtain ⟨r, hr, hrc⟩ := List.exists_of_findSome?_eq_some hfound
    rw [← Option.some.inj hc]
    exact h.ranked_of_ruleChoice? hr hrc
  · split at hc
    · rename_i found hfound
      rw [← Option.some.inj hc]
      exact h.ranked_of_weakChoice? hfound
    · exact ranked_of_keepChoice? hc

theorem Ordered.ranked_round (h : s.Ordered) (room : Nat) (st : SearchState) :
    (s.round s.rules.enabled room st).ranked = true := by
  unfold round
  split
  · split <;> rfl
  · split
    · rfl
    · rename_i c hc
      have hranked := h.ranked_of_choice? hc
      split <;> exact hranked

theorem Ordered.ranksRounds (h : s.Ordered) (room : Nat) : ∀ (left : Nat) (st : SearchState),
    s.ranksRounds s.rules.enabled room left st = true
  | 0, _ => rfl
  | left + 1, st => by
      rw [Search.ranksRounds, h.ranked_round room st, Bool.true_and]
      split
      · rfl
      · exact h.ranksRounds room left _

/-- **A search over ordered versions puts all candidates in order.** -/
theorem Ordered.ranksAll (h : s.Ordered) : s.ranksAll = true := by
  unfold Search.ranksAll
  cases decideAssertions? s.rules.enabled s.start with
  | none => rfl
  | some decisions => exact h.ranksRounds _ _ _

/-! ## All searches of a solve

They differ in the rules in force only, of which some are taken out from one search to the next.
-/

section Descending

variable {P : Search → Prop} (hwithout : ∀ (s : Search) (id : Nat), P s → P (s.without id))

include hwithout

theorem forall_dropSearches : ∀ {ids : List Nat} {s : Search}, P s → ∀ t ∈ dropSearches ids s, P t
  | [], _, _, t, ht => absurd ht List.not_mem_nil
  | id :: ids, s, hs, t, ht => by
      rcases List.mem_cons.mp ht with rfl | ht
      · exact hwithout s id hs
      · have hnext : P (s.tryDrop [] id).1 := by
          rw [tryDrop_eq]
          split
          · exact hs
          · exact hwithout s id hs
        exact forall_dropSearches hnext t ht

/-- What holds of a search, and is kept when a rule is left out, holds of all searches made. -/
theorem forall_settleSearches : ∀ {left : Nat} {s : Search}, P s →
    ∀ t ∈ settleSearches left s, P t
  | 0, _, _, t, ht => absurd ht List.not_mem_nil
  | left + 1, s, hs, t, ht => by
      rcases List.mem_cons.mp ht with rfl | ht
      · exact hs
      · split at ht
        · exact absurd ht List.not_mem_nil
        · exact absurd ht List.not_mem_nil
        · -- the searches for a core, and those made once a rule of it is given up
          rcases List.mem_append.mp ht with ht | ht
          · exact forall_dropSearches hwithout hs t ht
          · split at ht
            · rename_i id _
              exact forall_settleSearches (hwithout s id hs) t ht
            · exact absurd ht List.not_mem_nil

end Descending

end Search

/-! ## The rules of installed packages -/

namespace Setting

variable {s : Setting}

/-- Whatever is put in order for them is a package. -/
theorem mem_ids_of_mem_listsOf {id : PackageId} {p : Package} {candidates : List PackageId}
    (h : candidates ∈ s.listsOf id p) : ∀ c ∈ candidates, c ∈ s.world.ids := by
  intro c hc
  refine Universe.mem_ids_of_isConsidered ?_
  unfold listsOf at h
  dsimp only at h
  split at h
  · -- a package that is erased has no candidates
    exact absurd h List.not_mem_nil
  · split at h
    · rw [List.mem_singleton.mp h] at hc
      exact isConsidered_of_mem_syncing hc
    · split at h
      · exact absurd h List.not_mem_nil
      · -- newer builds to stand beside it, or what may replace it
        unfold listsToStay at h
        rcases List.mem_append.mp h with h | h
        · split at h
          · rw [List.mem_singleton.mp h] at hc
            exact isConsidered_of_mem_newerBuilds hc
          · exact absurd h List.not_mem_nil
        · split at h
          · exact absurd h List.not_mem_nil
          · rw [List.mem_singleton.mp h] at hc
            exact isConsidered_of_mem_replacing hc

theorem ranksAll_of_ordersVersions (h : s.world.OrdersVersions) : s.ranksAll = true := by
  unfold ranksAll
  refine List.all_eq_true.mpr fun id _ => ?_
  cases s.world.package? id with
  | none => rfl
  | some p =>
      exact List.all_eq_true.mpr fun candidates hcandidates =>
        h.ranks (mem_ids_of_mem_listsOf hcandidates) .best none

theorem ordered_search (h : s.world.OrdersVersions) : (s.search s.ruleSet).Ordered where
  versions := h
  offers := by
    intro r hr id hid hpos
    obtain ⟨r', hr', -, hlits, -⟩ :=
      (RuleSet.represents_ofList s.rules).origin (RuleSet.mem_enabled_iff.mp hr).1
    rw [hlits] at hid
    exact Universe.mem_ids_of_isConsidered
      (((s.allFresh_rules r' hr').shows id hid).isConsidered hpos)

end Setting

/-! ## Solving -/

variable {world : Universe} {flags : SolverFlags} {job : Job}

theorem solve?_eq_some {s : Solution} :
    solve? world flags job = some s ↔
      ranksJob world flags job = true ∧ solve world flags job = s := by
  unfold solve?
  split <;> simp [*]

theorem isSome_solve? : (solve? world flags job).isSome = ranksJob world flags job := by
  unfold solve?
  cases ranksJob world flags job <;> rfl

theorem ranksJob_of_ordersVersions (h : world.OrdersVersions) :
    ranksJob world flags job = true := by
  unfold ranksJob
  refine Bool.and_eq_true_iff.mpr ⟨Setting.ranksAll_of_ordersVersions h, ?_⟩
  refine List.all_eq_true.mpr fun t ht => ?_
  have hordered : t.Ordered :=
    Search.forall_settleSearches (fun _ id hs => hs.without id) (Setting.ordered_search h) t ht
  exact hordered.ranksAll

/-- **Where versions are ordered every job has an answer.** -/
theorem isSome_solve?_of_ordersVersions (h : world.OrdersVersions) (flags : SolverFlags)
    (job : Job) : (solve? world flags job).isSome = true := by
  rw [isSome_solve?]
  exact ranksJob_of_ordersVersions h

end DepSolver
