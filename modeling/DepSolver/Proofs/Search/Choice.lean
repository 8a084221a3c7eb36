import DepSolver.Proofs.Order.Sort
import DepSolver.Proofs.Search.Branches

/-!
# What a choice leaves out

A choice lists everything that could be done: all the candidates of a rule, all the providers of a
recommendation and to decline them, to keep a package and to drop it. So no model that agrees with
the decisions is left out, whatever the order of preference; and where nothing is left to choose,
every rule is satisfied already or has only false literals.
-/

namespace DepSolver

theorem Universe.mem_preferred {u : Universe} {preference : Preference} {source : Option PackageId}
    {candidates : List PackageId} {id : PackageId} :
    id ∈ u.preferred preference source candidates ↔ id ∈ candidates := by
  unfold preferred
  cases u.comparing? preference source with
  | none => rfl
  | some cmp => exact mem_sortBy cmp

theorem Choice.ofAlternatives?_eq_some {reason : Reason} {ranked : Bool}
    {rows : List (List Literal)} {c : Choice} (h : ofAlternatives? reason ranked rows = some c) :
    c.first :: c.others = rows := by
  cases rows with
  | nil => exact absurd h (by simp [ofAlternatives?])
  | cons first others =>
      rw [ofAlternatives?, Option.some.injEq] at h
      rw [← h]

theorem Choice.ofAlternatives?_eq_none {reason : Reason} {ranked : Bool}
    {rows : List (List Literal)} (h : ofAlternatives? reason ranked rows = none) : rows = [] := by
  cases rows with
  | nil => rfl
  | cons first others => exact absurd h (by simp [ofAlternatives?])

/-- The assignment that installs exactly what is decided to be present. -/
def Decisions.presence (d : Decisions) : Assignment := d.isPresent

namespace Search

open SearchState (Covers)

variable {s : Search} {K : Literal → Prop} {d : Decisions}

/-! ## Rules -/

/-- Whether a rule is satisfied by leaving out whatever is undecided. -/
def IsMet (d : Decisions) (r : Rule) : Prop :=
  ∃ l ∈ r.literals, d.satisfies l = true ∨ (l < 0 ∧ d.isUndecided l = true)

theorem IsMet.satisfies {r : Rule} (h : IsMet d r) (h0 : ∀ l ∈ r.literals, l ≠ 0) :
    d.presence.satisfies r = true := by
  obtain ⟨l, hl, hcase⟩ := h
  refine Assignment.satisfies_iff.mpr ⟨l, hl, ?_⟩
  rcases Int.lt_or_gt_of_ne (h0 l hl) with hneg | hpos
  · rw [Assignment.holds_of_neg hneg, Bool.not_eq_true']
    show d.isPresent (-l) = false
    rw [← Bool.not_eq_true, Decisions.isPresent_iff, Decisions.signedLevel_neg]
    rcases hcase with hs | ⟨-, hu⟩
    · rw [(Decisions.satisfies_iff.mp hs).2]
      exact Int.not_lt.mpr (Int.le_of_lt hneg)
    · rw [Decisions.isUndecided_iff.mp hu]
      exact Int.lt_irrefl 0
  · rw [Assignment.holds_of_pos hpos]
    rcases hcase with hs | ⟨hneg, -⟩
    · exact (Decisions.isPresent_iff_satisfies hpos).mpr hs
    · exact absurd hneg (Int.not_lt.mpr (Int.le_of_lt hpos))

theorem openCandidates_of_isMet {r : Rule} (h : IsMet d r) : openCandidates d r = [] := by
  obtain ⟨l, hl, hcase⟩ := h
  unfold openCandidates
  rw [if_pos]
  refine List.any_eq_true.mpr ⟨l, hl, ?_⟩
  rw [Bool.or_eq_true, Bool.and_eq_true, decide_eq_true_iff]
  exact hcase

theorem openCandidates_of_not_isMet {r : Rule} (h : ¬IsMet d r) :
    openCandidates d r = r.literals.filter fun l => 0 < l && d.isUndecided l := by
  unfold openCandidates
  refine if_neg fun hany => ?_
  obtain ⟨l, hl, hcase⟩ := List.any_eq_true.mp hany
  rw [Bool.or_eq_true, Bool.and_eq_true, decide_eq_true_iff] at hcase
  exact h ⟨l, hl, hcase⟩

theorem mem_openCandidates {r : Rule} (h : ¬IsMet d r) {id : PackageId} :
    id ∈ openCandidates d r ↔ id ∈ r.literals ∧ 0 < id ∧ d.isUndecided id = true := by
  rw [openCandidates_of_not_isMet h, List.mem_filter, Bool.and_eq_true, decide_eq_true_iff]

theorem ruleChoice?_eq_some {r : Rule} {c : Choice} (h : s.ruleChoice? d r = some c) :
    ¬IsMet d r ∧ ∀ row, row ∈ c.first :: c.others ↔ ∃ id ∈ openCandidates d r, row = [id] := by
  unfold ruleChoice? at h
  dsimp only at h
  split at h
  · exact absurd h (by simp)
  · rename_i hne
    refine ⟨fun hmet => ?_, fun row => ?_⟩
    · rw [openCandidates_of_isMet hmet] at hne
      exact hne rfl
    · rw [Choice.ofAlternatives?_eq_some h, List.mem_map]
      simp only [Universe.mem_preferred, eq_comm]

/-- **The candidates of a rule cover every model**: one of its literals is true, and those that are
not candidates are false. -/
theorem covers_of_ruleChoice? (hK : s.Admits K) {r : Rule} (hr : r ∈ s.rules.enabled) {c : Choice}
    (h : s.ruleChoice? d r = some c) : Covers s K d c := by
  obtain ⟨hmet, hrows⟩ := ruleChoice?_eq_some h
  refine ⟨fun row hrow l hl => ?_, fun α hα hagree => ?_⟩
  · obtain ⟨id, hid, rfl⟩ := (hrows row).mp hrow
    obtain ⟨hmem, -, -⟩ := (mem_openCandidates hmet).mp hid
    rw [List.mem_singleton.mp hl]
    exact hK.rules hr hmem
  · obtain ⟨l, hl, hholds⟩ := Assignment.satisfies_iff.mp (hα r hr)
    have hl0 := hK.ne_zero hr hl
    -- the literal that holds is neither true nor false yet, and not negative: a candidate
    have hundecided : d.isUndecided l = true := by
      rcases Decisions.satisfies_or_refutes_or_isUndecided d l with hs | hf | hu
      · exact absurd ⟨l, hl, .inl hs⟩ hmet
      · rw [hagree.holds_eq_false hl0 hf] at hholds
        exact absurd hholds (by simp)
      · exact hu
    have hpos : 0 < l := by
      rcases Int.lt_or_gt_of_ne hl0 with hneg | hpos
      · exact absurd ⟨l, hl, .inr ⟨hneg, hundecided⟩⟩ hmet
      · exact hpos
    refine ⟨[l], (hrows _).mpr ⟨l, (mem_openCandidates hmet).mpr ⟨hl, hpos, hundecided⟩, rfl⟩, ?_⟩
    intro x hx
    rw [List.mem_singleton.mp hx]
    exact hholds

/-- A rule that offers no choice is met, or has only false literals. -/
theorem isMet_or_of_ruleChoice? {r : Rule} (h0 : ∀ l ∈ r.literals, l ≠ 0)
    (h : s.ruleChoice? d r = none) : IsMet d r ∨ ∀ l ∈ r.literals, d.refutes l = true := by
  refine Classical.or_iff_not_imp_left.mpr fun hmet l hl => ?_
  rcases Decisions.satisfies_or_refutes_or_isUndecided d l with hs | hf | hu
  · exact absurd ⟨l, hl, .inl hs⟩ hmet
  · exact hf
  · exfalso
    rcases Int.lt_or_gt_of_ne (h0 l hl) with hneg | hpos
    · exact hmet ⟨l, hl, .inr ⟨hneg, hu⟩⟩
    · -- an undecided candidate would have been offered
      have hmem := (mem_openCandidates hmet).mpr ⟨hl, hpos, hu⟩
      unfold ruleChoice? at h
      dsimp only at h
      split at h
      · rename_i hnil
        rw [List.isEmpty_iff.mp hnil] at hmem
        exact absurd hmem (by simp)
      · have hrow := Choice.ofAlternatives?_eq_none h
        have hpref : l ∈ s.world.preferred r.toClass.preference r.source (openCandidates d r) :=
          Universe.mem_preferred.mpr hmem
        rw [List.map_eq_nil_iff.mp hrow] at hpref
        exact absurd hpref (by simp)

/-! ## Recommendations and installed packages -/

/-- Some provider is present, or all are absent. -/
theorem covers_of_recommendationChoice? (hK : s.Admits K) {id : PackageId} {r : Relation}
    (hr : ∀ q ∈ s.world.whatProvides r, K q ∧ K (-q)) {c : Choice}
    (h : s.recommendationChoice? d id r = some c) : Covers s K d c := by
  unfold recommendationChoice? at h
  dsimp only at h
  split at h
  · exact absurd h (by simp)
  · have hrows := Choice.ofAlternatives?_eq_some h
    have hadmitted : ∀ p ∈ (s.world.whatProvides r).filter d.isUndecided, K p ∧ K (-p) :=
      fun p hp => hr p (List.mem_filter.mp hp).1
    refine ⟨fun row hrow l hl => ?_, fun α _ _ => ?_⟩
    · rw [hrows, List.mem_append, List.mem_map, List.mem_singleton] at hrow
      rcases hrow with ⟨p, hp, rfl⟩ | rfl
      · rw [List.mem_singleton.mp hl]
        exact (hadmitted p (Universe.mem_preferred.mp hp)).1
      · obtain ⟨p, hp, rfl⟩ := List.mem_map.mp hl
        exact (hadmitted p hp).2
    · rw [hrows]
      by_cases hany : ∃ p ∈ (s.world.whatProvides r).filter d.isUndecided, α.holds p = true
      · obtain ⟨p, hp, hholds⟩ := hany
        refine ⟨[p], List.mem_append_left _ ?_, fun l hl => ?_⟩
        · exact List.mem_map_of_mem (Universe.mem_preferred.mpr hp)
        · rw [List.mem_singleton.mp hl]
          exact hholds
      · -- the model declines all of them
        refine ⟨_, List.mem_append_right _ (List.mem_singleton_self _), fun l hl => ?_⟩
        obtain ⟨p, hp, rfl⟩ := List.mem_map.mp hl
        rw [Assignment.holds_neg (hK.knows (hadmitted p hp).1).1, Bool.not_eq_true',
          ← Bool.not_eq_true]
        exact fun hholds => hany ⟨p, hp, hholds⟩

/-- Only recommendations of packages decided to be present are followed. -/
theorem covers_of_weakChoice? (hK : s.Admits K) (hd : ∀ id ∈ d.present, K id) {c : Choice}
    (h : s.weakChoice? d = some c) : Covers s K d c := by
  unfold weakChoice? at h
  split at h
  · exact absurd h (by simp)
  · rename_i hflag
    rw [Bool.not_eq_true] at hflag
    obtain ⟨id, hid, hchoice⟩ := List.exists_of_findSome?_eq_some h
    unfold packageChoice? at hchoice
    split at hchoice
    · exact absurd hchoice (by simp)
    · obtain ⟨p, hp, hp'⟩ := Option.bind_eq_some_iff.mp hchoice
      obtain ⟨r, hr, hrc⟩ := List.exists_of_findSome?_eq_some hp'
      exact covers_of_recommendationChoice? hK
        (fun q hq => hK.recommended hflag (hd id hid) hp hr hq) hrc

/-- A package is kept or dropped. -/
theorem covers_of_keepChoice? (hK : s.Admits K) {c : Choice} (h : s.keepChoice? d = some c) :
    Covers s K d c := by
  unfold keepChoice? at h
  obtain ⟨id, hfind, rfl⟩ := Option.map_eq_some_iff.mp h
  obtain ⟨hkeep, hdrop⟩ :=
    hK.installed (Universe.mem_installedIds.mp (List.mem_of_find?_eq_some hfind))
  refine ⟨fun row hrow l hl => ?_, fun α _ _ => ?_⟩
  · rcases List.mem_cons.mp hrow with rfl | hrow
    · rw [List.mem_singleton.mp hl]
      exact hkeep
    · rw [List.mem_singleton.mp hrow] at hl
      rw [List.mem_singleton.mp hl]
      exact hdrop
  · rcases hα : α.holds id
    · refine ⟨[-id], List.mem_cons_of_mem _ (List.mem_singleton_self _), fun l hl => ?_⟩
      rw [List.mem_singleton.mp hl, Assignment.holds_neg (hK.knows hkeep).1, hα]
      rfl
    · refine ⟨[id], List.mem_cons_self .., fun l hl => ?_⟩
      rw [List.mem_singleton.mp hl]
      exact hα

/-! ## All choices -/

/-- **No choice leaves out a model.** -/
theorem covers_of_choice? (hK : s.Admits K) (hd : ∀ id ∈ d.present, K id) {c : Choice}
    (h : s.choice? s.rules.enabled d = some c) : Covers s K d c := by
  unfold choice? at h
  split at h
  · rename_i found hfound
    obtain ⟨r, hr, hrc⟩ := List.exists_of_findSome?_eq_some hfound
    rw [← Option.some.inj h]
    exact covers_of_ruleChoice? hK hr hrc
  · split at h
    · rename_i found hfound
      rw [← Option.some.inj h]
      exact covers_of_weakChoice? hK hd hfound
    · exact covers_of_keepChoice? hK h

/-- Where nothing is left to choose, no rule offers a choice and installed packages are decided. -/
theorem choice?_eq_none (h : s.choice? s.rules.enabled d = none) :
    (∀ r ∈ s.rules.enabled, s.ruleChoice? d r = none) ∧
      ∀ id ∈ s.world.installedIds, d.isDecided id = true := by
  unfold choice? at h
  split at h
  · exact absurd h (by simp)
  · rename_i hrules
    split at h
    · exact absurd h (by simp)
    · refine ⟨fun r hr => List.findSome?_eq_none_iff.mp hrules r hr, fun id hid => ?_⟩
      unfold keepChoice? at h
      have hnot := List.find?_eq_none.mp (Option.map_eq_none_iff.mp h) id hid
      rw [Decisions.isUndecided, Bool.not_eq_true', Bool.not_eq_false] at hnot
      exact hnot

end Search

end DepSolver
