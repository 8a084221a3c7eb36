import Mathlib.Data.List.Nodup
import DepSolver.Proofs.Search.Core

/-!
# Cores are minimal

Of the rules that were tried, a core holds those that are missed: at the time a rule was put into
the core, the others still in force could be satisfied without it. Everything in the core was in
force then, and nothing ever comes back into force while a core is found. So whatever part of a core
lacks one of its rules can be satisfied.

Finding a core puts out of force exactly the rules tried that are not in it. Putting those back is
all it takes to have the rules as they were.
-/

namespace DepSolver

namespace RuleSet

variable {s t : RuleSet}

/-- Whether some assignment satisfies the rules of some numbers together, in force or not. -/
def Compatible (s : RuleSet) (ids : List Nat) : Prop :=
  ∃ α : Assignment, ∀ id ∈ ids, ∀ r, s.get? id = some r → α.satisfies r = true

/-- **Rules that conflict, and do so no longer without any one of them.** -/
structure MinimalConflict (s : RuleSet) (ids : List Nat) : Prop where
  nodup : ids.Nodup
  /-- The numbers are those of rules. -/
  known : ∀ id ∈ ids, ∃ r, s.get? id = some r
  incompatible : ¬s.Compatible ids
  proper : ∀ part : List Nat, (∀ id ∈ part, id ∈ ids) → (∃ id ∈ ids, id ∉ part) →
    s.Compatible part

/-- Whether two rule sets hold the same rules, perhaps not the same ones in force. -/
def SameRules (s t : RuleSet) : Prop :=
  ∀ i, (s.get? i).map (fun r => { r with disabled := false }) =
    (t.get? i).map fun r => { r with disabled := false }

theorem SameRules.refl (s : RuleSet) : s.SameRules s := fun _ => rfl

theorem SameRules.symm (h : s.SameRules t) : t.SameRules s := fun i => (h i).symm

theorem SameRules.trans {u : RuleSet} (h : s.SameRules t) (h' : t.SameRules u) : s.SameRules u :=
  fun i => (h i).trans (h' i)

theorem sameRules_setDisabled (s : RuleSet) (id : Nat) (b : Bool) :
    s.SameRules (s.setDisabled id b) := by
  intro i
  rw [get?_setDisabled]
  split
  · rw [Option.map_map]
    rfl
  · rfl

/-- Each rule of the one is a rule of the other but for whether it is in force. -/
theorem SameRules.exists_get? (h : s.SameRules t) {i : Nat} {r : Rule} (hr : s.get? i = some r) :
    ∃ u, t.get? i = some u ∧ { u with disabled := false } = { r with disabled := false } := by
  have hi := h i
  rw [hr, Option.map_some] at hi
  exact Option.map_eq_some_iff.mp hi.symm

theorem SameRules.compatible (h : s.SameRules t) {ids : List Nat} (hs : s.Compatible ids) :
    t.Compatible ids := by
  obtain ⟨α, hα⟩ := hs
  refine ⟨α, fun id hid r hr => ?_⟩
  obtain ⟨u, hu, heq⟩ := h.symm.exists_get? hr
  have hlits : u.literals = r.literals := (congrArg Rule.literals heq :)
  have hsame : α.satisfies r = α.satisfies u := Assignment.satisfies_congr fun l => by rw [hlits]
  rw [hsame]
  exact hα id hid u hu

theorem SameRules.minimalConflict (h : s.SameRules t) {ids : List Nat}
    (hs : s.MinimalConflict ids) : t.MinimalConflict ids where
  nodup := hs.nodup
  known id hid := by
    obtain ⟨r, hr⟩ := hs.known id hid
    obtain ⟨u, hu, -⟩ := h.exists_get? hr
    exact ⟨u, hu⟩
  incompatible ht := hs.incompatible (h.symm.compatible ht)
  proper part hpart hmissing := h.compatible (hs.proper part hpart hmissing)

theorem Compatible.mono {ids more : List Nat} (h : s.Compatible more)
    (hsub : ∀ id ∈ ids, id ∈ more) : s.Compatible ids := by
  obtain ⟨α, hα⟩ := h
  exact ⟨α, fun id hid => hα id (hsub id hid)⟩

/-- Rules in force that can be satisfied together are compatible. -/
theorem compatible_of_satisfiable {rules : List Rule} (h : Satisfiable rules) {ids : List Nat}
    (hids : ∀ id ∈ ids, ∀ r, s.get? id = some r → r ∈ rules) : s.Compatible ids := by
  obtain ⟨α, hα⟩ := h
  exact ⟨α, fun id hid r hr => hα r (hids id hid r hr)⟩

theorem Compatible.satisfiable {ids : List Nat} (h : s.Compatible ids) {rules : List Rule}
    (hrules : ∀ r ∈ rules, r ∈ s.toList ∧ r.id ∈ ids) : Satisfiable rules := by
  obtain ⟨α, hα⟩ := h
  refine ⟨α, fun r hr => ?_⟩
  obtain ⟨hmem, hid⟩ := hrules r hr
  exact hα r.id hid r (get?_id hmem)

end RuleSet

namespace Search

variable {s : Search}

theorem satisfiable_of_run (h0 : s.SparesZero) (hs : s.run.isSatisfied = true) :
    Satisfiable s.rules.enabled := by
  have hcorrect := run_correct (admits_knows h0)
  cases hrun : s.run with
  | satisfied d =>
      rw [hrun] at hcorrect
      exact ⟨d.presence, hcorrect.models⟩
  | unsatisfiable =>
      rw [hrun] at hs
      exact absurd hs (by simp [SearchResult.isSatisfied])
  | exhausted =>
      rw [hrun] at hs
      exact absurd hs (by simp [SearchResult.isSatisfied])

/-! ## What trying to leave out rules does to them -/

theorem tryDrops_cons (s : Search) (core : List Nat) (id : Nat) (ids : List Nat) :
    s.tryDrops core (id :: ids) =
      if (s.without id).run.isSatisfied then s.tryDrops (id :: core) ids
      else (s.without id).tryDrops core ids := by
  have hstep : s.tryDrops core (id :: ids) =
    (s.tryDrop core id).1.tryDrops (s.tryDrop core id).2 ids := rfl
  rw [hstep, tryDrop_eq]
  split <;> rfl

/-- The core grows by rules that were tried. -/
theorem mem_tryDrops : ∀ (ids : List Nat) (s : Search) (core : List Nat) (c : Nat),
    (c ∈ core → c ∈ (s.tryDrops core ids).2) ∧
      (c ∈ (s.tryDrops core ids).2 → c ∈ core ∨ c ∈ ids) := by
  intro ids
  induction ids with
  | nil => exact fun s core c => ⟨fun h => h, .inl⟩
  | cons id ids ih =>
    intro s core c
    rw [tryDrops_cons]
    split
    · have h := ih s (id :: core) c
      refine ⟨fun hc => h.1 (List.mem_cons_of_mem _ hc), fun hc => ?_⟩
      rcases h.2 hc with hc | hc
      · rcases List.mem_cons.mp hc with rfl | hc
        · exact .inr (List.mem_cons_self ..)
        · exact .inl hc
      · exact .inr (List.mem_cons_of_mem _ hc)
    · have h := ih (s.without id) core c
      exact ⟨h.1, fun hc => (h.2 hc).imp_right (List.mem_cons_of_mem _)⟩

/-- **What was tried and is not in the core is out of force**, and nothing else was touched. -/
theorem get?_tryDrops : ∀ {ids : List Nat} {s : Search} {core : List Nat}, ids.Nodup →
    (∀ id ∈ ids, id ∉ core) → ∀ i, (s.tryDrops core ids).1.rules.get? i =
      if i ∈ ids ∧ i ∉ (s.tryDrops core ids).2 then
        (s.rules.get? i).map fun r => { r with disabled := true }
      else s.rules.get? i := by
  intro ids
  induction ids with
  | nil =>
    intro s core _ _ i
    rw [if_neg fun h => absurd h.1 (by simp)]
    rfl
  | cons id ids ih =>
    intro s core hnodup hfresh i
    obtain ⟨hid, hnodup⟩ := List.nodup_cons.mp hnodup
    rw [List.forall_mem_cons] at hfresh
    obtain ⟨hidcore, hfresh⟩ := hfresh
    rw [tryDrops_cons]
    split
    · -- the rule stays, and is in the core from now on
      have hfresh' : ∀ j ∈ ids, j ∉ id :: core := by
        intro j hj hmem
        rcases List.mem_cons.mp hmem with rfl | hmem
        · exact hid hj
        · exact hfresh j hj hmem
      have hin : id ∈ (s.tryDrops (id :: core) ids).2 :=
        (mem_tryDrops ids s (id :: core) id).1 (List.mem_cons_self ..)
      have hsame : (i ∈ id :: ids ∧ i ∉ (s.tryDrops (id :: core) ids).2) ↔
          (i ∈ ids ∧ i ∉ (s.tryDrops (id :: core) ids).2) := by
        refine and_congr_left fun hnot => List.mem_cons.trans (or_iff_right ?_)
        exact fun he => hnot (he ▸ hin)
      rw [ih hnodup hfresh' i, if_congr hsame rfl rfl]
    · -- the rule is out of force, and no later one is tried in its place
      have hout : id ∉ ((s.without id).tryDrops core ids).2 := fun hin =>
        ((mem_tryDrops ids _ core id).2 hin).elim hidcore hid
      rw [ih hnodup hfresh i, without, RuleSet.disable, RuleSet.get?_setDisabled]
      by_cases hi : id = i
      · subst hi
        rw [if_pos rfl, if_neg fun h => hid h.1, if_pos ⟨List.mem_cons_self .., hout⟩]
      · have hsame : i ∈ id :: ids ↔ i ∈ ids :=
          List.mem_cons.trans (or_iff_right fun he => hi he.symm)
        rw [if_neg hi]
        exact if_congr (and_congr_left fun _ => hsame.symm) rfl rfl

/-- So what is in force in the end are the rules that were in force, but for those. -/
theorem mem_enabled_tryDrops {ids core : List Nat} (hnodup : ids.Nodup)
    (hfresh : ∀ id ∈ ids, id ∉ core) {r : Rule} :
    r ∈ (s.tryDrops core ids).1.rules.enabled ↔
      r ∈ s.rules.enabled ∧ (r.id ∈ ids → r.id ∈ (s.tryDrops core ids).2) := by
  have hget := get?_tryDrops (s := s) hnodup hfresh
  rw [RuleSet.mem_enabled_iff, RuleSet.mem_enabled_iff, RuleSet.mem_toList_iff,
    RuleSet.mem_toList_iff]
  refine ⟨?_, ?_⟩
  · intro h
    obtain ⟨⟨i, hi⟩, henabled⟩ := h
    rw [hget i] at hi
    split at hi
    · obtain ⟨r', -, rfl⟩ := Option.map_eq_some_iff.mp hi
      exact absurd henabled (by simp)
    · rename_i hkeep
      have hid := RuleSet.id_of_get? hi
      refine ⟨⟨⟨i, hi⟩, henabled⟩, fun htried => Classical.byContradiction fun hnot => ?_⟩
      rw [hid] at htried hnot
      exact hkeep ⟨htried, hnot⟩
  · intro h
    obtain ⟨⟨⟨i, hi⟩, henabled⟩, hkeep⟩ := h
    have hid := RuleSet.id_of_get? hi
    refine ⟨⟨i, ?_⟩, henabled⟩
    rw [hget i, if_neg, hi]
    intro hgone
    rw [hid] at hkeep
    exact hgone.2 (hkeep hgone.1)

/-- **Without a rule of the core the others can be satisfied.** -/
theorem satisfiable_tryDrops : ∀ {ids : List Nat} {s : Search} {core : List Nat}, s.SparesZero →
    ids.Nodup → (∀ id ∈ ids, id ∉ core) → ∀ c ∈ (s.tryDrops core ids).2,
      c ∈ core ∨ Satisfiable ((s.tryDrops core ids).1.without c).rules.enabled := by
  intro ids
  induction ids with
  | nil => exact fun _ _ _ c hc => .inl hc
  | cons id ids ih =>
    intro s core h0 hnodup hfresh c hc
    obtain ⟨hid, hrest⟩ := List.nodup_cons.mp hnodup
    rw [List.forall_mem_cons] at hfresh
    obtain ⟨hidcore, hfresh⟩ := hfresh
    rw [tryDrops_cons] at hc ⊢
    cases hsat : (s.without id).run.isSatisfied with
    | true =>
        rw [hsat, if_pos rfl] at hc
        rw [if_pos rfl]
        have hfresh' : ∀ j ∈ ids, j ∉ id :: core := by
          intro j hj hmem
          rcases List.mem_cons.mp hmem with rfl | hmem
          · exact hid hj
          · exact hfresh j hj hmem
        rcases ih h0 hrest hfresh' c hc with hmem | hdone
        · rcases List.mem_cons.mp hmem with rfl | hmem
          · -- without it a search just succeeded, and less is in force in the end
            refine .inr ((satisfiable_of_run (h0.without c) hsat).mono fun r hr => ?_)
            obtain ⟨hr, hne⟩ := mem_enabled_without.mp hr
            have henabled := ((mem_enabled_tryDrops hrest hfresh').mp hr).1
            exact mem_enabled_without.mpr ⟨henabled, hne⟩
          · exact .inl hmem
        · exact .inr hdone
    | false =>
        rw [hsat, if_neg Bool.false_ne_true] at hc
        rw [if_neg Bool.false_ne_true]
        exact ih (h0.without id) hrest hfresh c hc

/-! ## The core -/

/-- No rule is tried twice. -/
theorem nodup_dropOrder (s : Search) : s.dropOrder.Nodup := by
  unfold dropOrder
  rw [List.nodup_flatMap]
  refine ⟨fun k _ => ?_, ?_⟩
  · exact s.rules.nodup_enabledIds.sublist (List.filter_sublist.map _)
  · refine List.nodup_range.imp fun {k k'} hne id hk hk' => ?_
    -- a rule has one place in the order
    obtain ⟨r, hr, rfl⟩ := List.mem_map.mp hk
    obtain ⟨r', hr', hid⟩ := List.mem_map.mp hk'
    obtain ⟨hmem, hplace⟩ := List.mem_filter.mp hr
    obtain ⟨hmem', hplace'⟩ := List.mem_filter.mp hr'
    have heq : r' = r := RuleSet.eq_of_id (RuleSet.mem_enabled_iff.mp hmem').1
      (RuleSet.mem_enabled_iff.mp hmem).1 hid
    rw [heq] at hplace'
    exact hne ((beq_iff_eq.mp hplace).symm.trans (beq_iff_eq.mp hplace'))

/-- The search once every rule was tried. -/
def reduced (s : Search) : Search := (s.tryDrops [] s.dropOrder).1

/-- **What is left in force is the core.** -/
theorem mem_enabled_reduced {r : Rule} :
    r ∈ s.reduced.rules.enabled ↔ r ∈ s.rules.enabled ∧ r.id ∈ s.minimalCore := by
  unfold reduced
  rw [mem_enabled_tryDrops s.nodup_dropOrder fun _ _ => List.not_mem_nil, mem_minimalCore]
  refine and_congr_right fun hr => ?_
  have hid : r.id ∈ s.rules.enabledIds := List.mem_map_of_mem hr
  rw [and_iff_right hid]
  exact ⟨fun h => h (mem_dropOrder hr), fun h _ => h⟩

/-- Rules that were left out and are not in the core. -/
def leftOut (s : Search) : List Nat := s.dropOrder.filter fun id => !s.minimalCore.contains id

theorem get?_enableMany : ∀ (ids : List Nat) (rules : RuleSet) (i : Nat),
    (ids.foldl RuleSet.enable rules).get? i =
      if i ∈ ids then (rules.get? i).map fun r => { r with disabled := false }
      else rules.get? i := by
  intro ids
  induction ids with
  | nil => exact fun rules i => (if_neg (by simp)).symm
  | cons id ids ih =>
    intro rules i
    rw [List.foldl_cons, ih, RuleSet.enable, RuleSet.get?_setDisabled]
    by_cases hi : id = i
    · subst hi
      rw [if_pos rfl, if_pos (List.mem_cons_self ..), Option.map_map]
      exact ite_self _
    · rw [if_neg hi]
      exact if_congr ((List.mem_cons.trans (or_iff_right fun he => hi he.symm)).symm) rfl rfl

/-- **Finding a core leaves the rules as they were**, once what was left out is put back. -/
theorem get?_putBack (s : Search) (i : Nat) :
    (s.leftOut.foldl RuleSet.enable s.reduced.rules).get? i = s.rules.get? i := by
  have htried : ∀ {i}, i ∈ s.dropOrder → i ∈ s.rules.enabledIds := by
    intro i hi
    obtain ⟨k, -, hk⟩ := List.mem_flatMap.mp hi
    obtain ⟨r, hr, rfl⟩ := List.mem_map.mp hk
    exact List.mem_map_of_mem (List.mem_filter.mp hr).1
  have hleft : i ∈ s.leftOut ↔ i ∈ s.dropOrder ∧ i ∉ (s.tryDrops [] s.dropOrder).2 := by
    unfold leftOut
    rw [List.mem_filter, Bool.not_eq_true', ← Bool.not_eq_true, List.contains_iff_mem]
    refine and_congr_right fun hi => not_congr ?_
    rw [mem_minimalCore, and_iff_right (htried hi)]
  rw [get?_enableMany, reduced, get?_tryDrops s.nodup_dropOrder fun _ _ => List.not_mem_nil]
  by_cases hi : i ∈ s.leftOut
  · rw [if_pos hi, if_pos (hleft.mp hi), Option.map_map]
    -- what was left out had been in force
    obtain ⟨r, hr, rfl⟩ := List.mem_map.mp (htried (hleft.mp hi).1)
    obtain ⟨hmem, henabled⟩ := RuleSet.mem_enabled_iff.mp hr
    have hsame : { r with disabled := false } = r := by rw [← henabled]
    rw [RuleSet.get?_id hmem]
    exact congrArg some hsame
  · rw [if_neg hi, if_neg fun h => hi (hleft.mpr h)]

/-- **A core is a minimal conflict.** -/
theorem minimalConflict_minimalCore (h0 : s.SparesZero) (hunsat : ¬Satisfiable s.rules.enabled)
    (hx : ∀ t ∈ s.coreSearches, t.run.isExhausted = false) :
    s.rules.MinimalConflict s.minimalCore where
  nodup := s.rules.nodup_enabledIds.filter _
  known id hid := by
    obtain ⟨r, hr, rfl⟩ := List.mem_map.mp (mem_minimalCore.mp hid).1
    exact ⟨r, RuleSet.get?_id (RuleSet.mem_enabled_iff.mp hr).1⟩
  incompatible hcompatible := by
    refine not_satisfiable_minimalCore h0 hunsat hx (hcompatible.satisfiable fun r hr => ?_)
    obtain ⟨henabled, hcore⟩ := List.mem_filter.mp hr
    exact ⟨(RuleSet.mem_enabled_iff.mp henabled).1, List.contains_iff_mem.mp hcore⟩
  proper part hpart hmissing := by
    obtain ⟨c, hc, hnot⟩ := hmissing
    have hneeded := satisfiable_tryDrops h0 s.nodup_dropOrder (fun _ _ => List.not_mem_nil) c
      (mem_minimalCore.mp hc).2
    have hsat : Satisfiable (s.reduced.without c).rules.enabled :=
      hneeded.resolve_left List.not_mem_nil
    refine RuleSet.compatible_of_satisfiable hsat fun id hid r hr => ?_
    have hrid := RuleSet.id_of_get? hr
    -- a rule of the part is in the core, and is not the one that is missing
    obtain ⟨u, hu, huid⟩ := List.mem_map.mp (mem_minimalCore.mp (hpart id hid)).1
    have heq : u = r := RuleSet.eq_of_id (RuleSet.mem_enabled_iff.mp hu).1
      (RuleSet.mem_of_get? hr) (huid.trans hrid.symm)
    rw [heq] at hu
    refine mem_enabled_without.mpr ⟨mem_enabled_reduced.mpr ⟨hu, ?_⟩, ?_⟩
    · rw [hrid]
      exact hpart id hid
    · rw [hrid]
      intro he
      exact hnot (he ▸ hid)

end Search

end DepSolver
