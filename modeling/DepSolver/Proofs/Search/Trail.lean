import DepSolver.Proofs.Search.Decisions

/-!
# Trails: what a run of decisions leaves

A `Trail` is the history of decisions told without a map: the decisions in force, each with its
reason and the level at which its package was decided. Deciding adds an entry, overriding moves one
to the end, and taking back leaves out the entries above a level.

`Decisions` tells the same history by a map of signed levels and a queue, which each step changes
apart from each other. `Shows` says that both agree with the trail. There is one lemma for each kind
of step, and from them `Shows.apply` and `Shows.run`: the two views agree after any run of steps.
-/

namespace DepSolver

/-- A decision in force. -/
structure Decision where
  literal : Literal
  reason : Reason
  /-- The level at which its package was decided. -/
  level : Nat
deriving DecidableEq, Repr

/-- The decisions in force, the one made last at the end, and the level reached. -/
structure Trail where
  decisions : List Decision := []
  level : Nat := 0
deriving DecidableEq, Repr

/-- A change of what is decided. -/
inductive DecisionStep where
  | decide (l : Literal) (reason : Reason)
  | override (l : Literal) (reason : Reason)
  | incrementLevel
  | setLevel (level : UInt32)
  | revert (level : UInt32)
  | reset
deriving DecidableEq, Repr

/-- Whether what a step decides is about a package. -/
def DecisionStep.Names : DecisionStep → Prop
  | decide l _ | override l _ => l ≠ 0
  | incrementLevel | setLevel _ | revert _ | reset => True

instance : ∀ s : DecisionStep, Decidable s.Names
  | .decide _ _ | .override _ _ => inferInstanceAs (Decidable (_ ≠ _))
  | .incrementLevel | .setLevel _ | .revert _ | .reset => inferInstanceAs (Decidable True)

namespace Trail

/-- The decision about the package of a literal. -/
def about? (t : Trail) (l : Literal) : Option Decision :=
  t.decisions.find? fun m => m.literal.natAbs == l.natAbs

/-- Decides a literal at the level reached, unless its package is decided. -/
def decide (t : Trail) (l : Literal) (reason : Reason) : Trail :=
  match t.about? l with
  | some _ => t
  | none => { t with decisions := t.decisions ++ [⟨l, reason, t.level⟩] }

/-- Decides a literal instead of what was decided about its package, at the level of that. -/
def override (t : Trail) (l : Literal) (reason : Reason) : Trail :=
  { t with
    decisions := (t.decisions.filter fun m => m.literal.natAbs != l.natAbs) ++
      [⟨l, reason, ((t.about? l).map Decision.level).getD t.level⟩] }

/-- Leaves out the decisions made above a level. -/
def revert (t : Trail) (level : Nat) : Trail :=
  { decisions := t.decisions.filter fun m => m.level ≤ level, level }

def apply (t : Trail) : DecisionStep → Trail
  | .decide l reason => t.decide l reason
  | .override l reason => t.override l reason
  | .incrementLevel => { t with level := t.level + 1 }
  | .setLevel level => { t with level := level.toNat }
  | .revert level => t.revert level.toNat
  | .reset => {}

end Trail

namespace Decisions

def apply (d : Decisions) : DecisionStep → Decisions
  | .decide l reason => (d.decide l reason).2
  | .override l reason => d.override l reason
  | .incrementLevel => d.incrementLevel
  | .setLevel level => d.setLevel level.toNat
  | .revert level => d.revert level.toNat
  | .reset => d.reset

/-- The map and the queue both tell the decisions of a trail. -/
structure Shows (d : Decisions) (t : Trail) : Prop where
  coherent : d.Coherent
  level_eq : d.level = t.level
  /-- The queue holds the decisions in their order, with their reasons. -/
  queue_eq : d.queue.toList = t.decisions.map fun m => (m.literal, m.reason)
  /-- The map holds the level of each. -/
  natAbs_eq : ∀ {m : Decision}, m ∈ t.decisions → (d.signedLevel m.literal).natAbs = m.level + 1

/-! ## Reading the map off the trail -/

theorem signedLevel_congr (d : Decisions) {l x : Literal} (h : l.natAbs = x.natAbs) :
    d.signedLevel l = d.signedLevel x := by
  rw [signedLevel, signedLevel, h]

section Shows

variable {d : Decisions} {t : Trail}

theorem Shows.mem_queue (h : d.Shows t) {m : Decision} (hm : m ∈ t.decisions) :
    (m.literal, m.reason) ∈ d.queue.toList :=
  h.queue_eq ▸ List.mem_map_of_mem hm

theorem Shows.exists_mem (h : d.Shows t) {q : Literal × Reason} (hq : q ∈ d.queue.toList) :
    ∃ m ∈ t.decisions, m.literal = q.1 := by
  rw [h.queue_eq] at hq
  obtain ⟨m, hm, rfl⟩ := List.mem_map.mp hq
  exact ⟨m, hm, rfl⟩

/-- A package without a decision in the trail is undecided. -/
theorem Shows.signedLevel_eq_zero (h : d.Shows t) {l : Literal} (hl : t.about? l = none) :
    d.signedLevel l = 0 := by
  by_cases hzero : d.signedLevel l = 0
  · exact hzero
  · obtain ⟨q, hq, hql⟩ := h.coherent.signedLevel_ne_zero_iff.mp hzero
    obtain ⟨m, hm, hmq⟩ := h.exists_mem hq
    exact absurd (by rw [beq_iff_eq, hmq, hql]) (List.find?_eq_none.mp hl m hm)

theorem Shows.natAbs_of_about? (h : d.Shows t) {l : Literal} {m : Decision}
    (hm : t.about? l = some m) : (d.signedLevel l).natAbs = m.level + 1 := by
  have habs := List.find?_some hm
  rw [← d.signedLevel_congr (beq_iff_eq.mp habs)]
  exact h.natAbs_eq (List.mem_of_find?_eq_some hm)

/-- The map holds the levels of the trail and no others. -/
theorem Shows.level?_eq (h : d.Shows t) (l : Literal) :
    d.level? l = (t.about? l).map Decision.level := by
  unfold level?
  cases hm : t.about? l with
  | none =>
    rw [h.signedLevel_eq_zero hm]
    rfl
  | some m =>
    have habs := h.natAbs_of_about? hm
    have hne : d.signedLevel l ≠ 0 := by
      intro h0
      rw [h0] at habs
      exact absurd habs (by simp)
    rw [if_neg hne, habs]
    rfl

theorem Shows.isUndecided_iff_about? (h : d.Shows t) {l : Literal} :
    d.isUndecided l = true ↔ t.about? l = none := by
  rw [isUndecided_iff]
  constructor
  · intro h0
    have hlevel := h.level?_eq l
    rw [level?, if_pos h0] at hlevel
    exact Option.map_eq_none_iff.mp hlevel.symm
  · exact h.signedLevel_eq_zero

/-- The map holds the sign and the level of every decision in force. -/
theorem Shows.signedLevel_eq (h : d.Shows t) {m : Decision} (hm : m ∈ t.decisions) :
    d.signedLevel m.literal = signed m.literal (m.level + 1) := by
  have hsign := (satisfies_iff.mp (h.coherent.satisfies_of_mem (h.mem_queue hm))).2
  exact eq_of_natAbs_eq ((h.natAbs_eq hm).trans (natAbs_signed _ _).symm)
    ((signed_pos_iff _ _).trans hsign.symm)

/-! ## One step -/

/-- Deciding what is decided changes nothing. -/
theorem decide_snd_of_not_isUndecided {l : Literal} (reason : Reason)
    (h : ¬d.isUndecided l = true) : (d.decide l reason).2 = d := by
  rcases d.satisfies_or_refutes_or_isUndecided l with hs | hr | hu
  · rw [decide_of_satisfies reason hs]
  · rw [decide_of_refutes reason hr]
  · exact absurd hu h

theorem Shows.decide (h : d.Shows t) {l : Literal} (hl : l ≠ 0) (reason : Reason) :
    (d.decide l reason).2.Shows (t.decide l reason) := by
  cases hm : t.about? l with
  | some m =>
    have hdecided : ¬d.isUndecided l = true := by
      rw [h.isUndecided_iff_about?, hm]
      exact Option.some_ne_none m
    rw [decide_snd_of_not_isUndecided reason hdecided, Trail.decide, hm]
    exact h
  | none =>
    have hu : d.isUndecided l = true := h.isUndecided_iff_about?.mpr hm
    rw [decide_of_isUndecided reason hu, Trail.decide, hm]
    refine ⟨h.coherent.record reason hu hl, h.level_eq, ?_, ?_⟩
    · rw [record_queue, h.queue_eq, List.map_append]
      rfl
    · intro m hmem
      rw [signedLevel_record]
      rcases List.mem_append.mp hmem with hmem | hmem
      · -- an earlier decision is about another package
        have hne := List.find?_eq_none.mp hm m hmem
        rw [beq_iff_eq] at hne
        rw [if_neg hne]
        exact h.natAbs_eq hmem
      · rw [List.mem_singleton] at hmem
        rw [hmem, if_pos rfl, natAbs_signed, h.level_eq]

theorem Shows.override (h : d.Shows t) {l : Literal} (hl : l ≠ 0) (reason : Reason) :
    (d.override l reason).Shows (t.override l reason) := by
  refine ⟨h.coherent.override reason hl, h.level_eq, ?_, ?_⟩
  · unfold Decisions.override Trail.override
    rw [Array.toList_push, Array.toList_filter, h.queue_eq, List.filter_map, List.map_append]
    rfl
  · intro m hmem
    rw [signedLevel_override]
    rcases List.mem_append.mp hmem with hmem | hmem
    · obtain ⟨hmem, hne⟩ := List.mem_filter.mp hmem
      rw [if_neg (bne_iff_ne.mp hne)]
      exact h.natAbs_eq hmem
    · -- map and trail keep the same level, or take the current one
      rw [List.mem_singleton] at hmem
      rw [hmem, if_pos rfl, natAbs_signed, h.level?_eq, h.level_eq]

theorem Shows.signedLevel_revert_ne_zero (h : d.Shows t) {m : Decision} (hm : m ∈ t.decisions)
    (k : Nat) : (d.revert k).signedLevel m.literal ≠ 0 ↔ m.level ≤ k := by
  have habs := h.natAbs_eq hm
  rw [signedLevel_revert, habs]
  split
  · exact iff_of_false (fun hn => hn rfl) (by omega)
  · refine iff_of_true ?_ (by omega)
    intro h0
    rw [h0] at habs
    exact absurd habs (by simp)

theorem Shows.revert (h : d.Shows t) (k : Nat) : (d.revert k).Shows (t.revert k) := by
  refine ⟨h.coherent.revert k, rfl, ?_, ?_⟩
  · have hqueue : (d.revert k).queue.toList =
        d.queue.toList.filter fun q => (d.revert k).signedLevel q.1 != 0 := Array.toList_filter
    rw [hqueue, h.queue_eq, List.filter_map]
    refine congrArg _ (List.filter_congr fun m hm => ?_)
    rw [Function.comp_apply, Bool.eq_iff_iff, bne_iff_ne, decide_eq_true_iff]
    exact h.signedLevel_revert_ne_zero hm k
  · intro m hmem
    obtain ⟨hm, hk⟩ := List.mem_filter.mp hmem
    have hle : m.level ≤ k := of_decide_eq_true hk
    rw [signedLevel_revert, h.natAbs_eq hm, if_neg (by omega)]
    exact h.natAbs_eq hm

end Shows

theorem signedLevel_reset (d : Decisions) (l : Literal) : d.reset.signedLevel l = 0 := by
  unfold reset signedLevel
  rw [Array.getD_eq_getD_getElem?, Array.getElem?_map]
  cases d.levels[l.natAbs]? <;> rfl

/-- Where nothing is decided, the trail is empty. -/
theorem shows_nil {d : Decisions} (hqueue : d.queue.toList = []) (hlevel : d.level = 0)
    (hmap : ∀ l, d.signedLevel l = 0) : d.Shows {} :=
  ⟨coherent_of_undecided hqueue hmap, hlevel, hqueue, fun h => absurd h List.not_mem_nil⟩

/-- Every step keeps the two views in agreement with the trail. -/
theorem Shows.apply {d : Decisions} {t : Trail} (h : d.Shows t) {s : DecisionStep} (hs : s.Names) :
    (d.apply s).Shows (t.apply s) := by
  cases s with
  | decide l reason => exact h.decide hs reason
  | override l reason => exact h.override hs reason
  | incrementLevel =>
    exact ⟨h.coherent.incrementLevel, congrArg (· + 1) h.level_eq, h.queue_eq, h.natAbs_eq⟩
  | setLevel level => exact ⟨h.coherent.setLevel _, rfl, h.queue_eq, h.natAbs_eq⟩
  | revert level => exact h.revert level.toNat
  | reset => exact shows_nil rfl rfl d.signedLevel_reset

/-- The two views agree with the trail after any run of steps. -/
theorem Shows.run {steps : List DecisionStep} : ∀ {d : Decisions} {t : Trail}, d.Shows t →
    (∀ s ∈ steps, s.Names) → (steps.foldl Decisions.apply d).Shows (steps.foldl Trail.apply t) := by
  induction steps with
  | nil =>
    intro d t h _
    exact h
  | cons s rest ih =>
    intro d t h hs
    have hstep := h.apply (hs s List.mem_cons_self)
    exact ih hstep fun x hx => hs x (List.mem_cons_of_mem _ hx)

end Decisions

end DepSolver
