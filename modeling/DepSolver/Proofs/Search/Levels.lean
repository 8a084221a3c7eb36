import DepSolver.Proofs.Search.Invariants
import DepSolver.Proofs.Search.MachineWords

/-!
# How high the levels of a search get

A search opens at most one choice in a round and takes at most `maxRounds` rounds, so its levels
stay far below the one at which machine words wrap around. Each change that a search makes to its
decisions is a step on a table of machine words that fits there, and the table stands for the
decisions after it: what a search decides, it could decide in machine words, step by step.
-/

namespace DepSolver

/-- Decisions and choices that no level above a bound takes part in. -/
structure Decisions.Within (bound : Nat) (d : Decisions) (bs : List Branch) : Prop where
  level_le : d.level ≤ bound
  branches : ∀ b ∈ bs, b.level ≤ bound
  /-- Nothing was decided above the current level. -/
  natAbs_le : ∀ l, (d.signedLevel l).natAbs ≤ d.level + 1

namespace Search

open Decisions SearchState

variable {s : Search} {d : Decisions}

/-- Going back below a choice makes no level higher. -/
theorem within_below {bound : Nat} {b : Branch} {outer : List Branch}
    (h : d.Within bound (b :: outer)) (rows : List (List Literal)) :
    (below d b).Within bound ({ b with alternatives := rows } :: outer) := by
  obtain ⟨hb, houter⟩ := List.forall_mem_cons.mp h.branches
  refine ⟨hb, List.forall_mem_cons.mpr ⟨hb, houter⟩, ?_⟩
  intro l
  have hlevel : (below d b).level = b.level := rfl
  rw [hlevel, below, signedLevel_setLevel, signedLevel_revert]
  split <;> omega

/-- Only opening a choice raises the bound. -/
theorem maintains_within (s : Search) : s.Maintains fun n => Decisions.Within (n + 1) where
  forced h hext := ⟨hext.level ▸ h.level_le, h.branches, hext.level_le h.natAbs_le⟩
  opened h _ := by
    have hle := Nat.succ_le_succ h.level_le
    refine ⟨hle, List.forall_mem_cons.mpr ⟨hle, ?_⟩, ?_⟩
    · exact fun b hb => Nat.le_succ_of_le (h.branches b hb)
    · exact fun l => Nat.le_succ_of_le (h.natAbs_le l)
  decided h hext := ⟨hext.level ▸ h.level_le, h.branches, hext.level_le h.natAbs_le⟩
  wentBelow := within_below
  gaveUp h := ⟨h.level_le, fun b hb => h.branches b (List.mem_cons_of_mem _ hb), h.natAbs_le⟩

theorem within_start (s : Search) : s.start.Within 1 [] where
  level_le := Nat.le_refl 1
  branches b hb := absurd hb List.not_mem_nil
  natAbs_le l := by
    rw [signedLevel_start]
    exact Nat.zero_le _

end Search

/-! ## The steps of a search on a table -/

namespace DecisionTable

theorem fitsAll_append {xs ys : List DecisionStep} : ∀ {t : DecisionTable},
    t.FitsAll (xs ++ ys) ↔ t.FitsAll xs ∧ (xs.foldl apply t).FitsAll ys := by
  induction xs with
  | nil => exact (true_and _).to_iff.symm
  | cons step xs ih => exact (and_congr_right' ih).trans and_assoc.symm

/-- Decisions to which steps that fit lead from a table without any. -/
def ComesTo (size : Nat) (d : Decisions) : Prop :=
  ∃ steps : List DecisionStep, (ofSize size).FitsAll steps ∧
    (steps.foldl apply (ofSize size)).toDecisions = d

namespace ComesTo

variable {size : Nat} {d e : Decisions}

theorem step (h : ComesTo size d) (step : DecisionStep)
    (hfits : ∀ t : DecisionTable, t.toDecisions = d → t.Fits step) :
    ComesTo size (d.apply step) := by
  obtain ⟨steps, hsteps, rfl⟩ := h
  have hstep := hfits _ rfl
  obtain ⟨-, hrange⟩ := (inRange_ofSize size).run hsteps
  refine ⟨steps ++ [step], fitsAll_append.mpr ⟨hsteps, hstep, trivial⟩, ?_⟩
  rw [List.foldl_append]
  exact (hrange.apply hstep).1

theorem incrementLevel (h : ComesTo size d) (hlevel : d.level + 1 < 2 ^ 32) :
    ComesTo size d.incrementLevel := by
  refine h.step .incrementLevel ?_
  rintro t rfl
  exact hlevel

theorem of_extends {P : Literal → Reason → Prop} (h : ComesTo size d)
    (hlevel : d.level + 1 < 2 ^ 31) (hext : d.Extends P e) : ComesTo size e := by
  induction hext with
  | refl => exact h
  | @record e l reason hext hundecided _ ih =>
    have hstep : ComesTo size (e.apply (.decide l reason)) := by
      refine ih.step _ ?_
      rintro t rfl -
      rw [← hext.level] at hlevel
      exact hlevel
    rwa [Decisions.apply, Decisions.decide_of_isUndecided _ hundecided] at hstep

/-- Going back below a choice is two steps. -/
theorem below (h : ComesTo size d) {b : Branch} (hlevel : b.level + 1 < 2 ^ 31) :
    ComesTo size (SearchState.below d b) := by
  have hsize : UInt32.size = 2 ^ 32 := rfl
  have htoNat : ∀ {n : Nat}, n ≤ b.level → (UInt32.ofNat n).toNat = n := fun hn =>
    UInt32.toNat_ofNat_of_lt' (by omega)
  have hback : ComesTo size (d.apply (.revert (UInt32.ofNat (b.level - 1)))) := by
    refine h.step _ ?_
    rintro t -
    rw [Fits, htoNat (Nat.sub_le ..)]
    omega
  have hraised := hback.step (.setLevel (UInt32.ofNat b.level)) fun _ _ => trivial
  rwa [Decisions.apply, Decisions.apply, htoNat (Nat.sub_le ..), htoNat (Nat.le_refl _)] at hraised

end ComesTo

end DecisionTable

namespace Search

open DecisionTable

variable {s : Search} {d : Decisions}

/-- The number of words in which a search could decide. -/
def words (s : Search) : Nat := s.world.packages.size + 1

theorem comesTo_start (s : Search) : ComesTo s.words s.start := by
  have hnone : (ofSize s.words).toDecisions = Decisions.withCapacity s.world.packages.size := by
    unfold toDecisions ofSize
    rw [Array.map_replicate]
    rfl
  have hempty : ComesTo s.words (Decisions.withCapacity s.world.packages.size) :=
    ⟨[], trivial, hnone⟩
  exact hempty.step (.setLevel 1) fun _ _ => trivial

/-- As long as the rounds last, every change to the decisions is one of steps that fit. -/
theorem maintains_comesTo (s : Search) : s.Maintains fun n d bs =>
    d.Within (n + 1) bs ∧ (n ≤ maxRounds → ComesTo s.words d) := by
  have hrounds : maxRounds = 100000 := rfl
  have hwithin := s.maintains_within
  exact {
    forced h hext := by
      have hlevel := h.1.level_le
      exact ⟨hwithin.forced h.1 hext, fun hn => (h.2 hn).of_extends (by omega) hext⟩
    opened h hc := by
      have hlevel := h.1.level_le
      exact ⟨hwithin.opened h.1 hc, fun hn => (h.2 (by omega)).incrementLevel (by omega)⟩
    decided h hext := by
      have hlevel := h.1.level_le
      exact ⟨hwithin.decided h.1 hext, fun hn => (h.2 hn).of_extends (by omega) hext⟩
    wentBelow h rows := by
      have hlevel := h.1.branches _ List.mem_cons_self
      exact ⟨hwithin.wentBelow h.1 rows, fun hn => (h.2 hn).below (by omega)⟩
    gaveUp h := ⟨hwithin.gaveUp h.1, h.2⟩ }

/-- **A search never decides what a table of machine words cannot tell**: wherever it comes to in
one of its rounds, steps that fit lead a table to the same decisions. -/
theorem comesTo_of_passes {n : Nat} {st : SearchState} (hst : s.Passes n st) (hn : n ≤ maxRounds)
    (steps : Nat) : ComesTo s.words (st.propagate s.rules steps).2.decisions := by
  obtain ⟨m, hm, -, hcomes⟩ :=
    s.maintains_comesTo.propagates ⟨s.within_start, fun _ => s.comesTo_start⟩ hst steps
  exact hcomes (hm.trans hn)

/-- So is its answer. -/
theorem comesTo_of_run (hd : s.run = .satisfied d) : ComesTo s.words d := by
  obtain ⟨n, st, hn, hst, rfl⟩ := passes_of_run hd
  exact comesTo_of_passes hst hn s.room

end Search

end DepSolver
