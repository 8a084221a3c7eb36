import DepSolver.Proofs.Goal.Downgrades
import DepSolver.Proofs.Solution.JobWording

/-!
# Refused requests

A request by a selector remembers what kind it is before it looks at the selector. If the selector
cannot be used the request is refused, and leaves no entry behind; but its kind stays remembered.

That is not without effect. Of the kinds of requests a run looks at one bit only, whether downgrades
are permitted, and a request to install permits them. So a refused request comes to two sets of
actions: its kind, which the goal remembers, and its `permission`, under which every later run acts
as if that switch were on.
-/

namespace DepSolver

/-! ## Sets of actions -/

namespace GoalActions

theorem ext_bits {a b : GoalActions} (h : a.bits = b.bits) : a = b := congrArg mk h

theorem or_empty (a : GoalActions) : a ||| empty = a := ext_bits UInt32.or_zero

/-- Actions that are there already add nothing. -/
theorem or_eq_left_iff {a b : GoalActions} : a ||| b = a ↔ a.contains b = true := by
  have hbits : a ||| b = a ↔ a.bits ||| b.bits = a.bits :=
    ⟨fun h => congrArg bits h, fun h => ext_bits h⟩
  unfold contains
  rw [hbits, beq_iff_eq, ← UInt32.toBitVec_inj, ← UInt32.toBitVec_inj, UInt32.toBitVec_or,
    UInt32.toBitVec_and]
  grind

/-- An action is a single bit, which is either there or not. -/
theorem contains_or {f : GoalActions × String} (hf : f ∈ named) (a b : GoalActions) :
    (a ||| b).contains f.1 = (a.contains f.1 || b.contains f.1) := by
  have hbits : ∀ f ∈ named, ∃ k < 32, f.1.bits.toNat = 2 ^ k := by decide
  exact or_and_beq_of_bit (hbits f hf) a.bits b.bits

theorem contains_allowDowngrade_or (a b : GoalActions) :
    (a ||| b).contains .allowDowngrade =
      (a.contains .allowDowngrade || b.contains .allowDowngrade) :=
  contains_or (f := (.allowDowngrade, "allow-downgrade")) (by decide) a b

end GoalActions

/-! ## Requests by selectors -/

/-- A request by a selector. -/
inductive SelectorRequest where
  | install (isOptional : Bool)
  | erase (flags : JobFlags)
  | upgrade
  | distUpgrade

namespace SelectorRequest

def stage (g : Goal) (s : Selector) : SelectorRequest → Except GoalError Unit × Goal
  | install isOptional => g.installSelector s isOptional
  | erase flags => g.eraseSelector s flags
  | upgrade => g.upgradeSelector s
  | distUpgrade => g.distUpgradeSelector s

/-- The kind of a request, which is remembered. -/
def actions : SelectorRequest → GoalActions
  | install _ => Goal.installActions
  | erase _ => .erase
  | upgrade => .upgrade
  | distUpgrade => .distUpgrade

/-- What a request permits in later runs. -/
def permission : SelectorRequest → GoalActions
  | install _ => .allowDowngrade
  | _ => .empty

variable {r : SelectorRequest}

/-- Permitting is part of the kind of a request. -/
theorem actions_or_permission (r : SelectorRequest) : r.actions ||| r.permission = r.actions := by
  cases r <;> dsimp only [actions, permission] <;> decide

/-- Either a request permits downgrades or it says nothing about them. -/
theorem permits_or_silent (r : SelectorRequest) :
    r.permission = .allowDowngrade ∨
      r.permission = .empty ∧ r.actions.contains .allowDowngrade = false := by
  cases r <;> dsimp only [actions, permission] <;> decide

/-- A request permits nothing but downgrades. -/
theorem contains_permission_of_ne (r : SelectorRequest) {f : GoalActions × String}
    (hf : f ∈ GoalActions.named) (hne : f.2 ≠ "allow-downgrade") :
    r.permission.contains f.1 = false := by
  have hempty : ∀ f ∈ GoalActions.named, GoalActions.empty.contains f.1 = false := by decide
  have hdowngrade : ∀ f ∈ GoalActions.named, f.2 ≠ "allow-downgrade" →
      GoalActions.allowDowngrade.contains f.1 = false := by decide
  cases r with
  | install isOptional => exact hdowngrade f hf hne
  | erase flags => exact hempty f hf
  | upgrade => exact hempty f hf
  | distUpgrade => exact hempty f hf

/-- **A refused request is remembered by its kind only.** -/
theorem snd_stage_of_error {g : Goal} {s : Selector} {e : GoalError}
    (h : (r.stage g s).1 = .error e) : (r.stage g s).2 = g.note r.actions := by
  have hstage : ∀ (g : Goal) (action : JobAction) (flags : JobFlags),
      (g.stageSelector s action flags).1 = .error e → (g.stageSelector s action flags).2 = g := by
    intro g action flags h
    unfold Goal.stageSelector at h ⊢
    split at h
    · exact absurd h (by simp)
    · rfl
  cases r with
  | install isOptional => exact hstage _ _ _ h
  | erase flags => exact hstage _ _ _ h
  | upgrade => exact hstage _ _ _ h
  | distUpgrade => exact hstage _ _ _ h

end SelectorRequest

/-! ## Runs after a refusal -/

namespace Goal

variable {g : Goal}

/-- A report whose goal remembers more kinds of requests. -/
def RunReport.note (report : RunReport) (actions : GoalActions) : RunReport :=
  { report with goal := report.goal.note actions }

theorem note_eq_self_iff {a : GoalActions} : g.note a = g ↔ g.actions.contains a = true := by
  rw [← GoalActions.or_eq_left_iff]
  refine ⟨fun h => congrArg actions h, fun h => ?_⟩
  unfold note
  rw [h]

/-- What comes of a run does not depend on the kinds of requests. -/
theorem conclude_note (g : Goal) (a : GoalActions) (s : Solution) (events : List GoalEvent) :
    (g.note a).conclude s events = (g.conclude s events).note a := by
  have hsame : ({ g.note a with solution? := some s } : Goal).protectedRemovals s.transaction =
      ({ g with solution? := some s } : Goal).protectedRemovals s.transaction := rfl
  unfold conclude
  dsimp only
  rw [hsame]
  split
  · split <;> rfl
  · rfl

theorem protectKernel_note (g : Goal) (a : GoalActions) :
    (g.note a).protectKernel = g.protectKernel.note a := by
  have hworld : (g.note a).world = g.world := rfl
  unfold protectKernel
  rw [hworld]
  split <;> rfl

/-- The entries of a run depend on four of its switches. -/
theorem effectiveJob_congr {f f' : GoalActions}
    (hforce : f.contains .forceBest = f'.contains .forceBest)
    (hweak : f.contains .ignoreWeak = f'.contains .ignoreWeak)
    (huninstall : f.contains .allowUninstall = f'.contains .allowUninstall)
    (hverify : f.contains .verify = f'.contains .verify) :
    g.effectiveJob f = g.effectiveJob f' := by
  have hadjust : adjustEntry f = adjustEntry f' := by
    unfold adjustEntry
    rw [hforce, hweak]
  unfold effectiveJob
  rw [hadjust, huninstall, hverify]

section Noted

variable {a p flags : GoalActions}

/-- Once its part `p` is switched on, it makes no difference to a run when it learns of the kind. -/
theorem ready_note (h : a ||| p = a) :
    (g.note a).ready flags = (g.ready (flags ||| p)).note a := by
  have hactions : g.actions ||| a ||| (flags ||| g.defaultActions) =
      g.actions ||| (flags ||| p ||| g.defaultActions) ||| a := by
    rw [← h]
    refine GoalActions.ext_bits ?_
    show g.actions.bits ||| (a.bits ||| p.bits) ||| (flags.bits ||| g.defaultActions.bits) =
      g.actions.bits ||| (flags.bits ||| p.bits ||| g.defaultActions.bits) ||| (a.bits ||| p.bits)
    rw [← UInt32.toBitVec_inj]
    simp only [UInt32.toBitVec_or]
    grind
  unfold ready
  rw [← protectKernel_note]
  refine congrArg protectKernel ?_
  unfold note
  dsimp only
  rw [hactions]

/-- **Remembered kinds act on a run by what they permit.** They are as good as a switch that is part
of them and that says nothing of the entries of a run, if with it downgrades are permitted wherever
the kinds permit them. -/
theorem run_note (h : a ||| p = a)
    (hsilent : ∀ f ∈ GoalActions.named, f.2 ≠ "allow-downgrade" → p.contains f.1 = false)
    (hpermits : (g.actions ||| (flags ||| p ||| g.defaultActions)).contains .allowDowngrade = true ∨
      a.contains .allowDowngrade = false) :
    (g.note a).run flags = (g.run (flags ||| p)).note a := by
  have hswitch : ∀ f ∈ GoalActions.named, f.2 ≠ "allow-downgrade" →
      (flags ||| g.defaultActions).contains f.1 =
        (flags ||| p ||| g.defaultActions).contains f.1 := by
    intro f hf hne
    rw [GoalActions.contains_or hf, GoalActions.contains_or hf, GoalActions.contains_or hf,
      hsilent f hf hne, Bool.or_false]
  have hjob : (g.note a).runJob flags = g.runJob (flags ||| p) := by
    unfold runJob
    rw [ready_note h]
    exact effectiveJob_congr (hswitch (.forceBest, "force-best") (by decide) (by decide))
      (hswitch (.ignoreWeak, "ignore-weak") (by decide) (by decide))
      (hswitch (.allowUninstall, "allow-uninstall") (by decide) (by decide))
      (hswitch (.verify, "verify") (by decide) (by decide))
  have hdowngrade : ((g.ready (flags ||| p)).note a).actions.contains .allowDowngrade =
      (g.ready (flags ||| p)).actions.contains .allowDowngrade := by
    show (_ ||| a).contains GoalActions.allowDowngrade = _
    rw [actions_ready, GoalActions.contains_allowDowngrade_or]
    rcases hpermits with hpermits | hpermits
    · rw [hpermits, Bool.true_or]
    · rw [hpermits, Bool.or_false]
  have hflags : (g.note a).runFlags flags = g.runFlags (flags ||| p) := by
    have hrecommended : (flags ||| (g.note a).defaultActions).contains .ignoreWeakDeps =
        (flags ||| p ||| g.defaultActions).contains .ignoreWeakDeps :=
      hswitch (.ignoreWeakDeps, "ignore-weak-deps") (by decide) (by decide)
    unfold runFlags solverFlags
    rw [ready_note h, hdowngrade, hrecommended]
    rfl
  have hresolved : (g.note a).resolved flags = g.resolved (flags ||| p) := by
    unfold resolved
    rw [ready_note h, hjob, hflags]
    rfl
  rw [run_eq, run_eq, hresolved, ready_note h, conclude_note]

end Noted

/--
**What a refused request leaves behind.**

Refused because its selector cannot be used, a request leaves the goal as it was but for its kind,
which the goal remembers, so that nothing at all has changed only if that kind of request was made
before. A later run comes to what it would have come to without the request, with what the request
permits switched on: that is the same where this was permitted anyway, and always for a request
other than to install.
-/
theorem refused_request (g : Goal) (r : SelectorRequest) (s : Selector) (e : GoalError)
    (h : (r.stage g s).1 = .error e) :
    (r.stage g s).2 = g.note r.actions ∧
    ((r.stage g s).2 = g ↔ g.actions.contains r.actions = true) ∧
    (∀ flags, (r.stage g s).2.run flags = (g.run (flags ||| r.permission)).note r.actions) ∧
    ∀ flags, (g.actions ||| (flags ||| g.defaultActions)).contains r.permission = true →
      (r.stage g s).2.run flags = (g.run flags).note r.actions := by
  have hself : GoalActions.allowDowngrade.contains .allowDowngrade = true := by decide
  rw [SelectorRequest.snd_stage_of_error h]
  refine ⟨rfl, note_eq_self_iff, fun flags => ?_, fun flags hpermitted => ?_⟩
  · refine run_note r.actions_or_permission (fun f => r.contains_permission_of_ne) ?_
    rcases r.permits_or_silent with hpermits | ⟨-, hsilent⟩
    · left
      rw [hpermits, GoalActions.contains_allowDowngrade_or,
        GoalActions.contains_allowDowngrade_or, GoalActions.contains_allowDowngrade_or, hself,
        Bool.or_true, Bool.true_or, Bool.or_true]
    · exact .inr hsilent
  · -- a switch that is on already need not be switched on, so nothing is
    have hnone : ∀ f ∈ GoalActions.named, GoalActions.empty.contains f.1 = false := by decide
    have hrun : (g.note r.actions).run flags = (g.run (flags ||| .empty)).note r.actions := by
      refine run_note (GoalActions.or_empty _) (fun f hf _ => hnone f hf) ?_
      rcases r.permits_or_silent with hpermits | ⟨-, hsilent⟩
      · left
        rw [GoalActions.or_empty, ← hpermits]
        exact hpermitted
      · exact .inr hsilent
    rw [GoalActions.or_empty] at hrun
    exact hrun

/-- A selector with two names, which cannot be used. -/
def twoNames : Selector where
  name := some { key := .name, cmp := .exact, values := ["lib", "tool"] }

/-- Without the refused request nothing is done; after it, the library is downgraded. -/
theorem refused_request_outdatedTool :
    ((SelectorRequest.install false).stage outdatedTool twoNames).1 =
      .error (.illFormedSelector .multipleMatchObjects) ∧
    ((SelectorRequest.install false).stage outdatedTool twoNames).2 ≠ outdatedTool ∧
    (outdatedTool.run {}).goal.downgrades = .ok [] ∧
    (((SelectorRequest.install false).stage outdatedTool twoNames).2.run {}).goal.downgrades =
      .ok [4] := by
  have hrefused : ((SelectorRequest.install false).stage outdatedTool twoNames).1 =
      .error (.illFormedSelector .multipleMatchObjects) := by decide +kernel
  obtain ⟨-, hsame, hrun, -⟩ := refused_request _ _ _ _ hrefused
  refine ⟨hrefused, ?_, by decide +kernel, ?_⟩
  · rw [Ne, hsame]
    decide
  · rw [hrun]
    decide +kernel

end Goal

end DepSolver
