import DepSolver.Proofs.Goal.Protection
import DepSolver.Proofs.Transaction.Account

/-!
# Where an obsoleted package belongs

A package that is listed as obsoleted left its place to one that comes in, and stands beside it. How
the one that comes in is listed depends on what else it takes the place of. A package of its own
name counts first: if there is one, the step is an upgrade, a downgrade or a reinstallation, however
many packages of other names are obsoleted along with it. Only without one is the step that of an
obsoleting package, which is listed with the installations.

So an obsoleted package belongs to an installation or an upgrade unless the same step goes back to a
version of its own name that is no newer. There is one exception more: a package that may stand
beside others of its name is listed as reinstalled when it takes the place of anything, even if it
was never installed.
-/

namespace DepSolver

/-- Whether a package takes the place of an installed one of its name and is not newer. -/
def Universe.StepsBack (u : Universe) (new : PackageId) (replaced : List PackageId) : Prop :=
  ∃ old ∈ replaced, u.isInstalled old = true ∧ ∃ p q, u.package? new = some p ∧
    u.package? old = some q ∧ p.name = q.name ∧ p.evr.compare q.evr ≠ .gt

/-- What is shown as obsoleted is obsoleted. -/
theorem StepKind.type_mem_obsoleted (kind : StepKind) :
    kind.type Goal.obsoletesMode ∈ [StepType.obsoleted] ↔ kind = .obsoleted := by
  cases kind with
  | replace how => cases how <;> decide
  | replaced how => cases how <;> decide
  | _ => decide

namespace Transaction

variable {u : Universe} {kept multiversion : PackageSet} {id new old : PackageId} {p : Package}

/-! ## Obsoleted packages -/

/-- **What is listed as obsoleted** goes out, and what takes its place does so by obsoleting it. -/
theorem exists_obsoleting_of_mem
    (h : old ∈ (ofKept u kept multiversion).ofTypes Goal.obsoletesMode [.obsoleted]) :
    ∃ o ∈ outgoingOf u kept multiversion, o.id = old ∧ ∃ new, o.replacement = some (new, true) := by
  obtain ⟨step, hstep, rfl, htype⟩ := mem_ofTypes.mp h
  have hkind := (StepKind.type_mem_obsoleted step.kind).mp htype
  cases mem_steps_iff.mp hstep with
  | @incoming x p hin =>
      have hincoming := isIncoming_incomingKind (multiversion.contains x) p
        (replacedBy u kept multiversion x)
      dsimp only at hkind
      rw [hkind] at hincoming
      exact absurd hincoming (by decide)
  | @replaced o x p obsoleting hout hin hreplacement =>
      refine ⟨o, hout, rfl, x, ?_⟩
      unfold replacedStep at hkind
      rw [hreplacement] at hkind ⊢
      cases obsoleting with
      | true => rfl
      | false => exact absurd hkind (by simp)
  | erased => exact absurd hkind (by simp)

/-! ## Packages that obsolete -/

/-- The kind of a package that takes the place of others, if it is not kept in several versions: it
replaces one of its own name, or else obsoletes. -/
theorem incomingKind_cases {replaces : List Outgoing} (hreplaces : replaces ≠ []) :
    (∃ o ∈ replaces, (∃ x, o.replacement = some (x, false)) ∧
      incomingKind false p replaces = .replace (.between p o.package)) ∨
    incomingKind false p replaces = .obsoletes := by
  unfold incomingKind
  rw [if_neg Bool.false_ne_true]
  split
  · rename_i o hfind
    refine .inl ⟨o, List.mem_of_find?_eq_some hfind, ?_, rfl⟩
    have hany := List.find?_some hfind
    obtain ⟨⟨x, obsoleting⟩, hx, hnot⟩ := (Option.any_eq_true ..).mp hany
    rw [Bool.not_eq_true'] at hnot
    dsimp only at hnot
    rw [hnot] at hx
    exact ⟨x, hx⟩
  · rw [if_neg fun hempty => hreplaces (List.isEmpty_iff.mp hempty)]
    exact .inr rfl

/-- One that is kept in several versions and takes the place of others counts as reinstalled. -/
theorem incomingKind_multiversion {replaces : List Outgoing} (hreplaces : replaces ≠ []) :
    incomingKind true p replaces = .multiReinstall := by
  unfold incomingKind
  rw [if_pos rfl, if_neg fun hempty => hreplaces (List.isEmpty_iff.mp hempty)]

/-- How a package that replaces one of its name is listed. -/
theorem type_replace (new old : Package) :
    (StepKind.replace (.between new old)).type Goal.listingMode ∈ [StepType.upgrade] ∨
      ((StepKind.replace (.between new old)).type Goal.listingMode ∈ [StepType.downgrade] ∨
        (StepKind.replace (.between new old)).type Goal.listingMode ∈ [StepType.reinstall]) ∧
        new.evr.compare old.evr ≠ .gt := by
  have hup : (StepKind.replace .upgrade).type Goal.listingMode ∈ [StepType.upgrade] := by decide
  have hdown : (StepKind.replace .downgrade).type Goal.listingMode ∈ [StepType.downgrade] := by
    decide
  have hagain : ∀ how ∈ [Change.reinstall, .change],
      (StepKind.replace how).type Goal.listingMode ∈ [StepType.reinstall] := by
    decide
  unfold Change.between
  cases new.evr.compare old.evr with
  | gt => exact .inl hup
  | lt => exact .inr ⟨.inl hdown, by decide⟩
  | eq =>
      refine .inr ⟨.inr (hagain _ ?_), by decide⟩
      dsimp only
      split <;> decide

/-- A package steps back if one of its name whose place it takes is no older. -/
theorem stepsBack_of_mem_replacedBy {o : Outgoing} {x : PackageId}
    (hin : (new, p) ∈ incomingOf u kept) (ho : o ∈ replacedBy u kept multiversion new)
    (hname : o.replacement = some (x, false)) (hnot : p.evr.compare o.package.evr ≠ .gt) :
    u.StepsBack new ((ofKept u kept multiversion).related new) := by
  obtain ⟨hout, obsoleting, hreplacement⟩ := mem_replacedBy.mp ho
  obtain ⟨rfl, rfl⟩ := Prod.mk.inj (Option.some.inj (hname.symm.trans hreplacement))
  have hgoes := mem_outgoingOf.mp hout
  obtain ⟨q, hin', hiff⟩ := hgoes.name_eq_iff hname
  have hp := (mem_incomingOf.mp hin).2
  have hq := (mem_incomingOf.mp hin').2
  obtain rfl := Option.some.inj (hp.symm.trans hq)
  have hrelated := mem_related_iff.mpr (.inr ⟨o, hout, rfl, false, hname⟩)
  exact ⟨o.id, hrelated, hgoes.installed, p, o.package, hp, hgoes.package, hiff.mpr rfl, hnot⟩

/-- **A package that takes the place of others** is listed as installed or upgraded, unless it steps
back, or is kept in several versions and so counts as reinstalled. -/
theorem listed_of_takesPlace (hplace : TakesPlace u kept multiversion new old) :
    let t := ofKept u kept multiversion
    new ∈ t.ofTypes Goal.listingMode [.install, .obsoletes] ∨
      new ∈ t.ofTypes Goal.listingMode [.upgrade] ∨
      (new ∈ t.ofTypes Goal.listingMode [.downgrade] ∨
        new ∈ t.ofTypes Goal.listingMode [.reinstall]) ∧ u.StepsBack new (t.related new) ∨
      multiversion.contains new = true ∧ new ∈ t.ofTypes Goal.listingMode [.reinstall] := by
  intro t
  obtain ⟨o, hout, hid, obsoleting, hreplacement⟩ := hplace
  obtain ⟨p, hin, -⟩ := (mem_outgoingOf.mp hout).name_eq_iff hreplacement
  have hmem : o ∈ replacedBy u kept multiversion new :=
    mem_replacedBy.mpr ⟨hout, obsoleting, hreplacement⟩
  have hstep : ⟨new, incomingKind (multiversion.contains new) p
      (replacedBy u kept multiversion new), (replacedBy u kept multiversion new).map (·.id)⟩ ∈
        t.steps := mem_steps_iff.mpr (.incoming hin)
  cases hmulti : multiversion.contains new with
  | true =>
      rw [hmulti, incomingKind_multiversion (List.ne_nil_of_mem hmem)] at hstep
      have htype : StepKind.multiReinstall.type Goal.listingMode ∈ [StepType.reinstall] := by
        decide
      exact .inr (.inr (.inr ⟨rfl, mem_ofTypes.mpr ⟨_, hstep, rfl, htype⟩⟩))
  | false =>
  rw [hmulti] at hstep
  rcases incomingKind_cases (p := p) (List.ne_nil_of_mem hmem) with
    ⟨o', ho', ⟨x, hname⟩, hkind⟩ | hkind
  · -- one of its own name counts first, whatever it obsoletes besides
    rw [hkind] at hstep
    rcases type_replace p o'.package with hup | ⟨hdown | hagain, hnot⟩
    · exact .inr (.inl (mem_ofTypes.mpr ⟨_, hstep, rfl, hup⟩))
    · exact .inr (.inr (.inl ⟨.inl (mem_ofTypes.mpr ⟨_, hstep, rfl, hdown⟩),
        stepsBack_of_mem_replacedBy hin ho' hname hnot⟩))
    · exact .inr (.inr (.inl ⟨.inr (mem_ofTypes.mpr ⟨_, hstep, rfl, hagain⟩),
        stepsBack_of_mem_replacedBy hin ho' hname hnot⟩))
  · rw [hkind] at hstep
    have htype : StepKind.obsoletes.type Goal.listingMode ∈ [StepType.install, .obsoletes] := by
      decide
    exact .inl (mem_ofTypes.mpr ⟨_, hstep, rfl, htype⟩)

end Transaction

namespace Goal

theorem transaction?_ready (g : Goal) (flags : GoalActions) :
    (g.ready flags).transaction? = none := by
  unfold ready protectKernel
  split <;> rfl

variable {g : Goal} {flags : GoalActions} {t : Transaction}

/-- **A run that has a transaction** came to a solution, and has the transaction of that. -/
theorem exists_solution_of_transaction? (ht : (g.run flags).goal.transaction? = some t) :
    ∃ s, (g.run flags).goal.solution? = some s ∧ s.isSolved = true ∧ s.world = g.world ∧
      t = s.transaction := by
  obtain ⟨sf, job, hsolve⟩ := g.exists_resolved_eq flags
  have hworld : (g.resolved flags).1.world = g.world := by rw [hsolve, world_solve]
  rw [run_eq] at ht ⊢
  refine ⟨(g.resolved flags).1, solution?_conclude .., ?_⟩
  cases hsolved : (g.resolved flags).1.isSolved with
  | true =>
      have htransaction :=
        ((g.ready flags).conclude_of_isSolved hsolved (g.resolved flags).2).2.1
      exact ⟨rfl, hworld, Option.some.inj (ht.symm.trans htransaction)⟩
  | false =>
      -- the run began without a transaction
      have hnone :=
        ((g.ready flags).conclude_of_isSolved_eq_false hsolved (g.resolved flags).2).1
      rw [ht, transaction?_ready] at hnone
      exact absurd hnone (by simp)

/--
**An obsoleted package belongs to one that comes in**, which is listed as installed or upgraded
unless it steps back or may stand beside others.

Whenever a run has a transaction, the goal lists what is obsoleted, and each package listed there
is among those whose place a package takes that comes in. That one is listed as installed or as
upgraded; or it takes the place of a package of its own name as well, without being newer, and is
listed as downgraded or reinstalled; or it may stand beside others of its name, and is listed as
reinstalled.
-/
theorem listed_of_obsoleted (g : Goal) (flags : GoalActions) (t : Transaction)
    (ht : (g.run flags).goal.transaction? = some t) :
    ∃ s, (g.run flags).goal.solution? = some s ∧
      ∃ installs upgrades downgrades reinstalls obsoleted,
        (g.run flags).goal.installs = .ok installs ∧ (g.run flags).goal.upgrades = .ok upgrades ∧
        (g.run flags).goal.downgrades = .ok downgrades ∧
        (g.run flags).goal.reinstalls = .ok reinstalls ∧
        (g.run flags).goal.obsoleted = .ok obsoleted ∧
        ∀ old ∈ obsoleted, ∃ new replaced,
          (g.run flags).goal.obsoletedBy new = .ok replaced ∧ old ∈ replaced ∧
          Transaction.ComesIn g.world s.kept new ∧
          (new ∈ installs ∨ new ∈ upgrades ∨
            (new ∈ downgrades ∨ new ∈ reinstalls) ∧ g.world.StepsBack new replaced ∨
            s.context.multiversion.contains new = true ∧ new ∈ reinstalls) := by
  obtain ⟨s, hlast, -, hworld, rfl⟩ := exists_solution_of_transaction? ht
  have hread : (g.run flags).goal.transaction = .ok s.transaction := by
    unfold Goal.transaction
    rw [ht]
  have hlist : ∀ types, (g.run flags).goal.listTypes types =
      .ok (s.transaction.ofTypes listingMode types) := by
    intro types
    unfold listTypes
    rw [hread]
    rfl
  have hobsoleted : (g.run flags).goal.obsoleted =
      .ok (s.transaction.ofTypes obsoletesMode [.obsoleted]) := by
    unfold obsoleted
    rw [hread]
    rfl
  have hrelated : ∀ new, (g.run flags).goal.obsoletedBy new = .ok (s.transaction.related new) := by
    intro new
    unfold obsoletedBy
    rw [hread]
    rfl
  have hkept : s.transaction = .ofKept g.world s.kept s.context.multiversion := by
    unfold Solution.transaction
    rw [hworld]
  refine ⟨s, hlast, _, _, _, _, _, hlist _, hlist _, hlist _, hlist _, hobsoleted, ?_⟩
  intro old hold
  rw [hkept] at hold
  obtain ⟨o, hout, rfl, new, hreplacement⟩ := Transaction.exists_obsoleting_of_mem hold
  have hplace : Transaction.TakesPlace g.world s.kept s.context.multiversion new o.id :=
    ⟨o, hout, rfl, true, hreplacement⟩
  refine ⟨new, _, hrelated new, ?_, hplace.comesIn, ?_⟩
  · rw [hkept]
    exact Transaction.mem_related_iff.mpr (.inr hplace)
  · rw [hkept]
    exact Transaction.listed_of_takesPlace hplace

/-- Two installed packages, and an older version of one that obsoletes the other. -/
def steppingBack : Universe :=
  .ofCatalog <| .ofSystem
    [plainPackage "shell" "2" 0,
     plainPackage "pager" "1" 0]
    [{ plainPackage "shell" "1" 1 with obsoletes := [Relation.ofName "pager"] }]

/-- The older version is asked for. -/
def backGoal : Goal := (ofUniverse steppingBack).install 3 false

/-- The package that is obsoleted leaves its place to the downgrade, and to no other: nothing is
listed as installed or as upgraded. -/
theorem listed_of_obsoleted_steppingBack :
    (backGoal.run {}).goal.installs = .ok [] ∧ (backGoal.run {}).goal.upgrades = .ok [] ∧
      (backGoal.run {}).goal.obsoleted = .ok [2] ∧
      ∃ t, (backGoal.run {}).goal.transaction? = some t ∧
        ∃ s, (backGoal.run {}).goal.solution? = some s ∧
          ∃ new replaced, (backGoal.run {}).goal.obsoletedBy new = .ok replaced ∧ 2 ∈ replaced ∧
            Transaction.ComesIn steppingBack s.kept new ∧ steppingBack.StepsBack new replaced := by
  have hinstalls : (backGoal.run {}).goal.installs = .ok [] := by decide +kernel
  have hupgrades : (backGoal.run {}).goal.upgrades = .ok [] := by decide +kernel
  have hobsoleted : (backGoal.run {}).goal.obsoleted = .ok [2] := by decide +kernel
  have hsome : (backGoal.run {}).goal.transaction?.isSome = true := by decide +kernel
  obtain ⟨t, ht⟩ := Option.isSome_iff_exists.mp hsome
  obtain ⟨s, hlast, installs, upgrades, downgrades, reinstalls, obsoleted, hinstalls', hupgrades',
    -, -, hobsoleted', hall⟩ := listed_of_obsoleted backGoal {} t ht
  obtain rfl : [] = installs := Except.ok.inj (hinstalls.symm.trans hinstalls')
  obtain rfl : [] = upgrades := Except.ok.inj (hupgrades.symm.trans hupgrades')
  obtain rfl : [2] = obsoleted := Except.ok.inj (hobsoleted.symm.trans hobsoleted')
  obtain ⟨new, replaced, hreplaced, hmem, hcomes, hlisted⟩ := hall 2 (List.mem_singleton_self 2)
  have hnone : (backGoal.run {}).goal.solution?.all
      (fun s => s.context.multiversion.toList.isEmpty) = true := by
    decide +kernel
  rw [hlast, Option.all_some, List.isEmpty_iff] at hnone
  refine ⟨hinstalls, hupgrades, hobsoleted, t, ht, s, hlast, new, replaced, hreplaced, hmem,
    hcomes, ?_⟩
  rcases hlisted with hinstalled | hupgraded | ⟨-, hback⟩ | ⟨hmulti, -⟩
  · exact absurd hinstalled List.not_mem_nil
  · exact absurd hupgraded List.not_mem_nil
  · exact hback
  · have hmem := PackageSet.mem_toList.mpr hmulti
    rw [hnone] at hmem
    exact absurd hmem List.not_mem_nil

end Goal

end DepSolver
