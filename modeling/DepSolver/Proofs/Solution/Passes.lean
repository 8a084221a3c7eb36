import DepSolver.Proofs.Search.MinimalCore
import DepSolver.Proofs.Solution.Verdict

/-!
# One rule after the other is given up

As long as the rules in force cannot be satisfied, a core is found and one of its rules is given up.
A `Pass` is one such step. The passes of a solve follow one another: each starts from the rules that
the one before left, less the rule it gave up, and where the last one ends the rules can be
satisfied.

So everything a solve leaves behind can be read off its passes: the problems are the cores of the
passes that gave up a hard rule, the rules out of force are those that were given up, and the
decisions are those of the search after the last pass.
-/

namespace DepSolver

/-- The classes of rules that are not relations between packages: those of requests, of best
candidates and of installed packages. -/
def RuleClass.requested : List RuleClass := [.job, .best, .update, .distUpgrade]

theorem RuleClass.mem_requested_iff {c : RuleClass} : c ∈ requested ↔ c ≠ .package := by
  cases c <;> decide

namespace RuleSet

variable {s t : RuleSet}

def classOf? (s : RuleSet) (id : Nat) : Option RuleClass := (s.get? id).map Rule.toClass

theorem SameRules.classOf?_eq (h : s.SameRules t) (id : Nat) : s.classOf? id = t.classOf? id := by
  have hid := congrArg (Option.map Rule.toClass) (h id)
  rw [Option.map_map, Option.map_map] at hid
  exact hid

theorem SameRules.hard (h : s.SameRules t) {id : Nat}
    (hs : ∀ r, s.get? id = some r → r.weak = false) :
    ∀ r, t.get? id = some r → r.weak = false := by
  intro r hr
  obtain ⟨u, hu, heq⟩ := h.symm.exists_get? hr
  have hweak : u.weak = r.weak := (congrArg Rule.weak heq :)
  rw [← hweak]
  exact hs u hu

end RuleSet

namespace Search

/-- The rule of a core that is given up: a weak one, or the one that is to blame. -/
def givenUp? (s : Search) : Option Nat :=
  (s.weakRule? s.minimalCore).or (s.ruleToBlame? s.minimalCore)

/-- A step of a solve: a search that found its rules in conflict, and the rule given up for it. -/
structure Pass where
  search : Search
  rule : Nat

namespace Pass

/-- The rules found in conflict. -/
def core (p : Pass) : List Nat := p.search.minimalCore

/-- Whether the rule given up is hard, which is a problem. -/
def isProblem (p : Pass) : Bool := (p.search.weakRule? p.core).isNone

/-- The search that follows. -/
def next (p : Pass) : Search := p.search.without p.rule

end Pass

/-- The passes of a solve, of which there are at most a number. -/
def passes : Nat → Search → List Pass
  | 0, _ => []
  | left + 1, s =>
    match s.run, s.givenUp? with
    | .unsatisfiable, some id => { search := s, rule := id } :: passes left (s.without id)
    | _, _ => []

/-- Whether passes lead from one search to another, each starting where the one before ended. -/
def Leads : Search → List Pass → Search → Prop
  | s, [], t => s = t
  | s, p :: ps, t => p.search = s ∧ Leads p.next ps t

variable {s t : Search}

theorem leads_append : ∀ {ps qs : List Pass} {s : Search},
    Leads s (ps ++ qs) t ↔ ∃ u, Leads s ps u ∧ Leads u qs t := by
  intro ps
  induction ps with
  | nil =>
    intro qs s
    exact ⟨fun h => ⟨s, rfl, h⟩, fun ⟨_, hu, h⟩ => hu ▸ h⟩
  | cons p ps ih =>
    intro qs s
    rw [List.cons_append, Leads, ih]
    refine ⟨?_, ?_⟩
    · intro h
      obtain ⟨hp, u, hu, ht⟩ := h
      exact ⟨u, ⟨hp, hu⟩, ht⟩
    · intro h
      obtain ⟨u, ⟨hp, hu⟩, ht⟩ := h
      exact ⟨hp, u, hu, ht⟩

/-- Passes keep the rules and only take some out of force. -/
theorem Leads.sameRules : ∀ {ps : List Pass} {s : Search}, Leads s ps t →
    s.rules.SameRules t.rules := by
  intro ps
  induction ps with
  | nil =>
    intro s h
    rw [show s = t from h]
    exact .refl _
  | cons p ps ih =>
    intro s h
    obtain ⟨rfl, hrest⟩ := h
    exact (RuleSet.sameRules_setDisabled p.search.rules p.rule true).trans (ih hrest)

/-- **What is in force after some passes** are the rules in force before that were not given up. -/
theorem Leads.mem_enabled : ∀ {ps : List Pass} {s : Search}, Leads s ps t → ∀ {r : Rule},
    r ∈ t.rules.enabled ↔ r ∈ s.rules.enabled ∧ ∀ p ∈ ps, p.rule ≠ r.id := by
  intro ps
  induction ps with
  | nil =>
    intro s h r
    rw [show s = t from h]
    exact (and_iff_left fun p hp => absurd hp (by simp)).symm
  | cons p ps ih =>
    intro s h r
    obtain ⟨rfl, hrest⟩ := h
    have hnext : r ∈ p.next.rules.enabled ↔ r ∈ p.search.rules.enabled ∧ r.id ≠ p.rule :=
      mem_enabled_without
    rw [ih hrest, hnext, List.forall_mem_cons, and_assoc]
    exact and_congr_right fun _ => and_congr_left fun _ => ne_comm

theorem Leads.mem_enabledIds {ps : List Pass} (h : Leads s ps t) {id : Nat} :
    id ∈ t.rules.enabledIds ↔ id ∈ s.rules.enabledIds ∧ ∀ p ∈ ps, p.rule ≠ id := by
  unfold RuleSet.enabledIds
  simp only [List.mem_map]
  refine ⟨?_, ?_⟩
  · intro hid
    obtain ⟨r, hr, rfl⟩ := hid
    obtain ⟨henabled, hnone⟩ := h.mem_enabled.mp hr
    exact ⟨⟨r, henabled, rfl⟩, hnone⟩
  · intro hid
    obtain ⟨⟨r, hr, rfl⟩, hnone⟩ := hid
    exact ⟨r, h.mem_enabled.mpr ⟨hr, hnone⟩, rfl⟩

/-! ## One pass -/

/-- **What every pass is like.** -/
structure Pass.Sound (p : Pass) : Prop where
  /-- Its core is a minimal conflict. -/
  conflict : p.search.rules.MinimalConflict p.core
  /-- The rules of the core were in force. -/
  enabled : ∀ id ∈ p.core, id ∈ p.search.rules.enabledIds
  /-- One of them was given up. -/
  mem_core : p.rule ∈ p.core
  chosen : p.search.givenUp? = some p.rule

namespace Pass

variable {p : Pass}

/-- The rule given up is the only one of the core that goes out of force. -/
theorem Sound.mem_enabledIds_next (h : p.Sound) {id : Nat} (hid : id ∈ p.core) :
    id ∈ p.next.rules.enabledIds ↔ id ≠ p.rule := by
  have hnext : Leads p.search [p] p.next := ⟨rfl, rfl⟩
  rw [hnext.mem_enabledIds, and_iff_right (h.enabled id hid), List.forall_mem_singleton]
  exact ne_comm

/-- The core of a problem holds no weak rule, -/
theorem hard_of_isProblem (hproblem : p.isProblem = true) {id : Nat} (hid : id ∈ p.core) {r : Rule}
    (hr : p.search.rules.get? id = some r) : r.weak = false := by
  have hnone : p.search.weakRule? p.search.minimalCore = none :=
    Option.isNone_iff_eq_none.mp hproblem
  refine hard_of_weakRule?_eq_none hnone (RuleSet.mem_of_get? hr) ?_
  rw [RuleSet.id_of_get? hr]
  exact hid

/-- and the rule given up for it is the one to blame. -/
theorem Sound.blamed (h : p.Sound) (hproblem : p.isProblem = true) :
    p.search.ruleToBlame? p.core = some p.rule := by
  have hnone : p.search.weakRule? p.search.minimalCore = none :=
    Option.isNone_iff_eq_none.mp hproblem
  have hchosen := h.chosen
  unfold givenUp? at hchosen
  rw [hnone, Option.none_or] at hchosen
  exact hchosen

end Pass

/-! ## Which rule is to blame -/

/-- The first rule of some classes. -/
def firstOf? (s : Search) (classes : List RuleClass) (core : List Nat) : Option Nat :=
  core.find? fun id => (s.rules.get? id).any fun r => classes.contains r.toClass

theorem ruleToBlame?_eq (s : Search) (core : List Nat) : s.ruleToBlame? core =
    ((s.firstOf? [.job] core).or (s.firstOf? [.best, .update, .distUpgrade] core)).or
      core.head? := rfl

theorem firstOf?_eq_some {classes : List RuleClass} {core : List Nat} {id : Nat}
    (h : s.firstOf? classes core = some id) :
    id ∈ core ∧ ∃ c ∈ classes, s.rules.classOf? id = some c := by
  unfold firstOf? at h
  have hany := List.find?_some h
  obtain ⟨r, hr, hclass⟩ := (Option.any_eq_true ..).mp hany
  refine ⟨List.mem_of_find?_eq_some h, r.toClass, List.contains_iff_mem.mp hclass, ?_⟩
  rw [RuleSet.classOf?, hr]
  rfl

theorem classOf?_of_firstOf?_eq_none {classes : List RuleClass} {core : List Nat}
    (h : s.firstOf? classes core = none) {id : Nat} (hid : id ∈ core) {c : RuleClass}
    (hc : c ∈ classes) : s.rules.classOf? id ≠ some c := by
  intro hclass
  obtain ⟨r, hr, rfl⟩ := Option.map_eq_some_iff.mp hclass
  have hnone := List.find?_eq_none.mp h id hid
  exact hnone ((Option.any_eq_true ..).mpr ⟨r, hr, List.contains_iff_mem.mpr hc⟩)

/-- A rule of a request is to blame before any other. -/
theorem classOf?_ruleToBlame?_of_job {core : List Nat} {id : Nat}
    (h : s.ruleToBlame? core = some id) (hjob : ∃ i ∈ core, s.rules.classOf? i = some .job) :
    s.rules.classOf? id = some .job := by
  obtain ⟨i, hi, hclass⟩ := hjob
  rw [ruleToBlame?_eq] at h
  cases hfirst : s.firstOf? [.job] core with
  | none =>
      exact absurd hclass (classOf?_of_firstOf?_eq_none hfirst hi (List.mem_singleton_self _))
  | some j =>
      rw [hfirst, Option.some_or, Option.some_or] at h
      obtain ⟨-, c, hc, hj⟩ := firstOf?_eq_some hfirst
      rw [← Option.some.inj h, hj, List.mem_singleton.mp hc]

/-- A relation between packages is to blame only if there is nothing else. -/
theorem classOf?_ruleToBlame? {core : List Nat} {id : Nat} (h : s.ruleToBlame? core = some id)
    (hother : ∃ i ∈ core, ∃ c ∈ RuleClass.requested, s.rules.classOf? i = some c) :
    ∃ c ∈ RuleClass.requested, s.rules.classOf? id = some c := by
  rw [ruleToBlame?_eq] at h
  cases hjob : s.firstOf? [.job] core with
  | some j =>
      rw [hjob, Option.some_or, Option.some_or] at h
      obtain ⟨-, c, hc, hj⟩ := firstOf?_eq_some hjob
      rw [← Option.some.inj h]
      exact ⟨c, List.mem_append_left _ hc, hj⟩
  | none =>
      rw [hjob, Option.none_or] at h
      cases hrest : s.firstOf? [.best, .update, .distUpgrade] core with
      | some j =>
          rw [hrest, Option.some_or] at h
          obtain ⟨-, c, hc, hj⟩ := firstOf?_eq_some hrest
          rw [← Option.some.inj h]
          exact ⟨c, List.mem_cons_of_mem _ hc, hj⟩
      | none =>
          -- then no rule of the core is of such a class
          obtain ⟨i, hi, c, hc, hclass⟩ := hother
          rcases List.mem_cons.mp hc with rfl | hc
          · exact absurd hclass
              (classOf?_of_firstOf?_eq_none hjob hi (List.mem_singleton_self _))
          · exact absurd hclass (classOf?_of_firstOf?_eq_none hrest hi hc)

/-! ## All passes -/

/-- Some rule of a core is always given up. -/
theorem exists_givenUp? {core : List Nat} (h : core ≠ []) :
    ∃ id ∈ core, (s.weakRule? core).or (s.ruleToBlame? core) = some id := by
  cases hweak : s.weakRule? core with
  | some id => exact ⟨id, (weakRule?_eq_some hweak).1, rfl⟩
  | none =>
      rw [Option.none_or, ruleToBlame?_eq]
      cases hjob : s.firstOf? [.job] core with
      | some id => exact ⟨id, (firstOf?_eq_some hjob).1, rfl⟩
      | none =>
          rw [Option.none_or]
          cases hother : s.firstOf? [.best, .update, .distUpgrade] core with
          | some id => exact ⟨id, (firstOf?_eq_some hother).1, rfl⟩
          | none =>
              obtain ⟨id, rest, rfl⟩ := List.exists_cons_of_ne_nil h
              exact ⟨id, List.mem_cons_self .., rfl⟩

/-- **A search that finds its rules in conflict makes a pass.** -/
theorem exists_pass (h0 : s.SparesZero) (hunsat : s.run = .unsatisfiable)
    (hx : ∀ t ∈ s.coreSearches, t.run.isExhausted = false) :
    ∃ id, s.givenUp? = some id ∧ Pass.Sound { search := s, rule := id } := by
  have hnone : ¬Satisfiable s.rules.enabled :=
    not_satisfiable_of_run h0 (by rw [hunsat]; rfl) (by rw [hunsat]; rfl)
  have hconflict := minimalConflict_minimalCore h0 hnone hx
  have hne : s.minimalCore ≠ [] := by
    intro hnil
    rw [hnil] at hconflict
    exact hconflict.incompatible ⟨fun _ => false, fun _ hid => absurd hid List.not_mem_nil⟩
  obtain ⟨id, hid, hchosen⟩ := exists_givenUp? hne
  refine ⟨id, hchosen, ⟨hconflict, fun i hi => ?_, hid, hchosen⟩⟩
  exact (mem_minimalCore.mp hi).1

/-- **How a solve comes to its end.** -/
structure Settles (s : Search) (ps : List Pass) (problems : List Problem) (v : Verdict) :
    Prop where
  sound : ∀ p ∈ ps, p.Sound
  /-- The passes lead to the rules in the end. -/
  leads : Leads s ps { s with rules := v.rules }
  /-- There the search succeeds. -/
  run : ({ s with rules := v.rules } : Search).run = .satisfied v.decisions
  /-- The problems found are the cores of which a hard rule was given up. -/
  problems : v.problems = problems ++ (ps.filter (·.isProblem)).map fun p => { rules := p.core }

/-- One more pass before others, which have its problem already if it found one. -/
theorem Settles.cons {id : Nat} {ps : List Pass} {problems : List Problem}
    {v : Verdict} (hsound : Pass.Sound { search := s, rule := id })
    (h : Settles (s.without id) ps (problems ++
      (([{ search := s, rule := id }] : List Pass).filter (·.isProblem)).map
        fun p => { rules := p.core }) v) :
    Settles s ({ search := s, rule := id } :: ps) problems v where
  sound := List.forall_mem_cons.mpr ⟨hsound, h.sound⟩
  leads := ⟨rfl, h.leads⟩
  run := h.run
  problems := by
    rw [h.problems, List.append_assoc, ← List.map_append, ← List.filter_append,
      List.singleton_append]

/-- **Every solve comes to its end in passes**, if every search has an answer. -/
theorem settles_passes : ∀ (left : Nat) (problems : List Problem) (s : Search), s.SparesZero →
    s.rules.enabled.length < left → (∀ t ∈ settleSearches left s, t.run.isExhausted = false) →
      Settles s (passes left s) problems (settle left problems s) := by
  intro left
  induction left with
  | zero =>
    intro problems s _ hleft
    omega
  | succ left ih =>
    intro problems s h0 hleft hx
    rw [settleSearches, List.forall_mem_cons] at hx
    obtain ⟨hfirst, hrest⟩ := hx
    cases hrun : s.run with
    | satisfied d =>
        rw [passes, settle, hrun]
        exact ⟨fun p hp => absurd hp (by simp), rfl, hrun, (List.append_nil _).symm⟩
    | exhausted =>
        rw [hrun] at hfirst
        exact absurd hfirst (by simp [SearchResult.isExhausted])
    | unsatisfiable =>
        rw [hrun] at hrest
        obtain ⟨hcore, hnext⟩ := List.forall_mem_append.mp hrest
        obtain ⟨id, hchosen, hsound⟩ := exists_pass h0 hrun hcore
        have hor : (s.weakRule? s.minimalCore).or (s.ruleToBlame? s.minimalCore) = some id :=
          hchosen
        rw [hor] at hnext
        -- one rule less is in force, so the passes left are enough
        have hless : (s.without id).rules.enabled.length < s.rules.enabled.length :=
          RuleSet.length_enabled_disable (hsound.enabled id hsound.mem_core)
        have hgoes := fun problems => ih problems (s.without id) (h0.without id) (by omega) hnext
        have hpasses : passes (left + 1) s =
            { search := s, rule := id } :: passes left (s.without id) := by
          rw [passes, hrun, hchosen]
        have hproblem : Pass.isProblem { search := s, rule := id } =
            (s.weakRule? s.minimalCore).isNone := rfl
        rw [hpasses, settle, hrun]
        dsimp only
        cases hweak : s.weakRule? s.minimalCore with
        | some weak =>
            rw [hweak, Option.some_or] at hor
            obtain rfl := Option.some.inj hor
            refine Settles.cons hsound ?_
            rw [List.filter_cons_of_neg (by rw [hproblem, hweak]; simp), List.filter_nil,
              List.map_nil, List.append_nil]
            exact hgoes problems
        | none =>
            rw [hweak, Option.none_or] at hor
            rw [hor]
            refine Settles.cons hsound ?_
            rw [List.filter_cons_of_pos (by rw [hproblem, hweak]; rfl)]
            exact hgoes (problems ++ [{ rules := s.minimalCore }])

end Search

/-! ## The passes of a job -/

/-- The passes made while a job is solved. -/
def solvePasses (world : Universe) (flags : SolverFlags) (job : Job) : List Search.Pass :=
  let setting := Setting.ofJob world flags job
  Search.passes (setting.ruleSet.size + 1) (setting.search setting.ruleSet)

variable {world : Universe} {flags : SolverFlags} {job : Job}

theorem settles_solvePasses
    (hx : ∀ t ∈ solveSearches world flags job, t.run.isExhausted = false) :
    let setting := Setting.ofJob world flags job
    Search.Settles (setting.search setting.ruleSet) (solvePasses world flags job) []
      (Search.settle (setting.ruleSet.size + 1) [] (setting.search setting.ruleSet)) :=
  Search.settles_passes _ _ _ (Setting.sparesZero_search _) (Setting.length_enabled_ruleSet _) hx

/-- **What a solve leaves behind**, read off its passes. -/
structure SolveSettles (world : Universe) (flags : SolverFlags) (job : Job) : Prop where
  sound : ∀ p ∈ solvePasses world flags job, p.Sound
  /-- The passes lead from all rules in force to those in force in the end. -/
  leads : Search.Leads { world, flags, rules := (Setting.ofJob world flags job).ruleSet }
    (solvePasses world flags job) { world, flags, rules := (solve world flags job).rules }
  problems : (solve world flags job).problems =
    ((solvePasses world flags job).filter (·.isProblem)).map fun p => { rules := p.core }

/-- Cleaning up changes the decisions only. -/
theorem rules_solve (world : Universe) (flags : SolverFlags) (job : Job) :
    (solve world flags job).rules = (uncleaned world flags job).rules := by
  rw [solve_eq]
  split
  · exact (Solution.cleans_cleanUp _).rules
  · rfl

theorem problems_solve (world : Universe) (flags : SolverFlags) (job : Job) :
    (solve world flags job).problems = (uncleaned world flags job).problems := by
  rw [solve_eq]
  split
  · exact (Solution.cleans_cleanUp _).problems
  · rfl

theorem solveSettles (hx : ∀ t ∈ solveSearches world flags job, t.run.isExhausted = false) :
    SolveSettles world flags job := by
  have h := settles_solvePasses hx
  refine ⟨h.sound, ?_, ?_⟩
  · rw [rules_solve]
    exact h.leads
  · rw [problems_solve]
    exact h.problems

/-- The passes of a job speak of the rules it ends with. -/
theorem SolveSettles.sameRules (h : SolveSettles world flags job) {p : Search.Pass}
    (hp : p ∈ solvePasses world flags job) :
    (Setting.ofJob world flags job).ruleSet.SameRules p.search.rules ∧
      p.search.rules.SameRules (solve world flags job).rules := by
  obtain ⟨before, after, hsplit⟩ := List.append_of_mem hp
  have hleads := h.leads
  rw [hsplit, Search.leads_append] at hleads
  obtain ⟨u, hbefore, hafter⟩ := hleads
  have hstart : p.search = u := hafter.1
  rw [hstart]
  exact ⟨hbefore.sameRules, hafter.sameRules⟩

/-- **The search after the last pass** satisfies all rules in force in the end. -/
theorem models_uncleaned (hx : ∀ t ∈ solveSearches world flags job, t.run.isExhausted = false) :
    (uncleaned world flags job).decisions.presence.Models
      (uncleaned world flags job).rules.enabled := by
  have h := settles_solvePasses hx
  have h0 : ((Setting.ofJob world flags job).search
      (uncleaned world flags job).rules).SparesZero := by
    intro r hr
    exact Setting.sparesZero_search _ r (h.leads.mem_enabled.mp hr).1
  have hcorrect := Search.run_correct (Search.admits_knows h0)
  have hrun : ((Setting.ofJob world flags job).search (uncleaned world flags job).rules).run =
    .satisfied (uncleaned world flags job).decisions := h.run
  rw [hrun] at hcorrect
  exact hcorrect.models

end DepSolver
