import Mathlib.Data.List.Perm.Subperm
import DepSolver.Proofs.Search.States

/-!
# Propagation keeps a search valid

One step of propagation attends to one decision. It leaves the search valid, with one decision less
to be propagated, or comes to a conflict from which the search can be resumed. No step is idle, and
no package is decided twice, so propagation is through before it runs out of steps.
-/

namespace DepSolver

/-! ## What survives new decisions -/

theorem Decisions.Coherent.refutes_of_settled {d : Decisions} (h : d.Coherent) {n : Nat}
    {x : Literal} (hx : d.Settled n x) : d.refutes x = true := by
  obtain ⟨reason, hmem⟩ := hx
  have hq := List.mem_of_mem_take hmem
  have h0 : -x ≠ 0 := h.nonzero hq
  exact (refutes_iff_satisfies_neg (Int.neg_ne_zero.mp h0)).mpr (h.satisfies_of_mem hq)

variable {P : Literal → Reason → Prop} {K : Literal → Prop} {d e : Decisions}

/-- New decisions go behind what is settled. -/
theorem Decisions.Extends.settled_iff (h : Extends P d e) {n : Nat}
    (hn : n ≤ d.queue.toList.length) {x : Literal} : e.Settled n x ↔ d.Settled n x := by
  obtain ⟨new, hq, -⟩ := h.queue
  unfold Settled
  rw [hq, List.take_append_of_le_length hn]

theorem WatchGraph.Guards.extends {g : WatchGraph} {settled : Literal → Prop}
    (h : g.Guards d settled) (hext : d.Extends P e)
    (hsettled : ∀ x, settled x → d.refutes x = true) : g.Guards e settled := by
  intro id x y hw hx
  obtain ⟨hs, hle⟩ := h hw hx
  rw [hext.signedLevel_eq (Decisions.refutes_iff.mp (hsettled x hx)).1,
    hext.signedLevel_eq (Decisions.satisfies_iff.mp hs).1]
  exact ⟨hext.satisfies hs, hle⟩

theorem Standing.extends {s : Search} {g : WatchGraph} {bs : List Branch}
    (h : Standing s K d g bs) (hK : s.Admits K) (hext : d.Extends P e)
    (hP : ∀ l r, P l r → K l) : Standing s K e g bs where
  coherent := hext.coherent (fun l r hp => (hK.knows (hP l r hp)).1) h.coherent
  known := by
    intro q hq
    obtain ⟨new, heq, hnew⟩ := hext.queue
    rw [heq, List.mem_append] at hq
    rcases hq with hq | hq
    · exact h.known q hq
    · exact hP _ _ (hnew q hq).1
  nonempty := h.nonempty
  asserted := by
    intro r hr l hl
    obtain ⟨hs, hle⟩ := h.asserted r hr l hl
    rw [hext.signedLevel_eq (Decisions.satisfies_iff.mp hs).1]
    exact ⟨hext.satisfies hs, hle⟩
  tracks := h.tracks
  stacked := h.stacked
  alternatives := h.alternatives

theorem Standing.withGraph {s : Search} {g g' : WatchGraph} {bs : List Branch}
    (h : Standing s K d g bs) (ht : g'.Tracks s.rules.enabled) : Standing s K d g' bs :=
  ⟨h.coherent, h.known, h.nonempty, h.asserted, ht, h.stacked, h.alternatives⟩

/-- No package is decided twice, so there are no more decisions than packages to decide. -/
theorem Standing.length_queue_le_of {s : Search} {g : WatchGraph} {bs : List Branch}
    (h : Standing s K d g bs) {packages : List Nat} (hK : ∀ l, K l → l.natAbs ∈ packages) :
    d.queue.toList.length ≤ packages.length := by
  have hsub : (d.queue.toList.map fun q => q.1.natAbs) ⊆ packages := by
    intro n hn
    obtain ⟨q, hq, rfl⟩ := List.mem_map.mp hn
    exact hK q.1 (h.known q hq)
  have := (List.subperm_of_subset h.coherent.nodup hsub).length_le
  rw [List.length_map] at this
  exact this

/-- There is room for all decisions. -/
theorem Standing.length_queue_le {s : Search} {g : WatchGraph} {bs : List Branch}
    (h : Standing s K d g bs) (hK : s.Admits K) :
    d.queue.toList.length ≤ s.packages.length :=
  h.length_queue_le_of fun _ hl => (hK.knows hl).2

/-- Levels stay bounded when more is decided at the current level. -/
theorem Decisions.Extends.level_le (h : Extends P d e)
    (hd : ∀ l, (d.signedLevel l).natAbs ≤ d.level + 1) (l : Literal) :
    (e.signedLevel l).natAbs ≤ e.level + 1 := by
  rw [h.level]
  by_cases hl : d.signedLevel l = 0
  · by_cases hel : e.signedLevel l = 0
    · rw [hel]
      exact Nat.zero_le _
    · exact Nat.le_of_eq (h.natAbs_signedLevel hl hel)
  · rw [h.signedLevel_eq hl]
    exact hd l

/-- What is pending behind an extension is what was pending, and what is new. -/
theorem Decisions.Extends.pending (h : Extends P d e) (hc : e.Coherent) {n : Nat}
    (hn : n ≤ d.queue.toList.length)
    (hd : ∀ q ∈ d.queue.toList.drop n, (d.signedLevel q.1).natAbs = d.level + 1) :
    ∀ q ∈ e.queue.toList.drop n, (e.signedLevel q.1).natAbs = e.level + 1 := by
  obtain ⟨new, heq, hnew⟩ := h.queue
  intro q hq
  have hdecided := (satisfies_iff.mp (hc.satisfies_of_mem (List.mem_of_mem_drop hq))).1
  rw [heq, List.drop_append_of_le_length hn, List.mem_append] at hq
  rw [h.level]
  rcases hq with hq | hq
  · have hlevel := hd q hq
    have hd0 : d.signedLevel q.1 ≠ 0 := by
      intro h0
      rw [h0] at hlevel
      exact absurd hlevel (by simp)
    rw [h.signedLevel_eq hd0, hlevel]
  · exact h.natAbs_signedLevel (hnew q hq).2 hdecided

namespace SearchState

variable {s : Search} {st : SearchState}

theorem Steady.branch_lt (h : st.Steady s K) {b : Branch} (hb : b ∈ st.branches) :
    b.level - 1 < st.decisions.level := by
  have := h.stacked.level hb
  have := h.level_eq
  omega

/-- Every false literal of an earlier level is settled. -/
theorem Steady.settled_of_refutes (h : st.Steady s K) {x : Literal} (hx : x ≠ 0)
    (hr : st.decisions.refutes x = true)
    (hle : (st.decisions.signedLevel x).natAbs ≤ st.decisions.level) :
    st.decisions.Settled st.propagated x := by
  have hs := (Decisions.refutes_iff_satisfies_neg hx).mp hr
  obtain ⟨reason, hmem⟩ := (h.coherent.satisfies_iff_mem (Int.neg_ne_zero.mpr hx)).mp hs
  rw [← List.take_append_drop st.propagated st.decisions.queue.toList, List.mem_append] at hmem
  rcases hmem with hmem | hmem
  · exact ⟨reason, hmem⟩
  · have := h.pending _ hmem
    rw [Decisions.signedLevel_neg] at this
    omega

/-- Once everything is propagated, every false literal is settled. -/
theorem Steady.settled_of_propagated (h : st.Steady s K)
    (hall : st.propagated = st.decisions.queue.toList.length) {x : Literal} (hx : x ≠ 0)
    (hr : st.decisions.refutes x = true) : st.decisions.Settled st.propagated x := by
  have hs := (Decisions.refutes_iff_satisfies_neg hx).mp hr
  obtain ⟨reason, hmem⟩ := (h.coherent.satisfies_iff_mem (Int.neg_ne_zero.mpr hx)).mp hs
  refine ⟨reason, ?_⟩
  rw [hall, List.take_length]
  exact hmem

/-! ## One step -/

/-- The first decision that is still to be propagated. -/
theorem Steady.next (h : st.Steady s K) {q : Literal × Reason}
    (hq : st.decisions.queue[st.propagated]? = some q) :
    st.decisions.satisfies q.1 = true ∧ q.1 ≠ 0 ∧
      (st.decisions.signedLevel q.1).natAbs = st.decisions.level + 1 := by
  rw [← Array.getElem?_toList] at hq
  obtain ⟨hlt, heq⟩ := List.getElem?_eq_some_iff.mp hq
  have hmem : q ∈ st.decisions.queue.toList := heq ▸ List.getElem_mem hlt
  refine ⟨h.coherent.satisfies_of_mem hmem, h.coherent.nonzero hmem, h.pending q ?_⟩
  rw [List.drop_eq_getElem_cons hlt, heq]
  exact List.mem_cons_self ..

/-- What attending to the next decision comes to. -/
theorem Steady.propagates (h : st.Steady s K) {q : Literal × Reason}
    (hq : st.decisions.queue[st.propagated]? = some q) :
    WatchGraph.Propagates s.rules st.decisions (-q.1) (st.decisions.Settled st.propagated)
      (st.graph.propagate q.1 s.rules st.decisions).1
      (st.graph.propagate q.1 s.rules st.decisions).2 := by
  obtain ⟨hs, hq0, -⟩ := h.next hq
  refine WatchGraph.propagate_propagates h.tracks h.guards
    (fun x hx => h.coherent.refutes_of_settled hx) ?_
  rw [Decisions.refutes_iff_satisfies_neg (Int.neg_ne_zero.mpr hq0), Int.neg_neg]
  exact hs

/-- The search may halt at the current level, however far its decisions are propagated. -/
theorem Steady.halt (h : st.Steady s K) (hK : s.Admits K) {g : WatchGraph} {n : Nat}
    (ht : g.Tracks s.rules.enabled)
    (hg : g.Guards st.decisions (st.decisions.Settled st.propagated)) :
    Halted s K { st with graph := g, propagated := n } st.branches where
  toStanding := h.toStanding.withGraph ht
  level_le := Nat.le_of_eq h.level_eq.symm
  guards := by
    intro id x y hw hs
    obtain ⟨hr, hle⟩ := hs
    obtain ⟨r, hrule, -, -, hx, -⟩ := ht.pair hw
    exact hg hw (h.settled_of_refutes (hK.ne_zero hrule hx) hr hle)

/-- A forced literal is true in every model that agrees. -/
theorem holds_of_forcesUnit (hK : s.Admits K) {d : Decisions} {l : Literal} {id : Nat}
    (hf : WatchGraph.ForcesUnit s.rules d l id) {α : Assignment} (hα : α.Models s.rules.enabled)
    (hagree : d.Agrees α) : α.holds l = true := by
  obtain ⟨r, hr, -, -, -, hfalse⟩ := hf
  obtain ⟨x, hx, hholds⟩ := Assignment.satisfies_iff.mp (hα r hr)
  by_cases hxl : x = l
  · rw [← hxl]
    exact hholds
  · rw [hagree.holds_eq_false (hK.ne_zero hr hx) (hfalse x hx hxl)] at hholds
    exact absurd hholds (by simp)

/-- No model agrees with decisions that violate a rule. -/
theorem not_agrees_of_isViolated (hK : s.Admits K) {d : Decisions} {id : Nat}
    (hv : WatchGraph.IsViolated s.rules d id) {α : Assignment} (hα : α.Models s.rules.enabled) :
    ¬d.Agrees α := by
  intro hagree
  obtain ⟨r, hr, -, hfalse⟩ := hv
  obtain ⟨x, hx, hholds⟩ := Assignment.satisfies_iff.mp (hα r hr)
  rw [hagree.holds_eq_false (hK.ne_zero hr hx) (hfalse x hx)] at hholds
  exact absurd hholds (by simp)

theorem admitted_of_forcesUnit (hK : s.Admits K) {d : Decisions} {l : Literal} {id : Nat}
    (hf : WatchGraph.ForcesUnit s.rules d l id) : K l := by
  obtain ⟨r, hr, -, hl, -, -⟩ := hf
  exact hK.rules hr hl

/-- Whether a literal is true in every model that agrees with some decisions. -/
def Follows (s : Search) (d : Decisions) (l : Literal) : Prop :=
  l ≠ 0 ∧ ∀ α : Assignment, α.Models s.rules.enabled → d.Agrees α → α.holds l = true

/-- The units that are decided follow from what was decided before. -/
theorem follows_of_decideUnits? (hK : s.Admits K) {units : List (Literal × Nat)}
    {d e : Decisions} (hunits : ∀ u ∈ units, WatchGraph.ForcesUnit s.rules d u.1 u.2)
    (he : decideUnits? d units = some e) : d.Extends (fun l _ => Follows s d l) e := by
  rw [decideUnits?_eq] at he
  refine (Decisions.decideRow?_eq_some he).1.mono fun l r hmem => ?_
  obtain ⟨u, hu, heq⟩ := List.mem_map.mp hmem
  rw [← (Prod.mk.inj heq).1]
  refine ⟨(hK.knows (admitted_of_forcesUnit hK (hunits u hu))).1, fun α hα hagree => ?_⟩
  exact holds_of_forcesUnit hK (hunits u hu) hα hagree

/-- Extending decisions by what follows from them loses no model. -/
theorem agrees_of_follows {d e : Decisions} (h : d.Extends (fun l _ => Follows s d l) e)
    {α : Assignment} (hα : α.Models s.rules.enabled) (hagree : d.Agrees α) : e.Agrees α :=
  h.agrees (fun _ _ hl => ⟨hl.1, hl.2 α hα hagree⟩) hagree

/-- What is settled once a decision was propagated was settled before, or is what it made false. -/
theorem settled_succ {q : Literal × Reason} {e : Decisions} {P : Literal → Reason → Prop}
    (hq : st.decisions.queue[st.propagated]? = some q) (hext : st.decisions.Extends P e)
    (hlen : st.propagated < st.decisions.queue.toList.length) {x : Literal}
    (hx : e.Settled (st.propagated + 1) x) :
    st.decisions.Settled st.propagated x ∨ x = -q.1 := by
  obtain ⟨reason, hmem⟩ := (hext.settled_iff hlen).mp hx
  rw [List.take_add_one, List.mem_append, Option.mem_toList, Array.getElem?_toList, hq] at hmem
  rcases hmem with hmem | hmem
  · exact .inl ⟨reason, hmem⟩
  · refine .inr ?_
    rw [Option.some.inj hmem, Int.neg_neg]

/-- Deciding the units leaves the search steady, with one decision more propagated. -/
theorem Steady.force (h : st.Steady s K) (hK : s.Admits K) {q : Literal × Reason} {g : WatchGraph}
    {units : List (Literal × Nat)} {e : Decisions}
    (hq : st.decisions.queue[st.propagated]? = some q)
    (hp : WatchGraph.Propagates s.rules st.decisions (-q.1) (st.decisions.Settled st.propagated)
      (.forces units) g)
    (he : decideUnits? st.decisions units = some e) :
    Steady s K { st with graph := g, propagated := st.propagated + 1, decisions := e } := by
  obtain ⟨hunits, hpartner⟩ := hp.forces rfl
  obtain ⟨hs, hq0, hlevel⟩ := h.next hq
  rw [decideUnits?_eq] at he
  obtain ⟨hext, htrue⟩ := Decisions.decideRow?_eq_some he
  have hadmitted : ∀ l reason, (l, reason) ∈ (units.map fun u => (u.1, Reason.unit u.2)) →
      K l := by
    intro l reason hmem
    obtain ⟨u, hu, heq⟩ := List.mem_map.mp hmem
    obtain ⟨rfl, -⟩ := Prod.mk.inj heq
    exact admitted_of_forcesUnit hK (hunits u hu)
  have hstand := (h.toStanding.withGraph hp.tracks).extends hK hext hadmitted
  have hlen : st.propagated < st.decisions.queue.toList.length := by
    rw [← Array.getElem?_toList] at hq
    exact (List.getElem?_eq_some_iff.mp hq).1
  refine ⟨hstand, hext.level.trans h.level_eq, hext.level_le h.level_le, ?_, ?_, ?_⟩
  · exact Nat.le_trans hlen hext.length_queue_le
  · -- the units join what was left to be propagated, at the same level
    refine hext.pending hstand.coherent hlen fun p hmem => h.pending p ?_
    rw [← List.drop_drop] at hmem
    exact List.mem_of_mem_drop hmem
  · intro id x y hw hx
    rcases settled_succ hq hext hlen hx with hx | rfl
    · exact hp.guards.extends hext (fun x hx => h.coherent.refutes_of_settled hx) hw hx
    · -- the literal that was just propagated: its partners are true now, and at most as high
      rw [Decisions.signedLevel_neg, hext.signedLevel_eq (Decisions.satisfies_iff.mp hs).1, hlevel]
      refine ⟨?_, ?_⟩
      · rcases hpartner hw with hy | hy
        · exact hext.satisfies hy
        · exact htrue _ (List.mem_map_of_mem hy)
      · have := hext.level_le h.level_le y
        rw [hext.level] at this
        exact this

/-- Whether propagation comes to a conflict: a rule is violated, or what a rule forces is false. -/
def Clashes (s : Search) (d : Decisions) : Prop :=
  (∃ id, WatchGraph.IsViolated s.rules d id) ∨
    ∃ units : List (Literal × Nat),
      (∀ u ∈ units, WatchGraph.ForcesUnit s.rules d u.1 u.2) ∧ decideUnits? d units = none

/-- No model agrees with decisions that clash. -/
theorem Clashes.not_agrees (hK : s.Admits K) {d : Decisions} (h : Clashes s d) {α : Assignment}
    (hα : α.Models s.rules.enabled) : ¬d.Agrees α := by
  intro hagree
  rcases h with ⟨id, hviolated⟩ | ⟨units, hunits, he⟩
  · exact not_agrees_of_isViolated hK hviolated hα hagree
  · rw [decideUnits?_eq] at he
    refine Decisions.not_holds_of_decideRow?_eq_none he hagree (fun p hp => ?_) fun p hp => ?_
    · obtain ⟨u, hu, rfl⟩ := List.mem_map.mp hp
      exact (hK.knows (admitted_of_forcesUnit hK (hunits u hu))).1
    · obtain ⟨u, hu, rfl⟩ := List.mem_map.mp hp
      exact holds_of_forcesUnit hK (hunits u hu) hα hagree

/-- Attends to the first decision that is still to be propagated. -/
def advance (rules : RuleSet) (st : SearchState) : SearchState ⊕ (Bool × SearchState) :=
  match st.decisions.queue[st.propagated]? with
  | none => .inr (true, st)
  | some (l, _) =>
    let (found, graph) := st.graph.propagate l rules st.decisions
    let st := { st with graph, propagated := st.propagated + 1 }
    match found with
    | .violates _ => .inr (false, st)
    | .forces units =>
      match decideUnits? st.decisions units with
      | some decisions => .inl { st with decisions }
      | none => .inr (false, st)

theorem propagate_succ (rules : RuleSet) (steps : Nat) (st : SearchState) :
    propagate rules (steps + 1) st =
      match advance rules st with
      | .inl st => propagate rules steps st
      | .inr r => r := by
  rw [propagate, advance]
  rcases st.decisions.queue[st.propagated]? with _ | q
  · rfl
  · dsimp only
    generalize st.graph.propagate q.1 rules st.decisions = found
    obtain ⟨found, g⟩ := found
    cases found with
    | violates id => rfl
    | forces units =>
        dsimp only
        cases decideUnits? st.decisions units <;> rfl

/-- **One step of propagation** finds nothing left to do, comes to a conflict, or decides units. -/
theorem Steady.advance_cases (h : st.Steady s K) (hK : s.Admits K) :
    (advance s.rules st = .inr (true, st) ∧
      st.propagated = st.decisions.queue.toList.length) ∨
    (∃ g, advance s.rules st =
        .inr (false, { st with graph := g, propagated := st.propagated + 1 }) ∧
      Halted s K { st with graph := g, propagated := st.propagated + 1 } st.branches ∧
      Clashes s st.decisions) ∨
    ∃ g units e, advance s.rules st =
        .inl { st with graph := g, propagated := st.propagated + 1, decisions := e } ∧
      Steady s K { st with graph := g, propagated := st.propagated + 1, decisions := e } ∧
      (∀ u ∈ units, WatchGraph.ForcesUnit s.rules st.decisions u.1 u.2) ∧
      decideUnits? st.decisions units = some e := by
  unfold advance
  rcases hq : st.decisions.queue[st.propagated]? with _ | q
  · refine .inl ⟨rfl, Nat.le_antisymm h.propagated_le ?_⟩
    rw [← Array.getElem?_toList] at hq
    exact List.getElem?_eq_none_iff.mp hq
  · dsimp only
    have hp := h.propagates hq
    generalize st.graph.propagate q.1 s.rules st.decisions = found at hp
    obtain ⟨found, g⟩ := found
    rcases found with units | id
    · obtain ⟨hunits, -⟩ := hp.forces rfl
      dsimp only
      rcases he : decideUnits? st.decisions units with _ | e
      · exact .inr (.inl ⟨g, rfl, h.halt hK hp.tracks hp.guards, .inr ⟨units, hunits, he⟩⟩)
      · exact .inr (.inr ⟨g, units, e, rfl, h.force hK hq hp he, hunits, he⟩)
    · exact .inr (.inl ⟨g, rfl, h.halt hK hp.tracks hp.guards, .inl ⟨id, hp.violates rfl⟩⟩)

/-! ## All steps -/

/-- Propagation keeps a search steady, or halts it. It does not touch the branches. -/
theorem Steady.propagate (hK : s.Admits K) : ∀ {steps : Nat} {st st' : SearchState} {ok : Bool},
    st.Steady s K → SearchState.propagate s.rules steps st = (ok, st') →
      st'.branches = st.branches ∧ (ok = true → st'.Steady s K) ∧
        (ok = false → st'.Halted s K st'.branches)
  | 0, st, st', ok, h, hp => by
      obtain ⟨rfl, rfl⟩ := Prod.mk.inj hp
      exact ⟨rfl, fun _ => h, nofun⟩
  | steps + 1, st, st', ok, h, hp => by
      rw [propagate_succ] at hp
      rcases h.advance_cases hK with ⟨hdone, -⟩ | ⟨g, hconflict, hhalted, -⟩ |
        ⟨g, units, e, hstep, hsteady, -⟩
      · rw [hdone] at hp
        obtain ⟨rfl, rfl⟩ := Prod.mk.inj hp
        exact ⟨rfl, fun _ => h, nofun⟩
      · rw [hconflict] at hp
        obtain ⟨rfl, rfl⟩ := Prod.mk.inj hp
        exact ⟨rfl, nofun, fun _ => hhalted⟩
      · rw [hstep] at hp
        have hrest := Steady.propagate hK hsteady hp
        exact hrest

/-- With a step for every package that may be decided, propagation without a conflict leaves nothing
to be propagated. -/
theorem Steady.propagated_eq (hK : s.Admits K) : ∀ {steps : Nat} {st st' : SearchState},
    st.Steady s K → s.packages.length < steps + st.propagated →
      SearchState.propagate s.rules steps st = (true, st') →
        st'.propagated = st'.decisions.queue.toList.length
  | 0, st, st', h, hsteps, _ => by
      -- the queue holds no more than the packages there are
      have hpropagated := h.propagated_le
      have hlength := h.toStanding.length_queue_le hK
      omega
  | steps + 1, st, st', h, hsteps, hp => by
      rw [propagate_succ] at hp
      rcases h.advance_cases hK with ⟨hdone, hall⟩ | ⟨g, hconflict, -⟩ |
        ⟨g, units, e, hstep, hsteady, -⟩
      · rw [hdone] at hp
        obtain ⟨-, rfl⟩ := Prod.mk.inj hp
        exact hall
      · rw [hconflict] at hp
        exact absurd hp (by simp)
      · rw [hstep] at hp
        exact Steady.propagated_eq hK hsteady (by show _ < steps + (st.propagated + 1); omega) hp

/-- Deciding units loses no model. -/
theorem Valid.covered_force (h : st.Valid s K) (hK : s.Admits K) {units : List (Literal × Nat)}
    {e : Decisions} (hunits : ∀ u ∈ units, WatchGraph.ForcesUnit s.rules st.decisions u.1 u.2)
    (he : decideUnits? st.decisions units = some e) {α : Assignment}
    (hα : α.Models s.rules.enabled) : e.Agrees α ∨ Open e st.branches α := by
  have hfollows := follows_of_decideUnits? hK hunits he
  rcases h.covered α hα with hagree | hopen
  · exact .inl (agrees_of_follows hfollows hα hagree)
  · -- branches look only below the current level, where nothing changed
    refine .inr (hopen.congr fun b hb l hl => ?_)
    exact (hfollows.satisfies_revert_iff (h.steady.branch_lt hb)).mp hl

/--
**Propagation is sound and complete.**

It ends with everything propagated in a valid state, and with no more decided than what follows from
the decisions it began with; or with a conflict from which the search can be resumed, and then no
model agrees with these. It does not touch the branches.
-/
theorem Valid.propagate (hK : s.Admits K) : ∀ {steps : Nat} {st : SearchState}, st.Valid s K →
    s.packages.length < steps + st.propagated →
      (∃ st', propagate s.rules steps st = (true, st') ∧ st'.Valid s K ∧
        st'.propagated = st'.decisions.queue.toList.length ∧
        st.decisions.Extends (fun l _ => Follows s st.decisions l) st'.decisions) ∨
      (∃ st', propagate s.rules steps st = (false, st') ∧ st'.Resumable s K st'.branches ∧
        ∀ α : Assignment, α.Models s.rules.enabled → ¬st.decisions.Agrees α)
  | 0, st, h, hsteps => by
      have hpropagated := h.propagated_le
      have hlength := h.toStanding.length_queue_le hK
      omega
  | steps + 1, st, h, hsteps => by
      rw [propagate_succ]
      rcases h.steady.advance_cases hK with ⟨hdone, hall⟩ | ⟨g, hconflict, hhalted, hclash⟩ |
        ⟨g, units, e, hstep, hsteady, hunits, he⟩
      · rw [hdone]
        exact .inl ⟨st, rfl, h, hall, .refl⟩
      · have hnone : ∀ α : Assignment, α.Models s.rules.enabled → ¬st.decisions.Agrees α :=
          fun α hα => hclash.not_agrees hK hα
        rw [hconflict]
        exact .inr ⟨_, rfl,
          hhalted.resumable fun α hα => (h.covered α hα).resolve_left (hnone α hα), hnone⟩
      · have hfirst := follows_of_decideUnits? hK hunits he
        have hvalid := hsteady.valid fun α hα => h.covered_force hK hunits he hα
        have hless : s.packages.length < steps + (st.propagated + 1) := by omega
        rw [hstep]
        rcases Valid.propagate hK hvalid hless with
          ⟨st', hst, h', hall, hrest⟩ | ⟨st', hst, h', hnone⟩
        · -- what follows from the units follows from what forced them
          refine .inl ⟨st', hst, h', hall, hfirst.trans (hrest.mono fun l _ hl => ⟨hl.1, ?_⟩)⟩
          exact fun α hα hagree => hl.2 α hα (agrees_of_follows hfirst hα hagree)
        · refine .inr ⟨st', hst, h', fun α hα hagree => ?_⟩
          exact hnone α hα (agrees_of_follows hfirst hα hagree)

end SearchState

end DepSolver
