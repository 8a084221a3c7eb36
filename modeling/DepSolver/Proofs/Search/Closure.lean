import DepSolver.Proofs.Search.Correctness

/-!
# Propagation leaves nothing to be forced

Watches move while a search goes on, and are left where they are when it goes back. That they are in
order all the same is a matter of levels: a watched literal stays false only as long as its partner
is true, whatever the search has decided and in whatever order.

`Reached` gathers the states that a search may come to if it is free in what it decides. Between
conflicts they are `Steady`, after one they are `Halted`; so in all of them the watches are those of
the rules, what propagation finds is forced or violated, and propagation that meets no conflict
leaves no rule that forces anything.
-/

namespace DepSolver

namespace WatchGraph

/-- A rule is registered once under each of two different literals of its own, which it watches, and
nowhere else. -/
def Registers (g : WatchGraph) (r : Rule) : Prop :=
  ∃ x ∈ r.literals, ∃ y ∈ r.literals, x ≠ y ∧ g.Watches r.id x y ∧
    ∀ l, (g.watchersOf l).count r.id = if l = x ∨ l = y then 1 else 0

theorem Tracks.registers {g : WatchGraph} {rules : RuleSet} (h : g.Tracks rules.enabled) {r : Rule}
    (hr : r ∈ rules.enabled) (hlen : 2 ≤ r.literals.length) : g.Registers r := by
  obtain ⟨x, y, hw⟩ := h.total hr hlen
  obtain ⟨t, ht, hid, hne, hx, hy⟩ := h.pair hw
  obtain rfl : t = r := RuleSet.eq_of_id (RuleSet.mem_enabled_iff.mp ht).1
    (RuleSet.mem_enabled_iff.mp hr).1 hid
  refine ⟨x, hx, y, hy, hne, hw, fun l => ?_⟩
  have hmem : t.id ∈ g.watchersOf l ↔ l = x ∨ l = y := by
    rw [h.mem_watchersOf]
    refine ⟨fun ⟨z, hz⟩ => ?_, fun hl => ?_⟩
    · exact (hw.eq_or_eq hz).imp And.left And.left
    · rcases hl with rfl | rfl
      · exact ⟨y, hw⟩
      · exact ⟨x, hw.symm⟩
  split
  · rename_i hl
    exact (h.nodup l).count.trans (if_pos (hmem.mpr hl))
  · rename_i hl
    exact List.count_eq_zero.mpr fun hid => hl (hmem.mp hid)

end WatchGraph

/-! ## What a search may come to -/

namespace SearchState

/--
**The states that a search can reach**, if it may decide whatever it knows.

The truth value tells whether no conflict has been met: propagation answers with it, and a search
that has met one can only go back. Choices are made where everything is propagated, and there it is
open what is chosen.
-/
inductive Reached (s : Search) : Bool → SearchState → Prop where
  | start {d : Decisions} : Search.decideAssertions? s.rules.enabled s.start = some d →
      Reached s true { decisions := d, graph := .ofRules s.rules }
  | propagate {st : SearchState} (steps : Nat) : Reached s true st →
      Reached s (propagate s.rules steps st).1 (propagate s.rules steps st).2
  | choose {st st' : SearchState} {c : Choice} : Reached s true st →
      st.propagated = st.decisions.size → (∀ row ∈ c.first :: c.others, ∀ l ∈ row, s.Knows l) →
      st.choose c = some st' → Reached s true st'
  | backtrack {ok : Bool} {st st' : SearchState} : Reached s ok st → st.backtrack = some st' →
      Reached s true st'

variable {s : Search} {st st' : SearchState} {ok : Bool}

theorem size_decisions (st : SearchState) : st.decisions.size = st.decisions.queue.toList.length :=
  Array.length_toList.symm

/-- A steady search could halt where it is. -/
theorem Steady.halted {K : Literal → Prop} (h : st.Steady s K) (hK : s.Admits K) :
    st.Halted s K st.branches :=
  h.halt hK h.tracks h.guards

/-- **A search is steady until it meets a conflict**, and can always go back. -/
theorem Reached.steady_and_halted (hK : s.Admits s.Knows) (h : Reached s ok st) :
    (ok = true → st.Steady s s.Knows) ∧ st.Halted s s.Knows st.branches := by
  induction h with
  | start hd =>
      have hsteady := Search.steady_of_decideAssertions? hK hd
      exact ⟨fun _ => hsteady, hsteady.halted hK⟩
  | @propagate st steps _ ih =>
      obtain ⟨-, hgoes, hstops⟩ := (ih.1 rfl).propagate hK
        (Prod.eta (SearchState.propagate s.rules steps st)).symm
      refine ⟨hgoes, ?_⟩
      cases hok : (SearchState.propagate s.rules steps st).1 with
      | true => exact (hgoes hok).halted hK
      | false => exact hstops hok
  | choose _ hall hc hst ih =>
      have hsteady := (ih.1 rfl).choose hK (hall.trans (size_decisions _)) hc hst
      exact ⟨fun _ => hsteady, hsteady.halted hK⟩
  | backtrack _ hst ih =>
      have hsteady := ih.2.resume hK hst
      exact ⟨fun _ => hsteady, hsteady.halted hK⟩

/-! ## What propagation finds -/

/-- Whatever has been decided can be propagated, wherever the search stands. -/
theorem Halted.propagates {K : Literal → Prop} {bs : List Branch} (h : st.Halted s K bs)
    {q : Literal × Reason} (hq : q ∈ st.decisions.queue.toList) :
    WatchGraph.Propagates s.rules st.decisions (-q.1) (fun _ => False)
      (st.graph.propagate q.1 s.rules st.decisions).1
      (st.graph.propagate q.1 s.rules st.decisions).2 := by
  refine WatchGraph.propagate_propagates h.tracks (fun _ _ _ _ hx => hx.elim)
    (fun _ hx => hx.elim) ?_
  rw [Decisions.refutes_iff_satisfies_neg (Int.neg_ne_zero.mpr (h.coherent.nonzero hq)),
    Int.neg_neg]
  exact h.coherent.satisfies_of_mem hq

/-- Once everything is propagated no rule in force forces a literal. -/
theorem Steady.not_forcesUnit {K : Literal → Prop} (h : st.Steady s K) (hK : s.Admits K)
    (hall : st.propagated = st.decisions.queue.toList.length) (l : Literal) (id : Nat) :
    ¬WatchGraph.ForcesUnit s.rules st.decisions l id := by
  rintro ⟨r, hr, -, -, hundecided, hfalse⟩
  rw [Decisions.isUndecided_iff] at hundecided
  -- a literal that is not false can only be the one that is undecided
  have heq : ∀ {x : Literal}, x ∈ r.literals → ¬st.decisions.refutes x = true → x = l :=
    fun hx hopen => Decidable.byContradiction fun hne => hopen (hfalse _ hx hne)
  rcases h.satisfied_or_undecided hK hall hr with ⟨x, hx, htrue⟩ | ⟨x, hx, y, hy, hne, hox, hoy⟩
  · have hxl := heq hx fun hf => Decisions.not_refutes_of_satisfies htrue hf
    exact (Decisions.satisfies_iff.mp htrue).1 (hxl ▸ hundecided)
  · exact hne ((heq hx hox).trans (heq hy hoy).symm)

/--
**Watched literals find whatever is forced**, without ever being restored.

In every state that a search can reach, each rule in force that has two literals is registered once
under each of the two that it watches, and nowhere else. Propagating anything that has been decided
finds units that are forced, or a rule that is violated. And a propagation that meets no conflict
leaves no rule that is violated or forces a literal.
-/
theorem Reached.propagation_closes (h0 : ∀ r ∈ s.rules.enabled, ∀ l ∈ r.literals, l ≠ 0)
    (h : Reached s ok st) :
    (∀ r ∈ s.rules.enabled, 2 ≤ r.literals.length → st.graph.Registers r) ∧
    (∀ q ∈ st.decisions.queue.toList,
      (∀ units g, st.graph.propagate q.1 s.rules st.decisions = (.forces units, g) →
        ∀ u ∈ units, WatchGraph.ForcesUnit s.rules st.decisions u.1 u.2) ∧
      ∀ id g, st.graph.propagate q.1 s.rules st.decisions = (.violates id, g) →
        WatchGraph.IsViolated s.rules st.decisions id) ∧
    (ok = true → ∀ steps st', s.room ≤ steps →
      SearchState.propagate s.rules steps st = (true, st') → ∀ id,
        ¬WatchGraph.IsViolated s.rules st'.decisions id ∧
          ∀ l, ¬WatchGraph.ForcesUnit s.rules st'.decisions l id) := by
  have hK := Search.admits_knows h0
  obtain ⟨hsteady, hhalted⟩ := h.steady_and_halted hK
  refine ⟨fun r hr hlen => hhalted.tracks.registers hr hlen, fun q hq => ?_, ?_⟩
  · have hp := hhalted.propagates hq
    refine ⟨fun units g hfound => ?_, fun id g hfound => ?_⟩ <;> rw [hfound] at hp
    · exact (hp.forces rfl).1
    · exact hp.violates rfl
  · intro hok steps st' hsteps hpropagate id
    have hroom : s.packages.length < steps + st.propagated := by
      have := s.length_packages
      omega
    have hall := (hsteady hok).propagated_eq hK hroom hpropagate
    have hclosed := ((hsteady hok).propagate hK hpropagate).2.1 rfl
    refine ⟨?_, fun l => hclosed.not_forcesUnit hK hall l id⟩
    rintro ⟨r, hr, -, hfalse⟩
    exact hclosed.not_violated hK hall hr hfalse

/-- The first package needs the second and conflicts with it; the third would do instead. -/
def dilemma : Search where
  world := .empty
  flags := {}
  rules := .ofList [.make .job [1, 3], .make .job [-1, 2], .make .job [-1, -2]]

/-- Nothing has been decided yet. -/
def atOnset : SearchState := { decisions := dilemma.start, graph := .ofRules dilemma.rules }

/-- The first package is tried, which meets a conflict, and the search goes back. -/
def detour : Option SearchState :=
  (atOnset.choose { first := [1], others := [[3]], reason := .keep }).bind fun st =>
    (propagate dilemma.rules dilemma.room st).2.backtrack

/-- Watches have moved on the way, and are in order. -/
theorem Reached.propagation_closes_dilemma : ∃ st, detour = some st ∧ Reached dilemma true st ∧
    (∀ r ∈ dilemma.rules.enabled, st.graph.Registers r) ∧
    ∀ st', SearchState.propagate dilemma.rules dilemma.room st = (true, st') → ∀ id,
      ¬WatchGraph.IsViolated dilemma.rules st'.decisions id ∧
        ∀ l, ¬WatchGraph.ForcesUnit dilemma.rules st'.decisions l id := by
  have hsome : detour.isSome = true := by decide +kernel
  obtain ⟨st, hst⟩ := Option.isSome_iff_exists.mp hsome
  obtain ⟨tried, hchoose, hback⟩ := Option.bind_eq_some_iff.mp hst
  have hknown : ∀ row ∈ [[1], [3]], ∀ l ∈ row, dilemma.Knows l := by
    unfold Search.Knows
    decide +kernel
  have honset : Reached dilemma true atOnset := .start rfl
  have hreached := ((honset.choose rfl hknown hchoose).propagate dilemma.room).backtrack hback
  obtain ⟨hregistered, -, hclosed⟩ := hreached.propagation_closes (by decide +kernel)
  have hlong : ∀ r ∈ dilemma.rules.enabled, 2 ≤ r.literals.length := by decide +kernel
  exact ⟨st, hst, hreached, fun r hr => hregistered r hr (hlong r hr),
    fun st' => hclosed rfl dilemma.room st' (Nat.le_refl _)⟩

/-- A package 0 that is wanted, by itself and as an alternative. -/
def wantsZero : Search where
  world := .empty
  flags := {}
  rules := .ofList [.make .job [0], .make .job [0, 5]]

/-- Number 0 is its own negation, so a rule that is satisfied by it forces what else it holds. -/
theorem not_forcesUnit_wantsZero : ∃ st, Reached wantsZero true st ∧
    ∃ q ∈ st.decisions.queue.toList, ∃ units g,
      st.graph.propagate q.1 wantsZero.rules st.decisions = (.forces units, g) ∧
      ∃ u ∈ units, ¬∃ r ∈ wantsZero.rules.enabled, r.id = u.2 ∧ u.1 ∈ r.literals ∧
        ∀ x ∈ r.literals, x ≠ u.1 → st.decisions.refutes x = true := by
  refine ⟨{ decisions := _, graph := .ofRules wantsZero.rules }, .start rfl, (0, .unit 0),
    by decide +kernel, [(5, 1)], _, rfl, (5, 1), List.mem_singleton_self _, ?_⟩
  rintro ⟨r, hr, hid, -, hfalse⟩
  have hzero : ∀ r ∈ wantsZero.rules.enabled, r.id = 1 → (0 : Literal) ∈ r.literals := by
    decide +kernel
  have htrue := hfalse 0 (hzero r hr hid) (by decide)
  exact absurd htrue (by decide +kernel)

/-! ## The search itself -/

/-- **A search comes to no other states.** The decisions it ends with are those of a state it has
reached, in which everything is propagated. -/
theorem Reached.rounds (hK : s.Admits s.Knows) {d : Decisions} : ∀ {left : Nat} {st : SearchState},
    Reached s true st → s.rounds s.rules.enabled s.room left st = .satisfied d →
      ∃ st', Reached s true st' ∧ st'.decisions = d ∧ st'.propagated = st'.decisions.size
  | 0, _, _, hd => absurd hd (by simp [Search.rounds])
  | left + 1, st, h, hd => by
      rw [Search.rounds_succ] at hd
      have hroom : s.packages.length < s.room + st.propagated := by
        have := s.length_packages
        omega
      have hsteady := (h.steady_and_halted hK).1 rfl
      have hreached := h.propagate s.room
      rcases hp : SearchState.propagate s.rules s.room st with ⟨_ | _, st'⟩
      · rw [hp] at hd hreached
        dsimp only at hd hreached
        rcases hback : st'.backtrack with _ | st''
        · rw [hback] at hd
          exact absurd hd (by simp)
        · rw [hback] at hd
          exact Reached.rounds hK (hreached.backtrack hback) hd
      · rw [hp] at hd hreached
        dsimp only at hd hreached
        have hall := (hsteady.propagated_eq hK hroom hp).trans (size_decisions st').symm
        have hsteady' := (hreached.steady_and_halted hK).1 rfl
        rcases hchoice : s.choice? s.rules.enabled st'.decisions with _ | c
        · rw [hchoice] at hd
          exact ⟨st', hreached, SearchResult.satisfied.inj hd, hall⟩
        · rw [hchoice] at hd
          dsimp only at hd
          have hpresent := hsteady'.toStanding.admits_present
          have hc := (Search.covers_of_choice? hK hpresent hchoice).admitted
          rcases hst : st'.choose c with _ | st''
          · rw [hst] at hd
            exact absurd hd (by simp)
          · rw [hst] at hd
            exact Reached.rounds hK (hreached.choose hall hc hst) hd

end SearchState

end DepSolver
