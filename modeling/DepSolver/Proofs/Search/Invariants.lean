import DepSolver.Proofs.Search.Correctness

/-!
# What a search maintains

A search changes its decisions, and the choices behind them, in five ways. It decides what rules
force; it opens a choice at a new level; it decides the literals of an alternative; on a conflict it
goes back below the latest choice, or gives that choice up. A property that all five keep is one of
every state that the search goes through, and so of its answer. The property may count the choices
that were opened, of which there is at most one in a round.
-/

namespace DepSolver

open SearchState

namespace Search

variable {s : Search} {I : Nat → Decisions → List Branch → Prop}

/-- Whether a search keeps a property of the number of choices opened, of its decisions and of the
choices that stand. -/
structure Maintains (s : Search) (I : Nat → Decisions → List Branch → Prop) : Prop where
  forced : ∀ {n : Nat} {d e : Decisions} {bs : List Branch}, I n d bs →
    d.Extends (fun _ reason => ∃ rule, reason = .unit rule) e → I n e bs
  opened : ∀ {n : Nat} {d : Decisions} {bs : List Branch} {c : Choice}, I n d bs →
    s.choice? s.rules.enabled d = some c →
    I (n + 1) d.incrementLevel
      ({ level := d.level + 1, alternatives := c.others, reason := c.reason } :: bs)
  decided : ∀ {n : Nat} {d e : Decisions} {b : Branch} {outer : List Branch}, I n d (b :: outer) →
    d.Extends (fun _ reason => reason = b.reason) e → I n e (b :: outer)
  wentBelow : ∀ {n : Nat} {d : Decisions} {b : Branch} {outer : List Branch},
    I n d (b :: outer) → ∀ rows, I n (below d b) ({ b with alternatives := rows } :: outer)
  gaveUp : ∀ {n : Nat} {d : Decisions} {b : Branch} {outer : List Branch},
    I n d (b :: outer) → I n d outer

theorem Maintains.decideAll? (h : s.Maintains I) {n : Nat} {d e : Decisions} {b : Branch}
    {outer : List Branch} {row : List Literal} (hI : I n d (b :: outer))
    (he : d.decideAll? b.reason row = some e) : I n e (b :: outer) := by
  rw [Decisions.decideAll?_eq] at he
  refine h.decided hI ((Decisions.decideRow?_eq_some he).1.mono ?_)
  intro l reason hmem
  obtain ⟨x, -, heq⟩ := List.mem_map.mp hmem
  exact (Prod.mk.inj heq).2.symm

theorem Maintains.propagate (h : s.Maintains I) {n : Nat} {ok : Bool} {st' : SearchState} :
    ∀ {steps : Nat} {st : SearchState}, I n st.decisions st.branches →
      st.propagate s.rules steps = (ok, st') → I n st'.decisions st'.branches := by
  intro steps
  induction steps with
  | zero =>
    intro st hI hst
    obtain ⟨-, rfl⟩ := Prod.mk.inj hst
    exact hI
  | succ steps ih =>
    intro st hI hst
    rw [SearchState.propagate] at hst
    split at hst
    · obtain ⟨-, rfl⟩ := Prod.mk.inj hst
      exact hI
    · dsimp only at hst
      split at hst
      · -- a rule is violated, and nothing is decided
        obtain ⟨-, rfl⟩ := Prod.mk.inj hst
        exact hI
      · split at hst
        · rename_i units _ decided hunits
          rw [decideUnits?_eq] at hunits
          refine ih ?_ hst
          refine h.forced hI ((Decisions.decideRow?_eq_some hunits).1.mono ?_)
          intro l reason hmem
          obtain ⟨u, -, heq⟩ := List.mem_map.mp hmem
          exact ⟨u.2, (Prod.mk.inj heq).2.symm⟩
        · obtain ⟨-, rfl⟩ := Prod.mk.inj hst
          exact hI

theorem Maintains.resume (h : s.Maintains I) {n : Nat} {st st' : SearchState} :
    ∀ {bs : List Branch}, I n st.decisions bs → st.resume bs = some st' →
      I n st'.decisions st'.branches := by
  intro bs
  induction bs with
  | nil =>
    intro _ hst
    exact absurd hst (by simp [SearchState.resume])
  | cons b outer ih =>
    intro hI hst
    rw [SearchState.resume] at hst
    split at hst
    · rename_i decided rest htaken
      obtain rfl := Option.some.inj hst
      obtain ⟨-, row, -, -, hrow⟩ := tryAlternatives_eq_some htaken
      exact h.decideAll? (h.wentBelow hI rest) hrow
    · -- no alternative is left, so an earlier choice is tried
      exact ih (h.gaveUp hI) hst

theorem Maintains.choose (h : s.Maintains I) {n : Nat} {st st' : SearchState} {c : Choice}
    (hI : I n st.decisions st.branches) (hc : s.choice? s.rules.enabled st.decisions = some c)
    (hst : st.choose c = some st') : I (n + 1) st'.decisions st'.branches := by
  have hopened := h.opened hI hc
  unfold SearchState.choose at hst
  dsimp only at hst
  split at hst
  · rename_i decided hdecided
    obtain rfl := Option.some.inj hst
    exact h.decideAll? hopened hdecided
  · -- even the first alternative is refused
    exact h.resume hopened hst

/-- A round that ends a search with an answer comes to it by propagating. -/
theorem decisions_of_round_satisfied (s : Search) {enabled : List Rule} {room : Nat}
    {st : SearchState} {d : Decisions}
    (h : (s.round enabled room st).next = .inl (.satisfied d)) :
    (st.propagate s.rules room).2.decisions = d := by
  unfold Search.round at h
  split at h
  · split at h <;> exact absurd h (by simp)
  · rename_i hpropagate
    split at h
    · rw [hpropagate]
      exact SearchResult.satisfied.inj (Sum.inl.inj h)
    · split at h <;> exact absurd h (by simp)

/-- A round keeps what holds before it, with at most one more choice. -/
theorem Maintains.round (h : s.Maintains I) {n : Nat} {st st' : SearchState}
    (hI : I n st.decisions st.branches)
    (hst : (s.round s.rules.enabled s.room st).next = .inr st') :
    ∃ m, m ≤ n + 1 ∧ I m st'.decisions st'.branches := by
  unfold Search.round at hst
  split at hst
  · -- a conflict
    rename_i hpropagate
    split at hst
    · rename_i back hback
      obtain rfl := Sum.inr.inj hst
      exact ⟨n, Nat.le_succ n, h.resume (h.propagate hI hpropagate) hback⟩
    · exact absurd hst (by simp)
  · -- all is propagated: the search ends or makes a choice
    rename_i hpropagate
    split at hst
    · exact absurd hst (by simp)
    · rename_i c hchoice
      split at hst
      · rename_i chosen hchoose
        obtain rfl := Sum.inr.inj hst
        exact ⟨n + 1, Nat.le_refl _, h.choose (h.propagate hI hpropagate) hchoice hchoose⟩
      · exact absurd hst (by simp)

/-! ## The states that a search passes -/

/-- **The states that a search passes**, each with the number of rounds before it: its start, and
what a round leaves to the next. -/
inductive Passes (s : Search) : Nat → SearchState → Prop where
  | start {d : Decisions} : decideAssertions? s.rules.enabled s.start = some d →
      s.Passes 0 { decisions := d, graph := .ofRules s.rules }
  | round {n : Nat} {st st' : SearchState} : s.Passes n st →
      (s.round s.rules.enabled s.room st).next = .inr st' → s.Passes (n + 1) st'

/-- What holds at the start of a search holds of every state that it passes, -/
theorem Maintains.passes (h : s.Maintains I) (hI : I 0 s.start []) {n : Nat} {st : SearchState}
    (hst : s.Passes n st) : ∃ m, m ≤ n ∧ I m st.decisions st.branches := by
  induction hst with
  | start hassertions =>
    -- the assertions are decided as if they had been forced
    have hne := nonempty_of_decideAssertions? hassertions
    rw [decideAssertions?_eq _ _ hne] at hassertions
    refine ⟨0, Nat.le_refl 0, h.forced hI ?_⟩
    refine (Decisions.decideRow?_eq_some hassertions).1.mono fun l reason hmem => ?_
    obtain ⟨r, -, -, hreason⟩ := mem_assertedRow.mp hmem
    exact ⟨r.id, hreason⟩
  | round _ hnext ih =>
    obtain ⟨m, hm, hI'⟩ := ih
    obtain ⟨m', hm', hI''⟩ := h.round hI' hnext
    exact ⟨m', by omega, hI''⟩

/-- and wherever it comes to by propagating in one of them. -/
theorem Maintains.propagates (h : s.Maintains I) (hI : I 0 s.start []) {n : Nat} {st : SearchState}
    (hst : s.Passes n st) (steps : Nat) :
    ∃ m, m ≤ n ∧ I m (st.propagate s.rules steps).2.decisions
      (st.propagate s.rules steps).2.branches := by
  obtain ⟨m, hm, hI'⟩ := h.passes hI hst
  exact ⟨m, hm, h.propagate hI' (Prod.eta _).symm⟩

/-- Rounds that have an answer come to it by propagating in a state that they pass. -/
theorem Passes.rounds {d : Decisions} {left : Nat} : ∀ {n : Nat} {st : SearchState},
    s.Passes n st → s.rounds s.rules.enabled s.room left st = .satisfied d →
      ∃ m st', m ≤ n + left ∧ s.Passes m st' ∧
        (st'.propagate s.rules s.room).2.decisions = d := by
  induction left with
  | zero =>
    intro n st _ hd
    exact absurd hd (by simp [Search.rounds])
  | succ left ih =>
    intro n st hst hd
    rw [Search.rounds] at hd
    split at hd
    · rename_i result hnext
      subst hd
      exact ⟨n, _, Nat.le_add_right .., hst, s.decisions_of_round_satisfied hnext⟩
    · rename_i st' hnext
      obtain ⟨m, st'', hm, hpassed, hd'⟩ := ih (hst.round hnext) hd
      exact ⟨m, st'', by omega, hpassed, hd'⟩

/-- A search comes to its answer by propagating in a state that it passes. -/
theorem passes_of_run {d : Decisions} (hd : s.run = .satisfied d) :
    ∃ n st, n ≤ maxRounds ∧ s.Passes n st ∧ (st.propagate s.rules s.room).2.decisions = d := by
  unfold Search.run at hd
  split at hd
  · exact absurd hd (by simp)
  · rename_i hassertions
    obtain ⟨n, st, hn, hst, hd'⟩ := (Passes.start hassertions).rounds hd
    exact ⟨n, st, by omega, hst, hd'⟩

/-- **What holds at the start of a search holds of its answer.** -/
theorem Maintains.run (h : s.Maintains I) (hI : I 0 s.start []) {d : Decisions}
    (hd : s.run = .satisfied d) : ∃ n bs, n ≤ maxRounds ∧ I n d bs := by
  obtain ⟨n, st, hn, hst, rfl⟩ := passes_of_run hd
  obtain ⟨m, hm, hI'⟩ := h.propagates hI hst s.room
  exact ⟨m, _, hm.trans hn, hI'⟩

end Search

end DepSolver
