import DepSolver.Proofs.Search.Choice

/-!
# The search is sound and complete

A search starts in a valid state, each round leaves it valid, and a round that ends it has an
answer: all rules in force are satisfied by leaving out what is undecided, or no assignment
satisfies them. Only when the rounds run out does the question stay open.
-/

namespace DepSolver

/-- The decisions that a search ends with. -/
structure Solves (s : Search) (K : Literal → Prop) (d : Decisions) : Prop where
  coherent : d.Coherent
  known : ∀ q ∈ d.queue.toList, K q.1
  models : d.presence.Models s.rules.enabled
  installed : ∀ id ∈ s.world.installedIds, d.isDecided id = true

/-- Whether the answer of a search is right. -/
def SearchResult.Correct (s : Search) (K : Literal → Prop) : SearchResult → Prop
  | satisfied d => Solves s K d
  | unsatisfiable => ¬Satisfiable s.rules.enabled
  | exhausted => True

variable {s : Search} {K : Literal → Prop}

/-- What is present is among the literals that the search never leaves. -/
theorem Standing.admits_present {d : Decisions} {g : WatchGraph} {bs : List Branch}
    (h : Standing s K d g bs) : ∀ id ∈ d.present, K id := by
  intro id hid
  obtain ⟨reason, hmem⟩ := h.coherent.mem_queue_of_mem_present hid
  exact h.known _ hmem

theorem Solves.admits_present {d : Decisions} (h : Solves s K d) : ∀ id ∈ d.present, K id := by
  intro id hid
  obtain ⟨reason, hmem⟩ := h.coherent.mem_queue_of_mem_present hid
  exact h.known _ hmem

namespace Search

/-- Rounds are one round and those that follow it. -/
theorem rounds_succ (s : Search) (enabled : List Rule) (room left : Nat) (st : SearchState) :
    s.rounds enabled room (left + 1) st =
      match st.propagate s.rules room with
      | (false, st) =>
        match st.backtrack with
        | some st => s.rounds enabled room left st
        | none => .unsatisfiable
      | (true, st) =>
        match s.choice? enabled st.decisions with
        | none => .satisfied st.decisions
        | some c =>
          match st.choose c with
          | some st => s.rounds enabled room left st
          | none => .unsatisfiable := by
  rw [rounds, round]
  rcases st.propagate s.rules room with ⟨_ | _, st'⟩
  · dsimp only
    cases st'.backtrack <;> rfl
  · dsimp only
    cases s.choice? enabled st'.decisions with
    | none => rfl
    | some c =>
        dsimp only
        cases st'.choose c <;> rfl

end Search

namespace SearchState

variable {st : SearchState}

/-- Once everything is propagated, every rule in force has a true literal, or two that are not
false. -/
theorem Steady.satisfied_or_undecided (h : st.Steady s K) (hK : s.Admits K)
    (hall : st.propagated = st.decisions.queue.toList.length) {r : Rule}
    (hr : r ∈ s.rules.enabled) : (∃ x ∈ r.literals, st.decisions.satisfies x = true) ∨
      ∃ x ∈ r.literals, ∃ y ∈ r.literals, x ≠ y ∧
        ¬st.decisions.refutes x = true ∧ ¬st.decisions.refutes y = true := by
  rcases hlits : r.literals with _ | ⟨l, _ | ⟨l', ls⟩⟩
  · exact absurd hlits (h.nonempty r hr)
  · exact .inl ⟨l, List.mem_singleton_self l, (h.asserted r hr l hlits).1⟩
  · obtain ⟨x, y, hw⟩ := h.tracks.total hr (by rw [hlits]; simp)
    obtain ⟨t, ht, hid, hne, hx, hy⟩ := h.tracks.pair hw
    obtain rfl : t = r := RuleSet.eq_of_id (RuleSet.mem_enabled_iff.mp ht).1
      (RuleSet.mem_enabled_iff.mp hr).1 hid
    rw [← hlits]
    have hsettled : ∀ {z : Literal}, z ∈ t.literals → st.decisions.refutes z = true →
        st.decisions.Settled st.propagated z := fun hz hfalse =>
      h.settled_of_propagated hall (hK.ne_zero hr hz) hfalse
    -- one watched literal is false, so its partner is true
    by_cases hfx : st.decisions.refutes x = true
    · exact .inl ⟨y, hy, (h.guards hw (hsettled hx hfx)).1⟩
    · by_cases hfy : st.decisions.refutes y = true
      · exact .inl ⟨x, hx, (h.guards hw.symm (hsettled hy hfy)).1⟩
      · exact .inr ⟨x, hx, y, hy, hne, hfx, hfy⟩

/-- Once everything is propagated no rule in force has only false literals. -/
theorem Steady.not_violated (h : st.Steady s K) (hK : s.Admits K)
    (hall : st.propagated = st.decisions.queue.toList.length) {r : Rule}
    (hr : r ∈ s.rules.enabled) : ¬∀ l ∈ r.literals, st.decisions.refutes l = true := by
  intro hfalse
  rcases h.satisfied_or_undecided hK hall hr with ⟨x, hx, htrue⟩ | ⟨x, hx, -, -, -, hopen, -⟩
  · exact Decisions.not_refutes_of_satisfies htrue (hfalse x hx)
  · exact hopen (hfalse x hx)

/-- A valid state in which everything is propagated and nothing is left to choose. -/
theorem Valid.solves (h : st.Valid s K) (hK : s.Admits K)
    (hall : st.propagated = st.decisions.queue.toList.length)
    (hnone : s.choice? s.rules.enabled st.decisions = none) : Solves s K st.decisions := by
  obtain ⟨hrules, hinstalled⟩ := Search.choice?_eq_none hnone
  refine ⟨h.coherent, h.known, fun r hr => ?_, hinstalled⟩
  have h0 : ∀ l ∈ r.literals, l ≠ 0 := fun l hl => hK.ne_zero hr hl
  rcases Search.isMet_or_of_ruleChoice? h0 (hrules r hr) with hmet | hfalse
  · exact hmet.satisfies h0
  · exact absurd hfalse (h.steady.not_violated hK hall hr)

/-- Every round leaves the search valid, or ends it with a right answer. -/
theorem Valid.rounds (hK : s.Admits K) : ∀ {left : Nat} {st : SearchState}, st.Valid s K →
    (s.rounds s.rules.enabled s.room left st).Correct s K
  | 0, _, _ => trivial
  | left + 1, st, h => by
      rw [Search.rounds_succ]
      have hsteps : s.packages.length < s.room + st.propagated := by
        have := s.length_packages
        omega
      rcases h.propagate hK hsteps with ⟨st', hp, h', hall, -⟩ | ⟨st', hp, h', -⟩
      · rw [hp]
        dsimp only
        rcases hchoice : s.choice? s.rules.enabled st'.decisions with _ | c
        · exact h'.solves hK hall hchoice
        · have hc := Search.covers_of_choice? hK h'.toStanding.admits_present hchoice
          dsimp only
          rcases h'.choose hK hall hc with ⟨st'', hst, h''⟩ | ⟨hst, hunsat⟩
          · rw [hst]
            exact Valid.rounds hK h''
          · rw [hst]
            exact hunsat
      · rw [hp]
        dsimp only
        unfold SearchState.backtrack
        rcases h'.resume hK with ⟨st'', hst, h''⟩ | ⟨hst, hunsat⟩
        · rw [hst]
          exact Valid.rounds hK h''
        · rw [hst]
          exact hunsat

end SearchState

namespace Search

theorem signedLevel_start (s : Search) (l : Literal) : s.start.signedLevel l = 0 :=
  Decisions.signedLevel_withCapacity ..

@[simp] theorem queue_start (s : Search) : s.start.queue.toList = [] := rfl

theorem agrees_start (s : Search) (α : Assignment) : s.start.Agrees α := by
  intro l _ hs
  rw [Decisions.satisfies_iff, signedLevel_start] at hs
  exact absurd rfl hs.1

theorem admitted_of_mem_assertedRow (hK : s.Admits K) {l : Literal} {reason : Reason}
    (hmem : (l, reason) ∈ assertedRow s.rules.enabled) : K l := by
  obtain ⟨r, hr, hl, -⟩ := mem_assertedRow.mp hmem
  exact hK.rules hr (hl ▸ List.mem_singleton_self l)

/-- The literal of a rule that has no other holds in every model. -/
theorem holds_of_mem_assertedRow {α : Assignment} (hα : α.Models s.rules.enabled) {l : Literal}
    {reason : Reason} (hmem : (l, reason) ∈ assertedRow s.rules.enabled) : α.holds l = true := by
  obtain ⟨r, hr, hl, -⟩ := mem_assertedRow.mp hmem
  obtain ⟨x, hx, hholds⟩ := Assignment.satisfies_iff.mp (hα r hr)
  rw [hl, List.mem_singleton] at hx
  subst hx
  exact hholds

/-- Where the assertions can be decided, no rule is without literals. -/
theorem nonempty_of_decideAssertions? {rules : List Rule} {d e : Decisions}
    (hd : decideAssertions? rules d = some e) : ∀ r ∈ rules, r.literals ≠ [] := by
  intro r hr hnil
  rw [decideAssertions?_eq_none hr hnil] at hd
  exact absurd hd (by simp)

/-- A search starts steady. -/
theorem steady_of_decideAssertions? (hK : s.Admits K) {d : Decisions}
    (hd : decideAssertions? s.rules.enabled s.start = some d) :
    SearchState.Steady s K { decisions := d, graph := .ofRules s.rules } := by
  have hne := nonempty_of_decideAssertions? hd
  rw [decideAssertions?_eq _ _ hne] at hd
  obtain ⟨hext, htrue⟩ := Decisions.decideRow?_eq_some hd
  have hzero : ∀ l reason, (l, reason) ∈ assertedRow s.rules.enabled → l ≠ 0 := fun l _ h =>
    (hK.knows (admitted_of_mem_assertedRow hK h)).1
  have hstart : s.start.Coherent := (Decisions.coherent_withCapacity _).setLevel 1
  have hcoherent := hext.coherent hzero hstart
  have hlevel : ∀ l, (s.start.signedLevel l).natAbs ≤ s.start.level + 1 := fun l => by
    rw [signedLevel_start]
    exact Nat.zero_le _
  refine
    { coherent := hcoherent
      known := fun q hq => ?_
      nonempty := hne
      asserted := fun r hr l hl => ?_
      tracks := WatchGraph.tracks_ofRules s.rules
      stacked := trivial
      alternatives := fun b hb => absurd hb (by simp)
      level_eq := hext.level
      level_le := hext.level_le hlevel
      propagated_le := Nat.zero_le _
      pending := hext.pending hcoherent (Nat.zero_le _) fun q hq => absurd hq (by simp)
      guards := fun id x y _ hx => ?_ }
  · obtain ⟨new, heq, hnew⟩ := hext.queue
    rw [heq, List.mem_append] at hq
    rcases hq with hq | hq
    · exact absurd hq (by simp)
    · exact admitted_of_mem_assertedRow hK (hnew q hq).1
  · have hmem : (l, Reason.unit r.id) ∈ assertedRow s.rules.enabled :=
      mem_assertedRow.mpr ⟨r, hr, hl, rfl⟩
    have hle := hext.level_le hlevel l
    rw [hext.level] at hle
    exact ⟨htrue _ hmem, hle⟩
  · obtain ⟨reason, hmem⟩ := hx
    exact absurd hmem (by simp)

/-- Rules of one literal hold in every model, so they may be decided at once. -/
theorem valid_of_decideAssertions? (hK : s.Admits K) {d : Decisions}
    (hd : decideAssertions? s.rules.enabled s.start = some d) :
    SearchState.Valid s K { decisions := d, graph := .ofRules s.rules } := by
  refine (steady_of_decideAssertions? hK hd).valid fun α hα => .inl ?_
  rw [decideAssertions?_eq _ _ (nonempty_of_decideAssertions? hd)] at hd
  refine (Decisions.decideRow?_eq_some hd).1.agrees (fun l reason hmem => ?_) (agrees_start s α)
  exact ⟨(hK.knows (admitted_of_mem_assertedRow hK hmem)).1, holds_of_mem_assertedRow hα hmem⟩

/-- A start that is refused has no model. -/
theorem not_satisfiable_of_decideAssertions? (hK : s.Admits K)
    (hd : decideAssertions? s.rules.enabled s.start = none) : ¬Satisfiable s.rules.enabled := by
  intro h
  obtain ⟨α, hα⟩ := h
  have hne : ∀ r ∈ s.rules.enabled, r.literals ≠ [] := by
    intro r hr hnil
    obtain ⟨l, hl, -⟩ := Assignment.satisfies_iff.mp (hα r hr)
    rw [hnil] at hl
    exact absurd hl (by simp)
  rw [decideAssertions?_eq _ _ hne] at hd
  refine Decisions.not_holds_of_decideRow?_eq_none hd (agrees_start s α) (fun q hq => ?_)
    fun q hq => holds_of_mem_assertedRow hα hq
  exact (hK.knows (admitted_of_mem_assertedRow hK hq)).1

/-- **Every answer of a search is right.** -/
theorem run_correct (hK : s.Admits K) : s.run.Correct s K := by
  unfold run
  rcases hd : decideAssertions? s.rules.enabled s.start with _ | d
  · exact not_satisfiable_of_decideAssertions? hK hd
  · exact (valid_of_decideAssertions? hK hd).rounds hK

/--
**The search is sound and complete.**

If it finds decisions, all installed packages are decided, and installing exactly what is decided to
be present satisfies every rule in force. If it finds none, nothing satisfies all of them. This
needs nothing of the rules but that none of them speaks of package 0.
-/
theorem run_sound_complete (s : Search) (h0 : ∀ r ∈ s.rules.toList, ∀ l ∈ r.literals, l ≠ 0) :
    (∀ d, s.run = .satisfied d →
      (∀ id, s.world.isInstalled id = true → d.isDecided id = true) ∧
        ∀ r ∈ s.rules.enabled, d.presence.satisfies r = true) ∧
      (s.run = .unsatisfiable →
        ¬∃ α : Assignment, ∀ r ∈ s.rules.enabled, α.satisfies r = true) := by
  have hK := admits_knows fun r hr => h0 r (RuleSet.mem_enabled_iff.mp hr).1
  have hcorrect := run_correct hK
  refine ⟨?_, ?_⟩
  · intro d hd
    rw [hd] at hcorrect
    exact ⟨fun id hid => hcorrect.installed id (Universe.mem_installedIds.mpr hid),
      hcorrect.models⟩
  · intro hunsat
    rw [hunsat] at hcorrect
    exact hcorrect

/-- One of two packages is wanted, and the preferred one is ruled out. -/
def oneOfTwo : Search where
  world := .empty
  flags := {}
  rules := .ofList [.make .job [1, 2], .make .job [-1]]

theorem run_oneOfTwo : ∃ d, oneOfTwo.run = .satisfied d ∧
    ∀ r ∈ oneOfTwo.rules.enabled, d.presence.satisfies r = true := by
  have hrun : oneOfTwo.run.isSatisfied = true := by decide +kernel
  rcases hd : oneOfTwo.run with d | _ | _
  · exact ⟨d, rfl, ((run_sound_complete oneOfTwo (by decide +kernel)).1 d hd).2⟩
  · rw [hd] at hrun
    exact absurd hrun (by decide)
  · rw [hd] at hrun
    exact absurd hrun (by decide)

end Search

end DepSolver
