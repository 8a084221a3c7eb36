import DepSolver.Proofs.Search.Propagation

/-!
# Choices and going back keep a search valid

A choice that covers every model leaves the search valid, or comes to a conflict at once. Going back
takes the latest alternative that is not refused: it is valid to go on from there, since whatever
was decided below the branch had been propagated, and the alternatives passed over agree with no
model. If no branch has an alternative left there is no model at all.

That the watches stay in order needs less: any alternative that is not refused will do, and any
choice once everything is propagated.
-/

namespace DepSolver

namespace SearchState

/-! ## Rows of alternatives -/

/-- The alternative taken is the first that is not refused. -/
theorem tryAlternatives_eq_some {d e : Decisions} {reason : Reason} :
    ∀ {rows rest : List (List Literal)}, tryAlternatives d reason rows = some (e, rest) →
      ∃ refused row, rows = refused ++ row :: rest ∧
        (∀ r ∈ refused, d.decideAll? reason r = none) ∧ d.decideAll? reason row = some e
  | [], rest, h => absurd h (by simp [tryAlternatives])
  | row :: rows, rest, h => by
      rw [tryAlternatives] at h
      rcases hrow : d.decideAll? reason row with _ | e'
      · rw [hrow] at h
        obtain ⟨refused, taken, heq, hrefused, htaken⟩ := tryAlternatives_eq_some h
        refine ⟨row :: refused, taken, by rw [heq]; rfl, fun r hr => ?_, htaken⟩
        rcases List.mem_cons.mp hr with rfl | hr
        · exact hrow
        · exact hrefused r hr
      · rw [hrow] at h
        obtain ⟨rfl, rfl⟩ := Prod.mk.inj (Option.some.inj h)
        exact ⟨[], row, rfl, fun r hr => absurd hr (by simp), hrow⟩

theorem decideAll?_eq_none_of_tryAlternatives {d : Decisions} {reason : Reason} :
    ∀ {rows : List (List Literal)}, tryAlternatives d reason rows = none →
      ∀ row ∈ rows, d.decideAll? reason row = none
  | [], _, row, hrow => absurd hrow (by simp)
  | first :: rows, h, row, hrow => by
      rw [tryAlternatives] at h
      rcases hfirst : d.decideAll? reason first with _ | e
      · rw [hfirst] at h
        rcases List.mem_cons.mp hrow with rfl | hrow
        · exact hfirst
        · exact decideAll?_eq_none_of_tryAlternatives h row hrow
      · rw [hfirst] at h
        exact absurd h (by simp)

/-- A row that goes through extends the decisions by its literals. -/
theorem extends_of_decideAll? {d e : Decisions} {reason : Reason} {row : List Literal}
    (h : d.decideAll? reason row = some e) : d.Extends (fun l _ => l ∈ row) e := by
  rw [Decisions.decideAll?_eq] at h
  refine (Decisions.decideRow?_eq_some h).1.mono fun l r hmem => ?_
  obtain ⟨x, hx, heq⟩ := List.mem_map.mp hmem
  rw [← (Prod.mk.inj heq).1]
  exact hx

/-- A refused row is followed by no assignment that agrees. -/
theorem not_follows_of_refused {d : Decisions} {reason : Reason} {row : List Literal}
    (h : d.decideAll? reason row = none) (h0 : ∀ l ∈ row, l ≠ 0) {α : Assignment}
    (hα : d.Agrees α) : ¬∀ l ∈ row, α.holds l = true := by
  intro hall
  rw [Decisions.decideAll?_eq] at h
  refine Decisions.not_holds_of_decideRow?_eq_none h hα (fun q hq => ?_) fun q hq => ?_ <;>
    obtain ⟨x, hx, rfl⟩ := List.mem_map.mp hq
  · exact h0 x hx
  · exact hall x hx

/-! ## Going back -/

theorem signedLevel_below {d : Decisions} {b : Branch} (hb : 1 ≤ b.level) (l : Literal) :
    (below d b).signedLevel l =
      if b.level < (d.signedLevel l).natAbs then 0 else d.signedLevel l := by
  unfold below
  rw [Decisions.signedLevel_setLevel, Decisions.signedLevel_revert, Nat.sub_add_cancel hb]

theorem satisfies_below {d : Decisions} {b : Branch} (hb : 1 ≤ b.level) {l : Literal} :
    (below d b).satisfies l = true ↔
      d.satisfies l = true ∧ (d.signedLevel l).natAbs ≤ b.level := by
  unfold below
  rw [Decisions.satisfies_setLevel, Decisions.satisfies_revert, Nat.sub_add_cancel hb]

/-- What is true below a branch was true before, at the same level. -/
theorem signedLevel_below_of_satisfies {d : Decisions} {b : Branch} (hb : 1 ≤ b.level) {l : Literal}
    (h : (below d b).satisfies l = true) : (below d b).signedLevel l = d.signedLevel l := by
  rw [signedLevel_below hb, if_neg (Nat.not_lt.mpr ((satisfies_below hb).mp h).2)]

end SearchState

open SearchState

namespace Standing

variable {s : Search} {K : Literal → Prop} {d : Decisions} {g : WatchGraph} {b : Branch}
  {outer : List Branch}

theorem below (h : Standing s K d g (b :: outer)) :
    Standing s K (SearchState.below d b) g (b :: outer) where
  coherent := (h.coherent.revert _).setLevel _
  known q hq := h.known q (Decisions.mem_queue_revert.mp hq).1
  nonempty := h.nonempty
  asserted := by
    intro r hr l hl
    obtain ⟨hs, hle⟩ := h.asserted r hr l hl
    have hb := (h.stacked.level (List.mem_cons_self ..)).1
    have hbelow := (satisfies_below (Nat.le_of_succ_le hb)).mpr ⟨hs, Nat.le_trans hle hb⟩
    rw [signedLevel_below_of_satisfies (Nat.le_of_succ_le hb) hbelow]
    exact ⟨hbelow, hle⟩
  tracks := h.tracks
  stacked := h.stacked
  alternatives := h.alternatives

/-- Only alternatives that were left may be left later. -/
theorem withAlternatives {rows : List (List Literal)} (h : Standing s K d g (b :: outer))
    (hsub : ∀ row ∈ rows, row ∈ b.alternatives) :
    Standing s K d g ({ b with alternatives := rows } :: outer) where
  coherent := h.coherent
  known := h.known
  nonempty := h.nonempty
  asserted := h.asserted
  tracks := h.tracks
  stacked := h.stacked
  alternatives := by
    intro c hc row hrow
    rcases List.mem_cons.mp hc with rfl | hc
    · exact h.alternatives b (List.mem_cons_self ..) row (hsub row hrow)
    · exact h.alternatives c (List.mem_cons_of_mem _ hc) row hrow

theorem dropBranch (h : Standing s K d g (b :: outer)) : Standing s K d g outer where
  coherent := h.coherent
  known := h.known
  nonempty := h.nonempty
  asserted := h.asserted
  tracks := h.tracks
  stacked := h.stacked.2
  alternatives c hc := h.alternatives c (List.mem_cons_of_mem _ hc)

end Standing

namespace SearchState

variable {s : Search} {K : Literal → Prop} {st : SearchState} {b : Branch} {outer : List Branch}

theorem Halted.one_le_level (h : st.Halted s K (b :: outer)) : 1 ≤ b.level := by
  obtain ⟨hb, -⟩ := h.stacked.level (List.mem_cons_self ..)
  exact Nat.le_of_succ_le hb

theorem Halted.branch_le (h : st.Halted s K (b :: outer)) :
    b.level ≤ st.decisions.level := by
  have hle := h.level_le
  rw [List.length_cons] at hle
  rw [h.stacked.1]
  exact hle

/-- What is false below a branch is guarded there. -/
theorem Halted.guards_below (h : st.Halted s K (b :: outer)) (hK : s.Admits K) :
    st.graph.Guards (below st.decisions b) fun x => (below st.decisions b).refutes x = true := by
  have hb := h.one_le_level
  intro id x y hw hr
  obtain ⟨rule, hrule, -, -, hxr, -⟩ := h.tracks.pair hw
  have hx0 := hK.ne_zero hrule hxr
  rw [Decisions.refutes_iff_satisfies_neg hx0] at hr
  have hlevel := signedLevel_below_of_satisfies hb hr
  obtain ⟨hr, hle⟩ := (satisfies_below hb).mp hr
  rw [Decisions.signedLevel_neg] at hle
  rw [Decisions.signedLevel_neg, Decisions.signedLevel_neg] at hlevel
  -- the guard was decided no later, so going back spares it too
  obtain ⟨hy, hyle⟩ := h.guards hw
    ⟨(Decisions.refutes_iff_satisfies_neg hx0).mpr hr, Nat.le_trans hle h.branch_le⟩
  have hybelow := (satisfies_below hb).mpr ⟨hy, Nat.le_trans hyle hle⟩
  rw [signedLevel_below_of_satisfies hb hybelow, hlevel]
  exact ⟨hybelow, hyle⟩

section

variable {refused rest : List (List Literal)} {row : List Literal} {e : Decisions}

/-- What was open in an outer branch stays open. -/
theorem Resumable.open_take (h : st.Resumable s K (b :: outer))
    (he : (below st.decisions b).decideAll? b.reason row = some e) {α : Assignment}
    (hopen : Open st.decisions outer α) : Open e outer α := by
  refine hopen.congr fun c hc l hl => ?_
  have hlt : c.level - 1 < b.level := by
    have hle := (h.stacked.2.level hc).2
    have hlevel := h.stacked.1
    omega
  have hs := ((extends_of_decideAll? he).satisfies_revert_iff hlt).mp hl
  rw [Decisions.satisfies_revert] at hs ⊢
  rw [signedLevel_below_of_satisfies h.halted.one_le_level hs.1] at hs
  exact ⟨((satisfies_below h.halted.one_le_level).mp hs.1).1, hs.2⟩

/-- Taking an alternative loses no model if those passed over are refused. -/
theorem Resumable.covered_take (h : st.Resumable s K (b :: outer)) (hK : s.Admits K)
    (hrows : b.alternatives = refused ++ row :: rest)
    (hrefused : ∀ r ∈ refused, (below st.decisions b).decideAll? b.reason r = none)
    (he : (below st.decisions b).decideAll? b.reason row = some e) {α : Assignment}
    (hα : α.Models s.rules.enabled) :
    e.Agrees α ∨ Open e ({ b with alternatives := rest } :: outer) α := by
  have hext := extends_of_decideAll? he
  have hne : ∀ r ∈ b.alternatives, ∀ l ∈ r, l ≠ 0 := fun r hr l hl =>
    (hK.knows (h.alternatives b (List.mem_cons_self ..) r hr l hl)).1
  rw [hrows] at hne
  obtain ⟨c, hc, hagree, r, hr, hholds⟩ := h.covered α hα
  rcases List.mem_cons.mp hc with rfl | hc
  · have hbelow : (below st.decisions c).Agrees α := hagree
    rw [hrows, List.mem_append, List.mem_cons] at hr
    -- the model follows one that was refused, the one that is taken, or one that is left
    rcases hr with hr | rfl | hr
    · have hzero := hne r (List.mem_append_left _ hr)
      exact absurd hholds (not_follows_of_refused (hrefused r hr) hzero hbelow)
    · have hzero := hne r (List.mem_append_right _ (List.mem_cons_self ..))
      exact .inl (hext.agrees (fun l _ hl => ⟨hzero l hl, hholds l hl⟩) hbelow)
    · refine .inr ⟨{ c with alternatives := rest }, List.mem_cons_self .., fun l h0 hl => ?_, r, hr,
        hholds⟩
      have hs := (hext.satisfies_revert_iff (Nat.sub_lt h.halted.one_le_level Nat.one_pos)).mp hl
      exact hbelow l h0 (Decisions.satisfies_revert.mp hs).1
  · obtain ⟨x, hx, hrest⟩ := h.open_take he ⟨c, hc, hagree, r, hr, hholds⟩
    exact .inr ⟨x, List.mem_cons_of_mem _ hx, hrest⟩

/-- Taking an alternative of the latest branch gives a steady state. -/
theorem Halted.take (h : st.Halted s K (b :: outer)) (hK : s.Admits K)
    (hrows : b.alternatives = refused ++ row :: rest)
    (he : (below st.decisions b).decideAll? b.reason row = some e) :
    Steady s K
      { st with
        decisions := e
        branches := { b with alternatives := rest } :: outer
        propagated := (below st.decisions b).size } := by
  have hmem : ∀ r ∈ row :: rest, r ∈ b.alternatives := fun r hr => by
    rw [hrows]
    exact List.mem_append_right _ hr
  have hadmitted := h.alternatives b (List.mem_cons_self ..) row (hmem row (List.mem_cons_self ..))
  have hext := extends_of_decideAll? he
  have hstand : Standing s K e st.graph ({ b with alternatives := rest } :: outer) :=
    (h.toStanding.below.withAlternatives fun r hr => hmem r (List.mem_cons_of_mem _ hr)).extends hK
      hext fun l _ hl => hadmitted l hl
  have hsize : (below st.decisions b).size = (below st.decisions b).queue.toList.length :=
    Array.length_toList.symm
  have hrefutes : ∀ x, (below st.decisions b).Settled (below st.decisions b).size x →
      (below st.decisions b).refutes x = true := fun x hx =>
    h.toStanding.below.coherent.refutes_of_settled hx
  refine ⟨hstand, hext.level.trans h.stacked.1, hext.level_le fun l => ?_, ?_, ?_, ?_⟩
  · rw [signedLevel_below h.one_le_level]
    show _ ≤ b.level + 1
    split
    · exact Nat.zero_le _
    · rename_i hle
      exact Nat.le_succ_of_le (Nat.not_lt.mp hle)
  · show (below st.decisions b).size ≤ e.queue.toList.length
    rw [hsize]
    exact hext.length_queue_le
  · -- what is left to be propagated is the row that was just decided
    refine hext.pending hstand.coherent (Nat.le_of_eq hsize) fun q hq => ?_
    rw [hsize, List.drop_length] at hq
    exact absurd hq (by simp)
  · -- whatever is settled was false on a level below the branch, and so was guarded
    have hguards : st.graph.Guards (below st.decisions b) (e.Settled (below st.decisions b).size) :=
      fun id x y hw hx => h.guards_below hK hw
        (hrefutes x ((hext.settled_iff (Nat.le_of_eq hsize)).mp hx))
    exact hguards.extends hext fun x hx =>
      hrefutes x ((hext.settled_iff (Nat.le_of_eq hsize)).mp hx)

end

theorem Halted.drop (h : st.Halted s K (b :: outer)) : st.Halted s K outer where
  toStanding := h.toStanding.dropBranch
  level_le := Nat.le_of_succ_le h.level_le
  guards := h.guards

/-- **Going back** gives a steady state, if there is an alternative to go on with. -/
theorem Halted.resume (hK : s.Admits K) {st' : SearchState} : ∀ {bs : List Branch},
    st.Halted s K bs → st.resume bs = some st' → st'.Steady s K
  | [], _, hresume => absurd hresume (by simp [SearchState.resume])
  | b :: outer, h, hresume => by
      rw [SearchState.resume] at hresume
      rcases ht : tryAlternatives (below st.decisions b) b.reason b.alternatives with _ | ⟨e, rest⟩
      · rw [ht] at hresume
        exact Halted.resume hK h.drop hresume
      · rw [ht] at hresume
        obtain ⟨refused, row, hrows, -, hrow⟩ := tryAlternatives_eq_some ht
        rw [← Option.some.inj hresume]
        exact h.take hK hrows hrow

/-- A branch all of whose alternatives are refused has nothing open. -/
theorem Resumable.drop (h : st.Resumable s K (b :: outer)) (hK : s.Admits K)
    (hrefused : ∀ r ∈ b.alternatives, (below st.decisions b).decideAll? b.reason r = none) :
    st.Resumable s K outer := by
  refine h.halted.drop.resumable fun α hα => ?_
  obtain ⟨c, hc, hagree, r, hr, hholds⟩ := h.covered α hα
  rcases List.mem_cons.mp hc with rfl | hc
  · refine absurd hholds (not_follows_of_refused (hrefused r hr) (fun l hl => ?_) hagree)
    exact (hK.knows (h.alternatives c (List.mem_cons_self ..) r hr l hl)).1
  · exact ⟨c, hc, hagree, r, hr, hholds⟩

/-- **Going back** gives a valid state, or there is no model. -/
theorem Resumable.resume (hK : s.Admits K) : ∀ {bs : List Branch}, st.Resumable s K bs →
    (∃ st', st.resume bs = some st' ∧ st'.Valid s K) ∨
      (st.resume bs = none ∧ ¬Satisfiable s.rules.enabled)
  | [], h => by
      refine .inr ⟨rfl, fun ⟨α, hα⟩ => ?_⟩
      obtain ⟨b, hb, -⟩ := h.covered α hα
      exact absurd hb (by simp)
  | b :: outer, h => by
      unfold SearchState.resume
      dsimp only
      rcases ht : tryAlternatives (below st.decisions b) b.reason b.alternatives with _ | ⟨e, rest⟩
      · exact Resumable.resume hK (h.drop hK (decideAll?_eq_none_of_tryAlternatives ht))
      · obtain ⟨refused, row, hrows, hrefused, hrow⟩ := tryAlternatives_eq_some ht
        exact .inl ⟨_, rfl, (h.halted.take hK hrows hrow).valid fun α hα =>
          h.covered_take hK hrows hrefused hrow hα⟩

/-! ## Making a choice -/

/-- Whether a choice leaves out no model that agrees with the decisions. -/
structure Covers (s : Search) (K : Literal → Prop) (d : Decisions) (c : Choice) : Prop where
  admitted : ∀ row ∈ c.first :: c.others, ∀ l ∈ row, K l
  follows : ∀ α : Assignment, α.Models s.rules.enabled → d.Agrees α →
    ∃ row ∈ c.first :: c.others, ∀ l ∈ row, α.holds l = true

/-- The branch that a choice opens. -/
def branchOf (st : SearchState) (c : Choice) : Branch :=
  { level := st.decisions.level + 1, alternatives := c.others, reason := c.reason }

theorem Steady.openBranch (h : st.Steady s K) {c : Choice}
    (hc : ∀ row ∈ c.first :: c.others, ∀ l ∈ row, K l) :
    Standing s K st.decisions.incrementLevel st.graph (branchOf st c :: st.branches) where
  coherent := h.coherent.incrementLevel
  known := h.known
  nonempty := h.nonempty
  asserted := h.asserted
  tracks := h.tracks
  stacked := ⟨by rw [branchOf, h.level_eq], h.stacked⟩
  alternatives := by
    intro b hb row hrow
    rcases List.mem_cons.mp hb with rfl | hb
    · exact hc row (List.mem_cons_of_mem _ hrow)
    · exact h.alternatives b hb row hrow

/-- A choice whose first alternative is refused is a conflict. -/
theorem Steady.halt_of_refused (h : st.Steady s K) (hK : s.Admits K)
    (hall : st.propagated = st.decisions.queue.toList.length) {c : Choice}
    (hc : ∀ row ∈ c.first :: c.others, ∀ l ∈ row, K l) :
    Halted s K
      { st with
        decisions := st.decisions.incrementLevel
        branches := branchOf st c :: st.branches }
      (branchOf st c :: st.branches) := by
  refine ⟨h.openBranch hc, ?_, fun id x y hw hx => ?_⟩
  · exact Nat.le_of_eq (congrArg (· + 1) h.level_eq.symm)
  · -- everything was propagated, so what is false is settled
    obtain ⟨r, hr, -, -, hxr, -⟩ := h.tracks.pair hw
    exact h.guards hw (h.settled_of_propagated hall (hK.ne_zero hr hxr) hx.1)

/-- Taking the first alternative of a choice gives a steady state. -/
theorem Steady.takeFirst (h : st.Steady s K) (hK : s.Admits K)
    (hall : st.propagated = st.decisions.queue.toList.length) {c : Choice}
    (hc : ∀ row ∈ c.first :: c.others, ∀ l ∈ row, K l) {e : Decisions}
    (he : st.decisions.incrementLevel.decideAll? c.reason c.first = some e) :
    Steady s K { st with decisions := e, branches := branchOf st c :: st.branches } := by
  have hext := extends_of_decideAll? he
  have hadmitted : ∀ l (_ : Reason), l ∈ c.first → K l :=
    fun l _ hl => hc _ (List.mem_cons_self ..) l hl
  have hstand := (h.openBranch hc).extends hK hext hadmitted
  have hle : st.propagated ≤ st.decisions.incrementLevel.queue.toList.length :=
    h.propagated_le
  refine ⟨hstand, ?_, hext.level_le fun l => ?_, ?_, ?_, ?_⟩
  · exact hext.level.trans (congrArg (· + 1) h.level_eq)
  · exact Nat.le_succ_of_le (h.level_le l)
  · exact Nat.le_trans hle hext.length_queue_le
  · -- nothing was left to be propagated when the branch was opened
    refine hext.pending hstand.coherent hle fun q hq => ?_
    have hnil : st.decisions.incrementLevel.queue.toList.drop st.propagated = [] := by
      rw [hall]
      exact List.drop_length ..
    rw [hnil] at hq
    exact absurd hq (by simp)
  · have hg : st.graph.Guards st.decisions.incrementLevel
        (st.decisions.incrementLevel.Settled st.propagated) := h.guards
    intro id x y hw hx
    exact hg.extends hext (fun x hx => h.coherent.refutes_of_settled hx) hw
      ((hext.settled_iff hle).mp hx)

/-- **A choice**, whatever it decides, keeps a search steady. -/
theorem Steady.choose (h : st.Steady s K) (hK : s.Admits K)
    (hall : st.propagated = st.decisions.queue.toList.length) {c : Choice}
    (hc : ∀ row ∈ c.first :: c.others, ∀ l ∈ row, K l) {st' : SearchState}
    (hst : st.choose c = some st') : st'.Steady s K := by
  unfold SearchState.choose at hst
  dsimp only at hst
  rcases he : st.decisions.incrementLevel.decideAll? c.reason c.first with _ | e
  · rw [he] at hst
    exact Halted.resume hK (h.halt_of_refused hK hall hc) hst
  · rw [he] at hst
    rw [← Option.some.inj hst]
    exact h.takeFirst hK hall hc he

/-- What was open stays open, and so do the other alternatives of a choice. -/
theorem Valid.open_of_follows (h : st.Valid s K) {c : Choice} {d : Decisions} {α : Assignment}
    {P : Literal → Reason → Prop} (hext : st.decisions.incrementLevel.Extends P d)
    (hα : (st.decisions.Agrees α ∧ ∃ row ∈ c.others, ∀ l ∈ row, α.holds l = true) ∨
      Open st.decisions st.branches α) : Open d (branchOf st c :: st.branches) α := by
  have hback : ∀ {k : Nat} {l : Literal}, k ≤ st.decisions.level →
      (d.revert k).satisfies l = true → (st.decisions.revert k).satisfies l = true := by
    intro k l hk hl
    exact (hext.satisfies_revert_iff (Nat.lt_succ_of_le hk)).mp hl
  rcases hα with ⟨hagree, row, hrow, hholds⟩ | hopen
  · refine ⟨branchOf st c, List.mem_cons_self .., fun l h0 hl => ?_, row, hrow, hholds⟩
    exact hagree l h0 (Decisions.satisfies_revert.mp (hback (Nat.le_refl _) hl)).1
  · obtain ⟨b, hb, hrest⟩ := hopen.congr fun b hb l hl =>
      hback (Nat.le_of_lt (h.steady.branch_lt hb)) hl
    exact ⟨b, List.mem_cons_of_mem _ hb, hrest⟩

/-- A choice whose first alternative is refused loses no model. -/
theorem Valid.covered_of_refused (h : st.Valid s K) (hK : s.Admits K) {c : Choice}
    (hc : Covers s K st.decisions c)
    (hrefused : st.decisions.incrementLevel.decideAll? c.reason c.first = none) {α : Assignment}
    (hα : α.Models s.rules.enabled) :
    Open st.decisions.incrementLevel (branchOf st c :: st.branches) α := by
  refine h.open_of_follows (P := fun _ _ => False) .refl ?_
  rcases h.covered α hα with hagree | hopen
  · obtain ⟨row, hrow, hholds⟩ := hc.follows α hα hagree
    rcases List.mem_cons.mp hrow with rfl | hrow
    · refine absurd hholds (not_follows_of_refused hrefused (fun l hl => ?_) hagree)
      exact (hK.knows (hc.admitted _ (List.mem_cons_self ..) l hl)).1
    · exact .inl ⟨hagree, row, hrow, hholds⟩
  · exact .inr hopen

/-- Taking the first alternative of a choice loses no model. -/
theorem Valid.covered_takeFirst (h : st.Valid s K) (hK : s.Admits K) {c : Choice}
    (hc : Covers s K st.decisions c) {e : Decisions}
    (he : st.decisions.incrementLevel.decideAll? c.reason c.first = some e) {α : Assignment}
    (hα : α.Models s.rules.enabled) : e.Agrees α ∨ Open e (branchOf st c :: st.branches) α := by
  have hext := extends_of_decideAll? he
  rcases h.covered α hα with hagree | hopen
  · obtain ⟨row, hrow, hholds⟩ := hc.follows α hα hagree
    rcases List.mem_cons.mp hrow with rfl | hrow
    · -- the model follows the alternative that is taken
      refine .inl (hext.agrees (fun l r hl => ⟨?_, hholds l hl⟩) hagree)
      exact (hK.knows (hc.admitted _ (List.mem_cons_self ..) l hl)).1
    · exact .inr (h.open_of_follows hext (.inl ⟨hagree, row, hrow, hholds⟩))
  · exact .inr (h.open_of_follows hext (.inr hopen))

theorem Valid.takeFirst (h : st.Valid s K) (hK : s.Admits K)
    (hall : st.propagated = st.decisions.queue.toList.length) {c : Choice}
    (hc : Covers s K st.decisions c) {e : Decisions}
    (he : st.decisions.incrementLevel.decideAll? c.reason c.first = some e) :
    Valid s K { st with decisions := e, branches := branchOf st c :: st.branches } :=
  (h.steady.takeFirst hK hall hc.admitted he).valid fun _ hα => h.covered_takeFirst hK hc he hα

/-- **A choice that covers every model** gives a valid state, or there is no model. -/
theorem Valid.choose (h : st.Valid s K) (hK : s.Admits K)
    (hall : st.propagated = st.decisions.queue.toList.length) {c : Choice}
    (hc : Covers s K st.decisions c) :
    (∃ st', st.choose c = some st' ∧ st'.Valid s K) ∨
      (st.choose c = none ∧ ¬Satisfiable s.rules.enabled) := by
  unfold SearchState.choose
  dsimp only
  rcases he : st.decisions.incrementLevel.decideAll? c.reason c.first with _ | e
  · exact Resumable.resume hK ((h.steady.halt_of_refused hK hall hc.admitted).resumable
      fun α hα => h.covered_of_refused hK hc he hα)
  · exact .inl ⟨_, rfl, h.takeFirst hK hall hc he⟩

end SearchState

end DepSolver
