import DepSolver.Proofs.Search.Correctness

/-!
# Nothing comes in without a reason

A search records with every decision why it was made. Of a package that is decided to be present the
record can be relied on. If it names a rule, the rule offers the package, and whatever the rule asks
to be absent was decided to be present before. If it is a recommendation, it is one of an available
package decided to be present before, and recommendations are followed. Otherwise the package was
installed.

*Before* means further up in the queue. Levels never fall along the queue, so going back to a branch
cuts off its end and takes no decision away on which a remaining one rests. The alternatives of a
branch are found once, when it is opened, and rest on what was decided below it; that is still there
when one of them is taken.
-/

namespace DepSolver

namespace Search

/-- **What brings a package in**, if some literals were true before. -/
inductive Backed (s : Search) (before : Literal → Prop) (id : PackageId) : Reason → Prop where
  /-- A rule offers it, and nothing is left that it asks to be absent. -/
  | rule {reason : Reason} {r : Rule} (hr : r ∈ s.rules.enabled) (hid : id ∈ r.literals)
      (hreason : reason.rule? = some r.id) (hbefore : ∀ l ∈ r.literals, l < 0 → before (-l)) :
      Backed s before id reason
  /-- Recommendations are followed, and an available package recommends it. -/
  | recommended {src : PackageId} {p : Package} {r : Relation}
      (hfollows : s.flags.ignoreRecommended = false) (hbefore : before src)
      (hsrc : s.world.isInstalled src = false) (hp : s.world.package? src = some p)
      (hr : r ∈ p.recommends) (hid : id ∈ s.world.whatProvides r) : Backed s before id .weakDep
  /-- It was installed. -/
  | kept (hid : s.world.isInstalled id = true) : Backed s before id .keep

variable {s : Search} {K : Literal → Prop} {d e : Decisions}

theorem Backed.mono {before after : Literal → Prop} {id : PackageId} {reason : Reason}
    (h : s.Backed before id reason) (hmono : ∀ l, before l → after l) :
    s.Backed after id reason := by
  cases h with
  | rule hr hid hreason hbefore =>
      exact .rule hr hid hreason fun l hl hneg => hmono _ (hbefore l hl hneg)
  | recommended hfollows hbefore hsrc hp hr hid =>
      exact .recommended hfollows (hmono _ hbefore) hsrc hp hr hid
  | kept hid => exact .kept hid

/-- **Each package in a queue is backed** by what stands before it. -/
def Grounded (s : Search) (queue : List (Literal × Reason)) : Prop :=
  ∀ before q after, queue = before ++ q :: after → 0 < q.1 →
    s.Backed (fun l => ∃ reason, (l, reason) ∈ before) q.1 q.2

theorem grounded_nil (s : Search) : s.Grounded [] := by
  intro before q after heq
  exact absurd heq (by simp)

theorem Grounded.of_prefix {queue queue' : List (Literal × Reason)} (h : s.Grounded queue)
    (hcut : queue' <+: queue) : s.Grounded queue' := by
  obtain ⟨rest, rfl⟩ := hcut
  intro before q after heq
  exact h before q (after ++ rest) (by rw [heq, List.append_assoc, List.cons_append])

theorem Grounded.concat {queue : List (Literal × Reason)} (h : s.Grounded queue)
    {q : Literal × Reason}
    (hq : 0 < q.1 → s.Backed (fun l => ∃ reason, (l, reason) ∈ queue) q.1 q.2) :
    s.Grounded (queue ++ [q]) := by
  intro before x after heq hpos
  rcases List.eq_nil_or_concat after with rfl | ⟨after, y, rfl⟩
  · -- the one that is new
    obtain ⟨rfl, hlast⟩ := List.append_inj' heq rfl
    obtain ⟨rfl, -⟩ := List.cons.inj hlast
    exact hq hpos
  · have hinit : queue ++ [q] = (before ++ x :: after) ++ [y] := by
      rw [heq, List.concat_eq_append, List.append_assoc, List.cons_append]
    exact h before x after (List.append_inj' hinit rfl).1 hpos

/-- More decisions stay grounded, if those made before back each new one. -/
theorem Grounded.extends {P : Literal → Reason → Prop} (h : s.Grounded d.queue.toList)
    (hcoherent : d.Coherent) (hext : d.Extends P e)
    (hP : ∀ l reason, P l reason → 0 < l → s.Backed (d.satisfies · = true) l reason) :
    s.Grounded e.queue.toList := by
  induction hext with
  | refl => exact h
  | @record e l reason hext _ hp ih =>
      rw [Decisions.record_queue]
      refine ih.concat fun hpos => (hP l reason hp hpos).mono fun x hx => ?_
      have hx0 : x ≠ 0 := by
        rintro rfl
        exact (Decisions.satisfies_iff.mp hx).1 hcoherent.signedLevel_zero
      obtain ⟨why, hmem⟩ := (hcoherent.satisfies_iff_mem hx0).mp hx
      obtain ⟨new, heq, -⟩ := hext.queue
      exact ⟨why, heq ▸ List.mem_append_left new hmem⟩

end Search

/-! ## The invariant of a search -/

open SearchState (below satisfies_below signedLevel_below_of_satisfies)

/-- **Decisions with their reasons**, and branches whose alternatives have one. -/
structure Founded (s : Search) (d : Decisions) (bs : List Branch) : Prop where
  /-- Levels never fall along the queue. -/
  ascending : d.queue.toList.Pairwise fun a b =>
    (d.signedLevel a.1).natAbs ≤ (d.signedLevel b.1).natAbs
  level_le : ∀ q ∈ d.queue.toList, (d.signedLevel q.1).natAbs ≤ d.level + 1
  grounded : s.Grounded d.queue.toList
  /-- What was decided below a branch backs its alternatives. -/
  alternatives : ∀ b ∈ bs, ∀ row ∈ b.alternatives, ∀ l ∈ row, 0 < l →
    s.Backed ((below d b).satisfies · = true) l b.reason

/-- A filter that keeps whatever stands before what it keeps cuts off the end of a list. -/
theorem filter_prefix_of_pairwise {α : Type} {p : α → Bool} : ∀ {xs : List α},
    (xs.Pairwise fun a b => p b = true → p a = true) → xs.filter p <+: xs
  | [], _ => List.nil_prefix
  | x :: xs, h => by
      obtain ⟨hx, hxs⟩ := List.pairwise_cons.mp h
      by_cases hp : p x = true
      · rw [List.filter_cons_of_pos hp]
        exact (List.prefix_cons_inj x).mpr (filter_prefix_of_pairwise hxs)
      · have hnone : xs.filter p = [] := List.filter_eq_nil_iff.mpr fun y hy hpy => hp (hx y hy hpy)
        rw [List.filter_cons_of_neg hp, hnone]
        exact List.nil_prefix

section

variable {s : Search} {K : Literal → Prop} {d e : Decisions} {g : WatchGraph} {bs : List Branch}
  {b : Branch} {outer : List Branch}

theorem Founded.extends {P : Literal → Reason → Prop} (h : Founded s d bs) (hd : d.Coherent)
    (he : e.Coherent) (hext : d.Extends P e)
    (hP : ∀ l reason, P l reason → 0 < l → s.Backed (d.satisfies · = true) l reason)
    (hbs : ∀ b ∈ bs, 1 ≤ b.level) : Founded s e bs := by
  obtain ⟨new, heq, hnew⟩ := hext.queue
  have hold : ∀ q ∈ d.queue.toList, e.signedLevel q.1 = d.signedLevel q.1 := fun q hq =>
    hext.signedLevel_eq (Decisions.satisfies_iff.mp (hd.satisfies_of_mem hq)).1
  have hlevel : ∀ q ∈ new, (e.signedLevel q.1).natAbs = d.level + 1 := by
    intro q hq
    have hmem : q ∈ e.queue.toList := heq ▸ List.mem_append_right _ hq
    have hdecided := (Decisions.satisfies_iff.mp (he.satisfies_of_mem hmem)).1
    exact hext.natAbs_signedLevel (hnew q hq).2 hdecided
  refine ⟨?_, ?_, h.grounded.extends hd hext hP, ?_⟩
  · rw [heq, List.pairwise_append]
    refine ⟨h.ascending.imp_of_mem fun {a b} ha hb hle => ?_,
      List.pairwise_of_forall_mem_list fun a ha b hb => ?_, fun a ha b hb => ?_⟩
    · rw [hold a ha, hold b hb]
      exact hle
    · rw [hlevel a ha, hlevel b hb]
    · rw [hold a ha, hlevel b hb]
      exact h.level_le a ha
  · intro q hq
    rw [hext.level]
    rw [heq, List.mem_append] at hq
    rcases hq with hq | hq
    · rw [hold q hq]
      exact h.level_le q hq
    · exact Nat.le_of_eq (hlevel q hq)
  · intro b hb row hrow l hl hpos
    refine (h.alternatives b hb row hrow l hl hpos).mono fun x hx => ?_
    -- what was decided below the branch is decided there still
    rw [satisfies_below (hbs b hb)] at hx ⊢
    rw [hext.signedLevel_eq (Decisions.satisfies_iff.mp hx.1).1]
    exact ⟨hext.satisfies hx.1, hx.2⟩

/-- A row that is decided for one reason. -/
theorem Founded.decideAll? (h : Founded s d bs) (hK : s.Admits K) (hstand : Standing s K d g bs)
    {reason : Reason} {row : List Literal} (he : d.decideAll? reason row = some e)
    (hadmitted : ∀ l ∈ row, K l)
    (hrow : ∀ l ∈ row, 0 < l → s.Backed (d.satisfies · = true) l reason) : Founded s e bs := by
  rw [Decisions.decideAll?_eq] at he
  have hext := (Decisions.decideRow?_eq_some he).1
  have hof : ∀ {l : Literal} {why : Reason}, (l, why) ∈ (row.map fun l => (l, reason)) →
      l ∈ row ∧ why = reason := by
    intro l why hl
    obtain ⟨x, hx, heq⟩ := List.mem_map.mp hl
    obtain ⟨rfl, rfl⟩ := Prod.mk.inj heq
    exact ⟨hx, rfl⟩
  refine h.extends hstand.coherent ?_ hext ?_ ?_
  · exact (hstand.extends hK hext fun l _ hl => hadmitted l (hof hl).1).coherent
  · intro l why hl hpos
    obtain ⟨hmem, rfl⟩ := hof hl
    exact hrow l hmem hpos
  · exact fun b hb => Nat.le_of_succ_le (hstand.stacked.level hb).1

/-- Going back to the latest branch. -/
theorem Founded.below (h : Founded s d (b :: outer)) (hstand : Standing s K d g (b :: outer)) :
    Founded s (below d b) (b :: outer) := by
  have hb : 1 ≤ b.level := Nat.le_of_succ_le (hstand.stacked.level (List.mem_cons_self ..)).1
  have hkept : ∀ q ∈ (SearchState.below d b).queue.toList,
      (SearchState.below d b).signedLevel q.1 = d.signedLevel q.1 ∧
        (d.signedLevel q.1).natAbs ≤ b.level := by
    intro q hq
    have hs := hstand.below.coherent.satisfies_of_mem hq
    exact ⟨signedLevel_below_of_satisfies hb hs, ((satisfies_below hb).mp hs).2⟩
  have hcut : (SearchState.below d b).queue.toList <+: d.queue.toList := by
    have hfilter : (SearchState.below d b).queue.toList =
        d.queue.toList.filter fun q => (d.revert (b.level - 1)).signedLevel q.1 != 0 := by
      show (d.revert (b.level - 1)).queue.toList = _
      unfold Decisions.revert
      rw [Array.toList_filter]
      rfl
    rw [hfilter]
    refine filter_prefix_of_pairwise (h.ascending.imp_of_mem fun {x y} hx hy hle hkeep => ?_)
    rw [bne_iff_ne, Decisions.signedLevel_revert, Nat.sub_add_cancel hb] at hkeep ⊢
    have hdecided := (Decisions.satisfies_iff.mp (hstand.coherent.satisfies_of_mem hx)).1
    split at hkeep
    · exact absurd rfl hkeep
    · rw [if_neg (by omega)]
      exact hdecided
  refine ⟨?_, ?_, h.grounded.of_prefix hcut, ?_⟩
  · have hascending := h.ascending.sublist hcut.sublist
    refine hascending.imp_of_mem fun {x y} hx hy hle => ?_
    rw [(hkept x hx).1, (hkept y hy).1]
    exact hle
  · intro q hq
    rw [(hkept q hq).1]
    exact Nat.le_succ_of_le (hkept q hq).2
  · intro c hc row hrow l hl hpos
    refine (h.alternatives c hc row hrow l hl hpos).mono fun x hx => ?_
    have hle := hstand.stacked.level hc
    have hcb : c.level ≤ b.level := by
      have htop := hstand.stacked.1
      rw [List.length_cons] at hle
      omega
    -- an outer branch stands lower
    rw [satisfies_below (Nat.le_of_succ_le hle.1)] at hx ⊢
    have hbelow := (satisfies_below hb).mpr ⟨hx.1, Nat.le_trans hx.2 hcb⟩
    rw [signedLevel_below_of_satisfies hb hbelow]
    exact ⟨hbelow, hx.2⟩

/-- Only alternatives that were left may be left later. -/
theorem Founded.withAlternatives {rows : List (List Literal)} (h : Founded s d (b :: outer))
    (hsub : ∀ row ∈ rows, row ∈ b.alternatives) :
    Founded s d ({ b with alternatives := rows } :: outer) where
  ascending := h.ascending
  level_le := h.level_le
  grounded := h.grounded
  alternatives := by
    intro c hc row hrow
    rcases List.mem_cons.mp hc with rfl | hc
    · exact h.alternatives b (List.mem_cons_self ..) row (hsub row hrow)
    · exact h.alternatives c (List.mem_cons_of_mem _ hc) row hrow

theorem Founded.dropBranch (h : Founded s d (b :: outer)) : Founded s d outer where
  ascending := h.ascending
  level_le := h.level_le
  grounded := h.grounded
  alternatives c hc := h.alternatives c (List.mem_cons_of_mem _ hc)

end

/-! ## What backs a choice -/

theorem Choice.reason_of_ofAlternatives? {reason : Reason} {ranked : Bool}
    {rows : List (List Literal)} {c : Choice} (h : ofAlternatives? reason ranked rows = some c) :
    c.reason = reason := by
  cases rows with
  | nil => exact absurd h (by simp [ofAlternatives?])
  | cons first others =>
      rw [ofAlternatives?, Option.some.injEq] at h
      rw [← h]

namespace Search

variable {s : Search} {K : Literal → Prop} {d : Decisions}

/-- Whether every package that a choice could bring in is backed by the decisions. -/
def BacksChoice (s : Search) (d : Decisions) (c : Choice) : Prop :=
  ∀ row ∈ c.first :: c.others, ∀ l ∈ row, 0 < l →
    s.Backed (d.satisfies · = true) l c.reason

/-- An unmet rule offers its candidates when all it asks to be absent is present. -/
theorem backsChoice_of_ruleChoice? (hK : s.Admits K) {r : Rule} (hr : r ∈ s.rules.enabled)
    {c : Choice} (h : s.ruleChoice? d r = some c) : s.BacksChoice d c := by
  obtain ⟨hmet, hrows⟩ := ruleChoice?_eq_some h
  have hreason : c.reason = .branch r.id := by
    unfold ruleChoice? at h
    dsimp only at h
    split at h
    · exact absurd h (by simp)
    · exact Choice.reason_of_ofAlternatives? h
  intro row hrow l hl _
  obtain ⟨id, hid, rfl⟩ := (hrows row).mp hrow
  rw [List.mem_singleton.mp hl, hreason]
  refine .rule hr ((mem_openCandidates hmet).mp hid).1 rfl fun x hx hneg => ?_
  rw [← Decisions.refutes_iff_satisfies_neg (hK.ne_zero hr hx)]
  rcases Decisions.satisfies_or_refutes_or_isUndecided d x with hs | hf | hu
  · exact absurd ⟨x, hx, .inl hs⟩ hmet
  · exact hf
  · exact absurd ⟨x, hx, .inr ⟨hneg, hu⟩⟩ hmet

theorem backsChoice_of_recommendationChoice? {src : PackageId} {p : Package} {r : Relation}
    (hfollows : s.flags.ignoreRecommended = false) (hpresent : d.satisfies src = true)
    (hsrc : s.world.isInstalled src = false) (hp : s.world.package? src = some p)
    (hr : r ∈ p.recommends) {c : Choice}
    (h : s.recommendationChoice? d src r = some c) : s.BacksChoice d c := by
  unfold recommendationChoice? at h
  dsimp only at h
  split at h
  · exact absurd h (by simp)
  · have hrows := Choice.ofAlternatives?_eq_some h
    intro row hrow l hl hpos
    rw [Choice.reason_of_ofAlternatives? h]
    rw [hrows, List.mem_append, List.mem_map, List.mem_singleton] at hrow
    rcases hrow with ⟨q, hq, rfl⟩ | rfl
    · rw [List.mem_singleton.mp hl]
      have hprovides := (List.mem_filter.mp (Universe.mem_preferred.mp hq)).1
      exact .recommended hfollows hpresent hsrc hp hr hprovides
    · -- to decline brings nothing in
      obtain ⟨q, hq, rfl⟩ := List.mem_map.mp hl
      have hqpos := Universe.pos_of_isConsidered
        (Universe.isConsidered_of_mem_whatProvides (List.mem_filter.mp hq).1)
      exact absurd hpos (not_pos_neg hqpos)

theorem backsChoice_of_weakChoice? (hd : d.Coherent) {c : Choice} (h : s.weakChoice? d = some c) :
    s.BacksChoice d c := by
  unfold weakChoice? at h
  split at h
  · exact absurd h (by simp)
  · rename_i hfollows
    obtain ⟨src, hsrc, hchoice⟩ := List.exists_of_findSome?_eq_some h
    unfold packageChoice? at hchoice
    split at hchoice
    · exact absurd hchoice (by simp)
    · rename_i hnot
      obtain ⟨p, hp, hp'⟩ := Option.bind_eq_some_iff.mp hchoice
      obtain ⟨r, hr, hrc⟩ := List.exists_of_findSome?_eq_some hp'
      obtain ⟨hpos, hpresent⟩ := hd.mem_present.mp hsrc
      have hsatisfied := (Decisions.isPresent_iff_satisfies hpos).mp hpresent
      have hnew := Bool.eq_false_iff.mpr hnot
      exact backsChoice_of_recommendationChoice? (Bool.eq_false_iff.mpr hfollows) hsatisfied hnew hp
        hr hrc

theorem backsChoice_of_keepChoice? {c : Choice} (h : s.keepChoice? d = some c) :
    s.BacksChoice d c := by
  unfold keepChoice? at h
  obtain ⟨id, hfind, rfl⟩ := Option.map_eq_some_iff.mp h
  have hid := Universe.mem_installedIds.mp (List.mem_of_find?_eq_some hfind)
  intro row hrow l hl hpos
  rcases List.mem_cons.mp hrow with rfl | hrow
  · rw [List.mem_singleton.mp hl]
    exact .kept hid
  · rw [List.mem_singleton.mp hrow] at hl
    rw [List.mem_singleton.mp hl] at hpos
    have hidpos := Universe.pos_of_isConsidered (Universe.isConsidered_of_isInstalled hid)
    exact absurd hpos (not_pos_neg hidpos)

/-- **Every choice is backed** by the decisions it is made from. -/
theorem backsChoice_of_choice? (hK : s.Admits K) (hd : d.Coherent) {c : Choice}
    (h : s.choice? s.rules.enabled d = some c) : s.BacksChoice d c := by
  unfold choice? at h
  split at h
  · rename_i found hfound
    obtain ⟨r, hr, hrc⟩ := List.exists_of_findSome?_eq_some hfound
    rw [← Option.some.inj h]
    exact backsChoice_of_ruleChoice? hK hr hrc
  · split at h
    · rename_i found hfound
      rw [← Option.some.inj h]
      exact backsChoice_of_weakChoice? hd hfound
    · exact backsChoice_of_keepChoice? h

/-- A unit is offered by the rule that forces it. -/
theorem backed_of_forcesUnit (hK : s.Admits K) {l : Literal} {id : Nat}
    (h : WatchGraph.ForcesUnit s.rules d l id) (hpos : 0 < l) :
    s.Backed (d.satisfies · = true) l (.unit id) := by
  obtain ⟨r, hr, rfl, hl, -, hfalse⟩ := h
  refine .rule hr hl rfl fun x hx hneg => ?_
  rw [← Decisions.refutes_iff_satisfies_neg (hK.ne_zero hr hx)]
  exact hfalse x hx (Int.ne_of_lt (Int.lt_trans hneg hpos))

end Search

/-! ## The steps of a search -/

namespace SearchState

variable {s : Search} {K : Literal → Prop} {st : SearchState}

theorem Steady.one_le_level (h : st.Steady s K) : ∀ b ∈ st.branches, 1 ≤ b.level := fun _ hb =>
  Nat.le_of_succ_le (h.stacked.level hb).1

/-- Propagation decides units only, and touches no branch. -/
theorem Steady.founded_propagate (hK : s.Admits K) : ∀ {steps : Nat} {st st' : SearchState}
    {ok : Bool}, st.Steady s K → Founded s st.decisions st.branches →
      SearchState.propagate s.rules steps st = (ok, st') → Founded s st'.decisions st'.branches
  | 0, st, st', ok, _, hf, hp => by
      obtain ⟨-, rfl⟩ := Prod.mk.inj hp
      exact hf
  | steps + 1, st, st', ok, h, hf, hp => by
      rw [propagate_succ] at hp
      rcases h.advance_cases hK with ⟨hdone, -⟩ | ⟨g, hconflict, -⟩ |
        ⟨g, units, e, hstep, hsteady, hunits, he⟩
      · rw [hdone] at hp
        obtain ⟨-, rfl⟩ := Prod.mk.inj hp
        exact hf
      · rw [hconflict] at hp
        obtain ⟨-, rfl⟩ := Prod.mk.inj hp
        exact hf
      · rw [hstep] at hp
        refine Steady.founded_propagate hK hsteady ?_ hp
        rw [decideUnits?_eq] at he
        refine hf.extends h.coherent hsteady.coherent (Decisions.decideRow?_eq_some he).1 ?_
          h.one_le_level
        intro l reason hmem hpos
        obtain ⟨u, hu, heq⟩ := List.mem_map.mp hmem
        obtain ⟨rfl, rfl⟩ := Prod.mk.inj heq
        exact Search.backed_of_forcesUnit hK (hunits u hu) hpos

/-- What an alternative rests on was decided below its branch. -/
theorem founded_resume (hK : s.Admits K) : ∀ {bs : List Branch} {st' : SearchState},
    Standing s K st.decisions st.graph bs → Founded s st.decisions bs →
      st.resume bs = some st' → Founded s st'.decisions st'.branches
  | [], st', _, _, hresume => absurd hresume (by simp [SearchState.resume])
  | b :: outer, st', h, hf, hresume => by
      unfold SearchState.resume at hresume
      dsimp only at hresume
      rcases ht : tryAlternatives (below st.decisions b) b.reason b.alternatives with
        _ | ⟨e, rest⟩
      · rw [ht] at hresume
        exact founded_resume hK h.dropBranch hf.dropBranch hresume
      · rw [ht] at hresume
        rw [← Option.some.inj hresume]
        obtain ⟨refused, row, hrows, -, hrow⟩ := tryAlternatives_eq_some ht
        have hmem : ∀ r ∈ row :: rest, r ∈ b.alternatives := fun r hr => by
          rw [hrows]
          exact List.mem_append_right _ hr
        have hadmitted := h.alternatives b (List.mem_cons_self ..) row
          (hmem row (List.mem_cons_self ..))
        have hrest : ∀ r ∈ rest, r ∈ b.alternatives := fun r hr =>
          hmem r (List.mem_cons_of_mem _ hr)
        have hbelow := (hf.below h).withAlternatives hrest
        have hstand := h.below.withAlternatives hrest
        refine hbelow.decideAll? hK hstand hrow hadmitted ?_
        exact hf.alternatives b (List.mem_cons_self ..) row (hmem row (List.mem_cons_self ..))

/-- A choice opens a branch on what was decided before it. -/
theorem Valid.founded_openBranch (h : st.Valid s K) (hf : Founded s st.decisions st.branches)
    {c : Choice} (hc : s.BacksChoice st.decisions c) :
    Founded s st.decisions.incrementLevel (branchOf st c :: st.branches) where
  ascending := hf.ascending
  level_le q hq := Nat.le_succ_of_le (hf.level_le q hq)
  grounded := hf.grounded
  alternatives := by
    intro b hb row hrow l hl hpos
    rcases List.mem_cons.mp hb with rfl | hb
    · refine (hc row (List.mem_cons_of_mem _ hrow) l hl hpos).mono fun x hx => ?_
      exact (satisfies_below (Nat.le_add_left 1 _)).mpr ⟨hx, h.level_le x⟩
    · exact hf.alternatives b hb row hrow l hl hpos

theorem Valid.founded_choose (hK : s.Admits K) (h : st.Valid s K)
    (hf : Founded s st.decisions st.branches) {c : Choice} (hcovers : Covers s K st.decisions c)
    (hc : s.BacksChoice st.decisions c) {st' : SearchState} (hst : st.choose c = some st') :
    Founded s st'.decisions st'.branches := by
  have hopen := h.founded_openBranch hf hc
  have hstand := h.steady.openBranch hcovers.admitted
  unfold SearchState.choose at hst
  dsimp only at hst
  rcases he : st.decisions.incrementLevel.decideAll? c.reason c.first with _ | e
  · rw [he] at hst
    exact founded_resume hK hstand hopen hst
  · rw [he] at hst
    rw [← Option.some.inj hst]
    exact hopen.decideAll? hK hstand he (hcovers.admitted _ (List.mem_cons_self ..))
      (hc _ (List.mem_cons_self ..))

/-- **Every round keeps the decisions founded.** -/
theorem Valid.grounded_rounds (hK : s.Admits K) {d : Decisions} : ∀ {left : Nat}
    {st : SearchState}, st.Valid s K → Founded s st.decisions st.branches →
      s.rounds s.rules.enabled s.room left st = .satisfied d → s.Grounded d.queue.toList
  | 0, _, _, _, hd => absurd hd (by simp [Search.rounds])
  | left + 1, st, h, hf, hd => by
      rw [Search.rounds_succ] at hd
      have hsteps : s.packages.length < s.room + st.propagated := by
        have := s.length_packages
        omega
      rcases h.propagate hK hsteps with ⟨st', hp, h', hall, -⟩ | ⟨st', hp, h', -⟩
      · have hf' := h.steady.founded_propagate hK hf hp
        rw [hp] at hd
        dsimp only at hd
        rcases hchoice : s.choice? s.rules.enabled st'.decisions with _ | c
        · rw [hchoice] at hd
          rw [← SearchResult.satisfied.inj hd]
          exact hf'.grounded
        · rw [hchoice] at hd
          dsimp only at hd
          have hcovers := Search.covers_of_choice? hK h'.toStanding.admits_present hchoice
          have hbacks := Search.backsChoice_of_choice? hK h'.coherent hchoice
          rcases h'.choose hK hall hcovers with ⟨st'', hst, h''⟩ | ⟨hst, -⟩
          · rw [hst] at hd
            exact Valid.grounded_rounds hK h'' (h'.founded_choose hK hf' hcovers hbacks hst) hd
          · rw [hst] at hd
            exact absurd hd (by simp)
      · have hf' := h.steady.founded_propagate hK hf hp
        rw [hp] at hd
        dsimp only at hd
        unfold SearchState.backtrack at hd
        rcases h'.resume hK with ⟨st'', hst, h''⟩ | ⟨hst, -⟩
        · rw [hst] at hd
          exact Valid.grounded_rounds hK h'' (founded_resume hK h'.toStanding hf' hst) hd
        · rw [hst] at hd
          exact absurd hd (by simp)

end SearchState

namespace Search

variable {s : Search} {K : Literal → Prop}

/-- The rules of one literal are a start that is founded. -/
theorem founded_of_decideAssertions? (hK : s.Admits K) {d : Decisions}
    (hd : decideAssertions? s.rules.enabled s.start = some d) : Founded s d [] := by
  have hvalid := valid_of_decideAssertions? hK hd
  rw [decideAssertions?_eq _ _ hvalid.nonempty] at hd
  have hstart : Founded s s.start [] :=
    ⟨List.Pairwise.nil, fun q hq => absurd hq List.not_mem_nil, s.grounded_nil,
      fun b hb => absurd hb List.not_mem_nil⟩
  have hcoherent : s.start.Coherent := (Decisions.coherent_withCapacity _).setLevel 1
  refine hstart.extends hcoherent hvalid.coherent (Decisions.decideRow?_eq_some hd).1 ?_
    fun b hb => absurd hb List.not_mem_nil
  intro l reason hmem hpos
  obtain ⟨r, hr, hl, rfl⟩ := mem_assertedRow.mp hmem
  refine .rule hr (hl ▸ List.mem_singleton_self l) rfl fun x hx hneg => ?_
  rw [hl, List.mem_singleton] at hx
  rw [hx] at hneg
  exact absurd hneg (Int.not_lt.mpr (Int.le_of_lt hpos))

/-- **Nothing comes in without a reason.** -/
theorem grounded_run (hK : s.Admits K) {d : Decisions} (hd : s.run = .satisfied d) :
    s.Grounded d.queue.toList := by
  unfold run at hd
  rcases hstart : decideAssertions? s.rules.enabled s.start with _ | d₀
  · rw [hstart] at hd
    exact absurd hd (by simp)
  · have hvalid := valid_of_decideAssertions? hK hstart
    have hf := founded_of_decideAssertions? hK hstart
    rw [hstart] at hd
    exact hvalid.grounded_rounds hK hf hd

end Search

end DepSolver
