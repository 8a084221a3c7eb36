import DepSolver.Proofs.Search.Correctness

/-!
# A search that can leave everything as it is does so

Suppose that the packages as they are installed satisfy every rule in force, and that the rules of
installed packages name these packages first. Then every decision of the search agrees with what is
installed. What is forced has to agree, as there is an assignment that does; and where there is a
choice, an installed candidate comes first whatever the preference. So no choice is ever taken back,
no recommendation is followed, and every round decides one package more: the search ends before
there are more rounds than packages.
-/

namespace DepSolver

/-- The packages as they are: present are exactly the installed ones. -/
def Universe.asInstalled (u : Universe) : Assignment := fun id => u.isInstalled id

namespace Universe

variable {u : Universe}

theorem pos_of_isInstalled {id : PackageId} (h : u.isInstalled id = true) : 0 < id :=
  pos_of_isConsidered (isConsidered_of_isInstalled h)

theorem asInstalled_holds {id : PackageId} (h : 0 < id) :
    u.asInstalled.holds id = true ↔ u.isInstalled id = true := by
  rw [Assignment.holds_of_pos h]
  rfl

/-- Of several candidates an installed one is preferred, unless their order is fixed. -/
theorem head_preferred {preference : Preference} {source : Option PackageId}
    {candidates : List PackageId} (hfree : preference ≠ .keep)
    (h : ∃ id ∈ candidates, u.isInstalled id = true) :
    ∃ id rest, u.preferred preference source candidates = id :: rest ∧
      u.isInstalled id = true := by
  have hbefore : ∀ (arch : Option String) (a b : PackageId), u.isInstalled a = true →
      ¬u.isInstalled b = true → u.comparePreferred arch a b = .lt := by
    intro arch a b ha hb
    unfold comparePreferred
    rw [ha, Bool.eq_false_iff.mpr hb]
    rfl
  have hafter : ∀ (arch : Option String) (a b : PackageId), ¬u.isInstalled a = true →
      u.isInstalled b = true → u.comparePreferred arch a b ≠ .lt := by
    intro arch a b ha hb
    unfold comparePreferred
    rw [hb, Bool.eq_false_iff.mpr ha]
    exact Ordering.noConfusion
  cases preference with
  | keep => exact absurd rfl hfree
  | best => exact head_sortBy (hbefore none) (hafter none) h
  | dependency => exact head_sortBy (hbefore _) (hafter _) h

end Universe

/-- A search that found a solution decided every installed package. -/
theorem Solves.not_isUndecided_of_isInstalled {s : Search} {K : Literal → Prop} {d : Decisions}
    (h : Solves s K d) {id : PackageId} (hid : s.world.isInstalled id = true) :
    ¬d.isUndecided id = true := by
  have hdecided := h.installed id (Universe.mem_installedIds.mpr hid)
  rw [Decisions.isUndecided, hdecided]
  exact Bool.false_ne_true

namespace Search

open SearchState (branchOf)

variable {s : Search} {K : Literal → Prop} {d : Decisions}

/-- **Whether a search can leave the installed packages alone**: as they are they satisfy every rule
in force, and a rule that lists its candidates in order lists an installed one first. -/
structure AtRest (s : Search) : Prop where
  models : s.world.asInstalled.Models s.rules.enabled
  first : ∀ r ∈ s.rules.enabled, r.toClass.preference = .keep →
    ∃ id rest, r.literals = id :: rest ∧ s.world.isInstalled id = true

/-- Whether a choice begins with keeping an installed package about which nothing was decided. -/
def Keeps (s : Search) (d : Decisions) (c : Choice) : Prop :=
  ∃ id, c.first = [id] ∧ s.world.isInstalled id = true ∧ d.isUndecided id = true

/-! ## Choices -/

/-- Only installed packages are present. -/
theorem isInstalled_of_mem_present (hcoherent : d.Coherent)
    (hagree : d.Agrees s.world.asInstalled) {id : PackageId} (hid : id ∈ d.present) :
    s.world.isInstalled id = true := by
  obtain ⟨hpos, hpresent⟩ := hcoherent.mem_present.mp hid
  have hsat := (Decisions.isPresent_iff_satisfies hpos).mp hpresent
  exact (Universe.asInstalled_holds hpos).mp (hagree id (Int.ne_of_gt hpos) hsat)

/-- No installed package is decided to be absent. -/
theorem not_refutes_of_isInstalled (hagree : d.Agrees s.world.asInstalled) {id : PackageId}
    (hid : s.world.isInstalled id = true) : ¬d.refutes id = true := by
  intro hf
  have hpos := Universe.pos_of_isInstalled hid
  have hfalse := hagree.holds_eq_false (Int.ne_of_gt hpos) hf
  rw [(Universe.asInstalled_holds hpos).mpr hid] at hfalse
  exact absurd hfalse (by simp)

theorem AtRest.keeps_of_ruleChoice? (hrest : s.AtRest) (hK : s.Admits K)
    (hagree : d.Agrees s.world.asInstalled) {r : Rule} (hr : r ∈ s.rules.enabled) {c : Choice}
    (h : s.ruleChoice? d r = some c) : s.Keeps d c := by
  obtain ⟨hmet, hrows⟩ := ruleChoice?_eq_some h
  have hhead : ∃ id rest, s.world.preferred r.toClass.preference r.source (openCandidates d r) =
      id :: rest ∧ s.world.isInstalled id = true := by
    by_cases hkeep : r.toClass.preference = .keep
    · -- the first literal is no less undecided than the rule is unmet
      obtain ⟨id, rest, hlits, hid⟩ := hrest.first r hr hkeep
      have hpos := Universe.pos_of_isInstalled hid
      have hundecided : d.isUndecided id = true := by
        rcases Decisions.satisfies_or_refutes_or_isUndecided d id with hs | hf | hu
        · exact absurd ⟨id, by rw [hlits]; exact List.mem_cons_self .., .inl hs⟩ hmet
        · exact absurd hf (not_refutes_of_isInstalled hagree hid)
        · exact hu
      rw [hkeep, openCandidates_of_not_isMet hmet, hlits, List.filter_cons_of_pos]
      · exact ⟨id, _, rfl, hid⟩
      · rw [hundecided, decide_eq_true hpos]
        rfl
    · -- what is installed satisfies the rule, so it offers an installed candidate
      obtain ⟨row, hrow, hholds⟩ :=
        (covers_of_ruleChoice? hK hr h).follows _ hrest.models hagree
      obtain ⟨id, hid, rfl⟩ := (hrows row).mp hrow
      have hpos := ((mem_openCandidates hmet).mp hid).2.1
      have hinstalled := (Universe.asInstalled_holds hpos).mp (hholds id (by simp))
      exact Universe.head_preferred hkeep ⟨id, hid, hinstalled⟩
  obtain ⟨id, rest, hpreferred, hid⟩ := hhead
  have hopen : id ∈ openCandidates d r := by
    have hmem : id ∈ s.world.preferred r.toClass.preference r.source (openCandidates d r) := by
      rw [hpreferred]
      exact List.mem_cons_self ..
    exact Universe.mem_preferred.mp hmem
  unfold ruleChoice? at h
  dsimp only at h
  rw [hpreferred] at h
  split at h
  · exact absurd h (by simp)
  · have hfirst := List.cons.inj (Choice.ofAlternatives?_eq_some h)
    exact ⟨id, hfirst.1, hid, ((mem_openCandidates hmet).mp hopen).2.2⟩

/-- No recommendation is looked at: those of installed packages are not followed. -/
theorem weakChoice?_eq_none (hcoherent : d.Coherent) (hagree : d.Agrees s.world.asInstalled) :
    s.weakChoice? d = none := by
  unfold weakChoice?
  split
  · rfl
  · refine List.findSome?_eq_none_iff.mpr fun id hid => ?_
    exact if_pos (isInstalled_of_mem_present hcoherent hagree hid)

theorem keeps_of_keepChoice? {c : Choice} (h : s.keepChoice? d = some c) :
    s.Keeps d c := by
  unfold keepChoice? at h
  obtain ⟨id, hfind, rfl⟩ := Option.map_eq_some_iff.mp h
  have hid := Universe.mem_installedIds.mp (List.mem_of_find?_eq_some hfind)
  exact ⟨id, rfl, hid, List.find?_some hfind⟩

/-- **Every choice begins with keeping an installed package.** -/
theorem AtRest.keeps_of_choice? (hrest : s.AtRest) (hK : s.Admits K) (hcoherent : d.Coherent)
    (hagree : d.Agrees s.world.asInstalled) {c : Choice}
    (h : s.choice? s.rules.enabled d = some c) : s.Keeps d c := by
  unfold choice? at h
  rw [weakChoice?_eq_none hcoherent hagree] at h
  split at h
  · rename_i found hfound
    obtain ⟨r, hr, hrc⟩ := List.exists_of_findSome?_eq_some hfound
    rw [← Option.some.inj h]
    exact hrest.keeps_of_ruleChoice? hK hagree hr hrc
  · exact keeps_of_keepChoice? h

/-! ## Rounds -/

/-- Keeping a package is one more decision, and agrees with what is installed. -/
theorem Keeps.decide {c : Choice} (h : s.Keeps d c)
    (hagree : d.Agrees s.world.asInstalled) :
    ∃ e, d.incrementLevel.decideAll? c.reason c.first = some e ∧
      e.Agrees s.world.asInstalled ∧
      e.queue.toList.length = d.queue.toList.length + 1 := by
  obtain ⟨id, hfirst, hid, hu⟩ := h
  have hpos := Universe.pos_of_isInstalled hid
  have hu' : d.incrementLevel.isUndecided id = true := hu
  refine ⟨d.incrementLevel.record id c.reason, ?_, fun l hl hs => ?_, ?_⟩
  · rw [hfirst, Decisions.decideAll?, Decisions.decide_of_isUndecided c.reason hu']
    rfl
  · rcases (Decisions.satisfies_record c.reason hu' (Int.ne_of_gt hpos)).mp hs with rfl | hs
    · exact (Universe.asInstalled_holds hpos).mpr hid
    · exact hagree l hl hs
  · rw [Decisions.record_queue, List.length_append]
    rfl

/-- **Every round agrees with what is installed**, and decides one package more. -/
theorem AtRest.rounds (hrest : s.AtRest) (hK : s.Admits K)
    (hrange : ∀ l, K l → l.natAbs ∈ List.range' 1 s.world.packages.size) :
    ∀ {left : Nat} {st : SearchState}, st.Valid s K → st.decisions.Agrees s.world.asInstalled →
      s.world.packages.size < left + st.decisions.queue.toList.length →
        ∃ d, s.rounds s.rules.enabled s.room left st = .satisfied d ∧
          d.Agrees s.world.asInstalled
  | 0, st, h, _, hleft => by
      have hlength := h.toStanding.length_queue_le_of hrange
      rw [List.length_range'] at hlength
      omega
  | left + 1, st, h, hagree, hleft => by
      rw [Search.rounds_succ]
      have hsteps : s.packages.length < s.room + st.propagated := by
        have := s.length_packages
        omega
      rcases h.propagate hK hsteps with ⟨st', hp, h', hall, hext⟩ | ⟨st', -, -, hnone⟩
      · have hagree' := SearchState.agrees_of_follows hext hrest.models hagree
        rw [hp]
        dsimp only
        cases hchoice : s.choice? s.rules.enabled st'.decisions with
        | none => exact ⟨_, rfl, hagree'⟩
        | some c =>
            dsimp only
            have hcovers := covers_of_choice? hK h'.toStanding.admits_present hchoice
            have hkeeps := hrest.keeps_of_choice? hK h'.coherent hagree' hchoice
            obtain ⟨e, he, hagree'', hlength⟩ := hkeeps.decide hagree'
            have hchoose : st'.choose c =
                some { st' with decisions := e, branches := branchOf st' c :: st'.branches } := by
              unfold SearchState.choose
              dsimp only
              rw [he]
              rfl
            rw [hchoose]
            refine hrest.rounds hK hrange (h'.takeFirst hK hall hcovers he) hagree'' ?_
            have hgrows := hext.length_queue_le
            show s.world.packages.size < left + e.queue.toList.length
            omega
      · -- what is installed agrees with the decisions, so they violate no rule
        exact absurd hagree (hnone _ hrest.models)

/-- A search that can leave the installed packages alone starts in agreement with them. -/
theorem AtRest.start (hrest : s.AtRest) (hK : s.Admits K) :
    ∃ d, decideAssertions? s.rules.enabled s.start = some d ∧
      SearchState.Valid s K { decisions := d, graph := .ofRules s.rules } ∧
      d.Agrees s.world.asInstalled := by
  cases hd : decideAssertions? s.rules.enabled s.start with
  | none => exact absurd ⟨_, hrest.models⟩ (not_satisfiable_of_decideAssertions? hK hd)
  | some d =>
      have hvalid := valid_of_decideAssertions? hK hd
      refine ⟨d, rfl, hvalid, (hvalid.covered _ hrest.models).resolve_right fun hopen => ?_⟩
      -- there are no branches yet in which it could be open
      obtain ⟨b, hb, -⟩ := hopen
      exact absurd hb (by simp)

/--
**A search that can leave the installed packages alone does so.**

It finds a solution, in which exactly the installed packages are present. It takes no more rounds
than there are packages, so with fewer packages than rounds it is not given up.
-/
theorem AtRest.run (hrest : s.AtRest) (hK : s.Admits K)
    (hrange : ∀ l, K l → l.natAbs ∈ List.range' 1 s.world.packages.size)
    (hsize : s.world.packages.size < maxRounds) :
    ∃ d, s.run = .satisfied d ∧
      ∀ id, id ∈ d.present ↔ s.world.isInstalled id = true := by
  obtain ⟨d₀, hd₀, hvalid, hagree₀⟩ := hrest.start hK
  have henough : s.world.packages.size < maxRounds + d₀.queue.toList.length :=
    Nat.lt_add_right _ hsize
  obtain ⟨d, hrounds, hagree⟩ := hrest.rounds hK hrange hvalid hagree₀ henough
  have hrun : s.run = .satisfied d := by
    unfold Search.run
    rw [hd₀]
    exact hrounds
  have hsolves : Solves s K d := by
    have hcorrect := run_correct hK
    rw [hrun] at hcorrect
    exact hcorrect
  refine ⟨d, hrun, fun id => ⟨isInstalled_of_mem_present hsolves.coherent hagree, fun hid => ?_⟩⟩
  -- an installed package is decided, and to be absent would not agree
  have hpos := Universe.pos_of_isInstalled hid
  refine hsolves.coherent.mem_present.mpr ⟨hpos, (Decisions.isPresent_iff_satisfies hpos).mpr ?_⟩
  rcases Decisions.satisfies_or_refutes_or_isUndecided d id with hs | hf | hu
  · exact hs
  · exact absurd hf (not_refutes_of_isInstalled hagree hid)
  · exact absurd hu (hsolves.not_isUndecided_of_isInstalled hid)

end Search

end DepSolver
