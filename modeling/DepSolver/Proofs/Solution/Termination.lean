import DepSolver.Proofs.Search.Closure
import DepSolver.Proofs.Solution.Walks

/-!
# Solving comes to an end

Five loops of a solve go on until there is nothing left to do: one gives up rules, one propagates
decisions, two walk from package to package, and one erases what is left behind. The functions that
stand for them take a number of steps to recurse on. That number is never what ends them.

With every pass something gets less: the rules in force, the decisions to be propagated, the
packages present. That holds whatever the searches come to, and so also when they have run out of
rounds and the core they lead to is no core at all: a rule that is given up is still one that was in
force.
-/

namespace DepSolver

/-! ## Giving up rules -/

namespace Search

variable {s s' : Search} {problems problems' : List Problem}

/-- One pass: a search, and what follows from its answer. -/
def pass : List Problem × Search → (List Problem × Search) ⊕ Verdict
  | (problems, s) =>
    match s.run with
    | .satisfied decisions => .inr { rules := s.rules, decisions, problems }
    | .exhausted => .inr { rules := s.rules, problems := problems ++ [{}] }
    | .unsatisfiable =>
      let core := s.minimalCore
      match s.weakRule? core with
      | some id => .inl (problems, s.without id)
      | none =>
        match s.ruleToBlame? core with
        | some id => .inl (problems ++ [{ rules := core }], s.without id)
        | none => .inr { rules := s.rules, problems := problems ++ [{}] }

theorem settle_succ (left : Nat) (a : List Problem × Search) :
    settle (left + 1) a.1 a.2 = (pass a).elim (fun a => settle left a.1 a.2) id := by
  obtain ⟨problems, s⟩ := a
  rw [settle, pass]
  cases s.run with
  | satisfied d => rfl
  | exhausted => rfl
  | unsatisfiable =>
      dsimp only
      cases s.weakRule? s.minimalCore with
      | some id => rfl
      | none => cases s.ruleToBlame? s.minimalCore <;> rfl

theorem mem_of_ruleToBlame? {core : List Nat} {id : Nat} (h : s.ruleToBlame? core = some id) :
    id ∈ core := by
  unfold ruleToBlame? at h
  rcases Option.or_eq_some_iff.mp h with h | ⟨-, h⟩
  · rcases Option.or_eq_some_iff.mp h with h | ⟨-, h⟩ <;> exact List.mem_of_find?_eq_some h
  · exact List.mem_of_head? h

/-- **A pass that does not end the loop gives up a rule that was in force**, whatever its search and
the searches for a core came to. -/
theorem gives_up_of_pass (h : pass (problems, s) = .inl (problems', s')) :
    ∃ id ∈ s.rules.enabledIds, s' = s.without id := by
  rw [pass] at h
  cases hrun : s.run with
  | satisfied d =>
      rw [hrun] at h
      exact absurd h (by simp)
  | exhausted =>
      rw [hrun] at h
      exact absurd h (by simp)
  | unsatisfiable =>
      rw [hrun] at h
      dsimp only at h
      cases hweak : s.weakRule? s.minimalCore with
      | some id =>
          rw [hweak] at h
          refine ⟨id, (mem_minimalCore.mp (weakRule?_eq_some hweak).1).1, ?_⟩
          exact (Prod.mk.inj (Sum.inl.inj h)).2.symm
      | none =>
          rw [hweak] at h
          dsimp only at h
          cases hblame : s.ruleToBlame? s.minimalCore with
          | some id =>
              rw [hblame] at h
              refine ⟨id, (mem_minimalCore.mp (mem_of_ruleToBlame? hblame)).1, ?_⟩
              exact (Prod.mk.inj (Sum.inl.inj h)).2.symm
          | none =>
              rw [hblame] at h
              exact absurd h (by simp)

/-- Where the loop ends in time, it ends as rules are settled. -/
theorem settle_of_loops {n : Nat} {a : List Problem × Search} {v : Verdict}
    (h : Loops pass n a v) {left : Nat} (hn : n ≤ left) : settle left a.1 a.2 = v :=
  h.eq_of_le (f := fun left a => settle left a.1 a.2) (fun left a => settle_succ left a) hn

/-- **Rules are given up in no more passes than there are rules in force, and one.** -/
theorem loops_settle {left : Nat} (hleft : s.rules.enabled.length < left) :
    ∃ n ≤ s.rules.enabled.length + 1, Loops pass n (problems, s) (settle left problems s) := by
  have hstep : ∀ a b : List Problem × Search, True → pass a = .inl b →
      True ∧ b.2.rules.enabled.length < a.2.rules.enabled.length := by
    intro a b _ hbody
    obtain ⟨id, hid, hb⟩ := gives_up_of_pass hbody
    refine ⟨trivial, ?_⟩
    rw [hb]
    exact RuleSet.length_enabled_disable hid
  obtain ⟨n, hn, -, v, -, -, hloops⟩ := exists_loops (fun _ => True)
    (fun a : List Problem × Search => a.2.rules.enabled.length) hstep (problems, s) trivial
  exact ⟨n, hn, settle_of_loops hloops (Nat.le_trans hn hleft) ▸ hloops⟩

end Search

/-! ## Propagating -/

namespace SearchState

variable {s : Search} {st st' : SearchState}

/-- Where the loop ends in time, it ends as decisions are propagated. -/
theorem propagate_of_loops {rules : RuleSet} {n : Nat} {r : Bool × SearchState}
    (h : Loops (advance rules) n st r) {steps : Nat} (hn : n ≤ steps) :
    SearchState.propagate rules steps st = r :=
  h.eq_of_le (fun steps st => by rw [propagate_succ]; cases advance rules st <;> rfl) hn

/-- A pass that does not end the loop has propagated one decision more. -/
theorem Steady.propagated_advance {K : Literal → Prop} (h : st.Steady s K) (hK : s.Admits K)
    (hst : advance s.rules st = .inl st') :
    st'.Steady s K ∧ st'.propagated = st.propagated + 1 := by
  rcases h.advance_cases hK with ⟨hdone, -⟩ | ⟨g, hconflict, -⟩ | ⟨g, units, e, hstep, hsteady, -⟩
  · exact absurd (hdone.symm.trans hst) (by simp)
  · exact absurd (hconflict.symm.trans hst) (by simp)
  · obtain rfl := Sum.inl.inj (hstep.symm.trans hst)
    exact ⟨hsteady, rfl⟩

/-- **Propagation ends in no more passes than there is room for**, wherever a search begins it. -/
theorem Reached.loops_propagate (h0 : s.SparesZero) (h : Reached s true st) :
    ∃ n ≤ s.room, Loops (advance s.rules) n st (SearchState.propagate s.rules s.room st) := by
  have hK := Search.admits_knows h0
  have hstep : ∀ a b : SearchState, a.Steady s s.Knows → advance s.rules a = .inl b →
      b.Steady s s.Knows ∧
        s.packages.length - b.propagated < s.packages.length - a.propagated := by
    intro a b ha hbody
    obtain ⟨hb, hone⟩ := ha.propagated_advance hK hbody
    have hpropagated := hb.propagated_le
    have hlength := hb.toStanding.length_queue_le hK
    exact ⟨hb, by omega⟩
  obtain ⟨n, hn, -, r, -, -, hloops⟩ := exists_loops (·.Steady s s.Knows)
    (fun a : SearchState => s.packages.length - a.propagated) hstep st
    ((h.steady_and_halted hK).1 rfl)
  have hroom : n ≤ s.room := by
    have := s.length_packages
    omega
  exact ⟨n, hroom, propagate_of_loops hloops hroom ▸ hloops⟩

end SearchState

/-! ## Cleaning up -/

namespace Decisions

/-- A package is present only once. -/
theorem nodup_present (d : Decisions) : d.present.Nodup := by
  unfold present
  have hfst : ∀ p ∈ d.levels.toList.zipIdx.filter fun p => 0 < p.1,
      ∀ q ∈ d.levels.toList.zipIdx.filter fun p => 0 < p.1, (p.2 : Int) = q.2 → p = q := by
    intro p hp q hq he
    have hp' := List.mem_zipIdx_iff_getElem?.mp (List.mem_filter.mp hp).1
    have hq' := List.mem_zipIdx_iff_getElem?.mp (List.mem_filter.mp hq).1
    rw [Int.ofNat_inj.mp he, hq'] at hp'
    exact Prod.ext (Option.some.inj hp').symm (Int.ofNat_inj.mp he)
  refine List.Nodup.map_on hfst (List.Nodup.filter _ ?_)
  exact List.Nodup.of_map Prod.snd (by rw [List.zipIdx_map_snd]; exact List.nodup_range')

end Decisions

namespace Solution

variable {s t : Solution} {id : PackageId} {erased : PackageSet}

/-- One pass: the first package that is left behind is erased. -/
def tidy : PackageSet × Solution → (PackageSet × Solution) ⊕ Solution
  | (erased, s) =>
    match s.decisions.present.find? (s.isLeftBehind erased) with
    | none => .inr s
    | some id => .inl (erased.insert id, s.eraseOne id)

theorem eraseLeftBehind_succ (left : Nat) (a : PackageSet × Solution) :
    eraseLeftBehind (left + 1) a.1 a.2 =
      (tidy a).elim (fun a => eraseLeftBehind left a.1 a.2) fun t => t := by
  obtain ⟨erased, s⟩ := a
  rw [eraseLeftBehind, tidy]
  cases s.decisions.present.find? (s.isLeftBehind erased) <;> rfl

/-- A package that is erased was present, and is no longer. -/
theorem length_present_eraseOne (hpos : 0 < id) (hid : id ∈ s.decisions.present) :
    (s.eraseOne id).decisions.present.length < s.decisions.present.length := by
  have hsub : (s.eraseOne id).decisions.present ⊆ s.decisions.present.erase id := by
    intro x hx
    obtain ⟨hx0, hlevel⟩ := Decisions.mem_present.mp hx
    unfold eraseOne at hlevel
    rw [Decisions.signedLevel_override, Int.natAbs_neg] at hlevel
    by_cases habs : x.natAbs = id.natAbs
    · -- what was decided last is that it is absent
      rw [if_pos habs] at hlevel
      exact absurd ((Decisions.signed_pos_iff (-id) _).mp hlevel) (not_pos_neg hpos)
    · rw [if_neg habs] at hlevel
      refine (List.mem_erase_of_ne fun he => habs (congrArg Int.natAbs he)).mpr ?_
      exact Decisions.mem_present.mpr ⟨hx0, hlevel⟩
  have hle := (List.subperm_of_subset (Decisions.nodup_present _) hsub).length_le
  have herase := List.length_erase_of_mem hid
  have hone := List.length_pos_of_mem hid
  omega

/-- **A pass that does not end the loop leaves fewer packages present.** -/
theorem length_present_tidy {erased' : PackageSet}
    (h : tidy (erased, s) = .inl (erased', t)) :
    t.decisions.present.length < s.decisions.present.length := by
  rw [tidy] at h
  cases hfind : s.decisions.present.find? (s.isLeftBehind erased) with
  | none =>
      rw [hfind] at h
      exact absurd h (by simp)
  | some id =>
      rw [hfind] at h
      rw [← (Prod.mk.inj (Sum.inl.inj h)).2]
      have hinstalled := (isLeftBehind_iff.mp (List.find?_some hfind)).1
      exact length_present_eraseOne (Universe.pos_of_isInstalled hinstalled)
        (List.mem_of_find?_eq_some hfind)

/-- Where the loop ends in time, it ends as packages are erased. The pass that ends it erases
nothing. -/
theorem eraseLeftBehind_of_loops {n : Nat} {a : PackageSet × Solution} (h : Loops tidy n a t) :
    ∀ {left : Nat}, n ≤ left + 1 → eraseLeftBehind left a.1 a.2 = t := by
  induction h with
  | @ends a t hbody =>
      intro left _
      cases left with
      | succ left => rw [eraseLeftBehind_succ, hbody, Sum.elim_inr]
      | zero =>
          rw [tidy] at hbody
          split at hbody
          · exact Sum.inr.inj hbody
          · exact absurd hbody (by simp)
  | @again n a b t hbody hrest ih =>
      intro left hleft
      have hn := hrest.pos
      obtain ⟨left, rfl⟩ :=
        Nat.exists_eq_add_of_le' (Nat.le_trans hn (Nat.le_of_succ_le_succ hleft))
      rw [eraseLeftBehind_succ, hbody, Sum.elim_inl]
      exact ih (Nat.le_of_succ_le_succ hleft)

/-- Nothing is required by no packages, so nothing is left behind by them. -/
theorem cleanUp_eq (s : Solution) : s.cleanUp =
    eraseLeftBehind s.decisions.present.length s.context.cleandeps s := by
  unfold cleanUp
  split
  · rename_i hempty
    exact ((cleans_eraseLeftBehind ..).eq_of_spared (PackageSet.contains_of_isEmpty hempty)).symm
  · rfl

/-- **Cleaning up ends**: it takes no more passes than there are packages present, and one. -/
theorem loops_cleanUp (s : Solution) :
    ∃ n ≤ s.decisions.present.length + 1, Loops tidy n (s.context.cleandeps, s) s.cleanUp := by
  obtain ⟨n, hn, -, t, -, -, hloops⟩ := exists_loops (fun _ => True)
    (fun a : PackageSet × Solution => a.2.decisions.present.length)
    (fun _ _ _ hbody => ⟨trivial, length_present_tidy hbody⟩) (s.context.cleandeps, s) trivial
  refine ⟨n, hn, ?_⟩
  rw [cleanUp_eq]
  exact eraseLeftBehind_of_loops hloops hn ▸ hloops

end Solution

/-! ## The solve -/

/-- What comes of a job once its rules are settled. -/
def Setting.conclude (s : Setting) (v : Search.Verdict) : Solution :=
  { world := s.world, flags := s.flags, job := s.job, context := s.context, rules := v.rules
    decisions := v.decisions, problems := v.problems }

/--
**Every solve ends.**

A pass that does not end the loop of a solve gives up a rule that was in force, so there are no more
passes than rules and one. In each of its searches, wherever the search stands, propagation ends.
The walk to the packages that rules are made for ends, and so do cleaning up and the walk to the
packages that are needed, however packages require and recommend each other.
-/
theorem solve_ends (world : Universe) (flags : SolverFlags) (job : Job) :
    let setting := Setting.ofJob world flags job
    let queue := world.installedIds ++
      setting.requested.flatMap fun r => r.literals.filter (0 < ·)
    let before := uncleaned world flags job
    let after := solve world flags job
    (∀ problems s problems' s', Search.pass (problems, s) = .inl (problems', s') →
      ∃ id ∈ s.rules.enabledIds, s' = s.without id) ∧
    (∃ n ≤ setting.ruleSet.size + 1, ∃ v,
      Loops Search.pass n ([], setting.search setting.ruleSet) v ∧ before = setting.conclude v) ∧
    (∀ rules : RuleSet, (∀ r ∈ rules.enabled, r ∈ setting.ruleSet.enabled) →
      ∀ st, SearchState.Reached (setting.search rules) true st →
        ∃ n ≤ (setting.search rules).room, Loops (SearchState.advance rules) n st
          (st.propagate rules (setting.search rules).room)) ∧
    (∃ n ≤ world.span setting.reached queue + 1, ∃ w,
      Loops (world.follow (fun _ => setting.reached) (· ++ ·)) n { queue } w ∧
        setting.visited setting.requested = w.visited) ∧
    (∃ n ≤ before.decisions.present.length + 1, ∃ cleaned,
      Loops Solution.tidy n (setting.context.cleandeps, before) cleaned ∧
        after = if before.isSolved then cleaned else before) ∧
    ∃ n ≤ world.span after.leadsTo after.wanted.reverse + 1, ∃ w,
      Loops after.followLast n { queue := after.wanted.reverse } w ∧
        after.unneeded = .ofList (after.decisions.present.filter fun id =>
          world.isInstalled id && !w.seen.contains id) := by
  intro setting queue before after
  refine ⟨fun _ _ _ _ => Search.gives_up_of_pass, ?_, fun rules hrules st hst => ?_,
    setting.loops_visited _, ?_, ?_⟩
  · have hsettle := Setting.length_enabled_ruleSet setting
    obtain ⟨n, hn, hloops⟩ := Search.loops_settle hsettle
    exact ⟨n, Nat.le_trans hn hsettle, _, hloops, rfl⟩
  · exact hst.loops_propagate fun r hr => setting.sparesZero_search r (hrules r hr)
  · obtain ⟨n, hn, hloops⟩ := before.loops_cleanUp
    exact ⟨n, hn, _, hloops, solve_eq world flags job⟩
  · have hworld : after.world = world := world_solve world flags job
    rw [← hworld]
    exact after.loops_unneeded

/-- The installed `app` requires `lib`, which recommends it. -/
def entangled : Universe :=
  .ofCatalog
    { packages :=
        #[{ plainPackage "app" "1" 0 with requires := [Relation.ofName "lib"] },
          { plainPackage "lib" "1" 0 with recommends := [Relation.ofName "app"] }]
      repos := #[{ name := systemRepoName, priority := defaultPriority, installed := true }]
      installedRepo? := some 0 }

/-- A package that nothing has would be welcome, and `app` goes with what it pulled in. -/
def untangling : Job :=
  [{ action := .install, target := .ofName "gone", flags := .weak },
    { action := .erase, target := .ofName "app", flags := .cleandeps }]

/-- The first pass gives up the request that nothing meets, a later one finds decisions, and
cleaning up goes on to erase `lib`. -/
theorem solve_ends_entangled :
    let setting := Setting.ofJob entangled {} untangling
    (∃ id ∈ setting.ruleSet.enabledIds, ∃ problems,
      Search.pass ([], setting.search setting.ruleSet) =
        .inl (problems, (setting.search setting.ruleSet).without id)) ∧
    (∃ rules st, (∀ r ∈ rules.enabled, r ∈ setting.ruleSet.enabled) ∧
      SearchState.Reached (setting.search rules) true st ∧ ∃ n,
        Loops (SearchState.advance rules) n st
          (st.propagate rules (setting.search rules).room)) ∧
    (uncleaned entangled {} untangling).decisions.present = [2] ∧
    (solve entangled {} untangling).isSolved = true ∧
    (solve entangled {} untangling).decisions.present = [] := by
  intro setting
  obtain ⟨hgives, -, hpropagates, -⟩ := solve_ends entangled {} untangling
  have hsolved : (solve entangled {} untangling).isSolved = true := by decide +kernel
  refine ⟨?_, ?_, by decide +kernel, hsolved, by decide +kernel⟩
  · have hleft : (Search.pass ([], setting.search setting.ruleSet)).isLeft = true := by
      decide +kernel
    obtain ⟨⟨problems, s⟩, hpass⟩ := Sum.isLeft_iff.mp hleft
    obtain ⟨id, hid, hs⟩ := hgives _ _ _ _ hpass
    exact ⟨id, hid, problems, hs ▸ hpass⟩
  · have hrules : ∀ r ∈ (uncleaned entangled {} untangling).rules.enabled,
        r ∈ setting.ruleSet.enabled := fun _ hr => (solves_of_isSolved hsolved).1.mem_enabled hr
    have hstart : (Search.decideAssertions? (uncleaned entangled {} untangling).rules.enabled
        (setting.search (uncleaned entangled {} untangling).rules).start).isSome = true := by
      decide +kernel
    obtain ⟨d, hd⟩ := Option.isSome_iff_exists.mp hstart
    obtain ⟨n, -, hloops⟩ := hpropagates _ hrules _ (.start hd)
    exact ⟨_, _, hrules, .start hd, n, hloops⟩

end DepSolver
