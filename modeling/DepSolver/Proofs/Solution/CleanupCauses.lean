import DepSolver.Proofs.Search.Grounds
import DepSolver.Proofs.Search.Invariants
import DepSolver.Proofs.Solution.Requests

/-!
# What is recorded as cleaned up, and for whom

A search gives many reasons, but never that of cleaning up: no step of it, forward or back, puts that
reason into the queue or on a branch. So a package with this reason was taken by cleaning up, which
looks at what the package is and at what required it.

What required it is followed back to the packages that the job erases together with what they
pulled in. These are read off the job before anything is solved. An erasure that is hard takes place
in every solution, but a weak one may be given up, and cleaning up does not ask whether it was. So
behind a package that was taken there is another that really went, or else one that was spared by
giving up its erasure; the requirements of the latter are met by other packages.
-/

namespace DepSolver

/-! ## The reasons that a search gives -/

/-- **Decisions and branches as a search makes them**: none is due to cleaning up. -/
structure Searched (d : Decisions) (bs : List Branch) : Prop where
  queue : ∀ q ∈ d.queue.toList, q.2 ≠ .cleanDeps
  branches : ∀ b ∈ bs, b.reason ≠ .cleanDeps

section

variable {s : Search} {d e : Decisions} {bs : List Branch}

theorem Searched.extends {P : Literal → Reason → Prop} (h : Searched d bs) (hext : d.Extends P e)
    (hP : ∀ l reason, P l reason → reason ≠ .cleanDeps) : Searched e bs := by
  obtain ⟨new, heq, hnew⟩ := hext.queue
  refine ⟨?_, h.branches⟩
  intro q hq
  rw [heq] at hq
  rcases List.mem_append.mp hq with hq | hq
  · exact h.queue q hq
  · exact hP _ _ (hnew q hq).1

theorem Choice.reason_of_ruleChoice? {c : Choice} {r : Rule}
    (h : s.ruleChoice? d r = some c) : c.reason ≠ .cleanDeps := by
  unfold Search.ruleChoice? at h
  dsimp only at h
  split at h
  · exact absurd h (by simp)
  · rw [Choice.reason_of_ofAlternatives? h]
    exact Reason.noConfusion

theorem Choice.reason_of_recommendationChoice? {c : Choice} {id : PackageId} {r : Relation}
    (h : s.recommendationChoice? d id r = some c) : c.reason ≠ .cleanDeps := by
  unfold Search.recommendationChoice? at h
  dsimp only at h
  split at h
  · exact absurd h (by simp)
  · rw [Choice.reason_of_ofAlternatives? h]
    exact Reason.noConfusion

theorem Choice.reason_of_weakChoice? {c : Choice} (h : s.weakChoice? d = some c) :
    c.reason ≠ .cleanDeps := by
  unfold Search.weakChoice? at h
  split at h
  · exact absurd h (by simp)
  · obtain ⟨id, -, hchoice⟩ := List.exists_of_findSome?_eq_some h
    unfold Search.packageChoice? at hchoice
    split at hchoice
    · exact absurd hchoice (by simp)
    · obtain ⟨p, -, hfirst⟩ := Option.bind_eq_some_iff.mp hchoice
      obtain ⟨r, -, hrecommended⟩ := List.exists_of_findSome?_eq_some hfirst
      exact Choice.reason_of_recommendationChoice? hrecommended

/-- No choice is made in order to clean up. -/
theorem Choice.reason_of_choice? {c : Choice} (h : s.choice? s.rules.enabled d = some c) :
    c.reason ≠ .cleanDeps := by
  unfold Search.choice? at h
  split at h
  · rename_i found hfound
    obtain rfl := Option.some.inj h
    obtain ⟨r, -, hchoice⟩ := List.exists_of_findSome?_eq_some hfound
    exact Choice.reason_of_ruleChoice? hchoice
  · split at h
    · rename_i found hfound
      obtain rfl := Option.some.inj h
      exact Choice.reason_of_weakChoice? hfound
    · unfold Search.keepChoice? at h
      obtain ⟨id, -, rfl⟩ := Option.map_eq_some_iff.mp h
      exact Reason.noConfusion

/-- **No round of a search records that a package was cleaned up.** -/
theorem maintains_searched (s : Search) : s.Maintains fun _ => Searched where
  forced h hext := by
    refine h.extends hext fun l reason hrule => ?_
    obtain ⟨rule, rfl⟩ := hrule
    exact Reason.noConfusion
  opened h hc := ⟨h.queue, List.forall_mem_cons.mpr ⟨Choice.reason_of_choice? hc, h.branches⟩⟩
  decided h hext := by
    refine h.extends hext fun l reason heq => ?_
    rw [heq]
    exact h.branches _ List.mem_cons_self
  wentBelow h rows := by
    obtain ⟨hb, houter⟩ := List.forall_mem_cons.mp h.branches
    refine ⟨?_, List.forall_mem_cons.mpr ⟨hb, houter⟩⟩
    exact fun q hq => h.queue q (Decisions.mem_queue_revert.mp hq).1
  gaveUp h := ⟨h.queue, fun c hc => h.branches c (List.mem_cons_of_mem _ hc)⟩

theorem searched_run (hd : s.run = .satisfied d) : Searched d [] := by
  have hstart : Searched s.start [] :=
    ⟨fun q hq => absurd hq List.not_mem_nil, fun b hb => absurd hb List.not_mem_nil⟩
  obtain ⟨_, _, -, h⟩ := (maintains_searched s).run hstart hd
  exact ⟨h.queue, fun b hb => absurd hb List.not_mem_nil⟩

end

/-! ## What cleaning up takes -/

/-- Whether a weak entry erases a package together with what it pulled in. -/
def Job.CleansUpWeakly (world : Universe) (job : Job) (id : PackageId) : Prop :=
  ∃ e ∈ job, e.isWeak = true ∧ e.action = .erase ∧ e.flags.contains .cleandeps = true ∧
    id ∈ e.target.resolve world

/-- **What became of a package** after which another one was cleaned up. -/
inductive CleanedAfter (world : Universe) (flags : SolverFlags) (job : Job)
    (id other : PackageId) : Prop where
  /-- It is gone. -/
  | gone (habsent : other ∉ (solve world flags job).decisions.present)
  /-- Its erasure was given up, and what it required of the one cleaned up is still met. -/
  | spared (hweak : job.CleansUpWeakly world other)
      (hstays : other ∈ (solve world flags job).decisions.present)
      (hmet : ∀ p, world.package? other = some p → ∀ r ∈ p.requires, id ∈ world.whatProvides r →
        ∃ q ∈ (solve world flags job).decisions.present, q ∈ world.whatProvides r)

section

variable {world : Universe} {flags : SolverFlags} {job : Job} {e : JobEntry} {id : PackageId}
  (h : (solve world flags job).isSolved = true)
include h

/-- Before cleaning up, no package has its reason. -/
theorem reason?_uncleaned_ne (id : PackageId) :
    (uncleaned world flags job).decisions.reason? id ≠ some .cleanDeps := by
  have hsolved := h
  rw [isSolved_solve, Solution.isSolved_iff] at hsolved
  obtain ⟨-, -, hrun⟩ := Search.settle_of_problems_eq_nil _ _ _ hsolved
  intro hreason
  unfold Decisions.reason? at hreason
  obtain ⟨q, hfind, hq⟩ := Option.map_eq_some_iff.mp hreason
  rw [← Array.find?_toList] at hfind
  exact (searched_run hrun).queue q (List.mem_of_find?_eq_some hfind) hq

/-- **A package with the reason of cleaning up was erased by it**, -/
theorem erased_of_reason? (hpos : 0 < id)
    (hreason : (solve world flags job).decisions.reason? id = some .cleanDeps) :
    Solution.Erased (uncleaned world flags job).context.cleandeps (uncleaned world flags job)
      (solve world flags job) id := by
  rcases (cleans_solve h).same_or_erased (coherent_uncleaned h) id hpos with hsame | herased
  · rw [hsame.2] at hreason
    exact absurd hreason (reason?_uncleaned_ne h id)
  · exact herased

/-- after the search had decided that it is present. -/
theorem takenAway_of_reason? (hpos : 0 < id)
    (hreason : (solve world flags job).decisions.reason? id = some .cleanDeps) :
    TakenAway world flags job id := by
  have herased := erased_of_reason? h hpos hreason
  have hbefore : id ∈ (uncleaned world flags job).decisions.present :=
    (coherent_uncleaned h).mem_present.mpr ⟨hpos, herased.present⟩
  refine (mem_present_or_takenAway h hbefore).resolve_left fun hin => ?_
  have hpresent := (((cleans_solve h).coherent (coherent_uncleaned h)).mem_present.mp hin).2
  rw [herased.absent] at hpresent
  exact Bool.false_ne_true hpresent

/-- A package that the job erases with what it pulled in is gone, or its erasure was weak. -/
theorem not_mem_solve_or_cleansUpWeakly (hclean : job.CleansUp world id) :
    id ∉ (solve world flags job).decisions.present ∨ job.CleansUpWeakly world id := by
  obtain ⟨e, he, hact, hflag, hid, -⟩ := hclean
  cases hweak : e.isWeak with
  | true => exact .inr ⟨e, he, hweak, hact, hflag, hid⟩
  | false =>
      refine .inl fun hin => ?_
      exact not_mem_uncleaned_of_erase h he hact hweak hid (mem_uncleaned_present h hin)

/-- What a package required that stays, and one that was taken provided, another package provides. -/
theorem exists_provider_of_mem_solve {other : PackageId} {p : Package} {r : Relation}
    (hother : other ∈ (solve world flags job).decisions.present)
    (hp : world.package? other = some p) (hr : r ∈ p.requires) (hpos : 0 < id)
    (hreason : (solve world flags job).decisions.reason? id = some .cleanDeps)
    (hprovides : id ∈ world.whatProvides r) :
    ∃ q ∈ (solve world flags job).decisions.present, q ∈ world.whatProvides r := by
  have hcoherent := coherent_uncleaned h
  have herased := erased_of_reason? h hpos hreason
  have hne : id ≠ other := by
    rintro rfl
    exact (takenAway_of_reason? h hpos hreason).absent hother
  obtain ⟨q, hq, -, hqpresent⟩ := (cleans_solve h).requirement_met hcoherent hother hp hr
    ⟨id, hprovides, hne, herased.present⟩
  refine ⟨q, ?_, hq⟩
  have hqpos := Universe.pos_of_isConsidered (Universe.isConsidered_of_mem_whatProvides hq)
  exact ((cleans_solve h).coherent hcoherent).mem_present.mpr ⟨hqpos, hqpresent⟩

/-- **Behind what was taken stands a package that is gone**, or one that was spared. -/
theorem exists_cleanedAfter (hpos : 0 < id)
    (hreason : (solve world flags job).decisions.reason? id = some .cleanDeps) :
    ∃ other, world.isInstalled other = true ∧ Solution.Requires world other id ∧
      CleanedAfter world flags job id other := by
  obtain ⟨other, hrequires, hgone⟩ := (takenAway_of_reason? h hpos hreason).required
  refine ⟨other, ?_, hrequires, ?_⟩
  · -- only installed packages are erased in either way
    rcases hgone with hclean | htaken
    · obtain ⟨e, -, -, -, -, hinstalled⟩ := hclean
      exact hinstalled
    · obtain ⟨p, hp, -⟩ := hrequires
      exact (takenAway_of_reason? h (Catalog.pos_of_package? hp) htaken).installed
  · by_cases hstays : other ∈ (solve world flags job).decisions.present
    · rcases hgone with hclean | htaken
      · rcases not_mem_solve_or_cleansUpWeakly h hclean with habsent | hweak
        · exact absurd hstays habsent
        · refine .spared hweak hstays ?_
          intro p hp r hr hprovides
          exact exists_provider_of_mem_solve h hstays hp hr hpos hreason hprovides
      · obtain ⟨p, hp, -⟩ := hrequires
        exact absurd hstays (takenAway_of_reason? h (Catalog.pos_of_package? hp) htaken).absent
    · exact .gone hstays

end

/--
**Cleaning up takes what was required by packages that go**, or by packages that were to go.

Whatever has the reason of cleaning up was installed, was not wanted by a user, was not decided by a
request in the search, and is gone. Behind it stands an installed package that required it. That
package is gone as well, unless its erasure was weak and was given up; then its requirement is met by
another package that stays. So if every package goes that a weak entry erases with what it pulled
in, cleaning up takes only what packages required that really go.
-/
theorem cleanedUp_after (world : Universe) (flags : SolverFlags) (job : Job)
    (h : (solve world flags job).isSolved = true) (id : PackageId) (hpos : 0 < id)
    (hreason : (solve world flags job).decisions.reason? id = some .cleanDeps) :
    (world.isInstalled id = true ∧ ¬job.WantsKept world id ∧
      (uncleaned world flags job).isDecidedByRequest id = false ∧
      id ∉ (solve world flags job).decisions.present) ∧
    (∃ other, world.isInstalled other = true ∧ Solution.Requires world other id ∧
      CleanedAfter world flags job id other) ∧
    ((∀ x, job.CleansUpWeakly world x → x ∉ (solve world flags job).decisions.present) →
      ∃ other, world.isInstalled other = true ∧ Solution.Requires world other id ∧
        other ∉ (solve world flags job).decisions.present) := by
  have htaken := takenAway_of_reason? h hpos hreason
  have hafter := exists_cleanedAfter h hpos hreason
  refine ⟨⟨htaken.installed, htaken.unwanted, htaken.undecided, htaken.absent⟩, hafter, ?_⟩
  intro hnone
  obtain ⟨other, hinstalled, hrequires, hcleaned⟩ := hafter
  refine ⟨other, hinstalled, hrequires, ?_⟩
  cases hcleaned with
  | gone habsent => exact habsent
  | spared hweak _ _ => exact hnone other hweak

/-! ## A package that is missed by nobody who went -/

/-- Four installed packages: `desk` requires `app`, and `app` what two packages provide. -/
def twoFold : Universe :=
  .ofCatalog
    { packages :=
        #[{ plainPackage "desk" "1" 0 with requires := [Relation.ofName "app"] },
          { plainPackage "app" "1" 0 with requires := [Relation.ofName "lib"] },
          plainPackage "lib" "1" 0,
          { plainPackage "spare" "1" 0 with provides := [Relation.ofName "lib"] }]
      repos := #[{ name := systemRepoName, priority := defaultPriority, installed := true }]
      installedRepo? := some 0 }

/-- The optional erasure of `app` with what it pulled in, which `desk` stands against. -/
def optionalErasure : Job :=
  [{ action := .erase, target := .ofName "app", flags := .weak ||| .cleandeps }]

/-- The erasure is given up, but `lib` is taken all the same, and nothing that required it is gone. -/
theorem cleanedUp_after_optionalErasure :
    (solve twoFold {} optionalErasure).isSolved = true ∧
    (solve twoFold {} optionalErasure).decisions.reason? 3 = some .cleanDeps ∧
    (solve twoFold {} optionalErasure).decisions.present = [1, 2, 4] ∧
    (∃ other, twoFold.isInstalled other = true ∧ Solution.Requires twoFold other 3 ∧
      CleanedAfter twoFold {} optionalErasure 3 other) ∧
    ¬∃ other, twoFold.isInstalled other = true ∧ Solution.Requires twoFold other 3 ∧
      other ∉ (solve twoFold {} optionalErasure).decisions.present := by
  have hsolved : (solve twoFold {} optionalErasure).isSolved = true := by decide +kernel
  have hreason : (solve twoFold {} optionalErasure).decisions.reason? 3 = some .cleanDeps := by
    decide +kernel
  have hpresent : (solve twoFold {} optionalErasure).decisions.present = [1, 2, 4] := by
    decide +kernel
  have hafter := cleanedUp_after twoFold {} optionalErasure hsolved 3 (by decide) hreason
  refine ⟨hsolved, hreason, hpresent, hafter.2.1, ?_⟩
  intro hgone
  obtain ⟨other, hinstalled, hrequires, habsent⟩ := hgone
  rw [hpresent] at habsent
  have honly : ∀ x ∈ twoFold.installedIds, x ∉ [1, 2, 4] → x = 3 := by decide +kernel
  obtain rfl := honly other (Universe.mem_installedIds.mpr hinstalled) habsent
  -- only `lib` itself is absent, and it requires nothing
  obtain ⟨p, hp, r, hr, -⟩ := hrequires
  have hfree : twoFold.package? 3 = some (plainPackage "lib" "1" 0) := by decide +kernel
  rw [hfree] at hp
  obtain rfl := Option.some.inj hp
  exact absurd hr List.not_mem_nil

end DepSolver
