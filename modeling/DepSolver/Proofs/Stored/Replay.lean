import DepSolver.Proofs.Goal.Protection
import DepSolver.Proofs.Solution.JobWording
import DepSolver.Proofs.Solution.Transfer
import DepSolver.Proofs.Stored.Reload

/-!
# Runs repeated from their records

A record holds the description of a universe, the job with packages named by their keys, and what
came of the run. The universe read from it is numbered by repository, and the job read from it names
the same packages by their new numbers, so a record can always be repeated.

Whether the same comes of it depends on the numbers. A search tries packages, and leaves rules out
of a core, in an order that numbers decide where nothing else does. If packages stood in the order
of their repositories, their numbers are as they were, and then all that is lost are excluded
numbers without a package and modifiers without a name, which a solve overlooks. If they did not,
other packages may be chosen or blamed, but the hard rules ask for the same, and so whether the job
is solved stays the same.
-/

namespace DepSolver

/-! ## The job of a record -/

/-- The target with packages under other numbers. -/
def JobTarget.renumbered (σ : PackageId → PackageId) : JobTarget → JobTarget
  | .package id => .package (σ id)
  | .oneOf packages => .oneOf (.ofList (packages.toList.map σ))
  | .name relation arch => .name relation arch
  | .provides relation arch => .provides relation arch
  | .repo wanted => .repo wanted
  | .all => .all

/-- The entry with packages under other numbers, and the modifiers that have a name. -/
def JobEntry.renumbered (σ : PackageId → PackageId) (e : JobEntry) : JobEntry :=
  { action := e.action, target := e.target.renumbered σ, flags := e.flags.known }

/-- Whether the packages that a target names exist, and its relation is read back. -/
def JobTarget.IsStorable (u : Universe) : JobTarget → Prop
  | .package id => id ∈ u.ids
  | .oneOf packages => ∀ id ∈ packages.toList, id ∈ u.ids
  | .name relation _ => relation.ReadsBack
  | .provides relation _ => relation.ReadsBack
  | .repo _ => True
  | .all => True

/-- Whether every target of a job can be stored. -/
def Job.IsStorable (u : Universe) (job : Job) : Prop := ∀ e ∈ job, e.target.IsStorable u

theorem JobFlags.ofNames_names (a : JobFlags) : JobFlags.ofNames a.names = .ok a.known := by
  have hknown : ∀ f ∈ named, ofName? f.2 = some f.1 := by decide
  unfold ofNames names known
  rw [List.foldlM_map]
  refine foldlM_eq_ok _ fun f hf b => ?_
  rw [hknown f (List.mem_of_mem_filter hf)]

section Recorded

variable {u : Universe}

theorem findKey_reloaded (h : u.Built) (hkeys : u.toCatalog.KeysDistinct) {id : PackageId}
    (hid : id ∈ u.ids) : (Universe.ofCatalog u.toCatalog.reloaded).findKey? (u.keyOrNumber id) =
      some (u.renumber id) := by
  have hc := h.wellFormed.housed
  obtain ⟨key, hkey⟩ := Option.isSome_iff_exists.mp (Catalog.packageKey?_isSome hc hid)
  unfold Universe.keyOrNumber
  rw [hkey]
  exact Catalog.findKey?_reloaded hc hkeys hkey

theorem JobTarget.ofStored_toStored (h : u.Built) (hkeys : u.toCatalog.KeysDistinct)
    {target : JobTarget} (ht : target.IsStorable u) :
    ofStored (.ofCatalog u.toCatalog.reloaded) (target.toStored u) =
      .ok (target.renumbered u.renumber) := by
  cases target with
  | package id =>
      unfold toStored ofStored Universe.findKey
      dsimp only
      rw [findKey_reloaded h hkeys ht]
      rfl
  | oneOf packages =>
      have hfound := Universe.findKeys_map fun id hid => findKey_reloaded h hkeys (ht id hid)
      unfold toStored ofStored
      dsimp only
      rw [hfound]
      rfl
  | name relation arch =>
      have hread : Relation.parse relation.toText = .ok relation := ht
      unfold toStored ofStored
      dsimp only
      rw [hread]
      rfl
  | provides relation arch =>
      have hread : Relation.parse relation.toText = .ok relation := ht
      unfold toStored ofStored
      dsimp only
      rw [hread]
      rfl
  | repo wanted => rfl
  | all => rfl

theorem JobEntry.ofStored_toStored (h : u.Built) (hkeys : u.toCatalog.KeysDistinct)
    {e : JobEntry} (he : e.target.IsStorable u) :
    ofStored (.ofCatalog u.toCatalog.reloaded) (e.toStored u) =
      .ok (e.renumbered u.renumber) := by
  unfold toStored ofStored
  dsimp only
  rw [JobFlags.ofNames_names, JobTarget.ofStored_toStored h hkeys he]
  rfl

/-- **The job of a record is read back**, under the numbers of the universe of the record. -/
theorem mapM_ofStored_toStored (h : u.Built) (hkeys : u.toCatalog.KeysDistinct) {job : Job}
    (hjob : job.IsStorable u) :
    (job.map (JobEntry.toStored u)).mapM (JobEntry.ofStored (.ofCatalog u.toCatalog.reloaded)) =
      .ok (job.map (JobEntry.renumbered u.renumber)) := by
  rw [List.mapM_map]
  exact mapM_eq_ok fun e he => JobEntry.ofStored_toStored h hkeys (hjob e he)

end Recorded

/-! ## Packages in the order of their repositories -/

namespace Catalog

variable {c : Catalog} {id : PackageId}

/-- Whether packages stand in the order of their repositories. -/
def Grouped (c : Catalog) : Prop := c.packages.toList.Pairwise fun p q => p.repo ≤ q.repo

theorem regrouped_of_grouped (hc : c.Housed) (hg : c.Grouped) : c.regrouped = c.numbered := by
  have hbefore : c.numbered.Pairwise ListedBefore := by
    unfold Grouped at hg
    rw [← map_snd_numbered, List.pairwise_map] at hg
    refine (c.pairwise_numbered.and hg).imp fun {x y} hxy => ?_
    exact (Nat.lt_or_eq_of_le hxy.2).imp id fun heq => ⟨heq, hxy.1⟩
  refine List.Perm.eq_of_pairwise (fun x y _ _ hxy hyx => absurd hyx hxy.asymm)
    c.pairwise_regrouped hbefore ?_
  refine (List.perm_ext_iff_of_nodup (c.pairwise_regrouped.imp ListedBefore.ne)
    (hbefore.imp ListedBefore.ne)).mpr fun x => ?_
  rw [mem_regrouped]
  exact (and_iff_left_of_imp fun h => hc x.1 x.2 h).trans mem_numbered.symm

/-- Then their numbers stay as they are. -/
theorem renumber_of_grouped (hc : c.Housed) (hg : c.Grouped) (hid : id ∈ c.ids) :
    c.renumber id = id := by
  have hnodup := c.nodup_map_regrouped
  unfold renumber
  rw [regrouped_of_grouped hc hg, map_numbered] at hnodup ⊢
  obtain ⟨i, hi, rfl⟩ := List.getElem_of_mem hid
  have hget : c.ids[i] = (i : Int) + 1 := by simp [ids]
  rw [hnodup.idxOf_getElem i hi, hget]

theorem reloaded_of_grouped (hc : c.Housed) (hg : c.Grouped) :
    c.reloaded = { c with excludes := c.reloaded.excludes } := by
  have hpackages : (c.regrouped.map (·.2)).toArray = c.packages := by
    rw [regrouped_of_grouped hc hg, map_snd_numbered, Array.toArray_toList]
  unfold reloaded
  rw [hpackages]

end Catalog

/-! ## The same run -/

section Grouped

variable {u : Universe}

/-- Sets with the same members are listed alike. -/
theorem PackageSet.toList_congr {s t : PackageSet} (h : ∀ id, s.contains id = t.contains id) :
    s.toList = t.toList :=
  toList_eq t.pairwise_toList fun id => by rw [mem_toList, h]

/-- The universe of a record is the universe of the run with other numbers excluded. -/
theorem exists_withExcludes (h : u.Built) (hg : u.toCatalog.Grouped) :
    ∃ excludes hindex,
      Universe.ofCatalog u.toCatalog.reloaded = u.withExcludes excludes hindex := by
  have hc := h.wellFormed.housed
  have hindex : Index.build { u.toCatalog with excludes := u.toCatalog.reloaded.excludes } =
      Index.build u.toCatalog := by
    refine Index.build_excludes fun id hid => ?_
    have hsame := Catalog.excludes_reloaded hc hid
    rwa [Catalog.renumber_of_grouped hc hg hid] at hsame
  have hcatalog := congrArg Universe.ofCatalog (Catalog.reloaded_of_grouped hc hg)
  exact ⟨_, hindex, hcatalog.trans (Universe.ofCatalog_excludes hindex)⟩

theorem JobTarget.restates_renumbered (h : u.Built) (hg : u.toCatalog.Grouped)
    {target : JobTarget} (ht : target.IsStorable u) :
    (target.renumbered u.renumber).Restates u target := by
  have hc := h.wellFormed.housed
  cases target with
  | package id =>
      have hid : u.renumber id = id := Catalog.renumber_of_grouped hc hg ht
      show (JobTarget.package (u.renumber id)).Restates u _
      rw [hid]
      exact ⟨rfl, rfl, fun _ => rfl⟩
  | oneOf packages =>
      have hmap : packages.toList.map u.renumber = packages.toList :=
        (List.map_congr_left fun id hid => Catalog.renumber_of_grouped hc hg (ht id hid)).trans
          (List.map_id _)
      have hcontains : ∀ id, (PackageSet.ofList packages.toList).contains id =
          packages.contains id := by
        intro id
        rw [Bool.eq_iff_iff, PackageSet.contains_ofList, PackageSet.mem_toList]
        exact and_iff_right_of_imp PackageSet.pos_of_contains
      have hlist := PackageSet.toList_congr hcontains
      show (JobTarget.oneOf (.ofList (packages.toList.map u.renumber))).Restates u _
      rw [hmap]
      refine ⟨PackageSet.toList_congr fun id => ?_, ?_, fun _ => rfl⟩
      · rw [Bool.eq_iff_iff, PackageSet.contains_inter, PackageSet.contains_inter, hcontains]
      · unfold describe
        dsimp only
        rw [hlist]
  | name relation arch => exact ⟨rfl, rfl, fun _ => rfl⟩
  | provides relation arch => exact ⟨rfl, rfl, fun _ => rfl⟩
  | repo wanted => exact ⟨rfl, rfl, fun _ => rfl⟩
  | all => exact ⟨rfl, rfl, fun _ => rfl⟩

/-- **What a run comes to in the universe of its record**, if numbers stay as they are. -/
theorem result_solve_reloaded (h : u.Built) (hg : u.toCatalog.Grouped) (flags : SolverFlags)
    {job : Job} (hjob : job.IsStorable u) :
    (solve (.ofCatalog u.toCatalog.reloaded) flags
      (job.map (JobEntry.renumbered u.renumber))).result = (solve u flags job).result := by
  obtain ⟨excludes, hindex, heq⟩ := exists_withExcludes h hg
  have hrestates : ∀ e ∈ job, (e.renumbered u.renumber).Restates u e := fun e he =>
    ⟨rfl, JobTarget.restates_renumbered h hg (hjob e he), rfl⟩
  have hworld := world_solve u flags (job.map (JobEntry.renumbered u.renumber))
  rw [heq, solve_withExcludes flags _ hindex, Solution.result_retold hindex _ hworld,
    solve_restated flags hrestates]
  have hself : ((solve u flags job).retold (u.withExcludes u.excludes rfl)
      (job.map (JobEntry.renumbered u.renumber))).result = (solve u flags job).result :=
    Solution.result_retold rfl _ (world_solve u flags job)
  exact hself

end Grouped

/-! ## The same verdict -/

section Verdict

variable {u v : Universe} {σ τ : PackageId → PackageId}

theorem archFits_renumbered (h : u.Renumbers v σ τ) (arch : Option String) {id : PackageId}
    (hid : id ∈ u.ids) : JobTarget.archFits v arch (σ id) = JobTarget.archFits u arch id := by
  unfold JobTarget.archFits
  rw [h.package id hid]

/-- A target stands for the same packages under other numbers. -/
theorem JobTarget.corresponds_renumbered (h : u.Renumbers v σ τ) {target : JobTarget}
    (ht : target.IsStorable u) :
    u.Corresponds v σ (target.resolve u) ((target.renumbered σ).resolve v) := by
  cases target with
  | package id =>
      show u.Corresponds v σ (if u.isConsidered id then [id] else [])
        (if v.isConsidered (σ id) then [σ id] else [])
      rw [h.isConsidered id ht]
      split
      · exact .singleton h ht
      · exact .nil
  | oneOf packages =>
      have hvisible := (Universe.Corresponds.image h ht).filter (P := u.isConsidered)
        (Q := v.isConsidered) h.isConsidered
      refine hvisible.congr (fun id => ?_) fun id => ?_
      · show id ∈ (packages.inter u.considered).toList ↔ _
        rw [PackageSet.mem_toList, PackageSet.contains_inter, List.mem_filter,
          PackageSet.mem_toList]
        rfl
      · show id ∈ ((PackageSet.ofList (packages.toList.map σ)).inter v.considered).toList ↔ _
        rw [PackageSet.mem_toList, PackageSet.contains_inter, List.mem_filter,
          PackageSet.contains_ofList]
        refine and_congr_left fun hconsidered => and_iff_right ?_
        exact PackageSet.pos_of_contains hconsidered
  | name relation arch =>
      refine (h.packagesByName relation.name).filter fun id hid => ?_
      rw [h.package id hid, archFits_renumbered h arch hid]
  | provides relation arch =>
      exact (h.whatProvides relation).filter fun id hid => archFits_renumbered h arch hid
  | repo wanted =>
      refine h.ids.filter fun id hid => ?_
      rw [h.isConsidered id hid, h.packageRepo id hid]
  | all => exact h.considered

theorem Job.corresponds_renumbered (h : u.Renumbers v σ τ) {job : Job} (hjob : job.IsStorable u) :
    job.Corresponds u v σ (job.map (JobEntry.renumbered σ)) := by
  refine List.forall₂_map_right_iff.mpr (List.forall₂_same.mpr fun e he => ?_)
  exact ⟨rfl, JobTarget.corresponds_renumbered h (hjob e he),
    JobFlags.contains_known (f := (.weak, "weak")) (by decide) _,
    JobFlags.contains_known (f := (.forcebest, "forcebest")) (by decide) _⟩

/-- **Whether a run is solved does not change in the universe of its record.** -/
theorem isSolved_solve_reloaded (h : u.Built) (hr : ∀ id ∈ u.ids, u.HasRelease id)
    (flags : SolverFlags) {job : Job} (hjob : job.IsStorable u)
    (hx : ∀ t ∈ solveSearches u flags job, t.run.isExhausted = false)
    (hx' : ∀ t ∈ solveSearches (.ofCatalog u.toCatalog.reloaded) flags
      (job.map (JobEntry.renumbered u.renumber)), t.run.isExhausted = false) :
    (solve (.ofCatalog u.toCatalog.reloaded) flags
      (job.map (JobEntry.renumbered u.renumber))).isSolved = (solve u flags job).isSolved := by
  obtain ⟨τ, hσ⟩ := (Universe.regroups_reloaded h.wellFormed.housed).renumbers
  exact isSolved_renumbered hσ hr (Job.corresponds_renumbered hσ hjob) hx hx'

end Verdict

/-- The record of a solve. -/
theorem ofSolution_solve (u : Universe) (flags : SolverFlags) (job : Job) :
    Testcase.ofSolution (solve u flags job) =
      { world := u.toStored, job := job.map (JobEntry.toStored u), flags
        result := some (solve u flags job).result } := by
  have hfields : (solve u flags job).world = u ∧ (solve u flags job).flags = flags ∧
      (solve u flags job).job = job := by
    rw [solve_eq]
    split
    · rw [(Solution.cleans_cleanUp _).eq_withDecisions]
      exact ⟨rfl, rfl, rfl⟩
    · exact ⟨rfl, rfl, rfl⟩
  obtain ⟨hworld, hflags, hjob⟩ := hfields
  unfold Testcase.ofSolution
  rw [hworld, hflags, hjob]

/--
**When a record repeats its run.**

A record of a universe that was put together step by step, in which no two packages share a key and
all texts are read back, can always be repeated. If its packages stood in the order of their
repositories, the same comes of it, to the letter. In whatever order they stood, at least the
verdict is the same, as long as all versions have a release and no search runs out of rounds.
-/
theorem replay {u : Universe} (h : u.Built) (hkeys : u.toCatalog.KeysDistinct)
    (htexts : u.toCatalog.ReadsBack) (flags : SolverFlags) {job : Job} (hjob : job.IsStorable u) :
    let t := Testcase.ofSolution (solve u flags job)
    ∃ v j, t.toUniverse = .ok v ∧ t.toJob v = .ok j ∧
      (u.toCatalog.Grouped → some (solve v t.flags j).result = t.result) ∧
      ((∀ id ∈ u.ids, u.HasRelease id) →
        (∀ s ∈ solveSearches u flags job, s.run.isExhausted = false) →
        (∀ s ∈ solveSearches v t.flags j, s.run.isExhausted = false) →
          (solve v t.flags j).isSolved = (solve u flags job).isSolved) := by
  intro t
  have ht : t = _ := ofSolution_solve u flags job
  refine ⟨.ofCatalog u.toCatalog.reloaded, job.map (JobEntry.renumbered u.renumber), ?_, ?_,
    fun hg => ?_, fun hr hx => ?_⟩
  · rw [ht]
    exact Universe.ofStored_toStored h hkeys htexts
  · rw [ht]
    exact mapM_ofStored_toStored h hkeys hjob
  · rw [ht]
    exact congrArg some (result_solve_reloaded h hg flags hjob)
  · rw [ht]
    exact isSolved_solve_reloaded h hr flags hjob hx

/-! ## Packages out of order -/

namespace Universe

/-- The repository of installed packages, and one of available packages. -/
def twoRepos : Universe := (empty.installedRepo.2.addRepo "available" defaultPriority).2

theorem built_twoRepos : twoRepos.Built := Built.empty.installedRepo.addRepo _ _

/-- A package that provides mail. -/
def offering (name : String) : Package :=
  { requiring name [] with provides := [Relation.ofName "mail"] }

/-- A package that puts up with no provider of mail. -/
def refusing : Package := { requiring "strict" [] with conflicts := [Relation.ofName "mail"] }

/-- The installed provider after the available packages. -/
def interleaved : Universe :=
  (((twoRepos.addPackage 1 (offering "new")).2.addPackage 1 refusing).2.addPackage 0
    (offering "old")).2

/-- The same packages by repository. -/
def ordered : Universe :=
  (((twoRepos.addPackage 0 (offering "old")).2.addPackage 1 (offering "new")).2.addPackage 1
    refusing).2

theorem built_interleaved : interleaved.Built := by
  have hnew := built_twoRepos.addPackage (show 1 < _ by decide) (offering "new")
  have hstrict := hnew.addPackage (show 1 < _ by decide) refusing
  exact hstrict.addPackage (show 0 < _ by decide) (offering "old")

theorem built_ordered : ordered.Built := by
  have hold := built_twoRepos.addPackage (show 0 < _ by decide) (offering "old")
  have hnew := hold.addPackage (show 1 < _ by decide) (offering "new")
  exact hnew.addPackage (show 1 < _ by decide) refusing

theorem readsBack_offering (name : String) (repo : Nat) :
    { offering name with repo }.ReadsBack := by
  have hmail : ∀ r ∈ [Relation.ofName "mail"], r.ReadsBack := List.forall_mem_singleton.mpr rfl
  have hnone : ∀ r ∈ ([] : List Relation), r.ReadsBack := List.forall_mem_nil _
  exact ⟨parse_plainEvr, hmail, hnone, hnone, hnone, hnone⟩

theorem readsBack_refusing : { refusing with repo := 1 }.ReadsBack := by
  have hmail : ∀ r ∈ [Relation.ofName "mail"], r.ReadsBack := List.forall_mem_singleton.mpr rfl
  have hnone : ∀ r ∈ ([] : List Relation), r.ReadsBack := List.forall_mem_nil _
  exact ⟨parse_plainEvr, hnone, hnone, hmail, hnone, hnone⟩

theorem readsBack_interleaved : interleaved.toCatalog.ReadsBack := by
  refine List.forall_mem_cons.mpr ⟨readsBack_offering "new" 1, ?_⟩
  refine List.forall_mem_cons.mpr ⟨readsBack_refusing, ?_⟩
  exact List.forall_mem_singleton.mpr (readsBack_offering "old" 0)

theorem readsBack_ordered : ordered.toCatalog.ReadsBack := by
  refine List.forall_mem_cons.mpr ⟨readsBack_offering "old" 0, ?_⟩
  refine List.forall_mem_cons.mpr ⟨readsBack_offering "new" 1, ?_⟩
  exact List.forall_mem_singleton.mpr readsBack_refusing

end Universe

/-- The request for a package that cannot be kept beside either provider. -/
def strictJob : Job :=
  [{ action := .install, target := .ofName "strict" },
   { action := .install, target := .ofName "new" }]

/-- In order, the record of this run repeats it. Out of order, both runs fail, but the run blames
the installed provider and its record the available one: the conflicts change places, and the first
of them is left out of the core. -/
theorem replay_strict :
    (let t := Testcase.ofSolution (solve .ordered {} strictJob)
      ∃ v j, t.toUniverse = .ok v ∧ t.toJob v = .ok j ∧
        some (solve v t.flags j).result = t.result) ∧
    let t := Testcase.ofSolution (solve .interleaved {} strictJob)
    ∃ v j, t.toUniverse = .ok v ∧ t.toJob v = .ok j ∧
      some (solve v t.flags j).result ≠ t.result ∧
      (solve v t.flags j).isSolved = (solve .interleaved {} strictJob).isSolved := by
  have hjob : ∀ u, strictJob.IsStorable u := fun _ =>
    List.forall_mem_cons.mpr ⟨rfl, List.forall_mem_singleton.mpr rfl⟩
  have hordered : Universe.ordered.toCatalog.KeysDistinct := by
    unfold Catalog.KeysDistinct
    decide +kernel
  have hinterleaved : Universe.interleaved.toCatalog.KeysDistinct := by
    unfold Catalog.KeysDistinct
    decide +kernel
  have hgrouped : Universe.ordered.toCatalog.Grouped := by
    unfold Catalog.Grouped
    decide +kernel
  constructor
  · obtain ⟨v, j, hv, hj, hresult, -⟩ := replay Universe.built_ordered hordered
      Universe.readsBack_ordered {} (hjob _)
    exact ⟨v, j, hv, hj, hresult hgrouped⟩
  · obtain ⟨v, j, hv, hj, -, hverdict⟩ := replay Universe.built_interleaved hinterleaved
      Universe.readsBack_interleaved {} (hjob _)
    refine ⟨v, j, hv, hj, ?_⟩
    -- what was read is known, so that both runs can be computed
    rw [ofSolution_solve] at hv hj hverdict ⊢
    have hv' := Universe.ofStored_toStored Universe.built_interleaved hinterleaved
      Universe.readsBack_interleaved
    obtain rfl := Except.ok.inj (hv'.symm.trans hv)
    have hj' := mapM_ofStored_toStored Universe.built_interleaved hinterleaved
      (hjob Universe.interleaved)
    obtain rfl := Except.ok.inj (hj'.symm.trans hj)
    refine ⟨fun heq => ?_, hverdict (by decide +kernel) (by decide +kernel) (by decide +kernel)⟩
    have hdiffers : (solve (.ofCatalog Universe.interleaved.toCatalog.reloaded) {}
        (strictJob.map (JobEntry.renumbered Universe.interleaved.renumber))).result ≠
          (solve .interleaved {} strictJob).result := by
      decide +kernel
    exact hdiffers (Option.some.inj heq)

end DepSolver
