import DepSolver.Cli.Spec
import DepSolver.Proofs.Generation.Literals
import DepSolver.Proofs.Selector.Filters
import DepSolver.Proofs.Text.Cut

/-!
# What a spec addresses

A spec is cut before it is known what it stands for: behind its last at sign stands a repository,
and behind the last point of a name an architecture, if there are packages of it. Both characters
are legal in names and in paths, so a spec that is exactly the name of a package or the path of a
file may be cut all the same. `Spec.NamesRepo` and `Spec.NamesArch` tell when.

A path that is cut addresses the owners of what is left of it within the repository, and a name that
is cut no package of the whole name. All other names and paths address what they belong to.
-/

namespace DepSolver

/-- A filter for one value. -/
def Filter.exactly (key : FilterKey) (value : String) : Filter :=
  { key, cmp := .exact, values := [value] }

namespace Selector

variable {u : Universe} {id : PackageId}

/-! ## What a selector stands for -/

/-- Whether a selector can be put to use, and stands for a package. -/
def Selects (s : Selector) (u : Universe) (id : PackageId) : Prop :=
  ∃ packages, s.matching u = .ok packages ∧ packages.contains id = true

theorem isConsidered_of_mem_contents {selections : List Selection}
    (h : id ∈ contents u selections) : u.isConsidered id = true := by
  obtain ⟨sel, -, hid⟩ := List.mem_flatMap.mp h
  exact JobTarget.isConsidered_of_mem_resolve hid

theorem selects_iff {s : Selector} : s.Selects u id ↔
    ∃ selections, s.selections u [] = .ok selections ∧ id ∈ contents u selections := by
  refine ⟨fun ⟨packages, hmatching, hid⟩ => ?_, fun ⟨selections, hselections, hid⟩ => ?_⟩
  · obtain ⟨selections, hselections, hpackages⟩ := bind_eq_ok.mp hmatching
    rw [← Except.ok.inj hpackages] at hid
    exact ⟨selections, hselections, (PackageSet.contains_ofList.mp hid).2⟩
  · have hpos := Universe.pos_of_isConsidered (isConsidered_of_mem_contents hid)
    exact ⟨_, bind_eq_ok.mpr ⟨selections, hselections, rfl⟩,
      PackageSet.contains_ofList.mpr ⟨hpos, hid⟩⟩

/-- Whether a package lies in a repository, if one is asked for. -/
def LiesIn (u : Universe) (repo? : Option String) (id : PackageId) : Prop :=
  ∀ repo, repo? = some repo → ∃ r, u.packageRepo? id = some r ∧ r.name = repo

/-- Of some selections, those packages are left that lie in the repository. -/
theorem narrowBy_repo (u : Universe) (repo? : Option String) (before : List Selection) :
    ∃ after, narrowBy (repo?.map (Filter.exactly .reponame)) (narrowRepo u) before = .ok after ∧
      ∀ id, id ∈ contents u after ↔ id ∈ contents u before ∧ LiesIn u repo? id := by
  cases repo? with
  | none =>
      exact ⟨before, rfl, fun id => (and_iff_left fun repo h => absurd h (by simp)).symm⟩
  | some repo =>
      refine ⟨narrowTargets (repoTarget u repo) .setrepo before, rfl, fun id => ?_⟩
      have hlies : LiesIn u (some repo) id ↔ (u.packageRepo? id).any (·.name == repo) = true := by
        rw [Option.any_eq_true]
        simp only [LiesIn, Option.some.injEq, forall_eq', beq_iff_eq]
      rw [hlies]
      refine ⟨fun h => ?_, fun ⟨h, hrepo⟩ => ?_⟩
      · obtain ⟨sel, hsel, hid⟩ := List.mem_flatMap.mp h
        obtain ⟨sel', hsel', htarget⟩ := mem_narrowTargets hsel
        refine ⟨List.mem_flatMap.mpr ⟨sel', hsel', resolve_repoTarget htarget hid⟩, ?_⟩
        obtain ⟨hset, -⟩ := anyOf_eq_some.mp htarget
        rw [hset, JobTarget.resolve, PackageSet.mem_toList, PackageSet.contains_inter,
          PackageSet.contains_ofList] at hid
        exact (List.mem_filter.mp hid.1.2).2
      · obtain ⟨sel, hsel, hid⟩ := List.mem_flatMap.mp h
        have hc := JobTarget.isConsidered_of_mem_resolve hid
        have hpos := Universe.pos_of_isConsidered hc
        have hkept : id ∈ (sel.target.resolve u).filter fun id =>
            (u.packageRepo? id).any (·.name == repo) := List.mem_filter.mpr ⟨hid, hrepo⟩
        have htarget : repoTarget u repo sel.target = some (.oneOf (.ofList _)) :=
          anyOf_eq_some.mpr ⟨rfl, id, hkept, hpos⟩
        refine List.mem_flatMap.mpr ⟨⟨_, sel.flags ||| .setrepo⟩,
          List.mem_filterMap.mpr ⟨sel, hsel, by rw [htarget]; rfl⟩, ?_⟩
        rw [JobTarget.resolve, PackageSet.mem_toList, PackageSet.contains_inter,
          PackageSet.contains_ofList]
        exact ⟨⟨hpos, hkept⟩, hc⟩

/-- A required filter decides what there is to be narrowed. -/
theorem selects_of_required {s : Selector} {required inArch : List Selection}
    {repo? : Option String} (hs : s.hasRequiredFilter = true)
    (hrequired : selectRequired u [] s = .ok required)
    (harch : narrowBy s.arch (narrowArch u) required = .ok inArch) (hevr : s.evr = none)
    (hrepo : s.reponame = repo?.map (Filter.exactly .reponame)) :
    s.Selects u id ↔ id ∈ contents u inArch ∧ LiesIn u repo? id := by
  obtain ⟨after, hafter, hcontents⟩ := narrowBy_repo u repo? inArch
  have hselections : s.selections u [] = .ok after := by
    refine selections_eq_ok.mpr (.inl ⟨hs, required, inArch, inArch, hrequired, harch, ?_, ?_⟩)
    · rw [hevr]
      rfl
    · rw [hrepo]
      exact hafter
  rw [selects_iff, hselections, ← hcontents id]
  simp only [Except.ok.injEq, exists_eq_left']

/-- The selector of a file stands for its owners. -/
theorem selects_file {path : String} {repo? : Option String} :
    Selects { file := some (.exactly .file path)
              reponame := repo?.map (Filter.exactly .reponame) } u id ↔
      id ∈ u.fileOwners path ∧ LiesIn u repo? id := by
  by_cases howned : (u.fileOwners path).isEmpty = true
  · -- a file that nobody owns is an error
    rw [List.isEmpty_iff.mp howned]
    refine iff_of_false (fun h => ?_) fun h => absurd h.1 List.not_mem_nil
    obtain ⟨selections, hselections, -⟩ := selects_iff.mp h
    rcases selections_eq_ok.mp hselections with ⟨-, required, -, -, hrequired, -⟩ | ⟨hnone, -⟩
    · have hthrow : selectFile u (.exactly .file path) = .error (.noMatch path) := by
        unfold selectFile Filter.exactly Filter.value
        simp [howned, bind, Except.bind, throw, throwThe, MonadExceptOf.throw, Comparison.exact]
      exact absurd (hthrow.symm.trans hrequired) (by simp)
    · exact absurd hnone (by simp [hasRequiredFilter])
  · have hfile : selectFile u (.exactly .file path) =
        .ok [{ target := .oneOf (.ofList (u.fileOwners path)) }] := by
      unfold selectFile Filter.exactly Filter.value
      simp [howned, bind, Except.bind, pure, Except.pure, Comparison.exact]
    refine Iff.trans (selects_of_required rfl hfile rfl rfl rfl) (and_congr_left' ?_)
    unfold contents
    rw [List.flatMap_singleton, JobTarget.resolve, PackageSet.mem_toList, PackageSet.contains_inter,
      PackageSet.contains_ofList]
    refine ⟨fun h => h.1.2, fun h => ?_⟩
    have hc := (Universe.mem_fileOwners.mp h).1
    exact ⟨⟨Universe.pos_of_isConsidered hc, h⟩, hc⟩

/-- The selector of a name stands for the packages of that name, and architecture. -/
theorem selects_name {name : String} {arch? repo? : Option String}
    (harch : ∀ arch, arch? = some arch → u.hasArch arch = true) :
    Selects { name := some (.exactly .name name)
              arch := arch?.map (Filter.exactly .arch)
              reponame := repo?.map (Filter.exactly .reponame) } u id ↔
      id ∈ (JobTarget.name (.ofName name) arch?).resolve u ∧ LiesIn u repo? id := by
  have hname : selectName u [] (.exactly .name name) =
      .ok (if (u.packagesByName name).isEmpty then [] else [{ target := .ofName name }]) := rfl
  have hempty : (u.packagesByName name).isEmpty = true →
      id ∉ (JobTarget.name (.ofName name) arch?).resolve u := by
    intro hempty hid
    have hmem := (List.mem_filter.mp hid).1
    rw [Relation.ofName, List.isEmpty_iff.mp hempty] at hmem
    exact absurd hmem List.not_mem_nil
  cases arch? with
  | none =>
      refine Iff.trans (selects_of_required rfl hname rfl rfl rfl) (and_congr_left' ?_)
      split
      · rename_i hnone
        exact iff_of_false (by simp [contents]) (hempty hnone)
      · rw [contents, List.flatMap_singleton]
        rfl
  | some arch =>
      have hnarrow : ∀ before, narrowArch u (.exactly .arch arch) before =
          .ok (narrowTargets (archTarget u arch) .setarch before) := by
        intro before
        unfold narrowArch
        simp [harch arch rfl, Filter.exactly, exactValue, Filter.value, bind, Except.bind, pure,
          Except.pure]
      refine Iff.trans (selects_of_required rfl hname (hnarrow _) rfl rfl) (and_congr_left' ?_)
      split
      · rename_i hnone
        exact iff_of_false (by simp [contents, narrowTargets]) (hempty hnone)
      · show id ∈ contents u [_] ↔ _
        rw [contents, List.flatMap_singleton]

end Selector

namespace Spec

variable {u : Universe} {s base tail : List Char} {sep : Char}

/-! ## Where a spec is cut -/

/-- Whether a text holds none of the characters that make it a glob. -/
def IsLiteral (s : List Char) : Prop := ∀ c ∈ s, c ∉ ['*', '?', '[']

instance (s : List Char) : Decidable (IsLiteral s) := List.decidableBAll _ s

/-- Whether a text holds no white space. -/
def IsUnbroken (s : List Char) : Prop := ∀ c ∈ s, Text.isBlank c = false

instance (s : List Char) : Decidable (IsUnbroken s) := List.decidableBAll _ s

/-- A repository behind the last at sign, and something before it. -/
structure NamesRepo (s base repo : List Char) : Prop where
  eq : s = base ++ '@' :: repo
  last : '@' ∉ repo
  base : base ≠ []
  repo : repo ≠ []

/-- An architecture that is known behind the last point, and something before it. -/
structure NamesArch (u : Universe) (s base arch : List Char) : Prop where
  eq : s = base ++ '.' :: arch
  last : '.' ∉ arch
  base : base ≠ []
  known : u.hasArch (String.ofList arch) = true

/-- The path of a file, as it may be given in a spec. -/
structure IsPath (path : String) : Prop where
  rooted : path.toList.head? = some '/'
  front : Text.FrontBare path.toList
  back : Text.BackBare path.toList
  literal : IsLiteral path.toList

/-- A name, as it may be given in a spec. -/
structure IsName (name : String) : Prop where
  nonempty : name.toList ≠ []
  notRooted : name.toList.head? ≠ some '/'
  unbroken : IsUnbroken name.toList
  literal : IsLiteral name.toList

theorem comparisonOf_of_isLiteral (h : IsLiteral s) : comparisonOf s = .exact := by
  have hglob : isGlob s = false := by
    unfold isGlob
    rw [List.any_eq_false]
    intro c hc
    have hc' := h c hc
    simp only [List.mem_cons, List.not_mem_nil, or_false, not_or] at hc'
    simp [hc'.1, hc'.2.1, hc'.2.2]
  unfold comparisonOf
  rw [hglob]
  rfl

/-- A spec is cut at its last at sign, or not at all. -/
theorem splitTail_cases (s : List Char) :
    (∃ base repo, NamesRepo s base repo ∧ splitTail '@' s = (base, some repo)) ∨
      (∀ base repo, ¬NamesRepo s base repo) ∧ splitTail '@' s = (s, none) := by
  unfold splitTail
  cases hsplit : Text.splitLast '@' s with
  | none =>
      refine .inr ⟨fun base repo h => ?_, rfl⟩
      rw [Text.splitLast_eq_none, h.eq] at hsplit
      exact hsplit (by simp)
  | some parts =>
      obtain ⟨base, repo⟩ := parts
      obtain ⟨heq, hlast⟩ := Text.splitLast_eq_some hsplit
      dsimp only
      split
      · rename_i hempty
        refine .inr ⟨fun base' repo' h => ?_, rfl⟩
        rw [h.eq, Text.splitLast_append base' h.last] at hsplit
        obtain ⟨rfl, rfl⟩ := Prod.mk.inj (Option.some.inj hsplit)
        simp [h.base, h.repo] at hempty
      · rename_i hnonempty
        rw [Bool.or_eq_true, not_or, List.isEmpty_iff, List.isEmpty_iff] at hnonempty
        exact .inl ⟨base, repo, ⟨heq, hlast, hnonempty.1, hnonempty.2⟩, rfl⟩

/-- A name is cut at its last point, or not at all. -/
theorem splitArch_cases (u : Universe) (s : List Char) :
    (∃ base arch, NamesArch u s base arch ∧ splitArch u s = (base, some (String.ofList arch))) ∨
      (∀ base arch, ¬NamesArch u s base arch) ∧ splitArch u s = (s, none) := by
  unfold splitArch
  cases hsplit : Text.splitLast '.' s with
  | none =>
      refine .inr ⟨fun base arch h => ?_, rfl⟩
      rw [Text.splitLast_eq_none, h.eq] at hsplit
      exact hsplit (by simp)
  | some parts =>
      obtain ⟨base, arch⟩ := parts
      obtain ⟨heq, hlast⟩ := Text.splitLast_eq_some hsplit
      dsimp only
      split
      · rename_i hknown
        rw [Bool.and_eq_true, Bool.not_eq_true', ← Bool.not_eq_true, List.isEmpty_iff] at hknown
        exact .inl ⟨base, arch, ⟨heq, hlast, hknown.1, hknown.2⟩, rfl⟩
      · rename_i hunknown
        refine .inr ⟨fun base' arch' h => ?_, rfl⟩
        rw [h.eq, Text.splitLast_append base' h.last] at hsplit
        obtain ⟨rfl, rfl⟩ := Prod.mk.inj (Option.some.inj hsplit)
        simp [h.base, h.known] at hunknown

theorem not_namesRepo (h : splitTail '@' s = (s, none)) (base repo : List Char) :
    ¬NamesRepo s base repo := by
  rcases splitTail_cases s with ⟨base', repo', -, hsplit⟩ | ⟨hwhole, -⟩
  · exact absurd (h.symm.trans hsplit) (by simp)
  · exact hwhole base repo

theorem not_namesArch (h : splitArch u s = (s, none)) (base arch : List Char) :
    ¬NamesArch u s base arch := by
  rcases splitArch_cases u s with ⟨base', arch', -, hsplit⟩ | ⟨hwhole, -⟩
  · exact absurd (h.symm.trans hsplit) (by simp)
  · exact hwhole base arch

/-! ## The selectors of specs -/

/-- The selector of a path, perhaps within a repository. -/
theorem selector_of_rooted {spec : String} {repo? : Option (List Char)}
    (htrim : Text.trim spec.toList = s) (hsplit : splitTail '@' s = (base, repo?))
    (hrooted : base.head? = some '/') (hliteral : IsLiteral base) :
    selector u spec = .ok
      { file := some (.exactly .file (String.ofList base))
        reponame := (repo?.map String.ofList).map (Filter.exactly .reponame) } := by
  unfold selector baseSelector
  rw [htrim, hsplit]
  simp only [hrooted, comparisonOf_of_isLiteral hliteral]
  cases repo? <;> rfl

/-- The selector of a name, perhaps of an architecture and within a repository. -/
theorem selector_of_unbroken {spec : String} {repo? : Option (List Char)} {name : List Char}
    {arch? : Option String} (htrim : Text.trim spec.toList = s)
    (hsplit : splitTail '@' s = (base, repo?)) (hrooted : base.head? ≠ some '/')
    (hunbroken : IsUnbroken base) (hsplit' : splitArch u base = (name, arch?))
    (hliteral : IsLiteral name) :
    selector u spec = .ok
      { name := some (.exactly .name (String.ofList name))
        arch := arch?.map (Filter.exactly .arch)
        reponame := (repo?.map String.ofList).map (Filter.exactly .reponame) } := by
  have hblank : base.any Text.isBlank = false :=
    List.any_eq_false.mpr fun c hc => by rw [hunbroken c hc]; simp
  have hhead : (base.head? == some '/') = false := beq_false_of_ne hrooted
  unfold selector baseSelector nameSelector
  rw [htrim, hsplit]
  simp only [hhead, hblank, hsplit', comparisonOf_of_isLiteral hliteral]
  cases repo? <;> cases arch? <;> rfl

/-! ## Specs that are paths and names -/

theorem NamesRepo.unique {base' repo repo' : List Char} (h : NamesRepo s base repo)
    (h' : NamesRepo s base' repo') : base' = base ∧ repo' = repo := by
  have heq := Text.splitLast_append base h.last
  rw [← h.eq, h'.eq, Text.splitLast_append base' h'.last] at heq
  exact Prod.mk.inj (Option.some.inj heq)

/-- What stands before a separator begins as the whole does, and is made of the same characters. -/
theorem head?_of_eq_append (h : s = base ++ sep :: tail) (hne : base ≠ []) :
    base.head? = s.head? := by
  obtain ⟨c, rest, rfl⟩ := List.exists_cons_of_ne_nil hne
  rw [h]
  rfl

theorem mem_of_eq_append (h : s = base ++ sep :: tail) {c : Char} (hc : c ∈ base) : c ∈ s :=
  h ▸ List.mem_append_left _ hc

theorem length_lt_of_eq_append (h : s = base ++ sep :: tail) : base.length < s.length := by
  rw [h, List.length_append, List.length_cons]
  omega

/-- What is left of a name when its architecture is cut off. -/
theorem splitArch_fst (u : Universe) (s : List Char) :
    (∀ c ∈ (splitArch u s).1, c ∈ s) ∧ (splitArch u s).1.length ≤ s.length := by
  rcases splitArch_cases u s with ⟨base, arch, hcut, hsplit⟩ | ⟨-, hsplit⟩ <;> rw [hsplit]
  · exact ⟨fun c hc => mem_of_eq_append hcut.eq hc, Nat.le_of_lt (length_lt_of_eq_append hcut.eq)⟩
  · exact ⟨fun c hc => hc, Nat.le_refl _⟩

theorem hasArch_of_splitArch {arch : String} (h : (splitArch u s).2 = some arch) :
    u.hasArch arch = true := by
  rcases splitArch_cases u s with ⟨base, arch', hcut, hsplit⟩ | ⟨-, hsplit⟩ <;> rw [hsplit] at h
  · exact Option.some.inj h ▸ hcut.known
  · exact absurd h (by simp)

variable {id : PackageId} {p : Package}

/-- **A path addresses the owners of what is left of it**, in the repository that is cut off. -/
theorem selects_of_isPath (hp : u.package? id = some p) (hc : u.isConsidered id = true)
    {path : String} (howned : path ∈ p.files) (h : IsPath path) :
    ∃ selector, Spec.selector u path = .ok selector ∧
      (selector.Selects u id ↔ ∀ base repo, NamesRepo path.toList base repo →
        String.ofList base ∈ p.files ∧
          ∃ r, u.packageRepo? id = some r ∧ r.name = String.ofList repo) := by
  have htrim := Text.trim_eq_self h.front h.back
  have hmem : ∀ path, id ∈ u.fileOwners path ↔ path ∈ p.files := by
    intro path
    rw [Universe.mem_fileOwners, hp]
    simp [hc]
  rcases splitTail_cases path.toList with ⟨base, repo, hcut, hsplit⟩ | ⟨hwhole, hsplit⟩
  · have hliteral : IsLiteral base := fun c hc => h.literal c (mem_of_eq_append hcut.eq hc)
    have hrooted := (head?_of_eq_append hcut.eq hcut.base).trans h.rooted
    refine ⟨_, selector_of_rooted htrim hsplit hrooted hliteral,
      Selector.selects_file.trans ?_⟩
    rw [hmem]
    refine ⟨fun ⟨hbase, hlies⟩ base' repo' hcut' => ?_, fun hall => ?_⟩
    · obtain ⟨rfl, rfl⟩ := hcut.unique hcut'
      exact ⟨hbase, hlies _ rfl⟩
    · obtain ⟨hbase, hlies⟩ := hall base repo hcut
      exact ⟨hbase, fun r hr => Option.some.inj hr ▸ hlies⟩
  · refine ⟨_, selector_of_rooted htrim hsplit h.rooted h.literal,
      Selector.selects_file.trans (iff_of_true ?_ fun base repo hcut => absurd hcut (hwhole _ _))⟩
    rw [hmem, String.ofList_toList]
    exact ⟨howned, fun r hr => absurd hr (by simp)⟩

theorem mem_resolve_ofName (hp : u.package? id = some p) (hc : u.isConsidered id = true)
    {name : String} {arch? : Option String} :
    id ∈ (JobTarget.name (.ofName name) arch?).resolve u ↔
      p.name = name ∧ JobTarget.archFits u arch? id = true := by
  rw [JobTarget.resolve, List.mem_filter, Universe.mem_packagesByName, hp]
  simp [hc, Relation.ofName, Relation.matchesEvr]

/-- A spec without white space addresses the packages of the name that is left of it. -/
theorem selects_of_unbroken (hp : u.package? id = some p) (hc : u.isConsidered id = true)
    {spec : String} {repo? : Option (List Char)} (htrim : Text.trim spec.toList = s)
    (hsplit : splitTail '@' s = (base, repo?)) (hrooted : base.head? ≠ some '/')
    (hunbroken : IsUnbroken base) (hliteral : IsLiteral base) :
    ∃ selector, Spec.selector u spec = .ok selector ∧
      (selector.Selects u id ↔ (p.name.toList = (splitArch u base).1 ∧
        JobTarget.archFits u (splitArch u base).2 id = true) ∧
          Selector.LiesIn u (repo?.map String.ofList) id) := by
  have hliteral' : IsLiteral (splitArch u base).1 := fun c hc =>
    hliteral c ((splitArch_fst u base).1 c hc)
  refine ⟨_, selector_of_unbroken htrim hsplit hrooted hunbroken (Prod.eta _).symm hliteral',
    (Selector.selects_name fun arch => hasArch_of_splitArch).trans (and_congr_left' ?_)⟩
  rw [mem_resolve_ofName hp hc, ← String.toList_inj, String.toList_ofList]

/-- **A name addresses the packages it names exactly if nothing is cut off it.** -/
theorem selects_of_isName (hp : u.package? id = some p) (hc : u.isConsidered id = true)
    (h : IsName p.name) :
    ∃ selector, Spec.selector u p.name = .ok selector ∧
      (selector.Selects u id ↔ (∀ base repo, ¬NamesRepo p.name.toList base repo) ∧
        ∀ base arch, ¬NamesArch u p.name.toList base arch) := by
  have htrim : Text.trim p.name.toList = p.name.toList :=
    Text.trim_eq_self (Text.frontBare_of_forall h.unbroken)
      (Text.backBare_iff.mpr (Text.frontBare_of_forall fun c hc =>
        h.unbroken c (List.mem_reverse.mp hc)))
  rcases splitTail_cases p.name.toList with ⟨base, repo, hcut, hsplit⟩ | ⟨hwhole, hsplit⟩
  · -- what is left is shorter than the name
    have hmem : ∀ c ∈ base, c ∈ p.name.toList := fun c => mem_of_eq_append hcut.eq
    obtain ⟨selector, hselector, hselects⟩ := selects_of_unbroken hp hc htrim hsplit
      ((head?_of_eq_append hcut.eq hcut.base).symm ▸ h.notRooted)
      (fun c hc => h.unbroken c (hmem c hc)) fun c hc => h.literal c (hmem c hc)
    refine ⟨selector, hselector, hselects.trans (iff_of_false (fun hleft => ?_) fun hall => ?_)⟩
    · have hlength := Nat.lt_of_le_of_lt (splitArch_fst u base).2 (length_lt_of_eq_append hcut.eq)
      exact absurd (congrArg List.length hleft.1.1) (Nat.ne_of_gt hlength)
    · exact hall.1 base repo hcut
  · obtain ⟨selector, hselector, hselects⟩ := selects_of_unbroken hp hc htrim hsplit h.notRooted
      h.unbroken h.literal
    refine ⟨selector, hselector, hselects.trans ?_⟩
    rcases splitArch_cases u p.name.toList with ⟨base, arch, hcut, hsplit'⟩ | ⟨hwhole', hsplit'⟩
    · refine iff_of_false (fun hleft => ?_) fun hall => hall.2 base arch hcut
      rw [hsplit'] at hleft
      exact absurd (congrArg List.length hleft.1.1) (Nat.ne_of_gt (length_lt_of_eq_append hcut.eq))
    · rw [hsplit']
      exact iff_of_true ⟨⟨rfl, rfl⟩, fun repo hrepo => absurd hrepo (by simp)⟩ ⟨hwhole, hwhole'⟩

/--
**A spec that is a path or a name addresses what it belongs to, unless something is cut off it.**

Both are turned into a selector whatever they look like. The path of a file addresses its owner if
it has no repository behind an at sign; if it has, it does so only if the owner lies in that
repository and owns what stands before the at sign too. A name addresses the package it names
exactly if it has neither a repository behind an at sign nor a known architecture behind a point.
-/
theorem selector_unless_cut (u : Universe) {id : PackageId} {p : Package}
    (hp : u.package? id = some p) (hc : u.isConsidered id = true) :
    (∀ path ∈ p.files, IsPath path → ∃ selector, Spec.selector u path = .ok selector ∧
      (selector.Selects u id ↔ ∀ base repo, NamesRepo path.toList base repo →
        String.ofList base ∈ p.files ∧
          ∃ r, u.packageRepo? id = some r ∧ r.name = String.ofList repo)) ∧
    (IsName p.name → ∃ selector, Spec.selector u p.name = .ok selector ∧
      (selector.Selects u id ↔ (∀ base repo, ¬NamesRepo p.name.toList base repo) ∧
        ∀ base arch, ¬NamesArch u p.name.toList base arch)) :=
  ⟨fun _ => selects_of_isPath hp hc, selects_of_isName hp hc⟩

/-- Packages whose names and files hold points and at signs. -/
def dottedHosts : Universe :=
  .ofCatalog
    { packages :=
        #[{ name := "mail.x86_64", evr := { epoch := 0, version := "1", release := some "1" }
            arch := "x86_64", files := ["/srv/mail", "/srv/mail@available", "/srv/mail@host"] },
          { name := "user@host", evr := { epoch := 0, version := "1", release := some "1" }
            arch := "noarch" },
          { name := "python3.12", evr := { epoch := 0, version := "1", release := some "1" }
            arch := "x86_64", files := ["/srv/python@"] }]
      repos := #[{ name := "available", priority := defaultPriority, installed := false }] }

theorem isPath_srvMailHost : IsPath "/srv/mail@host" :=
  ⟨by decide, by decide, by decide, by decide⟩

/-- A package may own a path, or be of a name, whose spec stands for other packages or none: a
repository, or an architecture, is cut off it. -/
theorem not_selects_dottedHosts :
    ∃ p q, dottedHosts.package? 1 = some p ∧ dottedHosts.isConsidered 1 = true ∧
      dottedHosts.package? 2 = some q ∧ dottedHosts.isConsidered 2 = true ∧
      ("/srv/mail@host" ∈ p.files ∧ IsPath "/srv/mail@host" ∧
        ¬∃ selector, Spec.selector dottedHosts "/srv/mail@host" = .ok selector ∧
          selector.Selects dottedHosts 1) ∧
      (IsName p.name ∧ ¬∃ selector, Spec.selector dottedHosts p.name = .ok selector ∧
        selector.Selects dottedHosts 1) ∧
      (IsName q.name ∧ ¬∃ selector, Spec.selector dottedHosts q.name = .ok selector ∧
        selector.Selects dottedHosts 2) := by
  have hp : dottedHosts.isConsidered 1 = true := by decide +kernel
  have hq : dottedHosts.isConsidered 2 = true := by decide +kernel
  have hmail : IsName "mail.x86_64" := ⟨by decide, by decide, by decide, by decide⟩
  have huser : IsName "user@host" := ⟨by decide, by decide, by decide, by decide⟩
  refine ⟨_, _, rfl, hp, rfl, hq, ⟨by decide, isPath_srvMailHost, ?_⟩, ⟨hmail, ?_⟩, huser, ?_⟩
  · rintro ⟨selector, hselector, hselects⟩
    obtain ⟨_, hselector', hiff⟩ := @selects_of_isPath dottedHosts 1 _ rfl hp
      "/srv/mail@host" (by decide) isPath_srvMailHost
    obtain rfl := Except.ok.inj (hselector.symm.trans hselector')
    have hcut : NamesRepo "/srv/mail@host".toList "/srv/mail".toList "host".toList :=
      ⟨rfl, by decide, by decide, by decide⟩
    obtain ⟨-, r, hr, hname⟩ := hiff.mp hselects _ _ hcut
    have hrepo : dottedHosts.packageRepo? 1 = some _ := rfl
    obtain rfl := Option.some.inj (hrepo.symm.trans hr)
    exact absurd hname (by decide)
  · rintro ⟨selector, hselector, hselects⟩
    obtain ⟨_, hselector', hiff⟩ := @selects_of_isName dottedHosts 1 _ rfl hp hmail
    obtain rfl := Except.ok.inj (hselector.symm.trans hselector')
    exact (hiff.mp hselects).2 "mail".toList "x86_64".toList
      ⟨rfl, by decide, by decide, by decide +kernel⟩
  · rintro ⟨selector, hselector, hselects⟩
    obtain ⟨_, hselector', hiff⟩ := @selects_of_isName dottedHosts 2 _ rfl hq huser
    obtain rfl := Except.ok.inj (hselector.symm.trans hselector')
    exact (hiff.mp hselects).1 "user".toList "host".toList ⟨rfl, by decide, by decide, by decide⟩

/-- A path that ends in an at sign, and a name whose last point has no architecture behind it, are
left whole; a path may also be cut and still address its owner. -/
theorem selector_unless_cut_dottedHosts :
    (∃ selector, Spec.selector dottedHosts "/srv/python@" = .ok selector ∧
      selector.Selects dottedHosts 3) ∧
    (∃ selector, Spec.selector dottedHosts "python3.12" = .ok selector ∧
      selector.Selects dottedHosts 3) ∧
    ∃ selector, Spec.selector dottedHosts "/srv/mail@available" = .ok selector ∧
      selector.Selects dottedHosts 1 := by
  have hpython := @selector_unless_cut dottedHosts 3 _ rfl (by decide +kernel)
  have hmail := @selector_unless_cut dottedHosts 1 _ rfl (by decide +kernel)
  refine ⟨?_, ?_, ?_⟩
  · obtain ⟨selector, hselector, hiff⟩ := hpython.1 "/srv/python@" (by decide)
      ⟨by decide, by decide, by decide, by decide⟩
    exact ⟨selector, hselector, hiff.mpr fun base repo hcut =>
      absurd hcut (not_namesRepo rfl base repo)⟩
  · obtain ⟨selector, hselector, hiff⟩ := hpython.2 ⟨by decide, by decide, by decide, by decide⟩
    exact ⟨selector, hselector, hiff.mpr ⟨not_namesRepo rfl, not_namesArch (by decide +kernel)⟩⟩
  · obtain ⟨selector, hselector, hiff⟩ := hmail.1 "/srv/mail@available" (by decide)
      ⟨by decide, by decide, by decide, by decide⟩
    refine ⟨selector, hselector, hiff.mpr fun base repo hcut => ?_⟩
    have hcut' : NamesRepo "/srv/mail@available".toList "/srv/mail".toList "available".toList :=
      ⟨rfl, by decide, by decide, by decide⟩
    obtain ⟨rfl, rfl⟩ := hcut'.unique hcut
    exact ⟨by decide, _, rfl, rfl⟩

end Spec

end DepSolver
