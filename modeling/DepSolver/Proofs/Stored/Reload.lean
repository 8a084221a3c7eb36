import DepSolver.Proofs.Relation.RoundTrip
import DepSolver.Proofs.Universe.ByRepository
import DepSolver.Stored.Universe

/-!
# Universes read back from their descriptions

A universe that was put together step by step, and whose description is read again, is the same but
for the numbers of its packages. Loading goes through the repositories in turn, and the invariant is
that the first of them have been added just as they are, with their packages behind one another. It
rests on two facts about universes that were put together this way: every package belongs to a
repository, and at most one repository is that of installed packages, in the one form that such a
repository takes.

Excluded packages are named by their keys. As long as no two packages share a key, the key of a
package finds this package again under its new number.
-/

namespace DepSolver

/-! ## Steps that all succeed -/

/-- A fold of steps that succeed succeeds. -/
theorem foldlM_eq_ok {α β ε : Type} {f : β → α → Except ε β} {g : β → α → β} :
    ∀ {items : List α} (s : β), (∀ a ∈ items, ∀ s, f s a = .ok (g s a)) →
      items.foldlM f s = .ok (items.foldl g s)
  | [], _, _ => rfl
  | a :: items, s, h => by
      obtain ⟨ha, hitems⟩ := List.forall_mem_cons.mp h
      rw [List.foldlM_cons, ha s]
      exact foldlM_eq_ok (g s a) hitems

theorem mapM_eq_ok {α β ε : Type} {f : α → Except ε β} {g : α → β} :
    ∀ {items : List α}, (∀ a ∈ items, f a = .ok (g a)) → items.mapM f = .ok (items.map g)
  | [], _ => rfl
  | a :: items, h => by
      obtain ⟨ha, hitems⟩ := List.forall_mem_cons.mp h
      rw [List.mapM_cons, ha, mapM_eq_ok hitems]
      rfl

/-! ## Texts that are read back -/

/-- Whether a relation is read back from its text. -/
def Relation.ReadsBack (r : Relation) : Prop := Relation.parse r.toText = .ok r

/-- Whether the version and the relations of a package are read back from their texts. -/
structure Package.ReadsBack (p : Package) : Prop where
  evr : Evr.parse p.evr.toText = .ok p.evr
  provides : ∀ r ∈ p.provides, r.ReadsBack
  requires : ∀ r ∈ p.requires, r.ReadsBack
  conflicts : ∀ r ∈ p.conflicts, r.ReadsBack
  obsoletes : ∀ r ∈ p.obsoletes, r.ReadsBack
  recommends : ∀ r ∈ p.recommends, r.ReadsBack

theorem Relation.mapM_parse_toText {rs : List Relation} (h : ∀ r ∈ rs, r.ReadsBack) :
    (rs.map toText).mapM parse = .ok rs := by
  rw [List.mapM_map]
  exact (mapM_eq_ok h).trans (congrArg _ (List.map_id rs))

/-- A package is read back but for its repository. -/
theorem Package.ofStored_toStored {p : Package} (h : p.ReadsBack) :
    Package.ofStored p.toStored = .ok { p with repo := 0 } := by
  unfold Package.ofStored Package.toStored
  dsimp only
  rw [h.evr, Relation.mapM_parse_toText h.provides, Relation.mapM_parse_toText h.requires,
    Relation.mapM_parse_toText h.conflicts, Relation.mapM_parse_toText h.obsoletes,
    Relation.mapM_parse_toText h.recommends]
  rfl

/-! ## Universes that were put together step by step -/

/-- The repository of installed packages. -/
def systemRepo : Repo := { name := systemRepoName, priority := defaultPriority, installed := true }

namespace Catalog

variable {c : Catalog}

/-- What holds of every catalog that was put together step by step. -/
structure WellFormed (c : Catalog) : Prop where
  housed : c.Housed
  /-- There is one repository of installed packages at most, and it is known. -/
  installed : ∀ i r, c.repos[i]? = some r → r.installed = true →
    c.installedRepo? = some i ∧ r = systemRepo
  /-- What is known to be the repository of installed packages is one. -/
  known : ∀ i, c.installedRepo? = some i → ∃ r, c.repos[i]? = some r ∧ r.installed = true

theorem Housed.push {packages : Array Package} {p : Package} {repos : Array Repo}
    (h : ∀ (i : Nat) q, packages[i]? = some q → q.repo < repos.size) (hp : p.repo < repos.size) :
    ∀ (i : Nat) q, (packages.push p)[i]? = some q → q.repo < repos.size := by
  intro i q hq
  rw [Array.getElem?_push] at hq
  split at hq
  · rw [← Option.some.inj hq]
    exact hp
  · exact h i q hq

theorem housed_iff : c.Housed ↔ ∀ (i : Nat) p, c.packages[i]? = some p → p.repo < c.repos.size := by
  refine ⟨fun h i p hp => h ((i : Int) + 1) p ((package?_add_one c i).trans hp), fun h id p hp => ?_⟩
  obtain ⟨i, rfl, hi⟩ := package?_eq_some.mp hp
  exact h i p hi

end Catalog

namespace Universe

/-- The universes that can be put together. -/
inductive Built : Universe → Prop where
  | empty : Built empty
  | addRepo {u : Universe} (h : Built u) (name : String) (priority : Int) :
      Built (u.addRepo name priority).2
  | installedRepo {u : Universe} (h : Built u) : Built u.installedRepo.2
  /-- Packages are added to repositories that exist. -/
  | addPackage {u : Universe} (h : Built u) {repo : Nat} (hrepo : repo < u.repos.size)
      (p : Package) : Built (u.addPackage repo p).2
  | exclude {u : Universe} (h : Built u) (id : PackageId) : Built (u.exclude id)
  | setExcludes {u : Universe} (h : Built u) (excludes : PackageSet) :
      Built (u.setExcludes excludes)
  | setInstallonly {u : Universe} (h : Built u) (names : List String) (limit : Nat) :
      Built (u.setInstallonly names limit)
  | setKernelRelease {u : Universe} (h : Built u) (release : Option String) :
      Built (u.setKernelRelease release)

variable {u : Universe}

/-- A repository behind all others leaves them where they are. -/
theorem getElem?_push_repo {repos : Array Repo} {new r : Repo} {i : Nat}
    (h : (repos.push new)[i]? = some r) : repos[i]? = some r ∨ i = repos.size ∧ r = new := by
  rw [Array.getElem?_push] at h
  split at h
  · rename_i hi
    exact .inr ⟨hi, (Option.some.inj h).symm⟩
  · exact .inl h

theorem getElem?_push_of_some {repos : Array Repo} {new r : Repo} {i : Nat}
    (h : repos[i]? = some r) : (repos.push new)[i]? = some r := by
  rw [Array.getElem?_push, if_neg (Nat.ne_of_lt (Array.getElem?_eq_some_iff.mp h).1), h]

theorem Built.wellFormed (h : Built u) : u.toCatalog.WellFormed := by
  induction h with
  | empty =>
      refine ⟨Catalog.housed_iff.mpr fun i p hp => ?_, fun i r hr => ?_, fun i hi => ?_⟩
      · have hnone : Universe.empty.packages[i]? = none := rfl
        exact absurd (hp.symm.trans hnone) (by simp)
      · have hnone : Universe.empty.repos[i]? = none := rfl
        exact absurd (hr.symm.trans hnone) (by simp)
      · have hnone : Universe.empty.installedRepo? = none := rfl
        exact absurd (hi.symm.trans hnone) (by simp)
  | @addRepo u _ name priority ih =>
      have hsize : (u.addRepo name priority).2.repos.size = u.repos.size + 1 := Array.size_push _
      refine ⟨fun id p hp => ?_, fun i r hr hinst => ?_, fun i hi => ?_⟩
      · rw [hsize]
        exact Nat.lt_succ_of_lt (ih.housed id p hp)
      · rcases getElem?_push_repo hr with hr | ⟨-, rfl⟩
        · exact ih.installed i r hr hinst
        · exact absurd hinst (by simp)
      · obtain ⟨r, hr, hinst⟩ := ih.known i hi
        exact ⟨r, getElem?_push_of_some hr, hinst⟩
  | @installedRepo u _ ih =>
      unfold Universe.installedRepo
      split
      · exact ih
      · rename_i hnone
        refine ⟨fun id p hp => ?_, fun i r hr hinst => ?_, fun i hi => ?_⟩
        · show p.repo < (u.repos.push _).size
          rw [Array.size_push]
          exact Nat.lt_succ_of_lt (ih.housed id p hp)
        · rcases getElem?_push_repo hr with hr | ⟨rfl, rfl⟩
          · -- there was none before
            have hknown := (ih.installed i r hr hinst).1
            rw [hnone] at hknown
            exact absurd hknown (by simp)
          · exact ⟨rfl, rfl⟩
        · obtain rfl := Option.some.inj hi
          exact ⟨_, Array.getElem?_push_size, rfl⟩
  | addPackage _ hrepo p ih =>
      refine ⟨Catalog.housed_iff.mpr ?_, ih.installed, ih.known⟩
      exact Catalog.Housed.push (Catalog.housed_iff.mp ih.housed) hrepo
  | exclude _ id ih => exact ⟨ih.housed, ih.installed, ih.known⟩
  | setExcludes _ excludes ih => exact ⟨ih.housed, ih.installed, ih.known⟩
  | setInstallonly _ names limit ih => exact ⟨ih.housed, ih.installed, ih.known⟩
  | setKernelRelease _ release ih => exact ⟨ih.housed, ih.installed, ih.known⟩

end Universe

/-! ## Loading one repository after the other -/

namespace Catalog

variable {c : Catalog}

/-- The catalog with another repository behind those that it has. -/
def withRepo (c : Catalog) (r : Repo) : Catalog :=
  { c with
    repos := c.repos.push r
    installedRepo? := if r.installed then some c.repos.size else c.installedRepo? }

/-- The catalog with more packages behind those that it has. -/
def withPackages (c : Catalog) (packages : List Package) : Catalog :=
  { c with packages := c.packages ++ packages.toArray }

theorem withPackages_nil (c : Catalog) : c.withPackages [] = c := by
  unfold withPackages
  rw [Array.append_empty]

theorem withPackages_append (c : Catalog) (before after : List Package) :
    (c.withPackages before).withPackages after = c.withPackages (before ++ after) := by
  unfold withPackages
  dsimp only
  rw [Array.append_assoc, List.append_toArray before after]

/-- The packages of a repository, in the order of their numbers. -/
def packagesOf (c : Catalog) (repo : Nat) : List Package :=
  c.packages.toList.filter fun p => p.repo == repo

/-- The first repositories of a catalog and their packages, and nothing else. -/
def loaded (c : Catalog) (m : Nat) : Catalog where
  packages := ((List.range m).flatMap c.packagesOf).toArray
  repos := (c.repos.toList.take m).toArray
  installedRepo? := c.installedRepo?.filter (· < m)

theorem map_snd_regrouped (c : Catalog) :
    c.regrouped.map (·.2) = (List.range c.repos.size).flatMap c.packagesOf := by
  unfold regrouped
  rw [List.map_flatMap]
  refine congrArg (List.flatMap · _) (funext fun i => ?_)
  unfold packagesOf
  rw [← map_snd_numbered, List.filter_map]
  rfl

/-- All repositories together hold the regrouped packages. -/
theorem loaded_size (h : c.WellFormed) : c.loaded c.repos.size =
    { packages := c.reloaded.packages, repos := c.repos, installedRepo? := c.installedRepo? } := by
  have hpackages : c.reloaded.packages =
      ((List.range c.repos.size).flatMap c.packagesOf).toArray :=
    congrArg List.toArray c.map_snd_regrouped
  have hinstalled : c.installedRepo?.filter (· < c.repos.size) = c.installedRepo? := by
    cases hi : c.installedRepo? with
    | none => rfl
    | some i =>
        obtain ⟨r, hr, -⟩ := h.known i hi
        exact Option.filter_some_pos (decide_eq_true (Array.getElem?_eq_some_iff.mp hr).1)
  unfold loaded
  rw [hinstalled, hpackages, ← Array.length_toList, List.take_length]

theorem size_loaded {m : Nat} (hm : m ≤ c.repos.size) : (c.loaded m).repos.size = m := by
  show (c.repos.toList.take m).toArray.size = m
  rw [List.size_toArray, List.length_take, Array.length_toList]
  exact Nat.min_eq_left hm

/-- The repository of installed packages is known once it has been loaded. -/
theorem installedRepo?_loaded_succ (h : c.WellFormed) {m : Nat} {r : Repo}
    (hr : c.repos[m]? = some r) : (c.loaded (m + 1)).installedRepo? =
      if r.installed then some m else (c.loaded m).installedRepo? := by
  show c.installedRepo?.filter (· < m + 1) = if r.installed then _ else c.installedRepo?.filter (· < m)
  split
  · rename_i hinst
    rw [(h.installed m r hr hinst).1]
    exact Option.filter_some_pos (decide_eq_true (Nat.lt_succ_self m))
  · rename_i hinst
    cases hi : c.installedRepo? with
    | none => rfl
    | some i =>
        -- the known one is another
        have hne : i ≠ m := by
          rintro rfl
          obtain ⟨r', hr', hinst'⟩ := h.known i hi
          rw [hr] at hr'
          exact hinst (Option.some.inj hr' ▸ hinst')
        have hiff : (i < m + 1) = (i < m) := by
          rw [Nat.lt_succ_iff_lt_or_eq]
          exact propext (or_iff_left hne)
        unfold Option.filter
        dsimp only
        simp only [hiff]

/-- One more repository is loaded by adding it and its packages. -/
theorem loaded_succ (h : c.WellFormed) {m : Nat} {r : Repo} (hr : c.repos[m]? = some r) :
    ((c.loaded m).withRepo r).withPackages (c.packagesOf m) = c.loaded (m + 1) := by
  have hm : m < c.repos.size := (Array.getElem?_eq_some_iff.mp hr).1
  have hinstalled := installedRepo?_loaded_succ h hr
  have hrepos : (c.loaded m).repos.push r = (c.loaded (m + 1)).repos := by
    show (c.repos.toList.take m).toArray.push r = (c.repos.toList.take (m + 1)).toArray
    rw [List.take_add_one, Array.getElem?_toList, hr, List.push_toArray]
    rfl
  have hpackages : (c.loaded m).packages ++ (c.packagesOf m).toArray =
      (c.loaded (m + 1)).packages := by
    show ((List.range m).flatMap _).toArray ++ _ = ((List.range (m + 1)).flatMap _).toArray
    rw [List.append_toArray, List.range_succ, List.flatMap_append, List.flatMap_singleton]
  unfold withPackages withRepo
  dsimp only
  rw [hrepos, hpackages, size_loaded (Nat.le_of_lt hm), ← hinstalled]
  rfl

end Catalog

namespace Universe

variable {u : Universe} {c : Catalog}

/-- Packages that are read back are added behind the others. -/
theorem addStoredPackages_toStored {repo : Nat} : ∀ {packages : List Package} (c : Catalog),
    (∀ p ∈ packages, p.ReadsBack ∧ p.repo = repo) →
      (ofCatalog c).addStoredPackages repo (packages.map Package.toStored) =
        .ok (ofCatalog (c.withPackages packages))
  | [], c, _ => by
      rw [c.withPackages_nil]
      rfl
  | p :: packages, c, h => by
      obtain ⟨⟨hp, hrepo⟩, hrest⟩ := List.forall_mem_cons.mp h
      have hadd : ((ofCatalog c).addPackage repo { p with repo := 0 }).2 =
          ofCatalog (c.withPackages [p]) := by
        rw [← hrepo]
        rfl
      have ih := addStoredPackages_toStored (c.withPackages [p]) hrest
      rw [c.withPackages_append] at ih
      unfold addStoredPackages at ih ⊢
      rw [List.map_cons, List.foldlM_cons, Package.ofStored_toStored hp]
      show List.foldlM _ ((ofCatalog c).addPackage repo { p with repo := 0 }).2 _ = _
      rw [hadd, ih]
      rfl

/-- A repository is added as it was, behind the others. -/
theorem addStoredRepo_toStored {r : Repo} {packages : List Package}
    (hr : r.installed = true → c.installedRepo? = none ∧ r = systemRepo)
    (hpackages : ∀ p ∈ packages, p.ReadsBack ∧ p.repo = c.repos.size) :
    addStoredRepo (ofCatalog c)
        { name := r.name, priority := r.priority, installed := r.installed
          packages := packages.map Package.toStored } =
      .ok (ofCatalog ((c.withRepo r).withPackages packages)) := by
  have hchosen : (if r.installed then (ofCatalog c).installedRepo
      else (ofCatalog c).addRepo r.name r.priority) = (c.repos.size, ofCatalog (c.withRepo r)) := by
    unfold Catalog.withRepo
    split
    · rename_i hinst
      obtain ⟨hnone, rfl⟩ := hr hinst
      have hnone' : (ofCatalog c).installedRepo? = none := hnone
      unfold installedRepo
      rw [hnone']
      rfl
    · rename_i hinst
      rw [Bool.not_eq_true] at hinst
      unfold addRepo
      rw [← hinst]
      rfl
  unfold addStoredRepo
  rw [hchosen]
  exact addStoredPackages_toStored _ hpackages

/-- A repository as a description lists it. -/
theorem getElem?_toStored_repos {m : Nat} {r : Repo} (hr : u.repos[m]? = some r) :
    u.toStored.repos[m]? = some
      { name := r.name, priority := r.priority, installed := r.installed
        packages := (u.packagesOf m).map Package.toStored } := by
  unfold toStored
  dsimp only
  rw [List.getElem?_map, List.getElem?_zipIdx, Array.getElem?_toList, hr, Nat.zero_add]
  rfl

/-- **The first repositories of a description are loaded as they were.** -/
theorem foldlM_addStoredRepo (h : u.toCatalog.WellFormed)
    (htexts : ∀ p ∈ u.packages.toList, p.ReadsBack) : ∀ m ≤ u.repos.size,
      (u.toStored.repos.take m).foldlM addStoredRepo empty = .ok (ofCatalog (u.loaded m)) := by
  intro m
  induction m with
  | zero =>
      intro _
      have hnone : u.installedRepo?.filter (· < 0) = none := by
        cases u.installedRepo? <;> rfl
      unfold Catalog.loaded
      rw [hnone]
      rfl
  | succ m ih =>
      intro hm
      obtain ⟨r, hr⟩ : ∃ r, u.repos[m]? = some r := ⟨_, Array.getElem?_eq_getElem hm⟩
      have hsize := Catalog.size_loaded (Nat.le_of_lt hm)
      have hnew : r.installed = true → (u.loaded m).installedRepo? = none ∧ r = systemRepo := by
        intro hinst
        obtain ⟨hknown, hsystem⟩ := h.installed m r hr hinst
        refine ⟨?_, hsystem⟩
        show u.installedRepo?.filter (· < m) = none
        rw [hknown]
        exact Option.filter_some_neg (by simp)
      have hpackages : ∀ p ∈ u.packagesOf m, p.ReadsBack ∧ p.repo = (u.loaded m).repos.size := by
        intro p hp
        obtain ⟨hmem, hrepo⟩ := List.mem_filter.mp hp
        exact ⟨htexts p hmem, (beq_iff_eq.mp hrepo).trans hsize.symm⟩
      rw [List.take_add_one, getElem?_toStored_repos hr, List.foldlM_append, ih (Nat.le_of_lt hm)]
      show [_].foldlM addStoredRepo (ofCatalog (u.loaded m)) = _
      rw [List.foldlM_cons, addStoredRepo_toStored hnew hpackages, Catalog.loaded_succ h hr]
      rfl

end Universe

/-! ## Packages found by their keys -/

namespace Catalog

variable {c : Catalog} {id : PackageId} {key : String}

/-- Whether no two packages have the same key. -/
def KeysDistinct (c : Catalog) : Prop :=
  ∀ a ∈ c.ids, ∀ b ∈ c.ids, c.packageKey? a = c.packageKey? b → a = b

/-- Whether the texts of every package are read back. -/
def ReadsBack (c : Catalog) : Prop := ∀ p ∈ c.packages.toList, p.ReadsBack

/-- Only packages have keys. -/
theorem mem_ids_of_packageKey? (h : c.packageKey? id = some key) : id ∈ c.ids := by
  unfold packageKey? at h
  cases hp : c.package? id with
  | none =>
      rw [hp] at h
      exact absurd h (by simp)
  | some p => exact mem_ids.mpr ⟨p, hp⟩

/-- Every package of a repository has a key. -/
theorem packageKey?_isSome (hc : c.Housed) (hid : id ∈ c.ids) : (c.packageKey? id).isSome := by
  obtain ⟨p, hp⟩ := mem_ids.mp hid
  unfold packageKey?
  rw [hp, Option.bind_eq_bind, Option.bind_some, Array.getElem?_eq_getElem (hc id p hp)]
  rfl

/-- **A key finds the package it was made of**, under its new number. -/
theorem findKey?_reloaded (hc : c.Housed) (hkeys : c.KeysDistinct)
    (hkey : c.packageKey? id = some key) : c.reloaded.findKey? key = some (c.renumber id) := by
  have hid := mem_ids_of_packageKey? hkey
  have hbij := bijOn_renumber hc
  have hkey' := (packageKey?_reloaded hc hid).trans hkey
  unfold findKey?
  cases hfind : c.reloaded.ids.find? fun x => c.reloaded.packageKey? x == some key with
  | none =>
      have hno := List.find?_eq_none.mp hfind _ (hbij.mapsTo hid)
      rw [hkey', beq_self_eq_true] at hno
      exact absurd rfl hno
  | some x =>
      -- what is found has the key, and so it is the package that had it
      obtain ⟨y, hy, rfl⟩ := hbij.surjOn (List.mem_of_find?_eq_some hfind)
      have hfound := List.find?_some hfind
      rw [packageKey?_reloaded hc hy, beq_iff_eq] at hfound
      rw [hkeys y hy id hid (hfound.trans hkey.symm)]

end Catalog

namespace Universe

variable {u v : Universe}

/-- Keys that are found are all read. -/
theorem findKeys_map {keyOf : PackageId → String} {σ : PackageId → PackageId}
    {ids : List PackageId} (h : ∀ id ∈ ids, v.findKey? (keyOf id) = some (σ id)) :
    v.findKeys (ids.map keyOf) = .ok (.ofList (ids.map σ)) := by
  unfold findKeys PackageSet.ofList PackageSet.insertMany
  rw [List.foldlM_map, List.foldl_map]
  refine foldlM_eq_ok _ fun id hid s => ?_
  rw [h id hid]

/-- The keys by which a description names excluded packages. -/
theorem filterMap_packageKey? (hc : u.toCatalog.Housed) (ids : List PackageId) :
    ids.filterMap u.packageKey? = (ids.filter fun id => (u.package? id).isSome).map
      fun id => (u.packageKey? id).getD "" := by
  induction ids with
  | nil => rfl
  | cons id ids ih =>
      cases hp : u.package? id with
      | none =>
          have hkey : u.packageKey? id = none := by
            unfold Catalog.packageKey?
            rw [hp]
            rfl
          rw [List.filterMap_cons_none hkey, List.filter_cons_of_neg (by rw [hp]; simp), ih]
      | some p =>
          obtain ⟨key, hkey⟩ := Option.isSome_iff_exists.mp
            (Catalog.packageKey?_isSome hc (Catalog.mem_ids.mpr ⟨p, hp⟩))
          rw [List.filterMap_cons_some hkey, List.filter_cons_of_pos (by rw [hp]; rfl), ih,
            List.map_cons, hkey]
          rfl

/-- **What is read from the description of a universe.** -/
theorem ofStored_toStored (h : u.Built) (hkeys : u.toCatalog.KeysDistinct)
    (htexts : u.toCatalog.ReadsBack) :
    ofStored u.toStored = .ok (ofCatalog u.toCatalog.reloaded) := by
  have hc := h.wellFormed
  have hload := foldlM_addStoredRepo hc htexts _ (Nat.le_refl _)
  have hlength : u.toStored.repos.length = u.repos.size := by
    unfold toStored
    dsimp only
    rw [List.length_map, List.length_zipIdx, Array.length_toList]
  rw [← hlength, List.take_length, hlength, Catalog.loaded_size hc] at hload
  have hfound : ∀ id ∈ u.excludes.toList.filter fun id => (u.package? id).isSome,
      (ofCatalog (u.loaded u.repos.size)).findKey? ((u.packageKey? id).getD "") =
        some (u.renumber id) := by
    intro id hid
    obtain ⟨p, hp⟩ := Option.isSome_iff_exists.mp (List.mem_filter.mp hid).2
    obtain ⟨key, hkey⟩ := Option.isSome_iff_exists.mp
      (Catalog.packageKey?_isSome hc.housed (Catalog.mem_ids.mpr ⟨p, hp⟩))
    rw [hkey, Catalog.loaded_size hc]
    exact Catalog.findKey?_reloaded hc.housed hkeys hkey
  have hexcludes := findKeys_map hfound
  rw [← filterMap_packageKey? hc.housed, Catalog.loaded_size hc] at hexcludes
  unfold ofStored
  rw [hload]
  show (do
    let excludes ← findKeys _ (u.excludes.toList.filterMap u.packageKey?)
    _) = _
  rw [hexcludes]
  rfl

/-- **Whether a universe is another but for the numbers of its packages**, which stand together by
repository and otherwise in the order they had. -/
structure Regroups (u v : Universe) (σ : PackageId → PackageId) : Prop where
  bijOn : Set.BijOn σ {id | id ∈ u.ids} {id | id ∈ v.ids}
  package : ∀ id ∈ u.ids, v.package? (σ id) = u.package? id
  packageRepo : ∀ id ∈ u.ids, v.packageRepo? (σ id) = u.packageRepo? id
  excludes : ∀ id ∈ u.ids, v.excludes.contains (σ id) = u.excludes.contains id
  isConsidered : ∀ id ∈ u.ids, v.isConsidered (σ id) = u.isConsidered id
  inOrder : ∀ a b p q, u.package? a = some p → u.package? b = some q →
    Catalog.ListedBefore (a, p) (b, q) → σ a < σ b
  repos : v.repos = u.repos
  installonly : v.installonly = u.installonly
  installonlyLimit : v.installonlyLimit = u.installonlyLimit
  kernelRelease : v.kernelRelease = u.kernelRelease

theorem isConsidered_reloaded (hc : u.toCatalog.Housed) {id : PackageId} (hid : id ∈ u.ids) :
    (ofCatalog u.toCatalog.reloaded).isConsidered (u.renumber id) = u.isConsidered id := by
  have hid' : u.renumber id ∈ (ofCatalog u.toCatalog.reloaded).ids :=
    (Catalog.bijOn_renumber hc).mapsTo hid
  have hinstalled : (ofCatalog u.toCatalog.reloaded).isInstalled (u.renumber id) =
      u.isInstalled id := congrArg (Option.any _) (Catalog.packageRepo?_reloaded hc hid)
  have hexcludes : (ofCatalog u.toCatalog.reloaded).excludes.contains (u.renumber id) =
      u.excludes.contains id := Catalog.excludes_reloaded hc hid
  rw [Bool.eq_iff_iff, isConsidered_iff, isConsidered_iff, hinstalled, hexcludes,
    and_iff_right (Catalog.mem_ids.mp hid), and_iff_right (Catalog.mem_ids.mp hid')]

theorem regroups_reloaded (hc : u.toCatalog.Housed) :
    u.Regroups (ofCatalog u.toCatalog.reloaded) u.renumber where
  bijOn := Catalog.bijOn_renumber hc
  package id hid := by
    obtain ⟨p, hp⟩ := Catalog.mem_ids.mp hid
    exact (Catalog.package?_reloaded hp (hc id p hp)).trans hp.symm
  packageRepo id hid := Catalog.packageRepo?_reloaded hc hid
  excludes id hid := Catalog.excludes_reloaded hc hid
  isConsidered id hid := isConsidered_reloaded hc hid
  inOrder a b p q ha hb := Catalog.renumber_lt ha hb (hc a p ha) (hc b q hb)
  repos := rfl
  installonly := rfl
  installonlyLimit := rfl
  kernelRelease := rfl

/--
**A universe that is written out and read back is the same but for the numbers of its packages.**

This holds of every universe that was put together by adding repositories, adding packages to them,
and saying what is excluded, install-only and booted, as long as no two packages share a key and
their texts are read back.
-/
theorem regroups_reload {u : Universe} (h : u.Built) (hkeys : u.toCatalog.KeysDistinct)
    (htexts : u.toCatalog.ReadsBack) :
    ∃ v σ, ofStored u.toStored = .ok v ∧ u.Regroups v σ :=
  ⟨_, u.renumber, ofStored_toStored h hkeys htexts, regroups_reloaded h.wellFormed.housed⟩

/-- A version that is read back from its text. -/
def plainEvr : Evr := { epoch := 0, version := "1", release := some "1" }

theorem parse_plainEvr : Evr.parse plainEvr.toText = .ok plainEvr := by
  have hread : Evr.parse "1-1" = .ok plainEvr := by rfl
  exact (Evr.parse_toText_eq_iff hread).mpr (by decide)

/-- A package of that version that declares nothing but requirements. -/
def requiring (name : String) (requires : List Relation) : Package where
  name
  evr := plainEvr
  arch := "noarch"
  requires

/-- An available package between two installed ones, and excluded. -/
def scattered : Universe :=
  let u := (empty.addRepo "base" 10).2.installedRepo.2
  let u := (u.addPackage 1 (requiring "app" [Relation.ofName "lib"])).2
  let u := (u.addPackage 0 (requiring "lib" [])).2
  (u.addPackage 1 (requiring "tool" [])).2.exclude 2

theorem built_scattered : scattered.Built := by
  have hrepos := (Built.empty.addRepo "base" 10).installedRepo
  have happ := hrepos.addPackage (show 1 < _ by decide) (requiring "app" [Relation.ofName "lib"])
  have hlib := happ.addPackage (show 0 < _ by decide) (requiring "lib" [])
  exact (hlib.addPackage (show 1 < _ by decide) (requiring "tool" [])).exclude 2

theorem readsBack_requiring (name : String) (repo : Nat) {requires : List Relation}
    (h : ∀ r ∈ requires, r.ReadsBack) : { requiring name requires with repo }.ReadsBack := by
  have hnone : ∀ r ∈ ([] : List Relation), r.ReadsBack := List.forall_mem_nil _
  exact ⟨parse_plainEvr, hnone, h, hnone, hnone, hnone⟩

theorem readsBack_scattered : scattered.toCatalog.ReadsBack := by
  have hnone : ∀ r ∈ ([] : List Relation), r.ReadsBack := List.forall_mem_nil _
  have hlib : ∀ r ∈ [Relation.ofName "lib"], r.ReadsBack := List.forall_mem_singleton.mpr rfl
  refine List.forall_mem_cons.mpr ⟨readsBack_requiring "app" 1 hlib, ?_⟩
  refine List.forall_mem_cons.mpr ⟨readsBack_requiring "lib" 0 hnone, ?_⟩
  exact List.forall_mem_singleton.mpr (readsBack_requiring "tool" 1 hnone)

/-- The excluded package comes first when the universe is read back. -/
theorem regroups_reload_scattered :
    scattered.Built ∧ scattered.toCatalog.KeysDistinct ∧ scattered.toCatalog.ReadsBack ∧
      ∃ v σ, ofStored scattered.toStored = .ok v ∧ scattered.Regroups v σ := by
  have hkeys : scattered.toCatalog.KeysDistinct := by
    unfold Catalog.KeysDistinct
    decide +kernel
  exact ⟨built_scattered, hkeys, readsBack_scattered,
    regroups_reload built_scattered hkeys readsBack_scattered⟩

end Universe

end DepSolver
