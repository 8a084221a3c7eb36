import DepSolver.Proofs.Generation.Literals
import DepSolver.Proofs.Stored.Reload
import DepSolver.Proofs.Universe.Ranking

/-!
# The same packages under other numbers

Two universes may hold the same packages, in the same repositories and just as visible, under
numbers that can be translated back and forth. Whatever is found in one of them by what packages say
about themselves is then found in the other. `Corresponds` says so of two lists: they hold the same
packages, each under its own numbers and in its own order. It is kept when lists are filtered or put
together, and so by everything that candidates go through.
-/

namespace DepSolver

namespace Universe

variable {u v : Universe} {σ τ : PackageId → PackageId}

/-- **Whether two universes hold the same packages**, under numbers that are translated there and
back. -/
structure Renumbers (u v : Universe) (σ τ : PackageId → PackageId) : Prop where
  mapsTo : ∀ id ∈ u.ids, σ id ∈ v.ids
  mapsBack : ∀ id ∈ v.ids, τ id ∈ u.ids
  back : ∀ id ∈ u.ids, τ (σ id) = id
  forth : ∀ id ∈ v.ids, σ (τ id) = id
  package : ∀ id ∈ u.ids, v.package? (σ id) = u.package? id
  packageRepo : ∀ id ∈ u.ids, v.packageRepo? (σ id) = u.packageRepo? id
  isConsidered : ∀ id ∈ u.ids, v.isConsidered (σ id) = u.isConsidered id

/-- A universe that is regrouped holds the packages that it held. -/
theorem Regroups.renumbers (h : u.Regroups v σ) : ∃ τ, u.Renumbers v σ τ := by
  have hinv := h.bijOn.invOn_invFunOn
  refine ⟨Function.invFunOn σ {id | id ∈ u.ids}, ?_⟩
  exact
    { mapsTo := fun id hid => h.bijOn.mapsTo hid
      mapsBack := fun id hid => Function.invFunOn_mem (h.bijOn.surjOn hid)
      back := fun id hid => hinv.1 hid
      forth := fun id hid => hinv.2 hid
      package := h.package
      packageRepo := h.packageRepo
      isConsidered := h.isConsidered }

theorem pos_of_mem_ids {id : PackageId} (h : id ∈ u.ids) : 0 < id := by
  obtain ⟨p, hp⟩ := Catalog.mem_ids.mp h
  exact Catalog.pos_of_package? hp

namespace Renumbers

theorem symm (h : u.Renumbers v σ τ) : v.Renumbers u τ σ where
  mapsTo := h.mapsBack
  mapsBack := h.mapsTo
  back := h.forth
  forth := h.back
  package id hid := by rw [← h.package _ (h.mapsBack id hid), h.forth id hid]
  packageRepo id hid := by rw [← h.packageRepo _ (h.mapsBack id hid), h.forth id hid]
  isConsidered id hid := by rw [← h.isConsidered _ (h.mapsBack id hid), h.forth id hid]

variable {a b id : PackageId}

theorem inj (h : u.Renumbers v σ τ) (ha : a ∈ u.ids) (hb : b ∈ u.ids) (heq : σ a = σ b) :
    a = b := by
  rw [← h.back a ha, heq, h.back b hb]

theorem isInstalled (h : u.Renumbers v σ τ) (hid : id ∈ u.ids) :
    v.isInstalled (σ id) = u.isInstalled id := congrArg (Option.any _) (h.packageRepo id hid)

theorem compareWorth (h : u.Renumbers v σ τ) (ha : a ∈ u.ids) (hb : b ∈ u.ids) :
    v.compareWorth (σ a) (σ b) = u.compareWorth a b := by
  unfold Universe.compareWorth compareNewest Catalog.priority
  rw [h.package a ha, h.package b hb, h.packageRepo a ha, h.packageRepo b hb]

end Renumbers

/-! ## Lists of the same packages -/

/-- **Whether two lists hold the same packages**, each under the numbers of its universe. -/
structure Corresponds (u v : Universe) (σ : PackageId → PackageId) (xs ys : List PackageId) :
    Prop where
  left : ∀ id ∈ xs, id ∈ u.ids
  right : ∀ id ∈ ys, id ∈ v.ids
  mem_iff : ∀ id ∈ u.ids, σ id ∈ ys ↔ id ∈ xs

namespace Corresponds

variable {xs ys xs' ys' : List PackageId} {P Q : PackageId → Bool}

theorem exists_mem (h : u.Renumbers v σ τ) (hc : Corresponds u v σ xs ys) {y : PackageId}
    (hy : y ∈ ys) : ∃ x ∈ xs, σ x = y := by
  have hforth := h.forth y (hc.right y hy)
  refine ⟨τ y, (hc.mem_iff _ (h.mapsBack y (hc.right y hy))).mp ?_, hforth⟩
  rwa [hforth]

theorem mem (hc : Corresponds u v σ xs ys) {x : PackageId} (hx : x ∈ xs) : σ x ∈ ys :=
  (hc.mem_iff x (hc.left x hx)).mpr hx

theorem symm (h : u.Renumbers v σ τ) (hc : Corresponds u v σ xs ys) : Corresponds v u τ ys xs where
  left := hc.right
  right := hc.left
  mem_iff id hid := by rw [← hc.mem_iff _ (h.mapsBack id hid), h.forth id hid]

/-- Order and repetition do not matter. -/
theorem congr (hc : Corresponds u v σ xs ys) (hx : ∀ id, id ∈ xs' ↔ id ∈ xs)
    (hy : ∀ id, id ∈ ys' ↔ id ∈ ys) : Corresponds u v σ xs' ys' where
  left id hid := hc.left id ((hx id).mp hid)
  right id hid := hc.right id ((hy id).mp hid)
  mem_iff id hid := by rw [hx, hy, hc.mem_iff id hid]

theorem nil : Corresponds u v σ [] [] := ⟨by simp, by simp, by simp⟩

theorem append (hc : Corresponds u v σ xs ys) (hc' : Corresponds u v σ xs' ys') :
    Corresponds u v σ (xs ++ xs') (ys ++ ys') where
  left := List.forall_mem_append.mpr ⟨hc.left, hc'.left⟩
  right := List.forall_mem_append.mpr ⟨hc.right, hc'.right⟩
  mem_iff id hid := by rw [List.mem_append, List.mem_append, hc.mem_iff id hid, hc'.mem_iff id hid]

/-- A list corresponds to its translation. -/
theorem image (h : u.Renumbers v σ τ) (hx : ∀ id ∈ xs, id ∈ u.ids) :
    Corresponds u v σ xs (xs.map σ) where
  left := hx
  right := List.forall_mem_map.mpr fun id hid => h.mapsTo id (hx id hid)
  mem_iff id hid := by
    rw [List.mem_map]
    exact ⟨fun ⟨x, hxs, heq⟩ => h.inj (hx x hxs) hid heq ▸ hxs, fun hxs => ⟨id, hxs, rfl⟩⟩

theorem singleton (h : u.Renumbers v σ τ) {id : PackageId} (hid : id ∈ u.ids) :
    Corresponds u v σ [id] [σ id] := image h (List.forall_mem_singleton.mpr hid)

theorem filter (hc : Corresponds u v σ xs ys) (hPQ : ∀ id ∈ u.ids, Q (σ id) = P id) :
    Corresponds u v σ (xs.filter P) (ys.filter Q) where
  left id hid := hc.left id (List.mem_of_mem_filter hid)
  right id hid := hc.right id (List.mem_of_mem_filter hid)
  mem_iff id hid := by rw [List.mem_filter, List.mem_filter, hc.mem_iff id hid, hPQ id hid]

/-- Packages are picked alike by what they say about themselves. -/
theorem filter_package (h : u.Renumbers v σ τ) (hc : Corresponds u v σ xs ys)
    (test : Package → Bool) : Corresponds u v σ (xs.filter fun id => (u.package? id).any test)
      (ys.filter fun id => (v.package? id).any test) :=
  hc.filter fun id hid => by rw [h.package id hid]

theorem map (h : u.Renumbers v σ τ) (hc : Corresponds u v σ xs ys) {f g : PackageId → PackageId}
    (hf : ∀ id ∈ xs, f id ∈ u.ids) (hfg : ∀ id ∈ xs, g (σ id) = σ (f id)) :
    Corresponds u v σ (xs.map f) (ys.map g) where
  left := List.forall_mem_map.mpr hf
  right := by
    refine List.forall_mem_map.mpr fun y hy => ?_
    obtain ⟨x, hx, rfl⟩ := hc.exists_mem h hy
    rw [hfg x hx]
    exact h.mapsTo _ (hf x hx)
  mem_iff id hid := by
    rw [List.mem_map, List.mem_map]
    refine ⟨fun ⟨y, hy, heq⟩ => ?_, fun ⟨x, hx, heq⟩ => ⟨σ x, hc.mem hx, ?_⟩⟩
    · obtain ⟨x, hx, rfl⟩ := hc.exists_mem h hy
      rw [hfg x hx] at heq
      exact ⟨x, hx, h.inj (hf x hx) hid heq⟩
    · rw [hfg x hx, heq]

theorem any_eq (h : u.Renumbers v σ τ) (hc : Corresponds u v σ xs ys)
    (hPQ : ∀ id ∈ u.ids, Q (σ id) = P id) : ys.any Q = xs.any P := by
  rw [Bool.eq_iff_iff, List.any_eq_true, List.any_eq_true]
  refine ⟨fun ⟨y, hy, hQ⟩ => ?_, fun ⟨x, hx, hP⟩ => ⟨σ x, hc.mem hx, ?_⟩⟩
  · obtain ⟨x, hx, rfl⟩ := hc.exists_mem h hy
    rw [hPQ x (hc.left x hx)] at hQ
    exact ⟨x, hx, hQ⟩
  · rw [hPQ x (hc.left x hx), hP]

theorem isEmpty_eq (h : u.Renumbers v σ τ) (hc : Corresponds u v σ xs ys) :
    ys.isEmpty = xs.isEmpty := by
  have hany := hc.any_eq (P := fun _ => true) (Q := fun _ => true) h fun _ _ => rfl
  cases xs <;> cases ys <;> first | rfl | exact absurd hany (by simp)

theorem contains_eq (hc : Corresponds u v σ xs ys) {id : PackageId} (hid : id ∈ u.ids) :
    ys.contains (σ id) = xs.contains id := by
  rw [Bool.eq_iff_iff, List.contains_iff_mem, List.contains_iff_mem, hc.mem_iff id hid]

end Corresponds

/-! ## What is found in a universe -/

namespace Renumbers

variable {id : PackageId}

/-- What is found by what packages say about themselves is found under any numbers. -/
theorem corresponds (h : u.Renumbers v σ τ) {P : Package → Prop} {xs ys : List PackageId}
    (hx : ∀ id, id ∈ xs ↔ u.isConsidered id = true ∧ ∃ p, u.package? id = some p ∧ P p)
    (hy : ∀ id, id ∈ ys ↔ v.isConsidered id = true ∧ ∃ p, v.package? id = some p ∧ P p) :
    Corresponds u v σ xs ys where
  left id hid := mem_ids_of_isConsidered ((hx id).mp hid).1
  right id hid := mem_ids_of_isConsidered ((hy id).mp hid).1
  mem_iff id hid := by rw [hx, hy, h.isConsidered id hid, h.package id hid]

theorem packagesByName (h : u.Renumbers v σ τ) (name : String) :
    Corresponds u v σ (u.packagesByName name) (v.packagesByName name) :=
  h.corresponds (fun _ => mem_packagesByName) fun _ => mem_packagesByName

theorem whatProvides (h : u.Renumbers v σ τ) (r : Relation) :
    Corresponds u v σ (u.whatProvides r) (v.whatProvides r) :=
  h.corresponds (fun _ => mem_whatProvides) fun _ => mem_whatProvides

theorem considered (h : u.Renumbers v σ τ) :
    Corresponds u v σ u.considered.toList v.considered.toList where
  left id hid := mem_ids_of_isConsidered (mem_considered_toList.mp hid)
  right id hid := mem_ids_of_isConsidered (mem_considered_toList.mp hid)
  mem_iff id hid := by rw [mem_considered_toList, mem_considered_toList, h.isConsidered id hid]

theorem installedIds (h : u.Renumbers v σ τ) : Corresponds u v σ u.installedIds v.installedIds where
  left id hid := Catalog.mem_ids_of_isInstalled (mem_installedIds.mp hid)
  right id hid := Catalog.mem_ids_of_isInstalled (mem_installedIds.mp hid)
  mem_iff id hid := by rw [mem_installedIds, mem_installedIds, h.isInstalled hid]

theorem ids (h : u.Renumbers v σ τ) : Corresponds u v σ u.ids v.ids where
  left _ hid := hid
  right _ hid := hid
  mem_iff id hid := iff_of_true (h.mapsTo id hid) hid

/-- Packages have releases under any numbers. -/
theorem hasRelease (h : u.Renumbers v σ τ) (hr : ∀ id ∈ u.ids, u.HasRelease id) :
    ∀ id ∈ v.ids, v.HasRelease id := by
  intro id hid
  obtain ⟨p, hp, hpr⟩ := hr _ (h.mapsBack id hid)
  rw [← h.package _ (h.mapsBack id hid), h.forth id hid] at hp
  exact ⟨p, hp, hpr⟩

end Renumbers

/-! ## What is best -/

/-- The architectures in which packages of a name are installed. -/
def installedArchs (u : Universe) (name : String) : List String :=
  ((u.installedIds.filterMap u.package?).filter fun p => p.name == name).map (·.arch)

theorem mem_installedArchs {name arch : String} : arch ∈ u.installedArchs name ↔
    (u.installedIds.any fun id =>
      (u.package? id).any fun p => p.name == name && p.arch == arch) = true := by
  unfold installedArchs
  simp only [List.mem_map, List.mem_filter, List.mem_filterMap, List.any_eq_true,
    Option.any_eq_true, Bool.and_eq_true, beq_iff_eq]
  exact ⟨fun ⟨p, ⟨⟨id, hid, hp⟩, hname⟩, harch⟩ => ⟨id, hid, p, hp, hname, harch⟩,
    fun ⟨id, hid, p, hp, hname, harch⟩ => ⟨p, ⟨⟨id, hid, hp⟩, hname⟩, harch⟩⟩

theorem keepInstalledArch_eq (name : String) (group : List PackageId) :
    u.keepInstalledArch name group =
      let matching := group.filter fun id => (u.package? id).any fun p =>
        p.isNoarch || (u.installedArchs name).any fun arch => arch == p.arch || arch == "noarch"
      if (u.installedArchs name).isEmpty || matching.isEmpty then group else matching := rfl

namespace Renumbers

variable {id : PackageId} {xs ys : List PackageId}

theorem topRank (h : u.Renumbers v σ τ) (hr : ∀ id ∈ u.ids, u.HasRelease id)
    (hc : Corresponds u v σ xs ys) : Corresponds u v σ (u.topRank xs) (v.topRank ys) := by
  have hx : ∀ id, id ∈ u.topRank xs ↔ id ∈ xs ∧ ∀ c ∈ xs, (u.compareWorth id c).isLE = true :=
    fun id => mem_topRank fun c hcx => hr c (hc.left c hcx)
  have hy : ∀ id, id ∈ v.topRank ys ↔ id ∈ ys ∧ ∀ c ∈ ys, (v.compareWorth id c).isLE = true :=
    fun id => mem_topRank fun c hcy => h.hasRelease hr c (hc.right c hcy)
  refine ⟨fun id hid => hc.left id ((hx id).mp hid).1, fun id hid => hc.right id ((hy id).mp hid).1,
    fun id hid => ?_⟩
  rw [hx, hy, hc.mem_iff id hid]
  refine and_congr_right fun _ => ⟨fun hle c hcx => ?_, fun hle y hyy => ?_⟩
  · rw [← h.compareWorth hid (hc.left c hcx)]
    exact hle _ (hc.mem hcx)
  · obtain ⟨c, hcx, rfl⟩ := hc.exists_mem h hyy
    rw [h.compareWorth hid (hc.left c hcx)]
    exact hle c hcx

/-- The same architectures are installed, though perhaps not in the same order. -/
theorem mem_installedArchs (h : u.Renumbers v σ τ) (name arch : String) :
    arch ∈ v.installedArchs name ↔ arch ∈ u.installedArchs name := by
  have hany := h.installedIds.any_eq (P := fun id => (u.package? id).any fun p =>
    p.name == name && p.arch == arch) (Q := fun id => (v.package? id).any fun p =>
      p.name == name && p.arch == arch) h fun id hid => by rw [h.package id hid]
  rw [Universe.mem_installedArchs, Universe.mem_installedArchs, hany]

theorem keepInstalledArch (h : u.Renumbers v σ τ) (name : String) (hc : Corresponds u v σ xs ys) :
    Corresponds u v σ (u.keepInstalledArch name xs) (v.keepInstalledArch name ys) := by
  have harchs := h.mem_installedArchs name
  have hempty : (v.installedArchs name).isEmpty = (u.installedArchs name).isEmpty := by
    rw [Bool.eq_iff_iff, List.isEmpty_iff, List.isEmpty_iff, List.eq_nil_iff_forall_not_mem,
      List.eq_nil_iff_forall_not_mem]
    exact forall_congr' fun arch => not_congr (harchs arch)
  have hany : ∀ P : String → Bool,
      (v.installedArchs name).any P = (u.installedArchs name).any P := by
    intro P
    rw [Bool.eq_iff_iff, List.any_eq_true, List.any_eq_true]
    exact exists_congr fun arch => and_congr_left fun _ => harchs arch
  have hmatching := hc.filter_package h fun p =>
    p.isNoarch || (u.installedArchs name).any fun arch => arch == p.arch || arch == "noarch"
  rw [keepInstalledArch_eq, keepInstalledArch_eq]
  simp only [hany, hempty, hmatching.isEmpty_eq h]
  split
  · exact hc
  · exact hmatching

/-- **The best candidates are the same packages**, as long as all versions have a release. -/
theorem bestCandidates (h : u.Renumbers v σ τ) (hr : ∀ id ∈ u.ids, u.HasRelease id)
    (keepArch : Bool) (hc : Corresponds u v σ xs ys) :
    Corresponds u v σ (u.bestCandidates keepArch xs) (v.bestCandidates keepArch ys) := by
  refine hc.filter fun id hid => ?_
  rw [h.package id hid]
  refine congrArg (fun P => (u.package? id).any P) (funext fun p => ?_)
  have hgroup := hc.filter_package h fun q => q.name == p.name
  dsimp only
  cases keepArch with
  | false => exact (h.topRank hr hgroup).contains_eq hid
  | true => exact (h.topRank hr (h.keepInstalledArch p.name hgroup)).contains_eq hid

end Renumbers

end Universe

end DepSolver
