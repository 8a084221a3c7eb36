import DepSolver.Proofs.PackageSet.Bitmap
import DepSolver.Universe.Basic

/-!
# The index answers as a scan would

Every question about names, provides and files is answered from the tables of an `Index`. This file
says what the tables hold, row by row: what a scan over the visible packages would list. From there
on, a look-up is a statement about packages, and no proof speaks of tables any more.

`Index.Lists` is the invariant of building an index: it ties the tables to the packages entered so
far.
-/

namespace DepSolver

namespace Multimap

variable {α : Type}

theorem get_add (m : Multimap α) (key other : String) (value : α) :
    (m.add key value).get other = if key = other then m.get other ++ [value] else m.get other := by
  unfold get add
  dsimp only
  rw [Std.TreeMap.getD_alter]
  simp only [Std.LawfulEqCmp.compare_eq_iff_eq]
  split
  · rename_i h
    rw [h, Std.TreeMap.getD_eq_getD_getElem?]
    exact Array.toList_push
  · rfl

/-- A row of additions under keys that the values bring with them. -/
theorem get_foldl_add {β : Type} (key : β → String) (value : β → α) (other : String) :
    ∀ (items : List β) (m : Multimap α),
      (items.foldl (fun m b => m.add (key b) (value b)) m).get other =
        m.get other ++ (items.filter fun b => key b == other).map value
  | [], m => (List.append_nil _).symm
  | b :: items, m => by
      rw [List.foldl_cons, get_foldl_add key value other items, get_add, List.filter_cons]
      by_cases h : key b = other
      · rw [if_pos h, if_pos (beq_iff_eq.mpr h), List.append_assoc]
        rfl
      · rw [if_neg h, if_neg (fun he => h (beq_iff_eq.mp he))]

end Multimap

/-! ## Packages and their numbers -/

namespace Catalog

variable {c : Catalog}

/-- A number that names a package is one more than a position. -/
theorem eq_add_one_of_pos {a : Int} (h : 0 < a) : ((a.toNat - 1 : Nat) : Int) + 1 = a := by omega

theorem add_one_pos (i : Nat) : 0 < (i : Int) + 1 := by omega

theorem package?_add_one (c : Catalog) (i : Nat) : c.package? ((i : Int) + 1) = c.packages[i]? := by
  unfold package?
  rw [if_pos (add_one_pos i), Int.toNat_natCast_add_one, Nat.add_sub_cancel]

theorem pos_of_package? {id : PackageId} {p : Package} (h : c.package? id = some p) : 0 < id := by
  unfold package? at h
  split at h
  · assumption
  · exact absurd h (by simp)

/-- Packages are numbered from 1 to their number. -/
theorem package?_eq_some {id : PackageId} {p : Package} :
    c.package? id = some p ↔ ∃ i : Nat, id = (i : Int) + 1 ∧ c.packages[i]? = some p := by
  refine ⟨?_, ?_⟩
  · intro h
    have hid := eq_add_one_of_pos (pos_of_package? h)
    refine ⟨id.toNat - 1, hid.symm, ?_⟩
    rw [← package?_add_one, hid, h]
  · intro hs
    obtain ⟨i, rfl, hi⟩ := hs
    rw [package?_add_one, hi]

theorem mem_numbered {id : PackageId} {p : Package} :
    (id, p) ∈ c.numbered ↔ c.package? id = some p := by
  unfold numbered
  rw [List.mem_map, package?_eq_some]
  refine ⟨?_, ?_⟩
  · intro h
    obtain ⟨⟨q, i⟩, hq, he⟩ := h
    rw [List.mem_zipIdx_iff_getElem?, Array.getElem?_toList] at hq
    obtain ⟨rfl, rfl⟩ := Prod.mk.inj he
    exact ⟨i, rfl, hq⟩
  · intro h
    obtain ⟨i, rfl, hi⟩ := h
    refine ⟨(p, i), ?_, rfl⟩
    rw [List.mem_zipIdx_iff_getElem?, Array.getElem?_toList]
    exact hi

theorem mem_ids {id : PackageId} : id ∈ c.ids ↔ ∃ p, c.package? id = some p := by
  unfold ids
  simp only [List.mem_map, List.mem_range, package?_eq_some]
  refine ⟨?_, ?_⟩
  · intro h
    obtain ⟨i, hi, rfl⟩ := h
    exact ⟨_, i, rfl, Array.getElem?_eq_getElem hi⟩
  · intro h
    obtain ⟨p, i, rfl, hi⟩ := h
    exact ⟨i, (Array.getElem?_eq_some_iff.mp hi).1, rfl⟩

/-- The number of a package is at most their number. -/
theorem natAbs_mem_range {id : PackageId} (h : id ∈ c.ids) :
    id.natAbs ∈ List.range' 1 c.packages.size := by
  unfold ids at h
  obtain ⟨i, hi, rfl⟩ := List.mem_map.mp h
  rw [List.mem_range] at hi
  rw [List.mem_range'_1]
  omega

theorem isInstalled_of_package? {id : PackageId} {p : Package} (h : c.package? id = some p) :
    c.isInstalled id = (c.repos[p.repo]?).any (·.installed) := by
  unfold isInstalled packageRepo?
  rw [h]
  rfl

theorem mem_ids_of_isInstalled {id : PackageId} (h : c.isInstalled id = true) : id ∈ c.ids := by
  rw [mem_ids]
  cases hp : c.package? id with
  | none =>
      unfold isInstalled packageRepo? at h
      rw [hp] at h
      exact absurd h (by simp)
  | some p => exact ⟨p, rfl⟩

/-- Whether a package can be seen: it is installed, or not excluded. -/
def shows (c : Catalog) (q : PackageId × Package) : Bool :=
  (c.repos[q.2.repo]?).any (·.installed) || !c.excludes.contains q.1

theorem shows_iff {id : PackageId} {p : Package} (h : c.package? id = some p) :
    c.shows (id, p) = true ↔ c.isInstalled id = true ∨ c.excludes.contains id = false := by
  unfold shows
  rw [isInstalled_of_package? h, Bool.or_eq_true, Bool.not_eq_true']

/-- The packages that can be seen, ascending. -/
def visible (c : Catalog) : List (PackageId × Package) := c.numbered.filter c.shows

theorem mem_visible {id : PackageId} {p : Package} : (id, p) ∈ c.visible ↔
    c.package? id = some p ∧ (c.isInstalled id = true ∨ c.excludes.contains id = false) := by
  unfold visible
  rw [List.mem_filter, mem_numbered]
  exact and_congr_right fun h => shows_iff h

end Catalog

/-! ## Building the tables -/

namespace Index

/-- What a scan over packages finds to provide something of a name. -/
def providing (name : String) (packages : List (PackageId × Package)) :
    List (PackageId × Relation) :=
  packages.flatMap fun q => (q.2.allProvides.filter fun r => r.name == name).map fun r => (q.1, r)

/-- What a scan over packages finds to own a file, once for each time that it is listed. -/
def owning (path : String) (packages : List (PackageId × Package)) : List PackageId :=
  packages.flatMap fun q => (q.2.files.filter fun f => f == path).map fun _ => q.1

/-- **The tables list the packages entered so far**, row by row in the order of entry. -/
structure Lists (c : Catalog) (entered : List (PackageId × Package)) (index : Index) : Prop where
  considered : ∀ id, index.considered.contains id = true ↔
    0 < id ∧ ∃ p, (id, p) ∈ entered ∧ c.shows (id, p) = true
  installed : ∀ id, index.installed.contains id = true ↔
    0 < id ∧ ∃ p, (id, p) ∈ entered ∧ (c.repos[p.repo]?).any (·.installed) = true
  byName : ∀ name, index.byName.get name =
    ((entered.filter c.shows).filter fun q => q.2.name == name).map (·.1)
  provides : ∀ name, index.provides.get name = providing name (entered.filter c.shows)
  owners : ∀ path, index.owners.get path = owning path (entered.filter c.shows)

theorem lists_empty (c : Catalog) : Lists c [] {} where
  considered id := by
    show PackageSet.empty.contains id = true ↔ _
    simp
  installed id := by
    show PackageSet.empty.contains id = true ↔ _
    simp
  byName _ := rfl
  provides _ := rfl
  owners _ := rfl

/-- A member of a longer list, by a property of its parts. -/
theorem exists_mem_concat {entered : List (PackageId × Package)} {q : PackageId × Package}
    {P : Package → Prop} {id : PackageId} :
    (∃ p, (id, p) ∈ entered ++ [q] ∧ P p) ↔
      (∃ p, (id, p) ∈ entered ∧ P p) ∨ (id = q.1 ∧ P q.2) := by
  simp only [List.mem_append, List.mem_singleton]
  refine ⟨?_, ?_⟩
  · intro hor
    rcases hor with ⟨p, hp | rfl, h⟩
    · exact .inl ⟨p, hp, h⟩
    · exact .inr ⟨rfl, h⟩
  · intro hor
    rcases hor with ⟨p, hp, h⟩ | ⟨rfl, h⟩
    · exact ⟨p, .inl hp, h⟩
    · exact ⟨q.2, .inr rfl, h⟩

/-- Entering a visible package adds it at the end of every row it belongs to. -/
theorem Lists.enter {c : Catalog} {entered : List (PackageId × Package)} {index : Index}
    (h : Lists c entered index) {id : PackageId} {p : Package} (hs : c.shows (id, p) = true)
    (installed : PackageSet) (hi : ∀ x, installed.contains x = true ↔
      0 < x ∧ ∃ p', (x, p') ∈ entered ++ [(id, p)] ∧
        (c.repos[p'.repo]?).any (·.installed) = true) :
    Lists c (entered ++ [(id, p)]) ({ index with installed }.enter id p) := by
  have hfilter : (entered ++ [(id, p)]).filter c.shows = entered.filter c.shows ++ [(id, p)] := by
    rw [List.filter_append, List.filter_cons, if_pos hs]
    rfl
  refine ⟨fun x => ?_, hi, fun name => ?_, fun name => ?_, fun path => ?_⟩
  · show (index.considered.insert id).contains x = true ↔ _
    rw [PackageSet.contains_insert, h.considered, exists_mem_concat, and_or_left]
    refine or_congr_right ⟨?_, ?_⟩
    · intro hex
      obtain ⟨hpos, rfl⟩ := hex
      exact ⟨hpos, rfl, hs⟩
    · intro hex
      obtain ⟨hpos, rfl, -⟩ := hex
      exact ⟨hpos, rfl⟩
  · show (index.byName.add p.name id).get name = _
    rw [Multimap.get_add, h.byName, hfilter, List.filter_append, List.map_append, List.filter_cons]
    by_cases hn : p.name = name
    · rw [if_pos hn, if_pos (beq_iff_eq.mpr hn)]
      rfl
    · rw [if_neg hn, if_neg (fun he => hn (beq_iff_eq.mp he))]
      exact (List.append_nil _).symm
  · show (p.allProvides.foldl (fun m r => m.add r.name (id, r)) index.provides).get name = _
    rw [Multimap.get_foldl_add Relation.name (fun r => (id, r)), h.provides, hfilter, providing,
      providing, List.flatMap_append, List.flatMap_singleton]
  · show (p.files.foldl (fun m f => m.add f id) index.owners).get path = _
    rw [Multimap.get_foldl_add (fun f => f) (fun _ => id), h.owners, hfilter, owning, owning,
      List.flatMap_append, List.flatMap_singleton]

/-- A package that is not visible is in no row. -/
theorem Lists.hide {c : Catalog} {entered : List (PackageId × Package)} {index : Index}
    (h : Lists c entered index) {q : PackageId × Package} (hs : c.shows q = false)
    (hi : ∀ x, index.installed.contains x = true ↔ 0 < x ∧ ∃ p', (x, p') ∈ entered ++ [q] ∧
      (c.repos[p'.repo]?).any (·.installed) = true) :
    Lists c (entered ++ [q]) index := by
  have hfilter : (entered ++ [q]).filter c.shows = entered.filter c.shows := by
    rw [List.filter_append, List.filter_cons, if_neg (by rw [hs]; simp)]
    exact List.append_nil _
  refine ⟨fun x => ?_, hi, ?_, ?_, ?_⟩
  · rw [h.considered, exists_mem_concat, and_or_left]
    refine (or_iff_left ?_).symm
    intro hex
    obtain ⟨-, rfl, hshow⟩ := hex
    rw [hs] at hshow
    exact absurd hshow (by simp)
  · rw [hfilter]
    exact h.byName
  · rw [hfilter]
    exact h.provides
  · rw [hfilter]
    exact h.owners

/-- **Every package keeps the invariant**, whether or not it is visible. -/
theorem Lists.addPackage {c : Catalog} {entered : List (PackageId × Package)} {index : Index}
    (h : Lists c entered index) (q : PackageId × Package) :
    Lists c (entered ++ [q]) (Index.addPackage c index q.1 q.2) := by
  have hinstalled : ∀ {x : PackageId}, (c.repos[q.2.repo]?).any (·.installed) = false →
      (index.installed.contains x = true ↔ 0 < x ∧ ∃ p', (x, p') ∈ entered ++ [q] ∧
        (c.repos[p'.repo]?).any (·.installed) = true) := by
    intro x hq
    rw [h.installed, exists_mem_concat, hq]
    simp
  unfold Index.addPackage
  split
  · -- an installed package is visible, and is noted as installed
    rename_i hq
    refine h.enter ?_ _ fun x => ?_
    · unfold Catalog.shows
      rw [hq]
      rfl
    · rw [PackageSet.contains_insert, h.installed, exists_mem_concat, and_or_left]
      refine or_congr_right ⟨?_, ?_⟩
      · intro hex
        obtain ⟨hpos, rfl⟩ := hex
        exact ⟨hpos, rfl, hq⟩
      · intro hex
        obtain ⟨hpos, rfl, -⟩ := hex
        exact ⟨hpos, rfl⟩
  · rename_i hq
    rw [Bool.not_eq_true] at hq
    split
    · rename_i hx
      refine h.hide ?_ fun x => hinstalled hq
      unfold Catalog.shows
      rw [hq, hx]
      rfl
    · rename_i hx
      refine h.enter ?_ index.installed fun x => hinstalled hq
      unfold Catalog.shows
      rw [Bool.or_eq_true, Bool.not_eq_true', Bool.not_eq_true] at *
      exact .inr hx

theorem Lists.foldl {c : Catalog} : ∀ {packages entered : List (PackageId × Package)}
    {index : Index}, Lists c entered index →
      Lists c (entered ++ packages)
        (packages.foldl (fun index q => Index.addPackage c index q.1 q.2) index)
  | [], entered, _, h => by
      rw [List.append_nil]
      exact h
  | q :: packages, entered, _, h => by
      rw [List.append_cons]
      exact Lists.foldl (h.addPackage q)

/-- The index of a catalog lists all its packages. -/
theorem lists_build (c : Catalog) : Lists c c.numbered (build c) := by
  have h : Lists c ([] ++ c.numbered) _ := (lists_empty c).foldl
  exact ⟨h.considered, h.installed, h.byName, h.provides, h.owners⟩

end Index

/-! ## Look-ups -/

namespace Universe

variable {u : Universe}

theorem lists_index (u : Universe) : Index.Lists u.toCatalog u.numbered u.index.get := by
  have h := Index.lists_build u.toCatalog
  rw [← u.index_get] at h
  exact h

/-- The installed packages are those of the repository of installed packages. -/
theorem installed_contains_iff {id : PackageId} :
    u.installed.contains id = true ↔ u.isInstalled id = true := by
  unfold installed
  rw [(lists_index u).installed]
  simp only [Catalog.mem_numbered]
  refine ⟨?_, ?_⟩
  · intro hs
    obtain ⟨-, p, hp, hi⟩ := hs
    rw [Catalog.isInstalled_of_package? hp, hi]
  · intro h
    obtain ⟨p, hp⟩ := Catalog.mem_ids.mp (Catalog.mem_ids_of_isInstalled h)
    rw [Catalog.isInstalled_of_package? hp] at h
    exact ⟨Catalog.pos_of_package? hp, p, hp, h⟩

theorem mem_installedIds {id : PackageId} : id ∈ u.installedIds ↔ u.isInstalled id = true := by
  unfold installedIds
  rw [PackageSet.mem_toList, installed_contains_iff]

/-- A package is considered if it is installed or not excluded. -/
theorem isConsidered_iff {id : PackageId} : u.isConsidered id = true ↔
    (∃ p, u.package? id = some p) ∧ (u.isInstalled id = true ∨ u.excludes.contains id = false) := by
  unfold isConsidered considered
  rw [(lists_index u).considered]
  simp only [Catalog.mem_numbered]
  refine ⟨?_, ?_⟩
  · intro h
    obtain ⟨-, p, hp, hs⟩ := h
    exact ⟨⟨p, hp⟩, (Catalog.shows_iff hp).mp hs⟩
  · intro h
    obtain ⟨⟨p, hp⟩, hs⟩ := h
    exact ⟨Catalog.pos_of_package? hp, p, hp, (Catalog.shows_iff hp).mpr hs⟩

theorem mem_visible_iff {id : PackageId} {p : Package} :
    (id, p) ∈ u.visible ↔ u.isConsidered id = true ∧ u.package? id = some p := by
  rw [Catalog.mem_visible, isConsidered_iff]
  refine ⟨?_, ?_⟩
  · intro h
    obtain ⟨hp, hs⟩ := h
    exact ⟨⟨⟨p, hp⟩, hs⟩, hp⟩
  · intro h
    obtain ⟨⟨-, hs⟩, hp⟩ := h
    exact ⟨hp, hs⟩

theorem isConsidered_of_isInstalled {id : PackageId} (h : u.isInstalled id = true) :
    u.isConsidered id = true :=
  isConsidered_iff.mpr ⟨Catalog.mem_ids.mp (Catalog.mem_ids_of_isInstalled h), .inl h⟩

theorem mem_ids_of_isConsidered {id : PackageId} (h : u.isConsidered id = true) : id ∈ u.ids :=
  Catalog.mem_ids.mpr (isConsidered_iff.mp h).1

theorem pos_of_isConsidered {id : PackageId} (h : u.isConsidered id = true) : 0 < id :=
  PackageSet.pos_of_contains h

theorem mem_considered_toList {id : PackageId} :
    id ∈ u.considered.toList ↔ u.isConsidered id = true := PackageSet.mem_toList

/-- The packages of a name are the visible ones that bear it. -/
theorem mem_packagesByName {name : String} {id : PackageId} : id ∈ u.packagesByName name ↔
    u.isConsidered id = true ∧ ∃ p, u.package? id = some p ∧ p.name = name := by
  unfold packagesByName
  rw [(lists_index u).byName, List.mem_map]
  refine ⟨?_, ?_⟩
  · intro h
    obtain ⟨⟨x, p⟩, hq, rfl⟩ := h
    obtain ⟨hv, hn⟩ := List.mem_filter.mp hq
    obtain ⟨hc, hp⟩ := mem_visible_iff.mp hv
    exact ⟨hc, p, hp, beq_iff_eq.mp hn⟩
  · intro h
    obtain ⟨hc, p, hp, hn⟩ := h
    exact ⟨(id, p), List.mem_filter.mpr ⟨mem_visible_iff.mpr ⟨hc, hp⟩, beq_iff_eq.mpr hn⟩, rfl⟩

theorem mem_fileOwners {path : String} {id : PackageId} : id ∈ u.fileOwners path ↔
    u.isConsidered id = true ∧ ∃ p, u.package? id = some p ∧ path ∈ p.files := by
  unfold fileOwners
  rw [(lists_index u).owners, Index.owning, List.mem_flatMap]
  refine ⟨?_, ?_⟩
  · intro h
    obtain ⟨⟨x, p⟩, hq, hx⟩ := h
    obtain ⟨f, hf, rfl⟩ := List.mem_map.mp hx
    obtain ⟨hf, he⟩ := List.mem_filter.mp hf
    obtain ⟨hc, hp⟩ := mem_visible_iff.mp hq
    exact ⟨hc, p, hp, beq_iff_eq.mp he ▸ hf⟩
  · intro h
    obtain ⟨hc, p, hp, hf⟩ := h
    refine ⟨(id, p), mem_visible_iff.mpr ⟨hc, hp⟩, List.mem_map.mpr ⟨path, ?_, rfl⟩⟩
    exact List.mem_filter.mpr ⟨hf, beq_iff_eq.mpr rfl⟩

/-- What is listed under a name is what visible packages provide of that name. -/
theorem mem_provides_get {name : String} {id : PackageId} {r : Relation} :
    (id, r) ∈ u.index.get.provides.get name ↔ u.isConsidered id = true ∧
      ∃ p, u.package? id = some p ∧ r ∈ p.allProvides ∧ r.name = name := by
  rw [(lists_index u).provides, Index.providing, List.mem_flatMap]
  refine ⟨?_, ?_⟩
  · intro h
    obtain ⟨⟨x, p⟩, hq, hx⟩ := h
    obtain ⟨r', hr', he⟩ := List.mem_map.mp hx
    obtain ⟨rfl, rfl⟩ := Prod.mk.inj he
    obtain ⟨hr', hn⟩ := List.mem_filter.mp hr'
    obtain ⟨hc, hp⟩ := mem_visible_iff.mp hq
    exact ⟨hc, p, hp, hr', beq_iff_eq.mp hn⟩
  · intro h
    obtain ⟨hc, p, hp, hr, hn⟩ := h
    refine ⟨(id, p), mem_visible_iff.mpr ⟨hc, hp⟩, List.mem_map.mpr ⟨r, ?_, rfl⟩⟩
    exact List.mem_filter.mpr ⟨hr, beq_iff_eq.mpr hn⟩

/-- Whether a package meets a relation: by one of its provides, or by a file that it owns. -/
def meets (p : Package) (r : Relation) : Bool :=
  p.allProvides.any (·.intersects r) ||
    (r.name.startsWith "/" && !r.isVersioned && p.files.contains r.name)

/-- **Providers.** What provides a relation are the visible packages that meet it. -/
theorem mem_whatProvides {r : Relation} {id : PackageId} : id ∈ u.whatProvides r ↔
    u.isConsidered id = true ∧ ∃ p, u.package? id = some p ∧ meets p r = true := by
  have hbyProvide : (id ∈ ((u.index.get.provides.get r.name).filter
      fun q => q.2.intersects r).map (·.1)) ↔ u.isConsidered id = true ∧
        ∃ p, u.package? id = some p ∧ p.allProvides.any (·.intersects r) = true := by
    rw [List.mem_map]
    refine ⟨?_, ?_⟩
    · intro hex
      obtain ⟨⟨x, s⟩, hs, rfl⟩ := hex
      obtain ⟨hs, hi⟩ := List.mem_filter.mp hs
      obtain ⟨hc, p, hp, hmem, -⟩ := mem_provides_get.mp hs
      exact ⟨hc, p, hp, List.any_eq_true.mpr ⟨s, hmem, hi⟩⟩
    · intro hex
      obtain ⟨hc, p, hp, hany⟩ := hex
      obtain ⟨s, hmem, hi⟩ := List.any_eq_true.mp hany
      have hn : s.name = r.name := by
        unfold Relation.intersects at hi
        rw [Bool.and_eq_true] at hi
        exact beq_iff_eq.mp hi.1
      exact ⟨(id, s), List.mem_filter.mpr ⟨mem_provides_get.mpr ⟨hc, p, hp, hmem, hn⟩, hi⟩, rfl⟩
  unfold whatProvides
  dsimp only
  rw [PackageSet.mem_toList, PackageSet.contains_ofList, List.mem_append, hbyProvide]
  unfold meets
  simp only [Bool.or_eq_true, Bool.and_eq_true (_ && _), List.contains_iff_mem]
  cases hf : r.name.startsWith "/" && !r.isVersioned
  · rw [if_neg Bool.false_ne_true]
    simp only [Bool.false_eq_true, false_and, or_false, List.not_mem_nil]
    exact and_iff_right_of_imp fun h => pos_of_isConsidered h.1
  · rw [if_pos rfl, mem_fileOwners]
    simp only [true_and, and_or_left, exists_or]
    refine or_congr ?_ ?_ <;> exact and_iff_right_of_imp fun h => pos_of_isConsidered h.1

theorem isConsidered_of_mem_whatProvides {r : Relation} {id : PackageId}
    (h : id ∈ u.whatProvides r) : u.isConsidered id = true := (mem_whatProvides.mp h).1

end Universe

/-! ## Systems to look at -/

/-- A package of a version that can stand for any architecture. -/
def plainPackage (name version : String) (repo : Nat) : Package where
  name
  evr := { epoch := 0, version, release := some "1" }
  arch := "noarch"
  repo

/-- Installed packages, which lie in the first repository, and available ones in a second. -/
def Catalog.ofSystem (installed available : List Package) : Catalog where
  packages := (installed ++ available).toArray
  repos :=
    #[{ name := systemRepoName, priority := defaultPriority, installed := true },
      { name := "available", priority := defaultPriority, installed := false }]
  installedRepo? := some 0

end DepSolver
