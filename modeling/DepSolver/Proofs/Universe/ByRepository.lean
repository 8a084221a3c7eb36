import Mathlib.Data.Set.Function
import DepSolver.Proofs.Universe.Index

/-!
# Packages grouped by repository

A description lists packages under their repositories. Read again, they are numbered in that order:
those of the first repository first, and within each repository in the order they had. `renumber`
says which number a package then has. It names every package of the regrouped catalog exactly once,
and it changes nothing else: not the package, not its repository, not whether it is excluded.
-/

namespace DepSolver

namespace Catalog

variable {c : Catalog} {id a b : PackageId} {p q : Package}

/-- The packages of each repository in turn, with the numbers that they have so far. -/
def regrouped (c : Catalog) : List (PackageId × Package) :=
  (List.range c.repos.size).flatMap fun i => c.numbered.filter fun q => q.2.repo == i

/-- The number of a package when packages are numbered by repository. -/
def renumber (c : Catalog) (id : PackageId) : PackageId :=
  ((c.regrouped.map (·.1)).idxOf id : Int) + 1

/-- The catalog with its packages numbered by repository. Excluded numbers that name no package are
forgotten. -/
def reloaded (c : Catalog) : Catalog :=
  { c with
    packages := (c.regrouped.map (·.2)).toArray
    excludes :=
      .ofList ((c.excludes.toList.filter fun id => (c.package? id).isSome).map c.renumber) }

/-- Whether every package belongs to a repository of the catalog. -/
def Housed (c : Catalog) : Prop := ∀ id p, c.package? id = some p → p.repo < c.repos.size

/-- Whether a package is listed before another: under an earlier repository, or under the same one
with a lower number. -/
def ListedBefore (x y : PackageId × Package) : Prop :=
  x.2.repo < y.2.repo ∨ x.2.repo = y.2.repo ∧ x.1 < y.1

theorem ListedBefore.asymm {x y : PackageId × Package} (h : ListedBefore x y) :
    ¬ListedBefore y x := by
  rintro (hlt | ⟨he, hlt⟩)
  · rcases h with h | ⟨h, -⟩
    · exact Nat.lt_asymm h hlt
    · exact Nat.lt_irrefl _ (h ▸ hlt)
  · rcases h with h | ⟨-, h⟩
    · exact Nat.lt_irrefl _ (he ▸ h)
    · exact Int.lt_asymm h hlt

theorem ListedBefore.irrefl (x : PackageId × Package) : ¬ListedBefore x x := fun h => h.asymm h

theorem ListedBefore.ne {x y : PackageId × Package} (h : ListedBefore x y) : x ≠ y := by
  rintro rfl
  exact irrefl x h

/-! ## What is listed, and in which order -/

theorem map_numbered (c : Catalog) : c.numbered.map (·.1) = c.ids := by
  have hsnd : (c.packages.toList.zipIdx).map Prod.snd = List.range' 0 c.packages.toList.length :=
    List.zipIdx_map_snd 0 _
  unfold numbered ids
  rw [List.map_map, List.range_eq_range', ← Array.length_toList, ← hsnd, List.map_map]
  rfl

theorem map_snd_numbered (c : Catalog) : c.numbered.map (·.2) = c.packages.toList := by
  unfold numbered
  rw [List.map_map]
  exact List.zipIdx_map_fst 0 _

theorem pairwise_numbered (c : Catalog) : c.numbered.Pairwise fun x y => x.1 < y.1 := by
  rw [← List.pairwise_map (R := (· < ·)), map_numbered]
  unfold ids
  rw [List.pairwise_map]
  exact List.pairwise_lt_range.imp fun {i j} hij => Int.add_lt_add_right (Int.ofNat_lt.mpr hij) 1

theorem mem_regrouped {x : PackageId × Package} :
    x ∈ c.regrouped ↔ c.package? x.1 = some x.2 ∧ x.2.repo < c.repos.size := by
  unfold regrouped
  simp only [List.mem_flatMap, List.mem_range, List.mem_filter, beq_iff_eq]
  refine ⟨fun ⟨i, hi, hx, he⟩ => ⟨mem_numbered.mp hx, he ▸ hi⟩, fun ⟨hx, hi⟩ => ?_⟩
  exact ⟨x.2.repo, hi, mem_numbered.mpr hx, rfl⟩

theorem pairwise_regrouped (c : Catalog) : c.regrouped.Pairwise ListedBefore := by
  unfold regrouped
  rw [List.pairwise_flatMap]
  refine ⟨fun i _ => ?_, List.pairwise_lt_range.imp fun {i j} hij x hx y hy => .inl ?_⟩
  · -- within a repository, in the order of the numbers
    refine (c.pairwise_numbered.filter _).imp_of_mem fun {x y} hx hy hlt => .inr ⟨?_, hlt⟩
    rw [beq_iff_eq.mp (List.mem_filter.mp hx).2, beq_iff_eq.mp (List.mem_filter.mp hy).2]
  · rw [beq_iff_eq.mp (List.mem_filter.mp hx).2, beq_iff_eq.mp (List.mem_filter.mp hy).2]
    exact hij

/-- No number is listed twice. -/
theorem nodup_map_regrouped (c : Catalog) : (c.regrouped.map (·.1)).Nodup := by
  rw [List.Nodup, List.pairwise_map]
  refine c.pairwise_regrouped.imp_of_mem fun {x y} hx hy hxy he => ?_
  have hsame : x.2 = y.2 := by
    have hx' := (mem_regrouped.mp hx).1
    rw [he, (mem_regrouped.mp hy).1] at hx'
    exact (Option.some.inj hx').symm
  exact hxy.ne (Prod.ext he hsame)

theorem mem_map_regrouped (h : c.package? id = some p) (hrepo : p.repo < c.repos.size) :
    id ∈ c.regrouped.map (·.1) := List.mem_map.mpr ⟨(id, p), mem_regrouped.mpr ⟨h, hrepo⟩, rfl⟩

/-- A package stands in the list where its new number says. -/
theorem regrouped_idxOf (h : c.package? id = some p) (hrepo : p.repo < c.repos.size) :
    c.regrouped[(c.regrouped.map (·.1)).idxOf id]? = some (id, p) := by
  have hlt := List.idxOf_lt_length_of_mem (mem_map_regrouped h hrepo)
  have hget := List.getElem_idxOf hlt
  rw [List.getElem_map] at hget
  rw [List.length_map] at hlt
  have hmem := (mem_regrouped.mp (List.getElem_mem hlt)).1
  rw [hget, h] at hmem
  rw [List.getElem?_eq_getElem hlt]
  exact congrArg some (Prod.ext hget (Option.some.inj hmem).symm)

/-! ## The new numbers -/

theorem package?_reloaded (h : c.package? id = some p) (hrepo : p.repo < c.repos.size) :
    c.reloaded.package? (c.renumber id) = some p := by
  unfold renumber
  rw [package?_add_one]
  show (c.regrouped.map (·.2)).toArray[_]? = _
  rw [List.getElem?_toArray, List.getElem?_map, regrouped_idxOf h hrepo]
  rfl

/-- Every new number was given to a package. -/
theorem exists_renumber (h : c.reloaded.package? id = some p) :
    ∃ a, c.package? a = some p ∧ c.renumber a = id := by
  obtain ⟨i, rfl, hi⟩ := package?_eq_some.mp h
  have hi' : (c.regrouped.map (·.2)).toArray[i]? = some p := hi
  rw [List.getElem?_toArray, List.getElem?_map] at hi'
  obtain ⟨⟨a, q⟩, hget, rfl⟩ := Option.map_eq_some_iff.mp hi'
  refine ⟨a, (mem_regrouped.mp (List.mem_of_getElem? hget)).1, ?_⟩
  obtain ⟨hlt, hget⟩ := List.getElem?_eq_some_iff.mp hget
  have hlt' : i < (c.regrouped.map (·.1)).length := by rwa [List.length_map]
  have hfst : (c.regrouped.map (·.1))[i] = a := by rw [List.getElem_map, hget]
  have hidx := c.nodup_map_regrouped.idxOf_getElem i hlt'
  rw [hfst] at hidx
  unfold renumber
  rw [hidx]

/-- Packages listed one before the other are numbered in this order. -/
theorem renumber_lt (ha : c.package? a = some p) (hb : c.package? b = some q)
    (hp : p.repo < c.repos.size) (hq : q.repo < c.repos.size) (h : ListedBefore (a, p) (b, q)) :
    c.renumber a < c.renumber b := by
  unfold renumber
  have hgeta := regrouped_idxOf ha hp
  have hgetb := regrouped_idxOf hb hq
  generalize (c.regrouped.map (·.1)).idxOf a = i at hgeta ⊢
  generalize (c.regrouped.map (·.1)).idxOf b = j at hgetb ⊢
  obtain ⟨hi, hgeta⟩ := List.getElem?_eq_some_iff.mp hgeta
  obtain ⟨hj, hgetb⟩ := List.getElem?_eq_some_iff.mp hgetb
  refine Int.add_lt_add_right (Int.ofNat_lt.mpr ?_) 1
  rcases Nat.lt_trichotomy i j with hij | rfl | hji
  · exact hij
  · rw [hgeta] at hgetb
    rw [hgetb] at h
    exact absurd h (ListedBefore.irrefl _)
  · have hback := List.pairwise_iff_getElem.mp c.pairwise_regrouped j i hj hi hji
    rw [hgeta, hgetb] at hback
    exact absurd h hback.asymm

theorem renumber_inj (hc : c.Housed) (ha : a ∈ c.ids) (hb : b ∈ c.ids)
    (h : c.renumber a = c.renumber b) : a = b := by
  obtain ⟨p, hp⟩ := mem_ids.mp ha
  obtain ⟨q, hq⟩ := mem_ids.mp hb
  have hgeta := regrouped_idxOf hp (hc a p hp)
  have hgetb := regrouped_idxOf hq (hc b q hq)
  have hidx : (c.regrouped.map (·.1)).idxOf a = (c.regrouped.map (·.1)).idxOf b :=
    Int.ofNat_inj.mp ((Int.add_left_inj 1).mp h)
  rw [hidx, hgetb] at hgeta
  exact (Prod.mk.inj (Option.some.inj hgeta)).1.symm

/-- **The new numbers name the packages of the regrouped catalog, each exactly once.** -/
theorem bijOn_renumber (hc : c.Housed) :
    Set.BijOn c.renumber {id | id ∈ c.ids} {id | id ∈ c.reloaded.ids} := by
  refine ⟨fun id hid => ?_, fun a ha b hb => renumber_inj hc ha hb, fun id hid => ?_⟩
  · obtain ⟨p, hp⟩ := mem_ids.mp hid
    exact mem_ids.mpr ⟨p, package?_reloaded hp (hc id p hp)⟩
  · obtain ⟨p, hp⟩ := mem_ids.mp hid
    obtain ⟨a, ha, he⟩ := exists_renumber hp
    exact ⟨a, mem_ids.mpr ⟨p, ha⟩, he⟩

theorem packageRepo?_reloaded (hc : c.Housed) (hid : id ∈ c.ids) :
    c.reloaded.packageRepo? (c.renumber id) = c.packageRepo? id := by
  obtain ⟨p, hp⟩ := mem_ids.mp hid
  unfold packageRepo?
  rw [hp, package?_reloaded hp (hc id p hp)]
  rfl

theorem packageKey?_reloaded (hc : c.Housed) (hid : id ∈ c.ids) :
    c.reloaded.packageKey? (c.renumber id) = c.packageKey? id := by
  obtain ⟨p, hp⟩ := mem_ids.mp hid
  unfold packageKey?
  rw [hp, package?_reloaded hp (hc id p hp)]
  rfl

theorem excludes_reloaded (hc : c.Housed) (hid : id ∈ c.ids) :
    c.reloaded.excludes.contains (c.renumber id) = c.excludes.contains id := by
  obtain ⟨p, hp⟩ := mem_ids.mp hid
  have hpos := pos_of_package? (package?_reloaded hp (hc id p hp))
  show (PackageSet.ofList _).contains _ = _
  rw [Bool.eq_iff_iff, PackageSet.contains_ofList, and_iff_right hpos, List.mem_map]
  refine ⟨fun ⟨a, ha, he⟩ => ?_, fun h => ⟨id, ?_, rfl⟩⟩
  · obtain ⟨hmem, hsome⟩ := List.mem_filter.mp ha
    obtain ⟨q, hq⟩ := Option.isSome_iff_exists.mp hsome
    rw [← renumber_inj hc (mem_ids.mpr ⟨q, hq⟩) hid he]
    exact PackageSet.mem_toList.mp hmem
  · exact List.mem_filter.mpr ⟨PackageSet.mem_toList.mpr h, Option.isSome_iff_exists.mpr ⟨p, hp⟩⟩

end Catalog

end DepSolver
