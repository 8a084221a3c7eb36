import Mathlib.Data.List.Find
import DepSolver.Proofs.Universe.ByRepository

/-!
# Look-ups while a universe changes

A universe answers from tables that are made once and kept until it changes. This file puts changes
and questions into one sequence, in any order, and compares every answer with that of a scan over
the packages as they are when the question is asked.

A change to a universe is told twice: as what the universe does, `Universe.mutate`, tables included,
and as what becomes of the catalog, `Catalog.mutate`, which has no tables. So is an answer: the
universe looks it up, and `Catalog.scan` goes through the packages. That an answer never is about a
state of the past is then one equation between two sessions.

What keeps the tables and the packages together is `Universe.index_get`, which every operation has
to establish anew. The operations that drop the tables get it for nothing; `Universe.setInstallonly`
keeps them, and owes it to `Index.build` not looking at what it changes.
-/

namespace DepSolver

/-! ## The order of keys -/

namespace Multimap

variable {α : Type}

/-- Whether exactly these keys were seen, in this order. -/
structure Seen (m : Multimap α) (keys : List String) : Prop where
  order : m.keys.toList = keys.eraseDups
  rows : ∀ key, m.rows.contains key = true ↔ key ∈ keys

theorem seen_empty : (empty : Multimap α).Seen [] where
  order := rfl
  rows key := by
    show ({} : Std.TreeMap String (Array α)).contains key = true ↔ _
    simp

theorem Seen.add {m : Multimap α} {keys : List String} (h : m.Seen keys) (key : String)
    (value : α) : (m.add key value).Seen (keys ++ [key]) where
  order := by
    have hkey : [key].eraseDups = [key] := rfl
    show (if m.rows.contains key then m.keys else m.keys.push key).toList = _
    rw [List.eraseDups_append]
    by_cases hin : key ∈ keys
    · rw [if_pos ((h.rows key).mpr hin), h.order]
      simp [List.removeAll, hin]
    · rw [if_neg (mt (h.rows key).mp hin), Array.toList_push, h.order]
      simp [List.removeAll, hin, hkey]
  rows other := by
    show (m.rows.alter key _).contains other = true ↔ _
    rw [Std.TreeMap.contains_alter]
    simp only [Std.LawfulEqCmp.compare_eq_iff_eq, List.mem_append, List.mem_singleton]
    by_cases he : key = other
    · rw [if_pos he]
      simp [he]
    · rw [if_neg he, h.rows, or_iff_left (Ne.symm he)]

/-- Additions are seen under the keys that the values bring with them. -/
theorem Seen.foldl {β : Type} (key : β → String) (value : β → α) :
    ∀ (items : List β) {m : Multimap α} {keys : List String}, m.Seen keys →
      (items.foldl (fun m b => m.add (key b) (value b)) m).Seen (keys ++ items.map key)
  | [], _, _, h => by
      rw [List.map_nil, List.append_nil]
      exact h
  | b :: items, _, keys, h => by
      rw [List.map_cons, List.append_cons]
      exact Seen.foldl key value items (h.add (key b) (value b))

end Multimap

namespace Index

variable {c : Catalog}

/-- A package is entered exactly if it can be seen. -/
theorem addPackage_eq (index : Index) (q : PackageId × Package) :
    (addPackage c index q.1 q.2).byName =
        (if c.shows q then index.byName.add q.2.name q.1 else index.byName) ∧
      (addPackage c index q.1 q.2).provides =
        if c.shows q then
          q.2.allProvides.foldl (fun m r => m.add r.name (q.1, r)) index.provides
        else index.provides := by
  unfold addPackage Catalog.shows
  cases (c.repos[q.2.repo]?).any (·.installed)
  · cases c.excludes.contains q.1 <;> exact ⟨rfl, rfl⟩
  · exact ⟨rfl, rfl⟩

theorem byName_build (c : Catalog) :
    (build c).byName = c.visible.foldl (fun m q => m.add q.2.name q.1) .empty := by
  unfold Catalog.visible
  rw [List.foldl_filter]
  exact (List.foldl_hom Index.byName fun index q => (addPackage_eq index q).1.symm).symm

theorem provides_build (c : Catalog) : (build c).provides =
    c.visible.foldl (fun m q => q.2.allProvides.foldl (fun m r => m.add r.name (q.1, r)) m)
      .empty := by
  unfold Catalog.visible
  rw [List.foldl_filter]
  exact (List.foldl_hom Index.provides fun index q => (addPackage_eq index q).2.symm).symm

theorem seen_byName (c : Catalog) :
    (build c).byName.Seen (c.visible.map fun q => q.2.name) := by
  rw [byName_build]
  exact Multimap.seen_empty.foldl (fun q => q.2.name) (·.1) c.visible

theorem seen_provides (c : Catalog) :
    (build c).provides.Seen (c.visible.flatMap fun q => q.2.allProvides.map (·.name)) := by
  have hfold : ∀ (packages : List (PackageId × Package)) {m : Multimap (PackageId × Relation)}
      {keys : List String}, m.Seen keys →
      (packages.foldl (fun m q => q.2.allProvides.foldl (fun m r => m.add r.name (q.1, r)) m)
        m).Seen (keys ++ packages.flatMap fun q => q.2.allProvides.map (·.name)) := by
    intro packages
    induction packages with
    | nil =>
        intro m keys h
        rw [List.flatMap_nil, List.append_nil]
        exact h
    | cons q packages ih =>
        intro m keys h
        rw [List.flatMap_cons, ← List.append_assoc]
        exact ih (h.foldl Relation.name (fun r => (q.1, r)) q.2.allProvides)
  rw [provides_build]
  exact hfold c.visible Multimap.seen_empty

end Index

/-! ## Changes and questions -/

/-- What may change about a universe. -/
inductive Mutation where
  | addRepo (name : String) (priority : Int)
  | installedRepo
  | addPackage (repo : Nat) (package : Package)
  | addInstalled (package : Package)
  | exclude (id : PackageId)
  | setExcludes (excludes : PackageSet)
  | setInstallonly (names : List String) (limit : Nat)
  | setKernelRelease (release : Option String)

/-- What a universe can be asked that it answers from its tables. -/
inductive Question where
  | considered
  | isConsidered (id : PackageId)
  | installedIds
  | runningKernel
  | packagesByName (name : String)
  | names
  | provideNames
  | fileOwners (path : String)
  | whatProvides (relation : Relation)
  | hasArch (arch : String)

/-- The answer to a question. -/
inductive Answer where
  | ids (ids : List PackageId)
  | names (names : List String)
  | kernel (id? : Option PackageId)
  | holds (b : Bool)

namespace Universe

def mutate (u : Universe) : Mutation → Universe
  | .addRepo name priority => (u.addRepo name priority).2
  | .installedRepo => u.installedRepo.2
  | .addPackage repo package => (u.addPackage repo package).2
  | .addInstalled package => (u.addInstalled package).2
  | .exclude id => u.exclude id
  | .setExcludes excludes => u.setExcludes excludes
  | .setInstallonly names limit => u.setInstallonly names limit
  | .setKernelRelease release => u.setKernelRelease release

/-- The answer from the tables. -/
def answer (u : Universe) : Question → Answer
  | .considered => .ids u.considered.toList
  | .isConsidered id => .holds (u.isConsidered id)
  | .installedIds => .ids u.installedIds
  | .runningKernel => .kernel u.runningKernel?
  | .packagesByName name => .ids (u.packagesByName name)
  | .names => .names u.names
  | .provideNames => .names u.provideNames
  | .fileOwners path => .ids (u.fileOwners path)
  | .whatProvides relation => .ids (u.whatProvides relation)
  | .hasArch arch => .holds (u.hasArch arch)

end Universe

namespace Catalog

/-- A catalog with the repository of installed packages. -/
def withInstalledRepo (c : Catalog) : Catalog :=
  match c.installedRepo? with
  | some _ => c
  | none =>
    { c with
      repos := c.repos.push
        { name := systemRepoName, priority := defaultPriority, installed := true }
      installedRepo? := some c.repos.size }

def mutate (c : Catalog) : Mutation → Catalog
  | .addRepo name priority =>
    { c with repos := c.repos.push { name, priority, installed := false } }
  | .installedRepo => c.withInstalledRepo
  | .addPackage repo package => { c with packages := c.packages.push { package with repo } }
  | .addInstalled package =>
    { c.withInstalledRepo with
      packages := c.packages.push { package with repo := c.installedRepo?.getD c.repos.size } }
  | .exclude id => { c with excludes := c.excludes.insert id }
  | .setExcludes excludes => { c with excludes }
  | .setInstallonly names limit => { c with installonly := names, installonlyLimit := limit }
  | .setKernelRelease release => { c with kernelRelease := release }

/-- The installed packages, ascending. -/
def installedPackages (c : Catalog) : List (PackageId × Package) :=
  c.numbered.filter fun q => (c.repos[q.2.repo]?).any (·.installed)

/-- The first installed package that declares the release of the booted kernel, or else the first
that spells it. -/
def scanKernel (c : Catalog) (release : String) : Option (PackageId × Package) :=
  (c.installedPackages.find? fun q => namesKernelRelease release q.2).or
    (c.installedPackages.find? fun q => spellsKernelRelease release q.2)

/-- The visible packages that provide a relation, ascending. -/
def providers (c : Catalog) (r : Relation) : List PackageId :=
  (c.visible.filter fun q => Universe.meets q.2 r).map (·.1)

/-- The answer from going through the packages. -/
def scan (c : Catalog) : Question → Answer
  | .considered => .ids (c.visible.map (·.1))
  | .isConsidered id => .holds (c.visible.any fun q => q.1 == id)
  | .installedIds => .ids (c.installedPackages.map (·.1))
  | .runningKernel => .kernel ((c.kernelRelease.bind c.scanKernel).map (·.1))
  | .packagesByName name => .ids ((c.visible.filter fun q => q.2.name == name).map (·.1))
  | .names => .names (c.visible.map fun q => q.2.name).eraseDups
  | .provideNames => .names (c.visible.flatMap fun q => q.2.allProvides.map (·.name)).eraseDups
  | .fileOwners path => .ids (Index.owning path c.visible)
  | .whatProvides relation => .ids (c.providers relation)
  | .hasArch arch => .holds (c.visible.any fun q => q.2.arch == arch)

end Catalog

/-! ## One change, one question -/

namespace Catalog

variable {c : Catalog}

theorem pairwise_visible (c : Catalog) : c.visible.Pairwise fun x y => x.1 < y.1 :=
  c.pairwise_numbered.filter _

theorem package?_of_mem_installedPackages {q : PackageId × Package} (h : q ∈ c.installedPackages) :
    c.package? q.1 = some q.2 := mem_numbered.mp (List.mem_filter.mp h).1

/-- To look for a number by its package is to look for a package. -/
theorem find?_map_fst {packages : List (PackageId × Package)}
    (h : ∀ q ∈ packages, c.package? q.1 = some q.2) (test : Package → Bool) :
    ((packages.map (·.1)).find? fun id => (c.package? id).any test) =
      (packages.find? fun q => test q.2).map (·.1) := by
  rw [List.find?_map]
  refine congrArg _ (List.find?_congr fun q hq => ?_)
  show (c.package? q.1).any test = test q.2
  rw [h q hq, Option.any_some]

theorem mem_providers {id : PackageId} {r : Relation} :
    id ∈ c.providers r ↔ ∃ p, (id, p) ∈ c.visible ∧ Universe.meets p r = true := by
  unfold providers
  rw [List.mem_map]
  refine ⟨?_, ?_⟩
  · intro h
    obtain ⟨⟨x, p⟩, hq, rfl⟩ := h
    exact ⟨p, List.mem_filter.mp hq⟩
  · intro h
    obtain ⟨p, hp⟩ := h
    exact ⟨(id, p), List.mem_filter.mpr hp, rfl⟩

theorem pairwise_providers (c : Catalog) (r : Relation) : (c.providers r).Pairwise (· < ·) :=
  List.pairwise_map.mpr (c.pairwise_visible.filter _)

end Catalog

namespace Universe

variable {u : Universe}

/-- A change does to the catalog of a universe what it does to a catalog. -/
theorem toCatalog_mutate (u : Universe) (mutation : Mutation) :
    (u.mutate mutation).toCatalog = u.toCatalog.mutate mutation := by
  have hinstalled : u.installedRepo.2.toCatalog = u.toCatalog.withInstalledRepo ∧
      u.installedRepo.1 = u.installedRepo?.getD u.repos.size := by
    unfold installedRepo Catalog.withInstalledRepo
    split <;> rename_i h <;> rw [h] <;> exact ⟨rfl, rfl⟩
  cases mutation with
  | installedRepo => exact hinstalled.1
  | addInstalled package =>
      have hpackages : u.toCatalog.withInstalledRepo.packages = u.packages := by
        unfold Catalog.withInstalledRepo
        split <;> rfl
      show { u.installedRepo.2.toCatalog with
        packages := u.installedRepo.2.packages.push { package with repo := u.installedRepo.1 } } = _
      rw [hinstalled.1, hinstalled.2, hpackages]
      rfl
  | _ => rfl

theorem isConsidered_iff_mem_visible {id : PackageId} :
    u.isConsidered id = true ↔ id ∈ u.visible.map (·.1) := by
  rw [List.mem_map]
  refine ⟨fun h => ?_, fun h => ?_⟩
  · obtain ⟨p, hp⟩ := (isConsidered_iff.mp h).1
    exact ⟨(id, p), mem_visible_iff.mpr ⟨h, hp⟩, rfl⟩
  · obtain ⟨⟨x, p⟩, hq, rfl⟩ := h
    exact (mem_visible_iff.mp hq).1

theorem installedIds_eq (u : Universe) : u.installedIds = u.installedPackages.map (·.1) := by
  refine PackageSet.toList_eq (List.pairwise_map.mpr (u.pairwise_numbered.filter _)) fun id => ?_
  rw [installed, (lists_index u).installed, List.mem_map]
  refine ⟨fun h => ?_, fun h => ?_⟩
  · obtain ⟨-, p, hp⟩ := h
    exact ⟨(id, p), List.mem_filter.mpr hp, rfl⟩
  · obtain ⟨⟨x, p⟩, hq, rfl⟩ := h
    exact ⟨Catalog.pos_of_package? (Catalog.package?_of_mem_installedPackages hq), p,
      List.mem_filter.mp hq⟩

theorem runningKernel?_eq (u : Universe) :
    u.runningKernel? = (u.kernelRelease.bind u.scanKernel).map (·.1) := by
  have hkernel : u.runningKernel? = u.findRunningKernel? u.installed := by
    unfold runningKernel? installed
    rw [u.index_get]
    rfl
  have hinstalled : u.installed.toList = u.installedPackages.map (·.1) := installedIds_eq u
  have hfind := Catalog.find?_map_fst (c := u.toCatalog)
    fun q (hq : q ∈ u.installedPackages) => Catalog.package?_of_mem_installedPackages hq
  rw [hkernel]
  unfold Catalog.findRunningKernel?
  cases u.kernelRelease with
  | none => rfl
  | some release =>
      dsimp only
      rw [hinstalled, hfind, hfind]
      exact (Option.map_or ..).symm

/-- **Every answer is that of a scan.** -/
theorem answer_eq_scan (u : Universe) (question : Question) :
    u.answer question = u.toCatalog.scan question := by
  cases question with
  | considered =>
      refine congrArg Answer.ids (PackageSet.toList_eq ?_ fun id => isConsidered_iff_mem_visible)
      exact List.pairwise_map.mpr u.pairwise_visible
  | isConsidered id =>
      refine congrArg Answer.holds (Bool.eq_iff_iff.mpr ?_)
      rw [isConsidered_iff_mem_visible, List.mem_map, List.any_eq_true]
      simp only [beq_iff_eq]
  | installedIds => exact congrArg Answer.ids u.installedIds_eq
  | runningKernel => exact congrArg Answer.kernel u.runningKernel?_eq
  | packagesByName name => exact congrArg Answer.ids ((lists_index u).byName name)
  | names =>
      refine congrArg Answer.names ?_
      unfold names
      rw [u.index_get]
      exact (Index.seen_byName _).order
  | provideNames =>
      refine congrArg Answer.names ?_
      unfold provideNames
      rw [u.index_get]
      exact (Index.seen_provides _).order
  | fileOwners path => exact congrArg Answer.ids ((lists_index u).owners path)
  | whatProvides relation =>
      refine congrArg Answer.ids (PackageSet.toList_eq (u.pairwise_providers relation) fun id => ?_)
      refine PackageSet.mem_toList.symm.trans (mem_whatProvides.trans ?_)
      rw [Catalog.mem_providers]
      simp only [mem_visible_iff, ← exists_and_left, and_assoc]
  | hasArch arch =>
      refine congrArg Answer.holds (Bool.eq_iff_iff.mpr ?_)
      unfold hasArch
      rw [List.any_eq_true, List.any_eq_true]
      refine exists_congr fun q => ?_
      rw [Bool.and_eq_true, Catalog.mem_numbered, mem_visible_iff]
      tauto

end Universe

/-! ## Sessions -/

/-- A step of a session with a universe. -/
inductive SessionStep where
  | mutate (mutation : Mutation)
  | ask (question : Question)

/-- The answers of a session that looks them up. -/
def Universe.session (u : Universe) : List SessionStep → List Answer
  | [] => []
  | .mutate mutation :: steps => (u.mutate mutation).session steps
  | .ask question :: steps => u.answer question :: u.session steps

/-- The answers of a session that goes through the packages each time. -/
def Catalog.session (c : Catalog) : List SessionStep → List Answer
  | [] => []
  | .mutate mutation :: steps => (c.mutate mutation).session steps
  | .ask question :: steps => c.scan question :: c.session steps

/-- The universe at the end of a session. -/
def Universe.after (u : Universe) : List SessionStep → Universe
  | [] => u
  | .mutate mutation :: steps => (u.mutate mutation).after steps
  | .ask _ :: steps => u.after steps

/--
**The tables are never stale.**

However changes and questions follow each other, every answer is the one that a scan over the
packages gives at that point. In particular what provides a relation is, at any point, the strictly
ascending list of the packages visible then, which are the installed ones and those not excluded,
that provide something which intersects it, their own name in their own version included, or own the
file of which it is the path, if it has no constraint.
-/
theorem session_eq (u : Universe) (steps : List SessionStep) :
    u.session steps = u.toCatalog.session steps ∧
    ∀ r, ((u.after steps).whatProvides r).Pairwise (· < ·) ∧
      ∀ id, id ∈ (u.after steps).whatProvides r ↔ ∃ p, (u.after steps).package? id = some p ∧
        ((u.after steps).isInstalled id = true ∨ (u.after steps).excludes.contains id = false) ∧
        ((∃ provide ∈ p.selfProvide :: p.provides, provide.intersects r = true) ∨
          r.name.startsWith "/" = true ∧ r.isVersioned = false ∧ r.name ∈ p.files) := by
  have hsession : ∀ (steps : List SessionStep) (u : Universe),
      u.session steps = u.toCatalog.session steps := by
    intro steps
    induction steps with
    | nil => exact fun _ => rfl
    | cons step steps ih =>
        intro u
        cases step with
        | mutate mutation =>
            show (u.mutate mutation).session steps = (u.toCatalog.mutate mutation).session steps
            rw [ih, Universe.toCatalog_mutate]
        | ask question =>
            show u.answer question :: u.session steps =
              u.toCatalog.scan question :: u.toCatalog.session steps
            rw [ih, Universe.answer_eq_scan]
  refine ⟨hsession steps u, fun r => ⟨PackageSet.pairwise_toList _, fun id => ?_⟩⟩
  rw [Universe.mem_whatProvides, Universe.isConsidered_iff]
  unfold Universe.meets Package.allProvides
  simp only [Bool.or_eq_true, Bool.and_eq_true, List.any_eq_true, Bool.not_eq_true',
    List.contains_iff_mem, and_assoc]
  refine ⟨fun h => ?_, fun h => ?_⟩
  · obtain ⟨-, hshown, p, hp, hprovides⟩ := h
    exact ⟨p, hp, hshown, hprovides⟩
  · obtain ⟨p, hp, hshown, hprovides⟩ := h
    exact ⟨⟨p, hp⟩, hshown, p, hp, hprovides⟩

end DepSolver
