import Mathlib.Data.List.SplitBy
import Mathlib.Data.String.Basic
import Mathlib.Order.Compare
import DepSolver.Proofs.Goal.Limit
import DepSolver.Proofs.Universe.Ranking

/-!
# Which packages limiting keeps

What is kept for an install-only name is sorted by name and by how much it is wanted, and walked
from the end, one group of equal names after the other. Two things carry the proof.

* **Groups**: the names of a sorted list descend when it is walked from the end, so a group is all
  there is of its name. What becomes of the packages of one name is what becomes of these packages
  alone, in the order in which they would be sorted without the others. This takes nothing of the
  order but that it goes by the names first.
* **Order**: within a name a package that is kept comes before one that is erased. The order is by
  rank and then by version, and it is one only where the versions have a release.
-/

namespace DepSolver

/-! ## Sorting by a key first -/

section Sorting

variable {α κ : Type} {cmp : α → α → Ordering} {P : α → Prop} {R : α → α → Prop}

/-- Where an element is inserted does not matter to a selection that leaves it out. -/
theorem filter_insertBy_of_not {p : α → Bool} {x : α} (hx : p x = false) (ys : List α) :
    (insertBy cmp x ys).filter p = ys.filter p := by
  have hout : ¬p x = true := Bool.eq_false_iff.mp hx
  induction ys with
  | nil => rw [insertBy, List.filter_cons_of_neg hout]
  | cons y ys ih =>
      rw [insertBy]
      split
      · rw [List.filter_cons, List.filter_cons, ih]
      · rw [List.filter_cons_of_neg hout]

variable [LinearOrder κ] {key : α → κ}

theorem key_le_of_lt
    (hkey : ∀ a b, P a → P b → key a ≠ key b → cmp a b = compare (key a) (key b)) :
    ∀ a b, P a → P b → cmp a b = .lt → key a ≤ key b := by
  intro a b ha hb hlt
  by_contra hgt
  rw [hkey a b ha hb (lt_of_not_ge hgt).ne', compare_lt_iff_lt] at hlt
  exact hgt hlt.le

theorem key_le_of_not_lt
    (hkey : ∀ a b, P a → P b → key a ≠ key b → cmp a b = compare (key a) (key b)) :
    ∀ a b, P a → P b → cmp a b ≠ .lt → key b ≤ key a := by
  intro a b ha hb hge
  by_contra hlt
  have hab : key a < key b := lt_of_not_ge hlt
  rw [hkey a b ha hb hab.ne] at hge
  exact hge (compare_lt_iff_lt.mpr hab)

/-- A comparison that goes by a key first puts the keys in order. -/
theorem pairwise_key_sortBy
    (hkey : ∀ a b, P a → P b → key a ≠ key b → cmp a b = compare (key a) (key b)) {xs : List α}
    (hP : ∀ x ∈ xs, P x) : (sortBy cmp xs).Pairwise fun a b => key a ≤ key b :=
  pairwise_sortBy (fun a b _ _ _ _ (hab : key a ≤ key b) hbc => hab.trans hbc) (key_le_of_lt hkey)
    (key_le_of_not_lt hkey) hP

/-- An element is inserted among those of its key as if there were no others. -/
theorem filter_insertBy_self
    (hkey : ∀ a b, P a → P b → key a ≠ key b → cmp a b = compare (key a) (key b)) {x : α}
    (hx : P x) : ∀ {ys : List α}, (∀ y ∈ ys, P y) → (ys.Pairwise fun a b => key b ≤ key a) →
      (insertBy cmp x ys).filter (fun y => key y = key x) =
        insertBy cmp x (ys.filter fun y => key y = key x)
  | [], _, _ => by simp [insertBy]
  | y :: ys, hP, hsorted => by
      obtain ⟨hy, hys⟩ := List.forall_mem_cons.mp hP
      obtain ⟨hafter, hrest⟩ := List.pairwise_cons.mp hsorted
      have ih := filter_insertBy_self hkey hx hys hrest
      rcases lt_trichotomy (key x) (key y) with hlt | heq | hgt
      · -- an element of a greater key is passed over, and selected by neither side
        have hcmp : cmp x y = .lt := by
          rw [hkey x y hx hy hlt.ne]
          exact compare_lt_iff_lt.mpr hlt
        rw [insertBy, if_pos hcmp, List.filter_cons_of_neg (by simpa using hlt.ne'),
          List.filter_cons_of_neg (by simpa using hlt.ne'), ih]
      · -- among elements of its key both sides make the same comparison
        rw [List.filter_cons_of_pos (by simpa using heq.symm), insertBy, insertBy]
        split
        · rw [List.filter_cons_of_pos (by simpa using heq.symm), ih]
        · rw [List.filter_cons_of_pos (by simp), List.filter_cons_of_pos (by simpa using heq.symm)]
      · -- and behind the first element of a lesser key there is none of its own
        have hcmp : cmp x y ≠ .lt := by
          rw [hkey x y hx hy hgt.ne', compare_gt_iff_gt.mpr hgt]
          exact Ordering.noConfusion
        have hnone : (y :: ys).filter (fun z => key z = key x) = [] := by
          refine List.filter_eq_nil_iff.mpr ?_
          intro z hz
          have hzy : key z ≤ key y := by
            rcases List.mem_cons.mp hz with rfl | hz
            · exact le_rfl
            · exact hafter z hz
          simpa using (hzy.trans_lt hgt).ne
        rw [insertBy, if_neg hcmp, List.filter_cons_of_pos (by simp), hnone]
        rfl

theorem filter_foldl_insertBy
    (hkey : ∀ a b, P a → P b → key a ≠ key b → cmp a b = compare (key a) (key b)) (k : κ) :
    ∀ {xs sorted : List α}, (∀ x ∈ xs, P x) → (∀ x ∈ sorted, P x) →
      (sorted.Pairwise fun a b => key b ≤ key a) →
      (xs.foldl (fun sorted x => insertBy cmp x sorted) sorted).filter (fun x => key x = k) =
        (xs.filter fun x => key x = k).foldl (fun sorted x => insertBy cmp x sorted)
          (sorted.filter fun x => key x = k)
  | [], _, _, _, _ => rfl
  | x :: xs, sorted, hP, hP', hsorted => by
      obtain ⟨hx, hxs⟩ := List.forall_mem_cons.mp hP
      have hinserted : ∀ y ∈ insertBy cmp x sorted, P y := by
        intro y hy
        rcases List.mem_cons.mp ((insertBy_perm cmp x sorted).mem_iff.mp hy) with rfl | hy
        · exact hx
        · exact hP' y hy
      have hdescends : (insertBy cmp x sorted).Pairwise fun a b => key b ≤ key a :=
        pairwise_insertBy (fun a b _ _ _ _ (hab : key a ≤ key b) hbc => hab.trans hbc)
          (key_le_of_lt hkey) (key_le_of_not_lt hkey) hx hP' hsorted
      rw [List.foldl_cons, filter_foldl_insertBy hkey k hxs hinserted hdescends]
      by_cases hk : key x = k
      · subst hk
        rw [filter_insertBy_self hkey hx hP' hsorted, List.filter_cons_of_pos (by simp),
          List.foldl_cons]
      · rw [filter_insertBy_of_not (p := fun y => key y = k) (decide_eq_false hk),
          List.filter_cons_of_neg (by simpa using hk)]

/-- **A comparison that goes by a key first** sorts the elements of each key by themselves. -/
theorem filter_sortBy
    (hkey : ∀ a b, P a → P b → key a ≠ key b → cmp a b = compare (key a) (key b)) (k : κ)
    {xs : List α} (hP : ∀ x ∈ xs, P x) :
    (sortBy cmp xs).filter (fun x => key x = k) = sortBy cmp (xs.filter fun x => key x = k) := by
  have hempty : ∀ x ∈ ([] : List α), P x := fun _ hx => absurd hx (by simp)
  unfold sortBy
  rw [List.filter_reverse, filter_foldl_insertBy hkey k hP hempty .nil, List.filter_nil]

end Sorting

/-! ## Groups of equal keys -/

section Grouping

variable {α β κ : Type} [LinearOrder κ] {key : α → κ} {r : α → α → Bool}

/-- A descending list begins with the greater keys, and goes on with a key and then the lesser
ones. -/
theorem eq_filter_append_of_descending (k : κ) {xs : List α}
    (hsorted : xs.Pairwise fun a b => key b ≤ key a) :
    xs = xs.filter (fun x => k < key x) ++
      (xs.filter (fun x => key x = k) ++ xs.filter (fun x => key x < k)) := by
  induction xs with
  | nil => rfl
  | cons x xs ih =>
      obtain ⟨hbefore, hrest⟩ := List.pairwise_cons.mp hsorted
      have ih := ih hrest
      rcases lt_trichotomy k (key x) with hgt | heq | hlt
      · rw [List.filter_cons_of_pos (by simpa using hgt),
          List.filter_cons_of_neg (by simpa using hgt.ne'),
          List.filter_cons_of_neg (by simpa using hgt.le), List.cons_append, ← ih]
      · -- nothing greater is left
        have hnone : xs.filter (fun x => k < key x) = [] := by
          refine List.filter_eq_nil_iff.mpr fun y hy => ?_
          simpa [heq] using hbefore y hy
        rw [hnone, List.nil_append] at ih
        rw [List.filter_cons_of_neg (by simp [heq]), hnone, List.nil_append,
          List.filter_cons_of_pos (by simp [heq]), List.filter_cons_of_neg (by simp [heq]),
          List.cons_append, ← ih]
      · have hnone : xs.filter (fun x => k < key x) = [] := by
          refine List.filter_eq_nil_iff.mpr fun y hy => ?_
          simpa using (hbefore y hy).trans hlt.le
        have hnone' : xs.filter (fun x => key x = k) = [] := by
          refine List.filter_eq_nil_iff.mpr fun y hy => ?_
          simpa using ((hbefore y hy).trans_lt hlt).ne
        rw [hnone, hnone', List.nil_append, List.nil_append] at ih
        rw [List.filter_cons_of_neg (by simpa using hlt.le), hnone, List.nil_append,
          List.filter_cons_of_neg (by simpa using hlt.ne), hnone', List.nil_append,
          List.filter_cons_of_pos (by simpa using hlt), ← ih]

omit [LinearOrder κ] in
/-- The groups of two lists in a row are those of each, if no key of one is in the other. -/
theorem splitBy_append_of_ne {xs ys : List α}
    (hr : ∀ a ∈ xs, ∀ b ∈ ys, r a b = true → key a = key b)
    (hne : ∀ a ∈ xs, ∀ b ∈ ys, key a ≠ key b) :
    (xs ++ ys).splitBy r = xs.splitBy r ++ ys.splitBy r := by
  refine List.splitBy_append ?_
  intro a ha b hb
  have hmem : a ∈ xs := List.mem_of_getLast? ha
  have hmem' : b ∈ ys := List.mem_of_mem_head? hb
  rw [← Bool.not_eq_true]
  exact fun h => hne a hmem b hmem' (hr a hmem b hmem' h)

/-- The groups of a descending list: those of greater keys, those of a key, those of lesser ones. -/
theorem splitBy_of_descending (k : κ) {xs : List α}
    (hsorted : xs.Pairwise fun a b => key b ≤ key a)
    (hr : ∀ a ∈ xs, ∀ b ∈ xs, r a b = true → key a = key b) :
    xs.splitBy r = (xs.filter fun x => k < key x).splitBy r ++
      ((xs.filter fun x => key x = k).splitBy r ++
        (xs.filter fun x => key x < k).splitBy r) := by
  have hgreater : ∀ a ∈ xs.filter (fun x => k < key x), a ∈ xs ∧ k < key a := by simp
  have hequal : ∀ a ∈ xs.filter (fun x => key x = k), a ∈ xs ∧ key a = k := by simp
  have hless : ∀ a ∈ xs.filter (fun x => key x < k), a ∈ xs ∧ key a < k := by simp
  have hrest : ∀ a ∈ (xs.filter fun x => key x = k) ++ xs.filter fun x => key x < k,
      a ∈ xs ∧ key a ≤ k := by
    intro a ha
    rcases List.mem_append.mp ha with ha | ha
    · exact ⟨(hequal a ha).1, (hequal a ha).2.le⟩
    · exact ⟨(hless a ha).1, (hless a ha).2.le⟩
  rw [← splitBy_append_of_ne
      (fun a ha b hb => hr a (hequal a ha).1 b (hless b hb).1)
      (fun a ha b hb => (hequal a ha).2.trans_ne (hless b hb).2.ne'),
    ← splitBy_append_of_ne
      (fun a ha b hb => hr a (hgreater a ha).1 b (hrest b hb).1)
      (fun a ha b hb => ((hrest b hb).2.trans_lt (hgreater a ha).2).ne'),
    ← eq_filter_append_of_descending k hsorted]

variable {f : List α → List β} {p : β → Bool}

omit [LinearOrder κ] in
/-- Where a key does not occur, nothing is made that belongs to it. -/
theorem filter_flatMap_splitBy_of_ne {k : κ} {xs : List α} (hne : ∀ a ∈ xs, key a ≠ k)
    (hother : ∀ group, (∀ a ∈ group, key a ≠ k) → (f group).filter p = []) :
    ((xs.splitBy r).flatMap f).filter p = [] := by
  rw [List.filter_flatMap, List.flatMap_eq_nil_iff]
  intro group hgroup
  refine hother group fun a ha => hne a ?_
  rw [← List.flatten_splitBy r xs]
  exact List.mem_flatten.mpr ⟨group, hgroup, ha⟩

/-- Elements that are all alike are one group, if there are any. -/
theorem flatMap_splitBy_of_forall {xs : List α} (hr : ∀ a ∈ xs, ∀ b ∈ xs, r a b = true)
    (hnil : f [] = []) : (xs.splitBy r).flatMap f = f xs := by
  by_cases hnone : xs = []
  · rw [hnone, List.splitBy_nil, List.flatMap_nil, hnil]
  · have hchain : xs.IsChain fun a b => r a b = true :=
      (List.pairwise_of_forall_mem_list hr).isChain
    rw [List.splitBy_of_isChain hnone hchain, List.flatMap_singleton]

/-- **What is made of the groups of a descending list**: what belongs to one key is made of the
elements of this key alone. -/
theorem filter_flatMap_splitBy (k : κ) {xs : List α}
    (hsorted : xs.Pairwise fun a b => key b ≤ key a)
    (hr : ∀ a ∈ xs, ∀ b ∈ xs, r a b = true ↔ key a = key b) (hnil : f [] = [])
    (hself : ∀ group, (∀ a ∈ group, key a = k) → (f group).filter p = f group)
    (hother : ∀ group, (∀ a ∈ group, key a ≠ k) → (f group).filter p = []) :
    ((xs.splitBy r).flatMap f).filter p = f (xs.filter fun x => key x = k) := by
  have hequal : ∀ a ∈ xs.filter (fun x => key x = k), a ∈ xs ∧ key a = k := by simp
  have halike : ∀ a ∈ xs.filter (fun x => key x = k), ∀ b ∈ xs.filter (fun x => key x = k),
      r a b = true := by
    intro a ha b hb
    obtain ⟨ha, hka⟩ := hequal a ha
    obtain ⟨hb, hkb⟩ := hequal b hb
    exact (hr a ha b hb).mpr (hka.trans hkb.symm)
  have hgreater : ∀ a ∈ xs.filter (fun x => k < key x), key a ≠ k := by
    intro a ha
    have hlt : k < key a := by simpa using (List.mem_filter.mp ha).2
    exact hlt.ne'
  have hless : ∀ a ∈ xs.filter (fun x => key x < k), key a ≠ k := by
    intro a ha
    have hlt : key a < k := by simpa using (List.mem_filter.mp ha).2
    exact hlt.ne
  rw [splitBy_of_descending k hsorted fun a ha b hb => (hr a ha b hb).mp, List.flatMap_append,
    List.flatMap_append, List.filter_append, List.filter_append,
    filter_flatMap_splitBy_of_ne hgreater hother, filter_flatMap_splitBy_of_ne hless hother,
    flatMap_splitBy_of_forall halike hnil, hself _ fun a ha => (hequal a ha).2, List.nil_append,
    List.append_nil]

end Grouping

/-! ## The packages of a name -/

/-- The name of a package. -/
def Universe.nameOf (u : Universe) (id : PackageId) : String :=
  ((u.package? id).map (·.name)).getD ""

/-- Whether an entry is about a package of a name. -/
def Universe.isAbout (u : Universe) (own : String) (e : JobEntry) : Bool :=
  match e.target with
  | .package id => u.nameOf id = own
  | _ => false

/-- The entry that keeps a package. -/
def keepEntry (id : PackageId) : JobEntry := { action := .install, target := .package id }

/-- The entry that erases a package. -/
def eraseEntry (id : PackageId) : JobEntry := { action := .erase, target := .package id }

theorem Universe.nameOf_eq {u : Universe} {id : PackageId} {p : Package}
    (hp : u.package? id = some p) : u.nameOf id = p.name := by
  unfold nameOf
  rw [hp]
  rfl

namespace Solution

variable {s : Solution} {name own : String} {limit : Nat} {id a b : PackageId} {e : JobEntry}

/-- The packages present that provide a name and bear one name of their own. -/
def namesakes (s : Solution) (name own : String) : List PackageId :=
  (s.keptProviders name).filter fun id => s.world.nameOf id = own

/-- The same, those that are wanted most first. -/
def wantedFirst (s : Solution) (name own : String) : List PackageId :=
  (sortBy s.compareKept (s.namesakes name own)).reverse

/-- **A name is to be limited**: more packages are kept for it than may be, and one of them comes
in. -/
structure Exceeds (s : Solution) (name : String) : Prop where
  limited : 0 < s.world.installonlyLimit
  crowded : s.world.installonlyLimit < (s.keptProviders name).length
  comesIn : ∃ id ∈ s.keptProviders name, s.world.isInstalled id = false

theorem exists_package_of_mem_keptProviders (h : id ∈ s.keptProviders name) :
    ∃ p, s.world.package? id = some p := by
  obtain ⟨-, p, hp, -⟩ := Universe.mem_whatProvides.mp (List.mem_filter.mp h).1
  exact ⟨p, hp⟩

theorem nodup_namesakes (s : Solution) (name own : String) : (s.namesakes name own).Nodup :=
  ((PackageSet.nodup_toList _).filter _).filter _

theorem wantedFirst_perm (s : Solution) (name own : String) :
    (s.wantedFirst name own).Perm (s.namesakes name own) :=
  (List.reverse_perm _).trans (sortBy_perm _ _)

theorem mem_namesakes : id ∈ s.namesakes name own ↔
    id ∈ s.keptProviders name ∧ s.world.nameOf id = own := by
  unfold namesakes
  rw [List.mem_filter, decide_eq_true_iff]

/-! ## The entries of a group -/

/-- **What becomes of a group**: its first packages are kept, if there are others, and these are
erased. -/
theorem mem_limitGroup {group : List PackageId} : e ∈ limitGroup limit group ↔
    limit < group.length ∧ ((∃ id ∈ group.take limit, e = keepEntry id) ∨
      ∃ id ∈ group.drop limit, e = eraseEntry id) := by
  unfold limitGroup
  split
  · rename_i hle
    exact iff_of_false List.not_mem_nil fun h => hle.not_gt h.1
  · rename_i hgt
    rw [List.mem_append, List.mem_map, List.mem_map, and_iff_right (lt_of_not_ge hgt)]
    unfold keepEntry eraseEntry
    simp only [eq_comm]

theorem exists_mem_of_mem_limitGroup {group : List PackageId} (h : e ∈ limitGroup limit group) :
    ∃ id ∈ group, e = keepEntry id ∨ e = eraseEntry id := by
  rcases (mem_limitGroup.mp h).2 with ⟨id, hid, he⟩ | ⟨id, hid, he⟩
  · exact ⟨id, List.mem_of_mem_take hid, .inl he⟩
  · exact ⟨id, List.mem_of_mem_drop hid, .inr he⟩

@[simp] theorem isAbout_keepEntry {u : Universe} :
    u.isAbout own (keepEntry id) = true ↔ u.nameOf id = own := decide_eq_true_iff

@[simp] theorem isAbout_eraseEntry {u : Universe} :
    u.isAbout own (eraseEntry id) = true ↔ u.nameOf id = own := decide_eq_true_iff

theorem isAbout_of_mem_limitGroup {u : Universe} {group : List PackageId}
    (h : e ∈ limitGroup limit group) : ∃ id ∈ group, u.isAbout own e = true ↔ u.nameOf id = own := by
  obtain ⟨id, hid, rfl | rfl⟩ := exists_mem_of_mem_limitGroup h
  · exact ⟨id, hid, isAbout_keepEntry⟩
  · exact ⟨id, hid, isAbout_eraseEntry⟩

/-! ## The entries of a name -/

/-- Kept packages are compared by their names first. -/
theorem compareKept_of_nameOf_ne (ha : ∃ p, s.world.package? a = some p)
    (hb : ∃ p, s.world.package? b = some p) (hne : s.world.nameOf a ≠ s.world.nameOf b) :
    s.compareKept a b = compare (s.world.nameOf a) (s.world.nameOf b) := by
  obtain ⟨p, hp⟩ := ha
  obtain ⟨q, hq⟩ := hb
  rw [Universe.nameOf_eq hp, Universe.nameOf_eq hq] at hne ⊢
  unfold compareKept
  rw [hp, hq]
  dsimp only
  cases h : compare p.name q.name with
  | eq => exact absurd (compare_eq_iff_eq.mp h) hne
  | lt => rfl
  | gt => rfl

theorem sameName_iff (ha : ∃ p, s.world.package? a = some p)
    (hb : ∃ p, s.world.package? b = some p) :
    s.sameName a b = true ↔ s.world.nameOf a = s.world.nameOf b := by
  obtain ⟨p, hp⟩ := ha
  obtain ⟨q, hq⟩ := hb
  rw [Universe.nameOf_eq hp, Universe.nameOf_eq hq]
  unfold sameName
  rw [hp, hq, beq_iff_eq, Option.map_some, Option.map_some, Option.some_inj]

/-- Packages may not all stay exactly if their name is to be limited. -/
theorem mayStay_eq_false : 0 < s.world.installonlyLimit ∧
    s.mayStay s.world.installonlyLimit (s.keptProviders name) = false ↔ s.Exceeds name := by
  unfold mayStay
  rw [Bool.or_eq_false_iff, decide_eq_false_iff_not, Nat.not_le, List.all_eq_false]
  simp only [Bool.not_eq_true]
  exact ⟨fun ⟨hlimit, hcrowded, hnew⟩ => ⟨hlimit, hcrowded, hnew⟩,
    fun h => ⟨h.limited, h.crowded, h.comesIn⟩⟩

theorem limitName_of_exceeds (h : s.Exceeds name) :
    s.limitName s.world.installonlyLimit name =
      (s.installonlyGroups (s.keptProviders name)).flatMap (limitGroup s.world.installonlyLimit) :=
  if_neg (Bool.eq_false_iff.mp (mayStay_eq_false.mpr h).2)

/-- **What is entered for the packages of one name**: what becomes of them alone. -/
theorem filter_limitName (h : s.Exceeds name) (own : String) :
    (s.limitName s.world.installonlyLimit name).filter (s.world.isAbout own) =
      limitGroup s.world.installonlyLimit (s.wantedFirst name own) := by
  have hpackage : ∀ id ∈ s.keptProviders name, ∃ p, s.world.package? id = some p := fun _ =>
    exists_package_of_mem_keptProviders
  have hkey := fun a b => compareKept_of_nameOf_ne (s := s) (a := a) (b := b)
  have hwanted : s.wantedFirst name own =
      (sortBy s.compareKept (s.keptProviders name)).reverse.filter
        fun id => s.world.nameOf id = own := by
    rw [List.filter_reverse, filter_sortBy hkey own hpackage]
    rfl
  rw [limitName_of_exceeds h, hwanted]
  refine filter_flatMap_splitBy own ?_ ?_ (if_pos (Nat.zero_le _)) ?_ ?_
  · exact List.pairwise_reverse.mpr (pairwise_key_sortBy hkey hpackage)
  · intro a ha b hb
    rw [List.mem_reverse, mem_sortBy] at ha hb
    exact sameName_iff (hpackage a ha) (hpackage b hb)
  · intro group hgroup
    refine List.filter_eq_self.mpr fun e he => ?_
    obtain ⟨id, hid, habout⟩ := isAbout_of_mem_limitGroup he
    exact habout.mpr (hgroup id hid)
  · intro group hgroup
    refine List.filter_eq_nil_iff.mpr fun e he => ?_
    obtain ⟨id, hid, habout⟩ := isAbout_of_mem_limitGroup he
    exact fun h => hgroup id hid (habout.mp h)

/-! ## The order within a group -/

/-- Whether a package is the running kernel or depends on it. -/
def HoldsKernel (s : Solution) (id : PackageId) : Prop :=
  ∃ kernel, s.world.runningKernel? = some kernel ∧ (id = kernel ∨ s.dependsOn id kernel = true)

/-- Both packages come in, or both are installed, and hold the running kernel or not alike. -/
def SameRank (s : Solution) (a b : PackageId) : Prop :=
  s.world.isInstalled a = s.world.isInstalled b ∧
    (s.world.isInstalled a = true → (s.HoldsKernel a ↔ s.HoldsKernel b))

/-- **A package is wanted over another**: it comes in or the other is installed as well; of two
installed ones, it holds the running kernel if the other does; and if they rank the same, it is
not older. -/
structure WantedOver (s : Solution) (y x : PackageId) : Prop where
  incoming : s.world.isInstalled y = false ∨ s.world.isInstalled x = true
  holdsKernel : s.world.isInstalled y = true → s.world.isInstalled x = true →
    s.HoldsKernel x → s.HoldsKernel y
  newer : s.SameRank y x → ∀ p q, s.world.package? y = some p → s.world.package? x = some q →
    p.evr.compare q.evr ≠ .lt

/-- A package ranks below another, or ranks the same and is not newer. -/
def StandsBelow (s : Solution) (a b : PackageId) : Prop :=
  s.keepRank a < s.keepRank b ∨ s.keepRank a = s.keepRank b ∧
    ∀ p q, s.world.package? a = some p → s.world.package? b = some q → q.evr.compare p.evr ≠ .lt

theorem keepRank_of_isInstalled_eq_false (h : s.world.isInstalled id = false) :
    s.keepRank id = 2 := by
  unfold keepRank
  rw [h]
  rfl

theorem keepRank_of_isInstalled (h : s.world.isInstalled id = true) :
    (s.HoldsKernel id ∧ s.keepRank id = 1) ∨ (¬s.HoldsKernel id ∧ s.keepRank id = 0) := by
  have hholds : (s.world.runningKernel?.any fun kernel => id == kernel || s.dependsOn id kernel) =
      true ↔ s.HoldsKernel id := by
    unfold HoldsKernel
    simp only [Option.any_eq_true, Bool.or_eq_true, beq_iff_eq]
  unfold keepRank
  rw [h, Bool.not_true, if_neg Bool.false_ne_true]
  by_cases hkernel : s.HoldsKernel id
  · exact .inl ⟨hkernel, if_pos (hholds.mpr hkernel)⟩
  · exact .inr ⟨hkernel, if_neg fun hany => hkernel (hholds.mp hany)⟩

/-- Packages that rank the same have the same rank. -/
theorem SameRank.keepRank_eq (h : s.SameRank a b) : s.keepRank a = s.keepRank b := by
  cases ha : s.world.isInstalled a with
  | false =>
      rw [keepRank_of_isInstalled_eq_false ha,
        keepRank_of_isInstalled_eq_false (h.1.symm.trans ha)]
  | true =>
      have hiff := h.2 ha
      rcases keepRank_of_isInstalled ha with ⟨hka, hra⟩ | ⟨hka, hra⟩ <;>
        rcases keepRank_of_isInstalled (h.1.symm.trans ha) with ⟨hkb, hrb⟩ | ⟨hkb, hrb⟩
      · rw [hra, hrb]
      · exact absurd (hiff.mp hka) hkb
      · exact absurd (hiff.mpr hkb) hka
      · rw [hra, hrb]

theorem StandsBelow.wantedOver (h : s.StandsBelow a b) : s.WantedOver b a where
  incoming := by
    by_contra hnot
    obtain ⟨hb, ha⟩ := not_or.mp hnot
    rw [Bool.not_eq_false] at hb
    rw [Bool.not_eq_true] at ha
    have hrank := keepRank_of_isInstalled_eq_false ha
    rcases h with hlt | ⟨heq, -⟩ <;>
      rcases keepRank_of_isInstalled hb with ⟨-, hrank'⟩ | ⟨-, hrank'⟩ <;> omega
  holdsKernel := by
    intro hb ha hkernel
    by_contra hnot
    rcases keepRank_of_isInstalled ha with ⟨-, hrank⟩ | ⟨hnone, -⟩
    · rcases keepRank_of_isInstalled hb with ⟨hsome, -⟩ | ⟨-, hrank'⟩
      · exact hnot hsome
      · rcases h with hlt | ⟨heq, -⟩ <;> omega
    · exact hnone hkernel
  newer := by
    intro hsame p q hp hq
    have hrank := hsame.keepRank_eq
    rcases h with hlt | ⟨-, hevr⟩
    · omega
    · exact hevr q p hq hp

/-- Within a name the comparison goes by rank and then by version. -/
theorem compareKept_of_nameOf_eq {p q : Package} (hp : s.world.package? a = some p)
    (hq : s.world.package? b = some q) (hname : s.world.nameOf a = s.world.nameOf b) :
    s.compareKept a b =
      ((compare (s.keepRank a) (s.keepRank b)).then (p.evr.compare q.evr)).then (compare a b) := by
  rw [Universe.nameOf_eq hp, Universe.nameOf_eq hq] at hname
  unfold compareKept
  rw [hp, hq]
  dsimp only
  rw [hname, compare_eq_iff_eq.mpr rfl]
  rfl

/-- The comparison respects the order. -/
theorem standsBelow_of_compareKept {p q : Package} (hp : s.world.package? a = some p)
    (hq : s.world.package? b = some q) (hname : s.world.nameOf a = s.world.nameOf b) :
    (s.compareKept a b = .lt → s.StandsBelow a b) ∧
      (s.compareKept a b ≠ .lt → s.StandsBelow b a) := by
  have hswap : q.evr.compare p.evr = (p.evr.compare q.evr).swap := Std.OrientedCmp.eq_swap
  have hunique : ∀ {id : PackageId} {r r' : Package}, s.world.package? id = some r →
      s.world.package? id = some r' → r = r' := fun h h' => Option.some.inj (h.symm.trans h')
  rw [compareKept_of_nameOf_eq hp hq hname]
  rcases lt_trichotomy (s.keepRank a) (s.keepRank b) with hlt | heq | hgt
  · rw [compare_lt_iff_lt.mpr hlt]
    exact ⟨fun _ => .inl hlt, fun h => absurd rfl h⟩
  · rw [compare_eq_iff_eq.mpr heq]
    refine ⟨fun h => .inr ⟨heq, ?_⟩, fun h => .inr ⟨heq.symm, ?_⟩⟩
    · rintro r r' hr hr' hlt
      obtain rfl := hunique hp hr
      obtain rfl := hunique hq hr'
      have hcompare : p.evr.compare q.evr = .gt := by
        rw [← Ordering.swap_inj, ← hswap, hlt]
        rfl
      rw [hcompare] at h
      exact Ordering.noConfusion h
    · rintro r r' hr hr' hlt
      obtain rfl := hunique hq hr
      obtain rfl := hunique hp hr'
      rw [hlt] at h
      exact h rfl
  · rw [compare_gt_iff_gt.mpr hgt]
    exact ⟨fun h => Ordering.noConfusion h, fun _ => .inl hgt⟩

/-- Packages whose versions are ordered are ordered by how much they are wanted, -/
theorem ordersOn_compareKept (h : s.world.OrdersVersions) :
    OrdersOn s.compareKept (· ∈ s.world.ids) := by
  refine OrdersOn.congr ((((Universe.ordersOn_compareOn s.world.nameOf).thenBy
    (Universe.ordersOn_compareOn s.keepRank)).thenBy h.flip).thenBy
      (Universe.ordersOn_compareOn id)) fun a b ha hb => ?_
  obtain ⟨p, hp⟩ := Catalog.mem_ids.mp ha
  obtain ⟨q, hq⟩ := Catalog.mem_ids.mp hb
  unfold compareKept Universe.compareNewest
  rw [hp, hq, Universe.nameOf_eq hp, Universe.nameOf_eq hq]
  rfl

/-- and so whatever is to be limited can be put in order. -/
theorem ranksKept_of_ordersVersions (h : s.world.OrdersVersions) : s.ranksKept = true := by
  have hsorts : ∀ name, sorts s.compareKept (s.keptProviders name) = true := fun name =>
    sorts_of_ordersOn (ordersOn_compareKept h) fun id hid =>
      Universe.mem_ids_of_mem_whatProvides (List.mem_filter.mp hid).1
  unfold ranksKept
  refine Bool.or_eq_true_iff.mpr (.inr (List.all_eq_true.mpr fun name _ => ?_))
  exact Bool.or_eq_true_iff.mpr (.inr (hsorts name))

/-- Versions that have a release make it an order. -/
theorem StandsBelow.trans {c : PackageId} (ha : s.world.HasRelease a) (hb : s.world.HasRelease b)
    (hc : s.world.HasRelease c) (hab : s.StandsBelow a b) (hbc : s.StandsBelow b c) :
    s.StandsBelow a c := by
  rcases hab with hab | ⟨hab, hevr⟩
  · rcases hbc with hbc | ⟨hbc, -⟩
    · exact .inl (hab.trans hbc)
    · exact .inl (hab.trans_eq hbc)
  · rcases hbc with hbc | ⟨hbc, hevr'⟩
    · exact .inl (hab.trans_lt hbc)
    · refine .inr ⟨hab.trans hbc, ?_⟩
      intro p r hp hr
      obtain ⟨p', hp', hrelease⟩ := ha
      obtain ⟨q, hq, hrelease'⟩ := hb
      obtain ⟨r', hr', hrelease''⟩ := hc
      obtain rfl := Option.some.inj (hp.symm.trans hp')
      obtain rfl := Option.some.inj (hr.symm.trans hr')
      exact Evr.not_lt_trans hrelease'' hrelease' hrelease (hevr' q r hq hr) (hevr p q hp hq)

/-- **What is wanted first is wanted over the rest.** -/
theorem pairwise_wantedFirst (hreleased : ∀ id ∈ s.keptProviders name, s.world.HasRelease id)
    (own : String) : (s.wantedFirst name own).Pairwise s.WantedOver := by
  have hmem : ∀ id ∈ s.namesakes name own, s.world.HasRelease id ∧ s.world.nameOf id = own := by
    intro id hid
    obtain ⟨hkept, hname⟩ := mem_namesakes.mp hid
    exact ⟨hreleased id hkept, hname⟩
  have hcompare : ∀ a b, (s.world.HasRelease a ∧ s.world.nameOf a = own) →
      (s.world.HasRelease b ∧ s.world.nameOf b = own) →
      (s.compareKept a b = .lt → s.StandsBelow a b) ∧
        (s.compareKept a b ≠ .lt → s.StandsBelow b a) := by
    intro a b ha hb
    obtain ⟨⟨p, hp, -⟩, hown⟩ := ha
    obtain ⟨⟨q, hq, -⟩, hown'⟩ := hb
    exact standsBelow_of_compareKept hp hq (hown.trans hown'.symm)
  have hsorted : (sortBy s.compareKept (s.namesakes name own)).Pairwise s.StandsBelow :=
    pairwise_sortBy (fun _ _ _ ha hb hc hab hbc => hab.trans ha.1 hb.1 hc.1 hbc)
      (fun a b ha hb => (hcompare a b ha hb).1) (fun a b ha hb => (hcompare a b ha hb).2) hmem
  exact List.pairwise_reverse.mpr (hsorted.imp StandsBelow.wantedOver)

/--
**Limiting keeps the packages that are wanted most.**

Let more packages be kept for an install-only name than may be, one of them not installed, and let
their versions have a release. Then each entry for the name keeps or erases one of them. Of those
that bear one name of their own there are no entries if they are within the limit; and if not, as
many are kept as may be, the others are erased, each once, and what is kept is wanted over what is
erased.
-/
theorem limitName_keeps_wanted (s : Solution) (name : String) (hexceeds : s.Exceeds name)
    (hreleased : ∀ id ∈ s.keptProviders name, s.world.HasRelease id) :
    s.limitEntries = s.world.installonly.flatMap (s.limitName s.world.installonlyLimit) ∧
    (∀ e ∈ s.limitName s.world.installonlyLimit name,
      ∃ id ∈ s.keptProviders name, e = keepEntry id ∨ e = eraseEntry id) ∧
    ∀ own,
      ((s.namesakes name own).length ≤ s.world.installonlyLimit →
        (s.limitName s.world.installonlyLimit name).filter (s.world.isAbout own) = []) ∧
      (s.world.installonlyLimit < (s.namesakes name own).length →
        ∃ kept erased : List PackageId,
          (kept ++ erased).Perm (s.namesakes name own) ∧ (kept ++ erased).Nodup ∧
          kept.length = s.world.installonlyLimit ∧
          (s.limitName s.world.installonlyLimit name).filter (s.world.isAbout own) =
            kept.map keepEntry ++ erased.map eraseEntry ∧
          ∀ y ∈ kept, ∀ x ∈ erased, s.WantedOver y x) := by
  refine ⟨if_neg hexceeds.limited.ne', ?_, ?_⟩
  · intro e he
    rw [limitName_of_exceeds hexceeds] at he
    obtain ⟨group, hgroup, he⟩ := List.mem_flatMap.mp he
    obtain ⟨id, hid, he⟩ := exists_mem_of_mem_limitGroup he
    exact ⟨id, mem_of_mem_installonlyGroups hgroup hid, he⟩
  intro own
  have hperm := s.wantedFirst_perm name own
  rw [filter_limitName hexceeds own]
  refine ⟨?_, ?_⟩
  · intro hfits
    rw [← hperm.length_eq] at hfits
    exact if_pos hfits
  · intro hover
    rw [← hperm.length_eq] at hover
    have hsplit := List.take_append_drop s.world.installonlyLimit (s.wantedFirst name own)
    refine ⟨(s.wantedFirst name own).take s.world.installonlyLimit,
      (s.wantedFirst name own).drop s.world.installonlyLimit, ?_, ?_, ?_, ?_, ?_⟩
    · rwa [hsplit]
    · rw [hsplit]
      exact hperm.nodup_iff.mpr (s.nodup_namesakes name own)
    · exact List.length_take_of_le hover.le
    · exact if_neg hover.not_ge
    · have hpairwise := pairwise_wantedFirst hreleased own
      rw [← hsplit] at hpairwise
      exact (List.pairwise_append.mp hpairwise).2.2

/-- Three kernels and a build of another name beside them, of which two may be kept. The oldest
kernel is running. -/
def booted : Universe :=
  .ofCatalog
    { Catalog.ofSystem
        [plainPackage "kernel" "1" 0,
         plainPackage "kernel" "2" 0,
         { plainPackage "kernel-rt" "1" 0 with provides := [Relation.ofName "kernel"] }]
        [plainPackage "kernel" "3" 1] with
      kernelRelease := some "1-1.noarch"
      installonly := ["kernel"]
      installonlyLimit := 2 }

/-- The newest kernel is asked for, and kernels may stand side by side. -/
def bootedSolution : Solution :=
  solve booted {}
    [{ action := .multiversion, target := .ofProvide (Relation.ofName "kernel") },
      { action := .install, target := .package 4 }]

/-- Of the kernels the new one and the running one are kept, although the other one is newer; the
build of another name is left alone. -/
theorem limitName_keeps_wanted_booted :
    bootedSolution.isSolved = true ∧ bootedSolution.Exceeds "kernel" ∧
    (bootedSolution.limitName 2 "kernel").filter (booted.isAbout "kernel-rt") = [] ∧
    ∃ kept erased : List PackageId, (kept ++ erased).Perm [1, 2, 4] ∧ kept.length = 2 ∧
      (bootedSolution.limitName 2 "kernel").filter (booted.isAbout "kernel") =
        kept.map keepEntry ++ erased.map eraseEntry ∧
      ∀ y ∈ kept, ∀ x ∈ erased, bootedSolution.WantedOver y x := by
  have hworld : bootedSolution.world = booted := world_solve ..
  have hexceeds : bootedSolution.Exceeds "kernel" :=
    ⟨by decide +kernel, by decide +kernel, 4, by decide +kernel, by decide +kernel⟩
  have hreleased : ∀ id ∈ bootedSolution.keptProviders "kernel",
      bootedSolution.world.HasRelease id := by
    decide +kernel
  have hlimit : bootedSolution.world.installonlyLimit = 2 := by decide +kernel
  obtain ⟨-, -, hgroups⟩ := limitName_keeps_wanted bootedSolution "kernel" hexceeds hreleased
  rw [hlimit, hworld] at hgroups
  have hkernels : bootedSolution.namesakes "kernel" "kernel" = [1, 2, 4] := by decide +kernel
  obtain ⟨kept, erased, hperm, -, hlength, hentries, hwanted⟩ :=
    (hgroups "kernel").2 (by rw [hkernels]; decide)
  rw [hkernels] at hperm
  exact ⟨by decide +kernel, hexceeds, (hgroups "kernel-rt").1 (by decide +kernel), kept, erased,
    hperm, hlength, hentries, hwanted⟩

end Solution

end DepSolver
