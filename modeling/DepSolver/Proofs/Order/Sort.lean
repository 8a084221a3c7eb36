import Mathlib.Logic.Basic
import DepSolver.Order.Sort
import DepSolver.Rule.Basic

/-!
# Sorting, picking and dropping repetitions

Candidates are sorted before they are tried and rules are stored without repeated literals. Neither
step may lose or invent a package: a sorted list is a permutation, and a list without repetitions
has the members it had. Where the best of some packages is picked while going through them, it is
one of them, and no worse than any.
-/

namespace DepSolver

section Sorting

variable {α : Type} (cmp : α → α → Ordering)

theorem insertBy_perm (x : α) : ∀ ys : List α, (insertBy cmp x ys).Perm (x :: ys)
  | [] => List.Perm.refl _
  | y :: ys => by
      unfold insertBy
      split
      · exact ((insertBy_perm x ys).cons y).trans (List.Perm.swap x y ys)
      · exact List.Perm.refl _

theorem foldl_insertBy_perm : ∀ xs sorted : List α,
    (xs.foldl (fun sorted x => insertBy cmp x sorted) sorted).Perm (sorted ++ xs)
  | [], sorted => by rw [List.append_nil]; rfl
  | x :: xs, sorted =>
      (foldl_insertBy_perm xs (insertBy cmp x sorted)).trans
        (((insertBy_perm cmp x sorted).append_right xs).trans List.perm_middle.symm)

/-- Sorting only reorders. -/
theorem sortBy_perm (xs : List α) : (sortBy cmp xs).Perm xs :=
  (List.reverse_perm _).trans (foldl_insertBy_perm cmp xs [])

theorem mem_sortBy {x : α} {xs : List α} : x ∈ sortBy cmp xs ↔ x ∈ xs :=
  (sortBy_perm cmp xs).mem_iff

end Sorting

section Order

variable {α : Type} {cmp : α → α → Ordering} {P : α → Prop} {R : α → α → Prop}

/-- An element is inserted where an order that the comparison respects wants it. -/
theorem pairwise_insertBy (htrans : ∀ a b c, P a → P b → P c → R a b → R b c → R a c)
    (hlt : ∀ a b, P a → P b → cmp a b = .lt → R a b)
    (hge : ∀ a b, P a → P b → cmp a b ≠ .lt → R b a) {x : α} (hx : P x) :
    ∀ {ys : List α}, (∀ y ∈ ys, P y) → (ys.Pairwise fun a b => R b a) →
      (insertBy cmp x ys).Pairwise fun a b => R b a
  | [], _, _ => List.pairwise_singleton _ x
  | y :: ys, hP, hsorted => by
      obtain ⟨hy, hys⟩ := List.forall_mem_cons.mp hP
      obtain ⟨hafter, hrest⟩ := List.pairwise_cons.mp hsorted
      unfold insertBy
      split
      · rename_i hcmp
        refine List.pairwise_cons.mpr ⟨?_, pairwise_insertBy htrans hlt hge hx hys hrest⟩
        intro z hz
        rcases List.mem_cons.mp ((insertBy_perm cmp x ys).mem_iff.mp hz) with rfl | hz
        · exact hlt _ _ hx hy hcmp
        · exact hafter z hz
      · rename_i hcmp
        have hyx : R y x := hge x y hx hy hcmp
        refine List.pairwise_cons.mpr ⟨?_, hsorted⟩
        intro z hz
        rcases List.mem_cons.mp hz with rfl | hz
        · exact hyx
        · exact htrans z y x (hys z hz) hy hx (hafter z hz) hyx

theorem pairwise_foldl_insertBy (htrans : ∀ a b c, P a → P b → P c → R a b → R b c → R a c)
    (hlt : ∀ a b, P a → P b → cmp a b = .lt → R a b)
    (hge : ∀ a b, P a → P b → cmp a b ≠ .lt → R b a) :
    ∀ {xs sorted : List α}, (∀ x ∈ xs, P x) → (∀ x ∈ sorted, P x) →
      (sorted.Pairwise fun a b => R b a) →
      (xs.foldl (fun sorted x => insertBy cmp x sorted) sorted).Pairwise fun a b => R b a
  | [], _, _, _, hsorted => hsorted
  | x :: xs, sorted, hP, hP', hsorted => by
      obtain ⟨hx, hxs⟩ := List.forall_mem_cons.mp hP
      have hinserted : ∀ y ∈ insertBy cmp x sorted, P y := by
        intro y hy
        rcases List.mem_cons.mp ((insertBy_perm cmp x sorted).mem_iff.mp hy) with rfl | hy
        · exact hx
        · exact hP' y hy
      rw [List.foldl_cons]
      exact pairwise_foldl_insertBy htrans hlt hge hxs hinserted
        (pairwise_insertBy htrans hlt hge hx hP' hsorted)

/-- **A list is sorted** by every order that the comparison respects. -/
theorem pairwise_sortBy (htrans : ∀ a b c, P a → P b → P c → R a b → R b c → R a c)
    (hlt : ∀ a b, P a → P b → cmp a b = .lt → R a b)
    (hge : ∀ a b, P a → P b → cmp a b ≠ .lt → R b a) {xs : List α} (hP : ∀ x ∈ xs, P x) :
    (sortBy cmp xs).Pairwise R :=
  List.pairwise_reverse.mpr <|
    pairwise_foldl_insertBy htrans hlt hge hP (fun _ hx => absurd hx (by simp)) .nil

/-- If a comparison puts some elements before all others, one of them comes first. -/
theorem head_sortBy {Q : α → Prop} (hbefore : ∀ a b, Q a → ¬Q b → cmp a b = .lt)
    (hafter : ∀ a b, ¬Q a → Q b → cmp a b ≠ .lt) {xs : List α} (h : ∃ x ∈ xs, Q x) :
    ∃ y ys, sortBy cmp xs = y :: ys ∧ Q y := by
  -- the order in which what follows one of them need not be one, but what precedes it is
  have hsorted : (sortBy cmp xs).Pairwise fun a b => Q b → Q a :=
    pairwise_sortBy (P := fun _ => True) (fun _ _ _ _ _ _ hab hbc hc => hab (hbc hc))
      (fun a b _ _ hlt hb => Classical.byContradiction fun ha => hafter a b ha hb hlt)
      (fun a b _ _ hge ha => Classical.byContradiction fun hb => hge (hbefore a b ha hb))
      fun _ _ => trivial
  obtain ⟨x, hx, hQ⟩ := h
  have hmem : x ∈ sortBy cmp xs := (mem_sortBy cmp).mpr hx
  cases hlist : sortBy cmp xs with
  | nil =>
      rw [hlist] at hmem
      exact absurd hmem (by simp)
  | cons y ys =>
      rw [hlist] at hmem hsorted
      refine ⟨y, ys, rfl, ?_⟩
      rcases List.mem_cons.mp hmem with rfl | hmem
      · exact hQ
      · exact (List.pairwise_cons.mp hsorted).1 x hmem hQ

/-! ## Comparisons that order some elements -/

/-- Whether a comparison orders the elements that have a property, whatever it says of others. -/
def OrdersOn (cmp : α → α → Ordering) (P : α → Prop) : Prop :=
  Std.TransCmp fun a b : { x // P x } => cmp a.1 b.1

theorem ordersOn_of_transCmp [h : Std.TransCmp cmp] (P : α → Prop) : OrdersOn cmp P where
  eq_swap := h.eq_swap
  isLE_trans := h.isLE_trans

namespace OrdersOn

variable {cmp' : α → α → Ordering} {a b c : α}

theorem eq_swap (h : OrdersOn cmp P) (ha : P a) (hb : P b) : cmp a b = (cmp b a).swap :=
  have : Std.TransCmp fun a b : { x // P x } => cmp a.1 b.1 := h
  this.eq_swap (a := ⟨a, ha⟩) (b := ⟨b, hb⟩)

theorem isLE_trans (h : OrdersOn cmp P) (ha : P a) (hb : P b) (hc : P c)
    (hab : (cmp a b).isLE = true) (hbc : (cmp b c).isLE = true) : (cmp a c).isLE = true :=
  have : Std.TransCmp fun a b : { x // P x } => cmp a.1 b.1 := h
  this.isLE_trans (a := ⟨a, ha⟩) (b := ⟨b, hb⟩) (c := ⟨c, hc⟩) hab hbc

theorem isLE_refl (h : OrdersOn cmp P) (ha : P a) : (cmp a a).isLE = true := by
  have hswap := h.eq_swap ha ha
  cases hcmp : cmp a a with
  | lt | eq => rfl
  | gt =>
      rw [hcmp] at hswap
      exact Ordering.noConfusion hswap

theorem isLE_antisymm (h : OrdersOn cmp P) (ha : P a) (hb : P b) (hab : (cmp a b).isLE = true)
    (hba : (cmp b a).isLE = true) : cmp a b = .eq := by
  rw [h.eq_swap ha hb] at hab ⊢
  cases hcmp : cmp b a with
  | eq => rfl
  | lt | gt =>
      rw [hcmp] at hab hba
      contradiction

/-- Where one comparison finds no difference, another may decide. -/
theorem thenBy (h : OrdersOn cmp P) (h' : OrdersOn cmp' P) :
    OrdersOn (fun a b => (cmp a b).then (cmp' a b)) P :=
  have : Std.TransCmp fun a b : { x // P x } => cmp a.1 b.1 := h
  have : Std.TransCmp fun a b : { x // P x } => cmp' a.1 b.1 := h'
  inferInstanceAs (Std.TransCmp (compareLex (fun a b : { x // P x } => cmp a.1 b.1)
    fun a b : { x // P x } => cmp' a.1 b.1))

theorem flip (h : OrdersOn cmp P) : OrdersOn (fun a b => cmp b a) P where
  eq_swap {a b} := h.eq_swap b.2 a.2
  isLE_trans {a b c} hab hbc := h.isLE_trans c.2 b.2 a.2 hbc hab

theorem mono {Q : α → Prop} (h : OrdersOn cmp P) (hPQ : ∀ a, Q a → P a) : OrdersOn cmp Q where
  eq_swap {a b} := h.eq_swap (hPQ a a.2) (hPQ b b.2)
  isLE_trans {a b c} := h.isLE_trans (hPQ a a.2) (hPQ b b.2) (hPQ c c.2)

theorem congr (h : OrdersOn cmp P) (heq : ∀ a b, P a → P b → cmp' a b = cmp a b) :
    OrdersOn cmp' P where
  eq_swap {a b} := by
    rw [heq a b a.2 b.2, heq b a b.2 a.2]
    exact h.eq_swap a.2 b.2
  isLE_trans {a b c} hab hbc := by
    rw [heq a b a.2 b.2] at hab
    rw [heq b c b.2 c.2] at hbc
    rw [heq a c a.2 c.2]
    exact h.isLE_trans a.2 b.2 c.2 hab hbc

end OrdersOn

/-- **What a comparison orders can be sorted.** -/
theorem sorts_of_ordersOn (h : OrdersOn cmp P) {xs : List α} (hP : ∀ x ∈ xs, P x) :
    sorts cmp xs = true := by
  have hsorted : (sortBy cmp xs).Pairwise fun a b => (cmp a b).isLE = true := by
    have htrans : ∀ a b c, P a → P b → P c → (cmp a b).isLE = true → (cmp b c).isLE = true →
        (cmp a c).isLE = true := fun _ _ _ => h.isLE_trans
    refine pairwise_sortBy htrans (fun a b _ _ hlt => ?_) (fun a b ha hb hge => ?_) hP
    · rw [hlt]
      rfl
    · rw [h.eq_swap hb ha, Ordering.isLE_swap, Ordering.isGE_iff_ne_lt]
      exact hge
  unfold sorts
  refine Bool.or_eq_true_iff.mpr (.inr (decide_eq_true ?_))
  exact hsorted.imp Ordering.isLE_iff_ne_gt.mp

end Order

/-! ## Picking one of several elements -/

section Picking

variable {α : Type} {pick : α → α → α} {P : α → Prop} {R : α → α → Prop}

/-- What is picked while going through a list is one of its elements, -/
theorem mem_foldl_pick (hpick : ∀ a b, pick a b = a ∨ pick a b = b) :
    ∀ (xs : List α) (best : α), xs.foldl pick best ∈ best :: xs
  | [], best => List.mem_singleton_self best
  | y :: ys, best => by
      rw [List.foldl_cons]
      rcases List.mem_cons.mp (mem_foldl_pick hpick ys (pick best y)) with heq | hmem
      · rw [heq]
        rcases hpick best y with heq | heq <;> rw [heq] <;> simp
      · exact List.mem_cons_of_mem _ (List.mem_cons_of_mem _ hmem)

/-- and stands to each of them as what is picked of two stands to both. -/
theorem rel_foldl_pick (hpick : ∀ a b, pick a b = a ∨ pick a b = b)
    (hrel : ∀ a b, P a → P b → R (pick a b) a ∧ R (pick a b) b)
    (htrans : ∀ a b c, P a → P b → P c → R a b → R b c → R a c) :
    ∀ (xs : List α) (best : α), (∀ x ∈ best :: xs, P x) →
      ∀ x ∈ best :: xs, R (xs.foldl pick best) x
  | [], best, hP, x, hx => by
      have hbest := hP best (List.mem_cons_self ..)
      have hself := (hrel best best hbest hbest).1
      rw [(hpick best best).elim id id] at hself
      rw [List.mem_singleton.mp hx]
      exact hself
  | y :: ys, best, hP, x, hx => by
      obtain ⟨hbest, hrest⟩ := List.forall_mem_cons.mp hP
      obtain ⟨hy, hys⟩ := List.forall_mem_cons.mp hrest
      have hpicked : P (pick best y) := by
        rcases hpick best y with heq | heq <;> rw [heq] <;> assumption
      have hleft : ∀ x ∈ pick best y :: ys, P x := List.forall_mem_cons.mpr ⟨hpicked, hys⟩
      have hlast := hleft _ (mem_foldl_pick hpick ys (pick best y))
      obtain ⟨hover, hall⟩ :=
        List.forall_mem_cons.mp (rel_foldl_pick hpick hrel htrans ys (pick best y) hleft)
      obtain ⟨hoverBest, hoverNew⟩ := hrel best y hbest hy
      rcases List.mem_cons.mp hx with rfl | hx
      · exact htrans _ _ _ hlast hpicked hbest hover hoverBest
      · rcases List.mem_cons.mp hx with rfl | hx
        · exact htrans _ _ _ hlast hpicked hy hover hoverNew
        · exact hall x hx

variable {cmp : α → α → Ordering}

/-- What is greatest is one of the elements. -/
theorem mem_of_greatestBy? {xs : List α} {greatest : α}
    (h : greatestBy? cmp xs = some greatest) : greatest ∈ xs := by
  cases xs with
  | nil => exact absurd h (by simp [greatestBy?])
  | cons x xs =>
      obtain rfl := Option.some.inj h
      exact mem_foldl_pick (fun _ _ => ite_eq_or_eq ..) xs x

/-- What is least is one of the elements and exceeds none of them. -/
theorem least_of_leastBy? (horders : OrdersOn cmp P) {xs : List α} {least : α}
    (hP : ∀ x ∈ xs, P x) (h : leastBy? cmp xs = some least) :
    least ∈ xs ∧ ∀ x ∈ xs, (cmp least x).isLE = true := by
  cases xs with
  | nil => exact absurd h (by simp [leastBy?])
  | cons x xs =>
      obtain rfl := Option.some.inj h
      have hpick : ∀ a b : α, (if cmp a b = .gt then b else a) = a ∨
          (if cmp a b = .gt then b else a) = b := fun _ _ => (ite_eq_or_eq ..).symm
      have htrans : ∀ a b c, P a → P b → P c → (cmp a b).isLE = true → (cmp b c).isLE = true →
          (cmp a c).isLE = true := fun _ _ _ => horders.isLE_trans
      refine ⟨mem_foldl_pick hpick xs x, rel_foldl_pick hpick (fun a b ha hb => ?_) htrans xs x hP⟩
      split
      · rename_i hgt
        rw [horders.eq_swap hb ha, hgt]
        exact ⟨rfl, horders.isLE_refl hb⟩
      · exact ⟨horders.isLE_refl ha, Ordering.isLE_iff_ne_gt.mpr ‹_›⟩

end Picking

namespace Rule

theorem mem_distinct {l : Literal} : ∀ {ls : List Literal}, l ∈ distinct ls ↔ l ∈ ls
  | [] => Iff.rfl
  | x :: ls => by
      rw [distinct, List.mem_cons, List.mem_filter, mem_distinct, List.mem_cons, bne_iff_ne]
      by_cases h : l = x <;> simp [h]

@[simp] theorem make_literals (kind : RuleKind) (ls : List Literal) :
    (make kind ls).literals = distinct ls := rfl

end Rule

end DepSolver
