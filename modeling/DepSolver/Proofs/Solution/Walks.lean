import Mathlib.Algebra.Order.BigOperators.Group.List
import Mathlib.Algebra.Order.Ring.Nat
import DepSolver.Proofs.Solution.Unneeded

/-!
# Walks come to an end

`Loops` tells of a loop whose body is run again and again until it gives a result, however often
that may be. Such a loop ends if every pass that does not end it makes something less.

A `Walk` follows what packages point to: while rules are made, and when the unneeded packages are
listed. Packages may point at each other and be put into the queue again and again, so the queue may
grow. But a package is followed once; and what is left of the queue and of the packages that may
still be followed, each counted with all it points to, gets less with every pass.

`Universe.reach`, which is told how many packages it may visit, lists what such a walk follows.
-/

namespace DepSolver

/-! ## Loops -/

/-- A loop ends with a result after a number of passes, each of which starts where the one before
left off. -/
inductive Loops {σ ρ : Type} (body : σ → σ ⊕ ρ) : Nat → σ → ρ → Prop where
  | ends {a : σ} {r : ρ} : body a = .inr r → Loops body 1 a r
  | again {n : Nat} {a b : σ} {r : ρ} : body a = .inl b → Loops body n b r →
      Loops body (n + 1) a r

theorem Loops.pos {σ ρ : Type} {body : σ → σ ⊕ ρ} {n : Nat} {a : σ} {r : ρ}
    (h : Loops body n a r) : 0 < n := by
  cases h with
  | ends => exact Nat.one_pos
  | again => exact Nat.succ_pos _

/-- **A loop ends if every pass that does not end it makes something less.** -/
theorem exists_loops {σ ρ : Type} {body : σ → σ ⊕ ρ} (Inv : σ → Prop) (weight : σ → Nat)
    (hstep : ∀ a b, Inv a → body a = .inl b → Inv b ∧ weight b < weight a) (a : σ) (ha : Inv a) :
    ∃ n ≤ weight a + 1, ∃ last r, Inv last ∧ body last = .inr r ∧ Loops body n a r := by
  cases hbody : body a with
  | inr r => exact ⟨1, Nat.le_add_left 1 _, a, r, ha, hbody, .ends hbody⟩
  | inl b =>
      obtain ⟨hb, hless⟩ := hstep a b ha hbody
      obtain ⟨n, hn, last, r, hlast, hr, hloops⟩ := exists_loops Inv weight hstep b hb
      exact ⟨n + 1, by omega, last, r, hlast, hr, .again hbody hloops⟩
termination_by weight a

/-- A function that recurses on a number, and runs the body once for each, gives what the loop does
if the number is large enough. -/
theorem Loops.eq_of_le {σ ρ : Type} {body : σ → σ ⊕ ρ} {f : Nat → σ → ρ}
    (hf : ∀ left a, f (left + 1) a = (body a).elim (f left) id) {n : Nat} {a : σ} {r : ρ}
    (h : Loops body n a r) : ∀ {left : Nat}, n ≤ left → f left a = r := by
  induction h with
  | ends hbody =>
      intro left hleft
      obtain ⟨left, rfl⟩ := Nat.exists_eq_add_of_le' hleft
      rw [hf, hbody, Sum.elim_inr, id_eq]
  | again hbody _ ih =>
      intro left hleft
      obtain ⟨left, rfl⟩ := Nat.exists_eq_add_of_le' (Nat.le_trans (Nat.le_add_left 1 _) hleft)
      rw [hf, hbody, Sum.elim_inl]
      exact ih (Nat.le_of_succ_le_succ hleft)

/-! ## Walking from package to package -/

/-- What a walk keeps while it goes on. -/
structure Walk where
  /-- What is still to be looked at, the next first. -/
  queue : List PackageId
  seen : PackageSet := .empty
  /-- The packages followed, in order. -/
  visited : List PackageId := []

namespace Universe

variable {u : Universe}

/-- Looks at the next of a queue, and follows it if it was not seen yet. What it points to may
depend on what was seen, and `add` puts that into the queue. -/
def follow (u : Universe) (next : PackageSet → PackageId → List PackageId)
    (add : List PackageId → List PackageId → List PackageId) (w : Walk) : Walk ⊕ Walk :=
  match w.queue with
  | [] => .inr w
  | id :: rest =>
    if w.seen.contains id then .inl { w with queue := rest }
    else
      let seen := w.seen.insert id
      match u.package? id with
      | none => .inl { w with queue := rest, seen }
      | some _ =>
        .inl { queue := add rest (next seen id), seen, visited := w.visited ++ [id] }

/-- The sum over all packages that were not seen yet. -/
def sumUnseen (u : Universe) (f : PackageId → Nat) (seen : PackageSet) : Nat :=
  (u.ids.map fun id => if seen.contains id then 0 else f id).sum

theorem sum_unseen_insert_le (f : PackageId → Nat) (seen : PackageSet) (id : PackageId)
    (ids : List PackageId) :
    (ids.map fun x => if (seen.insert id).contains x then 0 else f x).sum ≤
      (ids.map fun x => if seen.contains x then 0 else f x).sum := by
  refine List.sum_le_sum fun x _ => ?_
  by_cases hx : seen.contains x = true
  · rw [if_pos hx, if_pos (PackageSet.contains_insert.mpr (.inl hx))]
  · rw [if_neg hx]
    split
    · exact Nat.zero_le _
    · exact Nat.le_refl _

theorem sumUnseen_insert_le (u : Universe) (f : PackageId → Nat) (seen : PackageSet)
    (id : PackageId) : u.sumUnseen f (seen.insert id) ≤ u.sumUnseen f seen :=
  sum_unseen_insert_le f seen id u.ids

theorem sumUnseen_insert (f : PackageId → Nat) {seen : PackageSet} {id : PackageId}
    (hid : id ∈ u.ids) (hseen : seen.contains id = false) :
    u.sumUnseen f (seen.insert id) + f id ≤ u.sumUnseen f seen := by
  obtain ⟨p, hp⟩ := Catalog.mem_ids.mp hid
  have hself : (seen.insert id).contains id = true :=
    PackageSet.contains_insert.mpr (.inr ⟨Catalog.pos_of_package? hp, rfl⟩)
  obtain ⟨before, after, hsplit⟩ := List.append_of_mem hid
  have hbefore := sum_unseen_insert_le f seen id before
  have hafter := sum_unseen_insert_le f seen id after
  unfold sumUnseen
  rw [hsplit, List.map_append, List.map_append, List.map_cons, List.map_cons, List.sum_append_nat,
    List.sum_append_nat, List.sum_cons, List.sum_cons, if_pos hself, if_neg (by rw [hseen]; simp)]
  omega

variable {next : PackageSet → PackageId → List PackageId}
  {add : List PackageId → List PackageId → List PackageId} {points : PackageId → List PackageId}

/-- What is left of a walk: the queue, and what may still be put into it. -/
def remaining (u : Universe) (points : PackageId → List PackageId) (w : Walk) : Nat :=
  w.queue.length + u.sumUnseen (fun id => (points id).length) w.seen

/-- What a pass of a walk comes to. -/
theorem follow_cases {w w' : Walk} (h : u.follow next add w = .inl w') :
    ∃ id rest, w.queue = id :: rest ∧
      ((w.seen.contains id = true ∧ w' = { w with queue := rest }) ∨
        (w.seen.contains id = false ∧ id ∉ u.ids ∧
          w' = { w with queue := rest, seen := w.seen.insert id }) ∨
        (w.seen.contains id = false ∧ id ∈ u.ids ∧
          w' = { queue := add rest (next (w.seen.insert id) id), seen := w.seen.insert id
                 visited := w.visited ++ [id] })) := by
  unfold follow at h
  split at h
  · exact absurd h (by simp)
  · rename_i id rest hqueue
    refine ⟨id, rest, hqueue, ?_⟩
    split at h
    · rename_i hseen
      exact .inl ⟨hseen, (Sum.inl.inj h).symm⟩
    · rename_i hseen
      rw [Bool.not_eq_true] at hseen
      dsimp only at h
      split at h
      · rename_i hnone
        refine .inr (.inl ⟨hseen, fun hid => ?_, (Sum.inl.inj h).symm⟩)
        obtain ⟨p, hp⟩ := Catalog.mem_ids.mp hid
        rw [hnone] at hp
        exact absurd hp (by simp)
      · rename_i p hp
        exact .inr (.inr ⟨hseen, Catalog.mem_ids.mpr ⟨p, hp⟩, (Sum.inl.inj h).symm⟩)

/-- Every pass of a walk leaves less of it. -/
theorem remaining_follow (hadd : ∀ rest new, (add rest new).length = rest.length + new.length)
    (hnext : ∀ seen id, (next seen id).length ≤ (points id).length) {w w' : Walk}
    (h : u.follow next add w = .inl w') : u.remaining points w' < u.remaining points w := by
  obtain ⟨id, rest, hqueue, ⟨-, rfl⟩ | ⟨-, -, rfl⟩ | ⟨hseen, hid, rfl⟩⟩ := follow_cases h
  all_goals
    unfold remaining
    rw [hqueue, List.length_cons]
    dsimp only
  · omega
  · have hle := u.sumUnseen_insert_le (fun id => (points id).length) w.seen id
    omega
  · have hle := sumUnseen_insert (fun id => (points id).length) hid hseen
    have hnew := hnext (w.seen.insert id) id
    rw [hadd]
    omega

/-- A walk that ends has an empty queue. -/
theorem queue_of_follow {w r : Walk} (h : u.follow next add w = .inr r) : w.queue = [] ∧ r = w := by
  unfold follow at h
  split at h
  · exact ⟨‹_›, (Sum.inr.inj h).symm⟩
  · split at h
    · exact absurd h (by simp)
    · dsimp only at h
      split at h <;> exact absurd h (by simp)

/-! ### The packages that come into play -/

section

variable {points : PackageId → List PackageId} {seen seen' : PackageSet}

theorem visit_nil (steps : Nat) (seen : PackageSet) : u.visit points steps seen [] = [] := by
  cases steps <;> rfl

/-- What was seen, or is no package, is passed over. -/
theorem visit_cons_of_passed {id : PackageId} {rest : List PackageId}
    (h : (seen.contains id || (u.package? id).isNone) = true) (steps : Nat) :
    u.visit points steps seen (id :: rest) = u.visit points steps seen rest := by
  cases steps with
  | zero => rfl
  | succ steps => rw [visit, visit, List.dropWhile_cons, if_pos h]

theorem visit_cons_of_fresh {id : PackageId} {rest : List PackageId} (hid : id ∈ u.ids)
    (hseen : seen.contains id = false) (steps : Nat) :
    u.visit points (steps + 1) seen (id :: rest) =
      id :: u.visit points steps (seen.insert id) (rest ++ points id) := by
  obtain ⟨p, hp⟩ := Catalog.mem_ids.mp hid
  have hstays : ¬(seen.contains id || (u.package? id).isNone) = true := by
    rw [hseen, hp]
    exact Bool.false_ne_true
  rw [visit, List.dropWhile_cons, if_neg hstays]

/-- What is visited depends only on which packages were seen. -/
theorem visit_congr (steps : Nat) (queue : List PackageId)
    (h : ∀ id ∈ u.ids, seen.contains id = seen'.contains id) :
    u.visit points steps seen queue = u.visit points steps seen' queue := by
  induction steps generalizing seen seen' queue with
  | zero => rfl
  | succ steps ih =>
      have hpassed : (fun id => seen.contains id || (u.package? id).isNone) =
          fun id => seen'.contains id || (u.package? id).isNone := by
        funext id
        cases hp : u.package? id with
        | none => rw [Option.isNone_none, Bool.or_true, Bool.or_true]
        | some p => rw [h id (Catalog.mem_ids.mpr ⟨p, hp⟩)]
      rw [visit, visit, hpassed]
      cases queue.dropWhile fun id => seen'.contains id || (u.package? id).isNone with
      | nil => rfl
      | cons id rest =>
          refine congrArg (id :: ·) (ih _ fun x hx => Bool.eq_iff_iff.mpr ?_)
          rw [PackageSet.contains_insert, PackageSet.contains_insert, h x hx]

/-- **A walk whose queue is first in, first out visits packages as `visit` does**, if that may take
as many steps as there are packages left. -/
theorem visited_of_loops {n : Nat} {w r : Walk}
    (h : Loops (u.follow (fun _ => points) (· ++ ·)) n w r) : ∀ {steps : Nat},
      u.unseen w.seen ≤ steps → r.visited = w.visited ++ u.visit points steps w.seen w.queue := by
  induction h with
  | ends hbody =>
      intro steps _
      obtain ⟨hqueue, rfl⟩ := queue_of_follow hbody
      rw [hqueue, visit_nil, List.append_nil]
  | @again n w w' r hbody _ ih =>
      intro steps hsteps
      obtain ⟨id, rest, hqueue, ⟨hseen, rfl⟩ | ⟨-, hid, rfl⟩ | ⟨hseen, hid, rfl⟩⟩ :=
        follow_cases hbody
      · rw [ih hsteps, hqueue, visit_cons_of_passed (by rw [hseen, Bool.true_or])]
      · -- that no package has this number is no matter to any package
        have hsame : ∀ x ∈ u.ids, (w.seen.insert id).contains x = w.seen.contains x := by
          intro x hx
          refine Bool.eq_iff_iff.mpr (PackageSet.contains_insert.trans ⟨fun hor => ?_, .inl⟩)
          exact hor.resolve_right fun he => hid (he.2 ▸ hx)
        have hunseen : u.unseen (w.seen.insert id) = u.unseen w.seen :=
          List.countP_congr fun x hx => by rw [hsame x hx]
        have hnone : u.package? id = none := Option.eq_none_iff_forall_ne_some.mpr fun p hp =>
          hid (Catalog.mem_ids.mpr ⟨p, hp⟩)
        rw [ih (Nat.le_trans (Nat.le_of_eq hunseen) hsteps), hqueue, visit_congr steps rest hsame,
          visit_cons_of_passed (by rw [hnone, Option.isNone_none, Bool.or_true])]
      · have hless := Nat.lt_of_lt_of_le (unseen_insert hid hseen) hsteps
        obtain ⟨steps, rfl⟩ := Nat.exists_eq_add_of_le' (Nat.one_le_of_lt hless)
        rw [ih (Nat.le_of_lt_succ hless), hqueue, visit_cons_of_fresh hid hseen, List.append_assoc,
          List.singleton_append]

end

/-! ### The packages that are led to -/

/-- **Halfway through a walk**: what is followed or queued is led to, and what a followed package
points to is followed or queued. -/
structure Halfway (u : Universe) (points : PackageId → List PackageId) (start : List PackageId)
    (w : Walk) : Prop where
  sound : ∀ {x}, x ∈ u.ids → x ∈ w.queue ∨ x ∈ w.visited → u.Leads points start x
  seen : ∀ {x}, x ∈ u.ids → (w.seen.contains x = true ↔ x ∈ w.visited)
  starts : ∀ {x}, x ∈ start → x ∈ u.ids → x ∈ w.queue ∨ x ∈ w.visited
  follows : ∀ {x y}, x ∈ w.visited → y ∈ points x → y ∈ u.ids → y ∈ w.queue ∨ y ∈ w.visited

variable {start : List PackageId}

theorem halfway_start {queue : List PackageId} (h : ∀ x, x ∈ queue ↔ x ∈ start) :
    u.Halfway points start { queue } where
  sound := fun hx hin => .start ((h _).mp (hin.resolve_right List.not_mem_nil)) hx
  seen := fun {x} _ => by
    rw [PackageSet.contains_empty]
    exact iff_of_false Bool.false_ne_true List.not_mem_nil
  starts := fun hx _ => .inl ((h _).mpr hx)
  follows := fun hx _ _ => absurd hx List.not_mem_nil

section

variable {w w' : Walk} {id : PackageId} {rest : List PackageId}

/-- It may be passed over what was followed before, or is no package. -/
theorem Halfway.passOver (hw : u.Halfway points start w) (hqueue : w.queue = id :: rest)
    (hid : id ∈ u.ids → id ∈ w.visited) {seen : PackageSet}
    (hseen : ∀ {x}, x ∈ u.ids → (seen.contains x = true ↔ x ∈ w.visited)) :
    u.Halfway points start { w with queue := rest, seen } := by
  have hkeep : ∀ {x}, x ∈ u.ids → x ∈ w.queue ∨ x ∈ w.visited → x ∈ rest ∨ x ∈ w.visited := by
    intro x hx hin
    rw [hqueue, List.mem_cons, or_assoc] at hin
    rcases hin with rfl | hin
    · exact .inr (hid hx)
    · exact hin
  refine ⟨fun hx hin => hw.sound hx (hin.imp_left fun hrest => ?_), hseen,
    fun hx hxu => hkeep hxu (hw.starts hx hxu), fun hx hy hyu => hkeep hyu (hw.follows hx hy hyu)⟩
  rw [hqueue]
  exact List.mem_cons_of_mem _ hrest

/-- What is followed puts into the queue all it points to that was not seen yet. -/
theorem Halfway.visit (hw : u.Halfway points start w) (hqueue : w.queue = id :: rest)
    (hid : id ∈ u.ids) {queue : List PackageId}
    (hnew : ∀ {x}, x ∈ queue ↔
      x ∈ rest ∨ x ∈ points id ∧ (w.seen.insert id).contains x = false) :
    u.Halfway points start { queue, seen := w.seen.insert id, visited := w.visited ++ [id] } := by
  have hleads : u.Leads points start id := hw.sound hid (.inl (hqueue ▸ List.mem_cons_self ..))
  have hseen : ∀ {x}, x ∈ u.ids →
      ((w.seen.insert id).contains x = true ↔ x ∈ w.visited ++ [id]) := by
    intro x hx
    obtain ⟨p, hp⟩ := Catalog.mem_ids.mp hid
    rw [PackageSet.contains_insert, hw.seen hx, List.mem_append, List.mem_singleton]
    exact or_congr_right (and_iff_right (Catalog.pos_of_package? hp))
  have hkeep : ∀ {x}, x ∈ w.queue ∨ x ∈ w.visited → x ∈ queue ∨ x ∈ w.visited ++ [id] := by
    intro x hin
    rw [hqueue, List.mem_cons] at hin
    rw [hnew, List.mem_append, List.mem_singleton]
    rcases hin with (he | hrest) | hvisited
    · exact .inr (.inr he)
    · exact .inl (.inl hrest)
    · exact .inr (.inl hvisited)
  refine ⟨fun {x} hx hin => ?_, hseen, fun hx hxu => hkeep (hw.starts hx hxu),
    fun {x y} hx hy hyu => ?_⟩
  · rw [hnew, List.mem_append, List.mem_singleton] at hin
    rcases hin with (hrest | hpoints) | hvisited | rfl
    · exact hw.sound hx (.inl (hqueue ▸ List.mem_cons_of_mem _ hrest))
    · exact hleads.step hpoints.1 hx
    · exact hw.sound hx (.inr hvisited)
    · exact hleads
  · rcases List.mem_append.mp hx with hx | hx
    · exact hkeep (hw.follows hx hy hyu)
    · rw [List.mem_singleton.mp hx] at hy
      cases hin : (w.seen.insert id).contains y with
      | true => exact .inr ((hseen hyu).mp hin)
      | false => exact .inl (hnew.mpr (.inr ⟨hy, hin⟩))

/-- **Every pass keeps a walk halfway through**, if it puts into the queue whatever the package
points to that was not seen yet. -/
theorem Halfway.follow (hadd : ∀ {rest new x}, x ∈ add rest new ↔ x ∈ rest ∨ x ∈ new)
    (hnext : ∀ {seen id x}, x ∈ next seen id ↔ x ∈ points id ∧ seen.contains x = false)
    (hw : u.Halfway points start w) (h : u.follow next add w = .inl w') :
    u.Halfway points start w' := by
  obtain ⟨id, rest, hqueue, ⟨hseen, rfl⟩ | ⟨-, hid, rfl⟩ | ⟨-, hid, rfl⟩⟩ := follow_cases h
  · exact hw.passOver hqueue (fun hx => (hw.seen hx).mp hseen) hw.seen
  · refine hw.passOver hqueue (fun hx => absurd hx hid) fun {x} hx => ?_
    rw [PackageSet.contains_insert, hw.seen hx]
    exact or_iff_left fun he => hid (he.2 ▸ hx)
  · exact hw.visit hqueue hid (hadd.trans (or_congr_right hnext))

end

/-- **A walk that is through has seen what its start leads to**, and no other package. -/
theorem Halfway.contains_seen {w : Walk} (hw : u.Halfway points start w) (hqueue : w.queue = [])
    {id : PackageId} (hid : id ∈ u.ids) :
    w.seen.contains id = true ↔ u.Leads points start id := by
  have hdone : ∀ {x}, x ∈ w.queue ∨ x ∈ w.visited → x ∈ w.visited := fun hin =>
    hin.resolve_left (hqueue ▸ List.not_mem_nil)
  rw [hw.seen hid]
  refine ⟨fun hin => hw.sound hid (.inr hin), fun hleads => ?_⟩
  clear hid
  induction hleads with
  | start hx hxu => exact hdone (hw.starts hx hxu)
  | step _ hy hyu ih => exact hdone (hw.follows ih hy hyu)

/-! ### How long a walk takes -/

/-- All that packages point to, and the start of a walk. -/
def span (u : Universe) (points : PackageId → List PackageId) (queue : List PackageId) : Nat :=
  queue.length + (u.ids.map fun id => (points id).length).sum

theorem remaining_start (u : Universe) (points : PackageId → List PackageId)
    (queue : List PackageId) : u.remaining points { queue } = u.span points queue := by
  have hnone : (fun id => if PackageSet.empty.contains id = true then 0 else (points id).length) =
      fun id => (points id).length := by
    funext id
    rw [PackageSet.contains_empty, if_neg Bool.false_ne_true]
  unfold remaining sumUnseen span
  rw [hnone]

/-- **A walk ends**, however the packages point at each other, and keeps what its passes keep. -/
theorem loops_follow (u : Universe) (points : PackageId → List PackageId)
    (hadd : ∀ rest new, (add rest new).length = rest.length + new.length)
    (hnext : ∀ seen id, (next seen id).length ≤ (points id).length) (Inv : Walk → Prop)
    {queue : List PackageId} (hInv : ∀ w w', Inv w → u.follow next add w = .inl w' → Inv w')
    (h : Inv { queue }) : ∃ n ≤ u.span points queue + 1, ∃ w, Inv w ∧ w.queue = [] ∧
      Loops (u.follow next add) n { queue } w := by
  obtain ⟨n, hn, last, w, hlast, hbody, hloops⟩ := exists_loops Inv (u.remaining points)
    (fun a b ha hab => ⟨hInv a b ha hab, remaining_follow hadd hnext hab⟩) { queue } h
  rw [remaining_start] at hn
  obtain ⟨hqueue, rfl⟩ := queue_of_follow hbody
  exact ⟨n, hn, w, hlast, hqueue, hloops⟩

end Universe

/-- **While rules are made**, the walk to the packages that come into play ends, and follows those
that rules are made for, in their order. -/
theorem Setting.loops_visited (s : Setting) (rules : List Rule) :
    let queue := s.world.installedIds ++ rules.flatMap fun r => r.literals.filter (0 < ·)
    ∃ n ≤ s.world.span s.reached queue + 1, ∃ w,
      Loops (s.world.follow (fun _ => s.reached) (· ++ ·)) n { queue } w ∧
        s.visited rules = w.visited := by
  intro queue
  have hnext : ∀ (_ : PackageSet) id, (s.reached id).length ≤ (s.reached id).length :=
    fun _ _ => Nat.le_refl _
  obtain ⟨n, hn, w, -, -, hloops⟩ := s.world.loops_follow s.reached
    (fun _ _ => List.length_append) hnext (fun _ => True) (fun _ _ _ _ => trivial)
    (trivial : True)
  refine ⟨n, hn, w, hloops, ?_⟩
  rw [Universe.visited_of_loops hloops (Nat.le_of_eq (Universe.unseen_empty s.world)),
    List.nil_append]
  rfl

namespace Solution

/-- Follows the package that was put aside last, and puts aside what it leads to. -/
def followLast (s : Solution) : Walk → Walk ⊕ Walk :=
  s.world.follow (fun seen id => (s.leadsTo id).filter fun x => !seen.contains x)
    fun rest new => new.reverse ++ rest

/-- **When unneeded packages are listed**, the walk from the wanted ones ends, and the unneeded
packages are the installed ones it has not seen. -/
theorem loops_unneeded (s : Solution) :
    ∃ n ≤ s.world.span s.leadsTo s.wanted.reverse + 1, ∃ w,
      Loops s.followLast n { queue := s.wanted.reverse } w ∧
        s.unneeded = .ofList (s.decisions.present.filter fun id =>
          s.world.isInstalled id && !w.seen.contains id) := by
  have hstep : ∀ w w' : Walk, s.world.Halfway s.leadsTo s.wanted w →
      s.followLast w = .inl w' → s.world.Halfway s.leadsTo s.wanted w' := by
    intro w w' hw hbody
    refine hw.follow ?_ ?_ hbody
    · intro rest new x
      rw [List.mem_append, List.mem_reverse, or_comm]
    · intro seen id x
      rw [List.mem_filter, Bool.not_eq_true']
  obtain ⟨n, hn, w, hw, hqueue, hloops⟩ := s.world.loops_follow s.leadsTo
    (fun rest new => by rw [List.length_append, List.length_reverse, Nat.add_comm])
    (fun _ _ => List.length_filter_le ..) (s.world.Halfway s.leadsTo s.wanted) hstep
    (Universe.halfway_start fun _ => List.mem_reverse)
  refine ⟨n, hn, w, hloops, congrArg PackageSet.ofList (List.filter_congr fun id _ => ?_)⟩
  cases hinstalled : s.world.isInstalled id with
  | false => rfl
  | true =>
      have hid : id ∈ s.world.ids := Catalog.mem_ids_of_isInstalled hinstalled
      refine congrArg (true && !·) (Bool.eq_iff_iff.mpr ?_)
      rw [hw.contains_seen hqueue hid, PackageSet.contains_ofList, Universe.mem_reach]
      exact and_iff_right (Universe.pos_of_isInstalled hinstalled)

end Solution

end DepSolver
