import DepSolver.Generation.Reach
import DepSolver.Proofs.Universe.Index

/-!
# Walking reaches everything, and nothing else

`Universe.reach` takes as many steps as there are packages. That is enough: every step visits a
package that was not seen before, so when the steps run out nothing is left to see. What is listed
are then exactly the packages that the start `Leads` to.
-/

namespace DepSolver

namespace Universe

variable {u : Universe} {next : PackageId → List PackageId} {start : List PackageId}

/-- Which packages can be reached from a start. -/
inductive Leads (u : Universe) (next : PackageId → List PackageId) (start : List PackageId) :
    PackageId → Prop where
  | start {id : PackageId} : id ∈ start → id ∈ u.ids → Leads u next start id
  | step {id id' : PackageId} : Leads u next start id → id' ∈ next id → id' ∈ u.ids →
      Leads u next start id'

theorem Leads.mem_ids {id : PackageId} (h : u.Leads next start id) : id ∈ u.ids := by
  cases h with
  | start _ hid => exact hid
  | step _ _ hid => exact hid

/-- How many packages were not seen yet. -/
def unseen (u : Universe) (seen : PackageSet) : Nat := u.ids.countP fun id => !seen.contains id

theorem unseen_empty (u : Universe) : u.unseen .empty = u.packages.size := by
  unfold unseen Catalog.ids
  rw [List.countP_eq_length.mpr fun id _ => by rw [PackageSet.contains_empty]; rfl]
  rw [List.length_map, List.length_range]

theorem unseen_insert {seen : PackageSet} {id : PackageId} (hid : id ∈ u.ids)
    (hseen : seen.contains id = false) : u.unseen (seen.insert id) < u.unseen seen := by
  unfold unseen
  have hpos : 0 < id := by
    obtain ⟨p, hp⟩ := Catalog.mem_ids.mp hid
    exact Catalog.pos_of_package? hp
  have hself : (seen.insert id).contains id = true :=
    PackageSet.contains_insert.mpr (.inr ⟨hpos, rfl⟩)
  have hmono : ∀ x, (!(seen.insert id).contains x) = true → (!seen.contains x) = true := by
    intro x hx
    rw [Bool.not_eq_true'] at hx ⊢
    rw [← Bool.not_eq_true] at hx ⊢
    exact fun h => hx (PackageSet.contains_insert.mpr (.inl h))
  obtain ⟨before, after, hsplit⟩ := List.append_of_mem hid
  rw [hsplit, List.countP_append, List.countP_append, List.countP_cons, List.countP_cons, hself,
    hseen]
  have hbefore := List.countP_mono_left (l := before) fun x _ => hmono x
  have hafter := List.countP_mono_left (l := after) fun x _ => hmono x
  simp only [Bool.not_true, Bool.not_false, Bool.false_eq_true, if_false, if_true]
  omega

/-- The first of a queue that is worth a visit, and what comes before it. -/
theorem dropWhile_cases (u : Universe) (seen : PackageSet) (queue : List PackageId) :
    ∃ passed, (∀ x ∈ passed, x ∈ u.ids → seen.contains x = true) ∧
      ((queue = passed ∧
          (queue.dropWhile fun id => seen.contains id || (u.package? id).isNone) = []) ∨
        ∃ id rest, queue = passed ++ id :: rest ∧ id ∈ u.ids ∧ seen.contains id = false ∧
          (queue.dropWhile fun id => seen.contains id || (u.package? id).isNone) = id :: rest) := by
  induction queue with
  | nil => exact ⟨[], fun x hx => absurd hx (by simp), .inl ⟨rfl, rfl⟩⟩
  | cons x queue ih =>
      rw [List.dropWhile_cons]
      split
      · rename_i hx
        obtain ⟨passed, hpassed, hcases⟩ := ih
        refine ⟨x :: passed, fun y hy hyu => ?_, ?_⟩
        · rcases List.mem_cons.mp hy with rfl | hy
          · -- a known package is passed over only if it was seen
            rw [Bool.or_eq_true] at hx
            refine hx.resolve_right fun hnone => ?_
            obtain ⟨p, hp⟩ := Catalog.mem_ids.mp hyu
            rw [hp] at hnone
            exact absurd hnone (by simp)
          · exact hpassed y hy hyu
        · rcases hcases with ⟨rfl, hnil⟩ | ⟨id, rest, rfl, hrest⟩
          · exact .inl ⟨rfl, hnil⟩
          · exact .inr ⟨id, rest, rfl, hrest⟩
      · rename_i hx
        rw [Bool.or_eq_true, not_or, Bool.not_eq_true] at hx
        refine ⟨[], fun y hy => absurd hy (by simp), .inr ⟨x, queue, rfl, ?_, hx.1, rfl⟩⟩
        rcases hp : u.package? x with _ | p
        · rw [hp] at hx
          exact absurd rfl hx.2
        · exact Catalog.mem_ids.mpr ⟨p, hp⟩

/-- Nothing is visited that the queue does not lead to. -/
theorem leads_of_mem_visit {id : PackageId} : ∀ {steps : Nat} {seen : PackageSet}
    {queue : List PackageId}, (∀ x ∈ queue, x ∈ u.ids → u.Leads next start x) →
      id ∈ u.visit next steps seen queue → u.Leads next start id
  | 0, _, _, _, h => absurd h (by simp [visit])
  | steps + 1, seen, queue, hqueue, h => by
      rw [visit] at h
      obtain ⟨passed, -, ⟨-, hnil⟩ | ⟨x, rest, hsplit, hx, -, hcons⟩⟩ :=
        dropWhile_cases u seen queue
      · rw [hnil] at h
        exact absurd h (by simp)
      · rw [hcons] at h
        have hlx : u.Leads next start x := hqueue x (by rw [hsplit]; simp) hx
        rcases List.mem_cons.mp h with rfl | h
        · exact hlx
        · refine leads_of_mem_visit (fun y hy hyu => ?_) h
          rcases List.mem_append.mp hy with hy | hy
          · exact hqueue y (by rw [hsplit]; simp [hy]) hyu
          · exact hlx.step hy hyu

/-- With steps enough, everything in the queue is visited, and what is visited is followed. -/
theorem visit_complete (u : Universe) (next : PackageId → List PackageId) : ∀ (steps : Nat)
    (seen : PackageSet) (queue : List PackageId), u.unseen seen ≤ steps →
      (∀ x ∈ queue, x ∈ u.ids → x ∈ u.visit next steps seen queue ∨ seen.contains x = true) ∧
      ∀ x ∈ u.visit next steps seen queue, ∀ y ∈ next x, y ∈ u.ids →
        y ∈ u.visit next steps seen queue ∨ seen.contains y = true
  | 0, seen, queue, h => by
      refine ⟨fun x _ hx => .inr ?_, fun x hx => absurd hx (by simp [visit])⟩
      have := List.countP_eq_zero.mp (Nat.le_zero.mp h) x hx
      rwa [Bool.not_eq_true', Bool.not_eq_false] at this
  | steps + 1, seen, queue, h => by
      rw [visit]
      obtain ⟨passed, hpassed, ⟨hall, hnil⟩ | ⟨id, rest, hsplit, hid, hseen, hcons⟩⟩ :=
        dropWhile_cases u seen queue
      · rw [hnil]
        refine ⟨fun x hx hxu => .inr ?_, fun x hx => absurd hx (by simp)⟩
        exact hpassed x (hall ▸ hx) hxu
      · rw [hcons]
        have hless : u.unseen (seen.insert id) ≤ steps := by
          have := unseen_insert hid hseen
          omega
        obtain ⟨hqueue, hnext⟩ :=
          visit_complete u next steps (seen.insert id) (rest ++ next id) hless
        -- what the rest of the walk has seen is what was seen before, or this package
        have hback : ∀ {x : PackageId},
            (x ∈ u.visit next steps (seen.insert id) (rest ++ next id) ∨
              (seen.insert id).contains x = true) →
              x ∈ id :: u.visit next steps (seen.insert id) (rest ++ next id) ∨
                seen.contains x = true := by
          intro x hx
          rcases hx with hx | hx
          · exact .inl (List.mem_cons_of_mem _ hx)
          · rcases PackageSet.contains_insert.mp hx with hx | ⟨-, rfl⟩
            · exact .inr hx
            · exact .inl (List.mem_cons_self ..)
        refine ⟨fun x hx hxu => ?_, fun x hx y hy hyu => ?_⟩
        · rw [hsplit, List.mem_append, List.mem_cons] at hx
          rcases hx with hx | rfl | hx
          · exact .inr (hpassed x hx hxu)
          · exact .inl (List.mem_cons_self ..)
          · exact hback (hqueue x (List.mem_append_left _ hx) hxu)
        · rcases List.mem_cons.mp hx with rfl | hx
          · exact hback (hqueue y (List.mem_append_right _ hy) hyu)
          · exact hback (hnext x hx y hy hyu)

/-- **A walk lists exactly what its start leads to.** -/
theorem mem_reach {id : PackageId} : id ∈ u.reach next start ↔ u.Leads next start id := by
  obtain ⟨hstart, hnext⟩ := visit_complete u next u.packages.size .empty start
    (Nat.le_of_eq (unseen_empty u))
  refine ⟨?_, ?_⟩
  · exact leads_of_mem_visit fun x hx hxu => .start hx hxu
  · intro h
    induction h with
    | start hid hu => exact (hstart _ hid hu).resolve_right (by simp)
    | step _ hid hu ih => exact (hnext _ ih _ hid hu).resolve_right (by simp)

end Universe

end DepSolver
