import DepSolver.Proofs.Search.Decisions
import DepSolver.Search.Run

/-!
# Deciding one literal after the other

The assertions at the start, the units that a propagation yields and the rows of a choice are all
decided the same way: one literal after the other at the current level, skipping what is true
already and giving up at what is false. `Extends` is what the three have in common. Nothing decided
before changes, so whatever relies on it survives; everything new is at the current level, so going
back below that level takes away exactly what was new.

An assignment *agrees* with decisions if it makes every decided literal true. Extending by literals
that the assignment makes true keeps the agreement, and so running into a false literal means that
no assignment that agrees makes all of them true.
-/

namespace DepSolver

namespace Decisions

/-- More decisions, each new one allowed by `P` and made at the current level. -/
inductive Extends (P : Literal → Reason → Prop) (d : Decisions) : Decisions → Prop where
  | refl : Extends P d d
  | record {e : Decisions} {l : Literal} {reason : Reason} :
      Extends P d e → e.isUndecided l = true → P l reason → Extends P d (e.record l reason)

namespace Extends

variable {P Q : Literal → Reason → Prop} {d e f : Decisions}

theorem trans (h : Extends P d e) (h' : Extends P e f) : Extends P d f := by
  induction h' with
  | refl => exact h
  | record _ hu hp ih => exact ih.record hu hp

theorem mono (h : Extends P d e) (hPQ : ∀ l r, P l r → Q l r) : Extends Q d e := by
  induction h with
  | refl => exact .refl
  | record _ hu hp ih => exact ih.record hu (hPQ _ _ hp)

theorem level (h : Extends P d e) : e.level = d.level := by
  induction h with
  | refl => rfl
  | record _ _ _ ih => exact ih

/-- What is decided stays, sign and level. -/
theorem signedLevel_eq (h : Extends P d e) {l : Literal} (hl : d.signedLevel l ≠ 0) :
    e.signedLevel l = d.signedLevel l := by
  induction h with
  | refl => rfl
  | @record e x reason _ hu _ ih =>
      rw [signedLevel_record, if_neg, ih]
      intro he
      rw [isUndecided_iff, signedLevel, ← he] at hu
      rw [← ih] at hl
      exact hl hu

/-- What is new is decided at the current level. -/
theorem natAbs_signedLevel (h : Extends P d e) {l : Literal} (hl : d.signedLevel l = 0)
    (hd : e.signedLevel l ≠ 0) : (e.signedLevel l).natAbs = d.level + 1 := by
  induction h with
  | refl => exact absurd hl hd
  | @record e x reason he hu _ ih =>
      rw [signedLevel_record] at hd ⊢
      split
      · rw [natAbs_signed, he.level]
      · rename_i hn
        rw [if_neg hn] at hd
        exact ih hd

theorem satisfies (h : Extends P d e) {l : Literal} (hl : d.satisfies l = true) :
    e.satisfies l = true := by
  rw [satisfies_iff] at hl ⊢
  rw [h.signedLevel_eq hl.1]
  exact hl

theorem refutes (h : Extends P d e) {l : Literal} (hl : d.refutes l = true) :
    e.refutes l = true := by
  rw [refutes_iff] at hl ⊢
  rw [h.signedLevel_eq hl.1]
  exact hl

/-- The queue only grows, by what is allowed and was undecided. -/
theorem queue (h : Extends P d e) : ∃ new, e.queue.toList = d.queue.toList ++ new ∧
    ∀ q ∈ new, P q.1 q.2 ∧ d.signedLevel q.1 = 0 := by
  induction h with
  | refl => exact ⟨[], (List.append_nil _).symm, fun q hq => absurd hq (by simp)⟩
  | @record e l reason he hu hp ih =>
      obtain ⟨new, hq, hnew⟩ := ih
      refine ⟨new ++ [(l, reason)], ?_, fun q h => ?_⟩
      · rw [record_queue, hq, List.append_assoc]
      · rcases List.mem_append.mp h with h | h
        · exact hnew q h
        · rw [List.mem_singleton.mp h]
          refine ⟨hp, Decidable.byContradiction fun hl => ?_⟩
          rw [isUndecided_iff, he.signedLevel_eq hl] at hu
          exact hl hu

theorem coherent (h : Extends P d e) (hP : ∀ l r, P l r → l ≠ 0) (hd : d.Coherent) :
    e.Coherent := by
  induction h with
  | refl => exact hd
  | record _ hu hp ih => exact ih.record _ hu (hP _ _ hp)

/-- Going back below the current level undoes an extension. -/
theorem satisfies_revert_iff (h : Extends P d e) {k : Nat} (hk : k < d.level) {l : Literal} :
    (e.revert k).satisfies l = true ↔ (d.revert k).satisfies l = true := by
  rw [satisfies_revert, satisfies_revert]
  by_cases hl : d.signedLevel l = 0
  · refine ⟨?_, ?_⟩
    · intro hex
      obtain ⟨hs, hle⟩ := hex
      have := h.natAbs_signedLevel hl (satisfies_iff.mp hs).1
      omega
    · intro hex
      obtain ⟨hs, -⟩ := hex
      exact absurd hl (satisfies_iff.mp hs).1
  · rw [satisfies_iff, satisfies_iff, h.signedLevel_eq hl]

end Extends

/-! ## Agreeing assignments -/

/-- Every decided literal is true under the assignment. -/
def Agrees (d : Decisions) (α : Assignment) : Prop :=
  ∀ l, l ≠ 0 → d.satisfies l = true → α.holds l = true

theorem Agrees.holds_eq_false {d : Decisions} {α : Assignment} (h : d.Agrees α) {l : Literal}
    (hl : l ≠ 0) (hr : d.refutes l = true) : α.holds l = false := by
  have hneg := h (-l) (Int.neg_ne_zero.mpr hl) ((refutes_iff_satisfies_neg hl).mp hr)
  rw [Assignment.holds_neg hl, Bool.not_eq_true'] at hneg
  exact hneg

theorem Extends.length_queue_le {P : Literal → Reason → Prop} {d e : Decisions}
    (h : Extends P d e) : d.queue.toList.length ≤ e.queue.toList.length := by
  obtain ⟨new, heq, -⟩ := h.queue
  rw [heq, List.length_append]
  exact Nat.le_add_right ..

theorem Extends.agrees {P : Literal → Reason → Prop} {d e : Decisions} {α : Assignment}
    (h : Extends P d e) (hP : ∀ l r, P l r → l ≠ 0 ∧ α.holds l = true) (hd : d.Agrees α) :
    e.Agrees α := by
  induction h with
  | refl => exact hd
  | record _ hu hp ih =>
      intro x hx hs
      rcases (satisfies_record _ hu (hP _ _ hp).1).mp hs with rfl | hs
      · exact (hP _ _ hp).2
      · exact ih x hx hs

/-! ## Rows of literals -/

/-- One decision either extends what was decided and makes the literal true, or finds it false. -/
theorem decide_cases (d : Decisions) (l : Literal) (reason : Reason) :
    (∃ e, d.decide l reason = (true, e) ∧ e.satisfies l = true ∧
      Extends (fun x r => x = l ∧ r = reason) d e) ∨
    (d.decide l reason = (false, d) ∧ d.refutes l = true) := by
  rcases satisfies_or_refutes_or_isUndecided d l with h | h | h
  · exact .inl ⟨d, decide_of_satisfies reason h, h, .refl⟩
  · exact .inr ⟨decide_of_refutes reason h, h⟩
  · refine .inl ⟨d.record l reason, decide_of_isUndecided reason h, ?_, .record .refl h ⟨rfl, rfl⟩⟩
    rw [satisfies_iff, signedLevel_record, if_pos rfl, signed_pos_iff]
    refine ⟨fun h0 => ?_, Iff.rfl⟩
    have hn := natAbs_signed l (d.level + 1)
    rw [h0] at hn
    exact absurd hn (by simp)

/-- Decides literals one after the other, each for its own reason, if none of them is refused. -/
def decideRow? (d : Decisions) : List (Literal × Reason) → Option Decisions
  | [] => some d
  | q :: rest =>
    match d.decide q.1 q.2 with
    | (true, d) => d.decideRow? rest
    | (false, _) => none

/-- A row that goes through is true afterwards. -/
theorem decideRow?_eq_some :
    ∀ {row : List (Literal × Reason)} {d e : Decisions}, d.decideRow? row = some e →
      Extends (fun l r => (l, r) ∈ row) d e ∧ ∀ q ∈ row, e.satisfies q.1 = true
  | [], d, e, h => by
      rw [decideRow?, Option.some.injEq] at h
      subst h
      exact ⟨.refl, fun q hq => absurd hq (by simp)⟩
  | q :: row, d, e, h => by
      rcases decide_cases d q.1 q.2 with ⟨d₁, h₁, hs, hext⟩ | ⟨h₁, -⟩
      · rw [decideRow?, h₁] at h
        obtain ⟨hrest, hall⟩ := decideRow?_eq_some h
        refine ⟨?_, ?_⟩
        · -- the first literal, then the rest of the row
          refine (hext.mono ?_).trans (hrest.mono ?_)
          · intro x r hex
            obtain ⟨rfl, rfl⟩ := hex
            exact List.mem_cons_self ..
          · exact fun x r hx => List.mem_cons_of_mem _ hx
        · intro x hx
          rcases List.mem_cons.mp hx with rfl | hx
          · exact hrest.satisfies hs
          · exact hall x hx
      · rw [decideRow?, h₁] at h
        exact absurd h (by simp)

/-- A row that is refused is false under every assignment that agrees. -/
theorem not_holds_of_decideRow?_eq_none {α : Assignment} :
    ∀ {row : List (Literal × Reason)} {d : Decisions}, d.decideRow? row = none → d.Agrees α →
      (∀ q ∈ row, q.1 ≠ 0) → ¬∀ q ∈ row, α.holds q.1 = true
  | [], d, h, _, _ => absurd h (by simp [decideRow?])
  | q :: row, d, h, hd, h0 => by
      intro hall
      have hq0 := h0 q (List.mem_cons_self ..)
      have hq := hall q (List.mem_cons_self ..)
      rcases decide_cases d q.1 q.2 with ⟨d₁, h₁, -, hext⟩ | ⟨-, hr⟩
      · rw [decideRow?, h₁] at h
        refine not_holds_of_decideRow?_eq_none h (hext.agrees ?_ hd)
          (fun x hx => h0 x (List.mem_cons_of_mem _ hx))
          (fun x hx => hall x (List.mem_cons_of_mem _ hx))
        intro x r hs
        obtain ⟨rfl, -⟩ := hs
        exact ⟨hq0, hq⟩
      · rw [hd.holds_eq_false hq0 hr] at hq
        exact absurd hq (by simp)

theorem decideAll?_eq (reason : Reason) : ∀ (ls : List Literal) (d : Decisions),
    d.decideAll? reason ls = d.decideRow? (ls.map fun l => (l, reason))
  | [], _ => rfl
  | l :: ls, d => by
      rw [decideAll?, List.map_cons, decideRow?]
      rcases decide_cases d l reason with ⟨e, h, -, -⟩ | ⟨h, -⟩ <;> rw [h]
      exact decideAll?_eq reason ls e

end Decisions

open Decisions

theorem SearchState.decideUnits?_eq : ∀ (units : List (Literal × Nat)) (d : Decisions),
    decideUnits? d units = d.decideRow? (units.map fun u => (u.1, .unit u.2))
  | [], _ => rfl
  | u :: units, d => by
      rw [decideUnits?, List.map_cons, decideRow?]
      rcases decide_cases d u.1 (.unit u.2) with ⟨e, h, -, -⟩ | ⟨h, -⟩ <;> rw [h]
      exact decideUnits?_eq units e

/-- The literals of the rules that leave only one way to satisfy them. -/
def Search.assertedRow (rules : List Rule) : List (Literal × Reason) :=
  rules.flatMap fun r =>
    match r.literals with
    | [l] => [(l, .unit r.id)]
    | _ => []

theorem Search.mem_assertedRow {rules : List Rule} {q : Literal × Reason} :
    q ∈ assertedRow rules ↔ ∃ r ∈ rules, r.literals = [q.1] ∧ q.2 = .unit r.id := by
  unfold assertedRow
  rw [List.mem_flatMap]
  refine exists_congr fun r => and_congr_right fun _ => ?_
  rcases hr : r.literals with _ | ⟨l, _ | ⟨l', ls⟩⟩
  · simp
  · simp [Prod.ext_iff, eq_comm]
  · simp

theorem Search.decideAssertions?_eq : ∀ (rules : List Rule) (d : Decisions),
    (∀ r ∈ rules, r.literals ≠ []) →
      decideAssertions? rules d = d.decideRow? (assertedRow rules)
  | [], _, _ => rfl
  | r :: rules, d, h => by
      have ih := fun e => decideAssertions?_eq rules e fun t ht => h t (List.mem_cons_of_mem _ ht)
      rw [decideAssertions?, assertedRow, List.flatMap_cons]
      rcases hr : r.literals with _ | ⟨l, _ | ⟨l', ls⟩⟩
      · exact absurd hr (h r (List.mem_cons_self ..))
      · rw [List.singleton_append, decideRow?]
        rcases decide_cases d l (.unit r.id) with ⟨e, h, -, -⟩ | ⟨h, -⟩ <;> simp only [h]
        exact ih e
      · exact ih d

/-- A rule without literals refuses the start. -/
theorem Search.decideAssertions?_eq_none {rules : List Rule} {r : Rule} (hr : r ∈ rules)
    (hl : r.literals = []) (d : Decisions) : decideAssertions? rules d = none := by
  induction rules generalizing d with
  | nil => exact absurd hr (by simp)
  | cons t rules ih =>
      rw [decideAssertions?]
      split
      · rfl
      · rename_i l ht
        rcases decide_cases d l (.unit t.id) with ⟨e, h, -, -⟩ | ⟨h, -⟩ <;> rw [h]
        rcases List.mem_cons.mp hr with rfl | hr
        · rw [hl] at ht
          exact absurd ht (by simp)
        · exact ih hr e
      · rename_i hne _
        rcases List.mem_cons.mp hr with rfl | hr
        · exact absurd hl hne
        · exact ih hr d

end DepSolver
