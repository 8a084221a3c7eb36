import DepSolver.Proofs.Generation.Literals

/-!
# What a job says about packages

The marks of a job are gathered entry by entry, but neither order nor repetition matters: a package
is marked if some entry with the action behind the mark has a target that stands for it. From this
it can be told how the marks change when an entry is added to a job.
-/

namespace DepSolver

variable {u : Universe}

/-- Whether an entry is of some action and its target stands for a package. -/
def JobEntry.Names (u : Universe) (action : JobAction) (e : JobEntry) (id : PackageId) : Prop :=
  e.action = action ∧ id ∈ e.target.resolve u

theorem JobTarget.pos_of_mem_resolve {target : JobTarget} {id : PackageId}
    (h : id ∈ target.resolve u) : 0 < id :=
  Universe.pos_of_isConsidered (isConsidered_of_mem_resolve h)

namespace JobContext

/-- What the marks of a job mean. -/
structure Gathers (u : Universe) (job : Job) (c : JobContext) : Prop where
  multiversion : ∀ id, c.multiversion.contains id = true ↔ ∃ e ∈ job, e.Names u .multiversion id
  allowUninstall : ∀ id,
    c.allowUninstall.contains id = true ↔ ∃ e ∈ job, e.Names u .allowUninstall id
  userInstalled : ∀ id,
    c.userInstalled.contains id = true ↔ ∃ e ∈ job, e.Names u .userInstalled id
  erase : ∀ id, c.erase.contains id = true ↔
    ∃ e ∈ job, e.Names u .erase id ∧ u.isInstalled id = true
  cleandeps : ∀ id, c.cleandeps.contains id = true ↔
    ∃ e ∈ job, e.Names u .erase id ∧ u.isInstalled id = true ∧ e.flags.contains .cleandeps = true
  verify : c.verify = true ↔ ∃ e ∈ job, e.action = .verify

theorem foldl_mark {M : JobContext → Prop} {P : JobEntry → Prop}
    (hmark : ∀ c e, M (mark u c e) ↔ M c ∨ P e) : ∀ (job : Job) (c : JobContext),
      M (job.foldl (mark u) c) ↔ M c ∨ ∃ e ∈ job, P e := by
  intro job
  induction job with
  | nil =>
    intro c
    exact (or_iff_left (by simp)).symm
  | cons e job ih =>
    intro c
    rw [List.foldl_cons, ih, hmark, or_assoc]
    refine or_congr_right ?_
    simp only [List.mem_cons, exists_eq_or_imp]

/-- A mark that every entry adds to as it says is, over a job, what some entry says. -/
theorem ofJob_iff (M : JobContext → Prop) (P : JobEntry → Prop) (hnone : ¬M {})
    (hmark : ∀ c e, M (mark u c e) ↔ M c ∨ P e) (job : Job) :
    M (ofJob u job) ↔ ∃ e ∈ job, P e := by
  unfold ofJob
  rw [foldl_mark hmark]
  exact or_iff_right hnone

theorem contains_insertMany_resolve {s : PackageSet} {e : JobEntry} {id : PackageId} :
    (s.insertMany (e.target.resolve u)).contains id = true ↔
      s.contains id = true ∨ id ∈ e.target.resolve u := by
  rw [PackageSet.contains_insertMany]
  exact or_congr_right (and_iff_right_of_imp JobTarget.pos_of_mem_resolve)

theorem contains_insertMany_erased {s : PackageSet} {e : JobEntry} {id : PackageId} :
    (s.insertMany ((e.target.resolve u).filter u.isInstalled)).contains id = true ↔
      s.contains id = true ∨ id ∈ e.target.resolve u ∧ u.isInstalled id = true := by
  rw [PackageSet.contains_insertMany, List.mem_filter]
  exact or_congr_right (and_iff_right_of_imp fun h => JobTarget.pos_of_mem_resolve h.1)

/-- **A job marks what its entries name**, and nothing else. -/
theorem gathers_ofJob (u : Universe) (job : Job) : Gathers u job (ofJob u job) where
  multiversion id := by
    refine ofJob_iff (fun c => c.multiversion.contains id = true)
      (fun e => e.Names u .multiversion id) (by simp) (fun c e => ?_) job
    unfold mark JobEntry.Names
    cases e.action <;> simp [contains_insertMany_resolve]
  allowUninstall id := by
    refine ofJob_iff (fun c => c.allowUninstall.contains id = true)
      (fun e => e.Names u .allowUninstall id) (by simp) (fun c e => ?_) job
    unfold mark JobEntry.Names
    cases e.action <;> simp [contains_insertMany_resolve]
  userInstalled id := by
    refine ofJob_iff (fun c => c.userInstalled.contains id = true)
      (fun e => e.Names u .userInstalled id) (by simp) (fun c e => ?_) job
    unfold mark JobEntry.Names
    cases e.action <;> simp [contains_insertMany_resolve]
  erase id := by
    refine ofJob_iff (fun c => c.erase.contains id = true)
      (fun e => e.Names u .erase id ∧ u.isInstalled id = true) (by simp) (fun c e => ?_) job
    unfold mark JobEntry.Names
    cases e.action <;> simp [contains_insertMany_erased]
  cleandeps id := by
    refine ofJob_iff (fun c => c.cleandeps.contains id = true)
      (fun e => e.Names u .erase id ∧ u.isInstalled id = true ∧
        e.flags.contains .cleandeps = true) (by simp) (fun c e => ?_) job
    unfold mark JobEntry.Names
    -- only an entry with the flag adds to this mark
    cases hflag : e.flags.contains .cleandeps <;> cases e.action <;>
      simp [contains_insertMany_erased]
  verify := by
    refine ofJob_iff (fun c => c.verify = true) (fun e => e.action = .verify) (by simp)
      (fun c e => ?_) job
    unfold mark
    cases e.action <;> simp

end JobContext

end DepSolver
