import DepSolver.Proofs.Search.Visit
import DepSolver.Proofs.Universe.Index

/-!
# The states of a search

A search is at one of two kinds of points. It is `Valid` while it goes on: everything propagated so
far is guarded by a true partner, what is still to be propagated was decided at the current level,
and the branches form a stack, one a level. It is `Resumable` after a conflict: the decisions of the
current level are lost, but all earlier ones are guarded, so going back to any branch gives a state
that is valid again.

What ties both to the rules is what they say of models. No model of the rules in force is ever lost:
in a valid state each one agrees with the decisions, or follows an alternative that some branch has
left. After a conflict only the second remains.

Without what they say of models the two are `Steady` and `Halted`. Watches rely on no more than
that, and so stay in order whatever is decided.
-/

namespace DepSolver

/-! ## What a search may decide -/

namespace Search

/-- The packages that a search may decide, possibly with repetitions. -/
def packages (s : Search) : List Nat :=
  (s.rules.toList.flatMap fun r => r.literals.map Int.natAbs) ++
    List.range' 1 s.world.packages.size

theorem foldl_add_length (rules : List Rule) (n : Nat) :
    rules.foldl (fun n r => n + r.literals.length) n =
      n + (rules.flatMap fun r => r.literals.map Int.natAbs).length := by
  induction rules generalizing n with
  | nil => rfl
  | cons r rules ih =>
      rw [List.foldl_cons, ih, List.flatMap_cons, List.length_append, List.length_map,
        Nat.add_assoc]

/-- There is room for every package that may be decided. -/
theorem length_packages (s : Search) : s.packages.length + 1 = s.room := by
  unfold packages room
  rw [foldl_add_length, List.length_append, List.length_range', Nat.add_comm (List.length _)]

/-- A literal that a search may decide. -/
def Knows (s : Search) (l : Literal) : Prop := l ≠ 0 ∧ l.natAbs ∈ s.packages

theorem Knows.neg {s : Search} {l : Literal} (h : s.Knows l) : s.Knows (-l) := by
  refine ⟨Int.neg_ne_zero.mpr h.1, ?_⟩
  rw [Int.natAbs_neg]
  exact h.2

theorem knows_of_mem_literals {s : Search} {r : Rule} {l : Literal} (hr : r ∈ s.rules.enabled)
    (hl : l ∈ r.literals) (h0 : l ≠ 0) : s.Knows l := by
  refine ⟨h0, List.mem_append_left _ (List.mem_flatMap.mpr ⟨r, ?_, List.mem_map_of_mem hl⟩)⟩
  exact (RuleSet.mem_enabled_iff.mp hr).1

theorem knows_of_isConsidered {s : Search} {id : PackageId} (h : s.world.isConsidered id = true) :
    s.Knows id :=
  ⟨Int.ne_of_gt (Universe.pos_of_isConsidered h),
    List.mem_append_right _ (Catalog.natAbs_mem_range (Universe.mem_ids_of_isConsidered h))⟩

/-- **Literals that a search never leaves.** The rules in force are made of them, and what is
installed and what is recommended by one of them is among them. -/
structure Admits (s : Search) (K : Literal → Prop) : Prop where
  knows : ∀ {l : Literal}, K l → s.Knows l
  rules : ∀ {r : Rule}, r ∈ s.rules.enabled → ∀ {l : Literal}, l ∈ r.literals → K l
  installed : ∀ {id : PackageId}, s.world.isInstalled id = true → K id ∧ K (-id)
  recommended : s.flags.ignoreRecommended = false →
    ∀ {id : PackageId} {p : Package}, K id → s.world.package? id = some p →
      ∀ {r : Relation}, r ∈ p.recommends → ∀ {q : PackageId}, q ∈ s.world.whatProvides r →
        K q ∧ K (-q)

theorem Admits.ne_zero {s : Search} {K : Literal → Prop} (hK : s.Admits K) {r : Rule}
    (hr : r ∈ s.rules.enabled) {l : Literal} (hl : l ∈ r.literals) : l ≠ 0 :=
  (hK.knows (hK.rules hr hl)).1

/-- A search never leaves what there is room for, unless a rule speaks of package 0. -/
theorem admits_knows {s : Search} (h0 : ∀ r ∈ s.rules.enabled, ∀ l ∈ r.literals, l ≠ 0) :
    s.Admits s.Knows where
  knows h := h
  rules hr l hl := knows_of_mem_literals hr hl (h0 _ hr l hl)
  installed h := by
    have hknows := knows_of_isConsidered (s := s) (Universe.isConsidered_of_isInstalled h)
    exact ⟨hknows, hknows.neg⟩
  recommended _ _ _ _ _ _ _ _ hq := by
    have hknows := knows_of_isConsidered (s := s) (Universe.isConsidered_of_mem_whatProvides hq)
    exact ⟨hknows, hknows.neg⟩

end Search

/-! ## Branches -/

/-- Branches stand on each other, the lowest at level 2. -/
def Stacked : List Branch → Prop
  | [] => True
  | b :: outer => b.level = outer.length + 2 ∧ Stacked outer

theorem Stacked.level {b : Branch} : ∀ {bs : List Branch}, Stacked bs → b ∈ bs →
    2 ≤ b.level ∧ b.level ≤ bs.length + 1
  | c :: outer, h, hb => by
      rw [List.length_cons]
      rcases List.mem_cons.mp hb with rfl | hb
      · exact ⟨h.1 ▸ Nat.le_add_left .., Nat.le_of_eq h.1⟩
      · have := h.2.level hb
        exact ⟨this.1, Nat.le_succ_of_le this.2⟩

/-- Whether an assignment follows an alternative that some branch has left. -/
def Open (d : Decisions) (bs : List Branch) (α : Assignment) : Prop :=
  ∃ b ∈ bs, (d.revert (b.level - 1)).Agrees α ∧
    ∃ row ∈ b.alternatives, ∀ l ∈ row, α.holds l = true

/-- What is open depends only on what is decided below the branches. -/
theorem Open.congr {d e : Decisions} {bs : List Branch} {α : Assignment} (h : Open d bs α)
    (he : ∀ b ∈ bs, ∀ l, (e.revert (b.level - 1)).satisfies l = true →
      (d.revert (b.level - 1)).satisfies l = true) : Open e bs α := by
  obtain ⟨b, hb, hagree, hrow⟩ := h
  exact ⟨b, hb, fun l h0 hl => hagree l h0 (he b hb l hl), hrow⟩

/-! ## The two kinds of states -/

/-- A false literal is settled once its negation was propagated. -/
def Decisions.Settled (d : Decisions) (propagated : Nat) (x : Literal) : Prop :=
  ∃ reason, (-x, reason) ∈ d.queue.toList.take propagated

/-- What holds at every point of a search that never leaves some literals. -/
structure Standing (s : Search) (K : Literal → Prop) (d : Decisions) (g : WatchGraph)
    (bs : List Branch) : Prop where
  coherent : d.Coherent
  known : ∀ q ∈ d.queue.toList, K q.1
  /-- No rule in force is without literals. -/
  nonempty : ∀ r ∈ s.rules.enabled, r.literals ≠ []
  /-- The only literal of a rule is true, from before the first branch. -/
  asserted : ∀ r ∈ s.rules.enabled, ∀ l, r.literals = [l] →
    d.satisfies l = true ∧ (d.signedLevel l).natAbs ≤ 2
  tracks : g.Tracks s.rules.enabled
  stacked : Stacked bs
  alternatives : ∀ b ∈ bs, ∀ row ∈ b.alternatives, ∀ l ∈ row, K l

namespace SearchState

/-- **A search that goes on.** -/
structure Valid (s : Search) (K : Literal → Prop) (st : SearchState) : Prop
    extends Standing s K st.decisions st.graph st.branches where
  /-- Every branch opened a level. -/
  level_eq : st.decisions.level = st.branches.length + 1
  level_le : ∀ l, (st.decisions.signedLevel l).natAbs ≤ st.decisions.level + 1
  propagated_le : st.propagated ≤ st.decisions.queue.toList.length
  /-- What is still to be propagated was decided at the current level. -/
  pending : ∀ q ∈ st.decisions.queue.toList.drop st.propagated,
    (st.decisions.signedLevel q.1).natAbs = st.decisions.level + 1
  guards : st.graph.Guards st.decisions (st.decisions.Settled st.propagated)
  /-- No model is lost. -/
  covered : ∀ α : Assignment, α.Models s.rules.enabled →
    st.decisions.Agrees α ∨ Open st.decisions st.branches α

/-- **A search after a conflict**, with the branches that are left. -/
structure Resumable (s : Search) (K : Literal → Prop) (st : SearchState) (bs : List Branch) : Prop
    extends Standing s K st.decisions st.graph bs where
  level_le : bs.length + 1 ≤ st.decisions.level
  /-- What was decided below the current level is guarded. -/
  guards : st.graph.Guards st.decisions fun x =>
    st.decisions.refutes x = true ∧ (st.decisions.signedLevel x).natAbs ≤ st.decisions.level
  /-- No model agrees with the decisions, but none is lost. -/
  covered : ∀ α : Assignment, α.Models s.rules.enabled → Open st.decisions bs α

/-- **A search that goes on**, whatever its decisions leave of the models. -/
structure Steady (s : Search) (K : Literal → Prop) (st : SearchState) : Prop
    extends Standing s K st.decisions st.graph st.branches where
  level_eq : st.decisions.level = st.branches.length + 1
  level_le : ∀ l, (st.decisions.signedLevel l).natAbs ≤ st.decisions.level + 1
  propagated_le : st.propagated ≤ st.decisions.queue.toList.length
  pending : ∀ q ∈ st.decisions.queue.toList.drop st.propagated,
    (st.decisions.signedLevel q.1).natAbs = st.decisions.level + 1
  guards : st.graph.Guards st.decisions (st.decisions.Settled st.propagated)

/-- **A search after a conflict**, whatever its branches leave of the models. -/
structure Halted (s : Search) (K : Literal → Prop) (st : SearchState) (bs : List Branch) : Prop
    extends Standing s K st.decisions st.graph bs where
  level_le : bs.length + 1 ≤ st.decisions.level
  guards : st.graph.Guards st.decisions fun x =>
    st.decisions.refutes x = true ∧ (st.decisions.signedLevel x).natAbs ≤ st.decisions.level

variable {s : Search} {K : Literal → Prop} {st : SearchState} {bs : List Branch}

theorem Valid.steady (h : st.Valid s K) : st.Steady s K :=
  ⟨h.toStanding, h.level_eq, h.level_le, h.propagated_le, h.pending, h.guards⟩

theorem Steady.valid (h : st.Steady s K) (hcovered : ∀ α : Assignment, α.Models s.rules.enabled →
    st.decisions.Agrees α ∨ Open st.decisions st.branches α) : st.Valid s K :=
  ⟨h.toStanding, h.level_eq, h.level_le, h.propagated_le, h.pending, h.guards, hcovered⟩

theorem Resumable.halted (h : st.Resumable s K bs) : st.Halted s K bs :=
  ⟨h.toStanding, h.level_le, h.guards⟩

theorem Halted.resumable (h : st.Halted s K bs)
    (hcovered : ∀ α : Assignment, α.Models s.rules.enabled → Open st.decisions bs α) :
    st.Resumable s K bs :=
  ⟨h.toStanding, h.level_le, h.guards, hcovered⟩

end SearchState

end DepSolver
