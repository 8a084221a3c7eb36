import DepSolver.Proofs.Search.Watches

/-!
# Attending to a literal that became false

When a literal becomes false, every rule that watches it is visited once. What is true of the graph
halfway through is `Visit.Inv`: the rules still to be visited watch the literal, those that were
visited and kept it have a true partner or force one, and those that moved on watch nothing that is
settled as false. Each visit keeps this, so it holds at the end.
-/

namespace DepSolver

namespace WatchGraph

variable {rules : RuleSet} {d : Decisions} {f : Literal} {settled : Literal → Prop}

/-- All literals of a rule but one are false, so that one is forced. -/
def ForcesUnit (rules : RuleSet) (d : Decisions) (l : Literal) (id : Nat) : Prop :=
  ∃ r ∈ rules.enabled, r.id = id ∧ l ∈ r.literals ∧ d.isUndecided l = true ∧
    ∀ x ∈ r.literals, x ≠ l → d.refutes x = true

/-- All literals of a rule are false. -/
def IsViolated (rules : RuleSet) (d : Decisions) (id : Nat) : Prop :=
  ∃ r ∈ rules.enabled, r.id = id ∧ ∀ x ∈ r.literals, d.refutes x = true

/-- **Halfway through the watchers of a literal that became false.** -/
structure Visit.Inv (rules : RuleSet) (d : Decisions) (f : Literal) (settled : Literal → Prop)
    (rest : List Nat) (v : Visit) : Prop where
  pair : ∀ {id : Nat} {x y : Literal}, v.graph.Watches id x y →
    ∃ r ∈ rules.enabled, r.id = id ∧ x ≠ y ∧ x ∈ r.literals ∧ y ∈ r.literals
  total : ∀ {r : Rule}, r ∈ rules.enabled → 2 ≤ r.literals.length →
    ∃ x y, v.graph.Watches r.id x y
  /-- The false literal has lost its watchers for the time being. -/
  emptied : v.graph.watchersOf f = []
  mem_watchersOf : ∀ {l : Literal} {id : Nat}, l ≠ f →
    (id ∈ v.graph.watchersOf l ↔ ∃ y, v.graph.Watches id l y)
  nodup : ∀ {l : Literal}, l ≠ f → (v.graph.watchersOf l).Nodup
  /-- What watches it was kept, or is still to be visited. -/
  mem_kept_or_rest : ∀ {id : Nat}, (id ∈ v.kept ∨ id ∈ rest) ↔ ∃ y, v.graph.Watches id f y
  nodup_kept : v.kept.Nodup
  nodup_rest : rest.Nodup
  disjoint : ∀ {id : Nat}, id ∈ v.kept → id ∉ rest
  guards : v.graph.Guards d settled
  units : ∀ {u : Literal × Nat}, u ∈ v.units → ForcesUnit rules d u.1 u.2
  violated : ∀ {id : Nat}, v.violated = some id → IsViolated rules d id
  /-- Who was kept has a true partner, or forces one. -/
  kept : v.violated = none → ∀ {id : Nat} {y : Literal}, id ∈ v.kept → v.graph.Watches id f y →
    d.satisfies y = true ∨ (y, id) ∈ v.units

/-! ## Moving a watch -/

section

variable {g : WatchGraph} {id : Nat} {y l : Literal}

/-- The graph in which a rule watches another literal beside the partner it has. -/
def moved (g : WatchGraph) (id : Nat) (y l : Literal) : WatchGraph := (g.rewatch id y l).watch l id

theorem watches_moved_self {a b : Literal} :
    (g.moved id y l).Watches id a b ↔ (a = y ∧ b = l) ∨ (a = l ∧ b = y) := by
  unfold moved
  rw [watches_watch, watches_rewatch_self]

theorem watches_moved_of_ne {i : Nat} {a b : Literal} (hi : i ≠ id) :
    (g.moved id y l).Watches i a b ↔ g.Watches i a b := by
  unfold moved
  rw [watches_watch, watches_rewatch_of_ne hi]

theorem watchersOf_moved (g : WatchGraph) (id : Nat) (y l x : Literal) :
    (g.moved id y l).watchersOf x =
      if l = x then g.watchersOf x ++ [id] else g.watchersOf x := by
  unfold moved
  rw [watchersOf_watch, watchersOf_rewatch]

end

/-! ## One visit -/

/-- What one visit comes to, when nothing is violated yet. -/
theorem visit_eq {v : Visit} {id : Nat} {r : Rule} {y : Literal} (hv : v.violated = none)
    (hr : rules.get? id = some r) (hw : v.graph.Watches id f y) (hne : f ≠ y) :
    visit rules d f v id =
      if d.satisfies y = true then { v with kept := id :: v.kept }
      else
        match r.literals.find? fun l => l != f && l != y && !d.refutes l with
        | some l => { v with graph := v.graph.moved id y l }
        | none =>
          if d.refutes y = true then { v with kept := id :: v.kept, violated := some id }
          else { v with kept := id :: v.kept, units := (y, id) :: v.units } := by
  unfold visit
  rw [if_neg (by rw [hv]; simp), hr, Std.TreeMap.get?_eq_getElem?]
  rcases hw with hw | hw <;> rw [hw] <;> dsimp only
  · rw [if_pos rfl]
    rfl
  · rw [if_neg hne.symm]
    simp only [Bool.and_comm (_ != y) (_ != f)]
    rfl

namespace Visit.Inv

variable {rest : List Nat} {v : Visit} {id : Nat}

/-- The next rule to be visited, with the partner of the false literal. -/
theorem next (h : Inv rules d f settled (id :: rest) v) :
    ∃ r y, r ∈ rules.enabled ∧ rules.get? id = some r ∧ v.graph.Watches id f y ∧ f ≠ y ∧
      f ∈ r.literals ∧ y ∈ r.literals := by
  obtain ⟨y, hy⟩ := h.mem_kept_or_rest.mp (.inr (List.mem_cons_self ..))
  obtain ⟨r, hr, rfl, hne, hf, hmem⟩ := h.pair hy
  exact ⟨r, y, hr, RuleSet.get?_id (RuleSet.mem_enabled_iff.mp hr).1, hy, hne, hf, hmem⟩

/-- The rule goes on watching the literal. What this needs is a reason. -/
theorem keep (h : Inv rules d f settled (id :: rest) v) {units : List (Literal × Nat)}
    {violated : Option Nat} (hsub : ∀ u ∈ v.units, u ∈ units)
    (hunits : ∀ {u : Literal × Nat}, u ∈ units → ForcesUnit rules d u.1 u.2)
    (hviolated : ∀ {i : Nat}, violated = some i → IsViolated rules d i)
    (hwas : violated = none → v.violated = none)
    (hnew : violated = none → ∀ {y : Literal}, v.graph.Watches id f y →
      d.satisfies y = true ∨ (y, id) ∈ units) :
    Inv rules d f settled rest { v with kept := id :: v.kept, units, violated } := by
  have hid : id ∉ rest := (List.nodup_cons.mp h.nodup_rest).1
  refine ⟨h.pair, h.total, h.emptied, h.mem_watchersOf, h.nodup, fun {i} => ?_, ?_,
    (List.nodup_cons.mp h.nodup_rest).2, fun {i} hi => ?_, h.guards, hunits, hviolated,
    fun hn {i y} hi hw => ?_⟩
  · rw [← h.mem_kept_or_rest, List.mem_cons, List.mem_cons]
    rw [or_assoc, or_left_comm]
  · refine List.nodup_cons.mpr ⟨fun hk => ?_, h.nodup_kept⟩
    exact h.disjoint hk (List.mem_cons_self ..)
  · rcases List.mem_cons.mp hi with rfl | hi
    · exact hid
    · exact fun hr => h.disjoint hi (List.mem_cons_of_mem _ hr)
  · rcases List.mem_cons.mp hi with rfl | hi
    · exact hnew hn hw
    · exact (h.kept (hwas hn) hi hw).imp_right (hsub _)

section

variable {y l : Literal}

/-- Of its three literals, a rule that moved on watches the partner and the new one. -/
theorem mem_watchersOf_moved (h : Inv rules d f settled (id :: rest) v)
    (hw : v.graph.Watches id f y) {x : Literal} {i : Nat} (hx : x ≠ f) :
    i ∈ (v.graph.moved id y l).watchersOf x ↔ ∃ z, (v.graph.moved id y l).Watches i x z := by
  rw [watchersOf_moved]
  by_cases hi : i = id
  · subst hi
    simp only [watches_moved_self]
    by_cases hlx : l = x
    · rw [if_pos hlx]
      exact iff_of_true (List.mem_append_right _ (List.mem_singleton_self _))
        ⟨y, .inr ⟨hlx.symm, rfl⟩⟩
    · rw [if_neg hlx, h.mem_watchersOf hx]
      refine ⟨fun hs => ?_, fun hs => ?_⟩
      · obtain ⟨z, hz⟩ := hs
        rcases hw.eq_or_eq hz with ⟨he, -⟩ | ⟨he, -⟩
        · exact absurd he hx
        · exact ⟨l, .inl ⟨he, rfl⟩⟩
      · obtain ⟨z, ⟨rfl, -⟩ | ⟨he, -⟩⟩ := hs
        · exact ⟨f, hw.symm⟩
        · exact absurd he.symm hlx
  · simp only [watches_moved_of_ne hi, ← h.mem_watchersOf hx]
    split
    · rw [List.mem_append, List.mem_singleton]
      exact ⟨fun hm => hm.resolve_right hi, .inl⟩
    · rfl

theorem nodup_watchersOf_moved (h : Inv rules d f settled (id :: rest) v)
    (hw : v.graph.Watches id f y) (hlf : l ≠ f) (hly : l ≠ y) {x : Literal} (hx : x ≠ f) :
    ((v.graph.moved id y l).watchersOf x).Nodup := by
  rw [watchersOf_moved]
  by_cases hlx : l = x
  · subst hlx
    -- the rule did not watch the new literal before
    have hnew : id ∉ v.graph.watchersOf l := by
      rw [h.mem_watchersOf hlf]
      intro hs
      obtain ⟨z, hz⟩ := hs
      rcases hw.eq_or_eq hz with ⟨he, -⟩ | ⟨he, -⟩
      · exact hlf he
      · exact hly he
    rw [if_pos rfl, List.nodup_append]
    refine ⟨h.nodup hx, by simp, fun i hi j hj he => ?_⟩
    rw [List.mem_singleton.mp hj] at he
    exact hnew (he ▸ hi)
  · rw [if_neg hlx]
    exact h.nodup hx

/-- A rule that moved on watches the literal no more, and is not kept. -/
theorem mem_kept_or_rest_moved (h : Inv rules d f settled (id :: rest) v) (hlf : l ≠ f)
    (hfy : f ≠ y) {i : Nat} :
    (i ∈ v.kept ∨ i ∈ rest) ↔ ∃ z, (v.graph.moved id y l).Watches i f z := by
  by_cases hi : i = id
  · subst hi
    refine iff_of_false (fun hs => ?_) fun hs => ?_
    · rcases hs with hk | hk
      · exact h.disjoint hk (List.mem_cons_self ..)
      · exact (List.nodup_cons.mp h.nodup_rest).1 hk
    · obtain ⟨z, hz⟩ := hs
      rcases watches_moved_self.mp hz with ⟨he, -⟩ | ⟨he, -⟩
      · exact hfy he
      · exact hlf he.symm
  · simp only [watches_moved_of_ne hi, ← h.mem_kept_or_rest, List.mem_cons, hi, false_or]

theorem guards_moved (h : Inv rules d f settled (id :: rest) v)
    (hsettled : ∀ x, settled x → d.refutes x = true) (hf : d.refutes f = true)
    (hw : v.graph.Watches id f y) (hlr : ¬d.refutes l = true) :
    (v.graph.moved id y l).Guards d settled := by
  intro i a b hab ha
  by_cases hi : i = id
  · subst hi
    -- a literal settled as false would have guarded the one that just became false
    rcases watches_moved_self.mp hab with ⟨rfl, rfl⟩ | ⟨rfl, rfl⟩
    · have hguarded := (h.guards hw.symm ha).1
      exact absurd hf (Decisions.not_refutes_of_satisfies hguarded)
    · exact absurd (hsettled _ ha) hlr
  · exact h.guards ((watches_moved_of_ne hi).mp hab) ha

/-- The rule watches another literal, one that is not false. -/
theorem move (h : Inv rules d f settled (id :: rest) v) {r : Rule}
    (hsettled : ∀ x, settled x → d.refutes x = true) (hf : d.refutes f = true)
    (hr : r ∈ rules.enabled) (hid : r.id = id) (hw : v.graph.Watches id f y) (hy : y ∈ r.literals)
    (hl : l ∈ r.literals) (hlf : l ≠ f) (hly : l ≠ y) (hlr : ¬d.refutes l = true) (hfy : f ≠ y) :
    Inv rules d f settled rest { v with graph := v.graph.moved id y l } := by
  refine ⟨fun {i a b} hab => ?_, fun {t} ht ht2 => ?_, ?_, h.mem_watchersOf_moved hw,
    h.nodup_watchersOf_moved hw hlf hly, h.mem_kept_or_rest_moved hlf hfy, h.nodup_kept,
    (List.nodup_cons.mp h.nodup_rest).2, fun hi hm => h.disjoint hi (List.mem_cons_of_mem _ hm),
    h.guards_moved hsettled hf hw hlr, h.units, h.violated, fun hn {i b} hi hb => ?_⟩
  · by_cases hi : i = id
    · subst hi
      refine ⟨r, hr, hid, ?_⟩
      rcases watches_moved_self.mp hab with ⟨rfl, rfl⟩ | ⟨rfl, rfl⟩
      · exact ⟨hly.symm, hy, hl⟩
      · exact ⟨hly, hl, hy⟩
    · exact h.pair ((watches_moved_of_ne hi).mp hab)
  · by_cases hi : t.id = id
    · rw [hi]
      exact ⟨y, l, watches_moved_self.mpr (.inl ⟨rfl, rfl⟩)⟩
    · obtain ⟨a, b, hab⟩ := h.total ht ht2
      exact ⟨a, b, (watches_moved_of_ne hi).mpr hab⟩
  · show (v.graph.moved id y l).watchersOf f = []
    rw [watchersOf_moved, if_neg hlf]
    exact h.emptied
  · have hne : i ≠ id := by
      intro he
      rw [he] at hi
      exact h.disjoint hi (List.mem_cons_self ..)
    exact h.kept hn hi ((watches_moved_of_ne hne).mp hb)

end

/-- No literal of a rule is left to be watched, so all but the partner are false. -/
theorem refutes_of_find?_eq_none {ls : List Literal} {y : Literal} (hf : d.refutes f = true)
    (hfind : (ls.find? fun l => l != f && l != y && !d.refutes l) = none) {x : Literal}
    (hx : x ∈ ls) (hxy : x ≠ y) : d.refutes x = true := by
  by_cases hxf : x = f
  · rw [hxf]
    exact hf
  · have hnot := List.find?_eq_none.mp hfind x hx
    rw [Bool.and_eq_true, Bool.and_eq_true, bne_iff_ne, bne_iff_ne, Bool.not_eq_true', not_and,
      Bool.not_eq_false] at hnot
    exact hnot ⟨hxf, hxy⟩

/-- A rule with no other literal to watch is violated, or forces its partner. -/
theorem settle (h : Inv rules d f settled (id :: rest) v) (hv : v.violated = none) {r : Rule}
    {y : Literal} (hr : r ∈ rules.enabled) (hid : r.id = id) (hw : v.graph.Watches id f y)
    (hfy : f ≠ y) (hy : y ∈ r.literals) (hs : ¬d.satisfies y = true)
    (hall : ∀ x ∈ r.literals, x ≠ y → d.refutes x = true) :
    Inv rules d f settled rest
      (if d.refutes y = true then { v with kept := id :: v.kept, violated := some id }
        else { v with kept := id :: v.kept, units := (y, id) :: v.units }) := by
  split
  · rename_i hyf
    refine h.keep (fun _ hu => hu) h.units ?_ (fun hn => absurd hn (by simp))
      (fun hn => absurd hn (by simp))
    intro i hi
    cases hi
    refine ⟨r, hr, hid, fun x hx => ?_⟩
    by_cases hxy : x = y
    · rw [hxy]
      exact hyf
    · exact hall x hx hxy
  · rename_i hyf
    have hun : d.isUndecided y = true := by
      rcases Decisions.satisfies_or_refutes_or_isUndecided d y with h₁ | h₁ | h₁
      · exact absurd h₁ hs
      · exact absurd h₁ hyf
      · exact h₁
    refine h.keep (fun _ hu => List.mem_cons_of_mem _ hu) ?_ h.violated (fun _ => hv)
      fun _ z hz => ?_
    · intro u hu
      rcases List.mem_cons.mp hu with rfl | hu
      · exact ⟨r, hr, hid, hy, hun, hall⟩
      · exact h.units hu
    · rw [hw.partner_eq hfy hz]
      exact .inr (List.mem_cons_self ..)

/-- **Every visit keeps the invariant.** -/
theorem visit (h : Inv rules d f settled (id :: rest) v)
    (hsettled : ∀ x, settled x → d.refutes x = true) (hf : d.refutes f = true) :
    Inv rules d f settled rest (WatchGraph.visit rules d f v id) := by
  rcases hv : v.violated with _ | i
  · obtain ⟨r, y, hr, hget, hw, hfy, hfr, hyr⟩ := h.next
    have hid : r.id = id := RuleSet.id_of_get? hget
    rw [visit_eq hv hget hw hfy]
    split
    · rename_i hs
      refine h.keep (fun _ hu => hu) h.units h.violated (fun hn => hn) fun _ z hz => ?_
      rw [hw.partner_eq hfy hz]
      exact .inl hs
    · rename_i hs
      split
      · -- another literal is not false, and is watched from now on
        rename_i l hfind
        have hl := List.find?_some hfind
        rw [Bool.and_eq_true, Bool.and_eq_true, bne_iff_ne, bne_iff_ne, Bool.not_eq_true'] at hl
        have hmem : l ∈ r.literals := List.mem_of_find?_eq_some hfind
        have hlr : ¬d.refutes l = true := by
          rw [hl.2]
          exact Bool.false_ne_true
        exact h.move hsettled hf hr hid hw hyr hmem hl.1.1 hl.1.2 hlr hfy
      · rename_i hfind
        exact h.settle hv hr hid hw hfy hyr hs fun x hx hxy =>
          refutes_of_find?_eq_none hf hfind hx hxy
  · -- once a rule is violated the rest is passed over
    have heq : WatchGraph.visit rules d f v id = { v with kept := id :: v.kept } := by
      unfold WatchGraph.visit
      rw [hv]
      rfl
    rw [heq]
    refine h.keep (fun _ hu => hu) h.units h.violated (fun hn => hn) fun hn => ?_
    rw [hv] at hn
    exact absurd hn (by simp)

theorem foldl (hsettled : ∀ x, settled x → d.refutes x = true)
    (hf : d.refutes f = true) : ∀ {rest : List Nat} {v : Visit}, Inv rules d f settled rest v →
      Inv rules d f settled [] (rest.foldl (WatchGraph.visit rules d f) v)
  | [], _, h => h
  | i :: rest, v, h => by
      rw [List.foldl_cons]
      exact foldl hsettled hf (h.visit hsettled hf)

/-- Before the first visit the literal has lost all its watchers, and all are still to come. -/
theorem start {g : WatchGraph} (ht : g.Tracks rules.enabled) (hg : g.Guards d settled) :
    Inv rules d f settled (g.watchersOf f)
      { graph := { g with watchers := g.watchers.insert f [] } } where
  pair := ht.pair
  total := ht.total
  emptied := by
    show WatchGraph.watchersOf _ f = []
    rw [watchersOf_insert, if_pos rfl]
    rfl
  mem_watchersOf := by
    intro l i hl
    show i ∈ WatchGraph.watchersOf _ l ↔ _
    rw [watchersOf_insert, if_neg hl.symm]
    exact ht.mem_watchersOf
  nodup := by
    intro l hl
    show (WatchGraph.watchersOf _ l).Nodup
    rw [watchersOf_insert, if_neg hl.symm]
    exact ht.nodup l
  mem_kept_or_rest := by
    intro i
    rw [ht.mem_watchersOf]
    exact or_iff_right (by simp)
  nodup_kept := List.nodup_nil
  nodup_rest := ht.nodup f
  disjoint h := absurd h (by simp)
  guards := hg
  units h := absurd h (by simp)
  violated h := absurd h (by simp)
  kept _ := fun h => absurd h (by simp)

/-- After the last visit the literal gets back the watchers that were kept. -/
theorem tracks (h : Inv rules d f settled [] v) :
    ({ v.graph with watchers := v.graph.watchers.insert f v.kept } : WatchGraph).Tracks
      rules.enabled where
  pair := h.pair
  total := h.total
  mem_watchersOf := by
    intro l i
    rw [watchersOf_insert]
    split
    · rename_i hl
      rw [List.mem_reverse, ← hl]
      exact (or_iff_left (by simp)).symm.trans h.mem_kept_or_rest
    · rename_i hl
      exact h.mem_watchersOf fun he => hl he.symm
  nodup := by
    intro l
    rw [watchersOf_insert]
    split
    · exact List.pairwise_reverse.mpr (h.nodup_kept.imp Ne.symm)
    · rename_i hl
      exact h.nodup fun he => hl he.symm

end Visit.Inv

/--
**What propagating one literal guarantees.**

The graph stays in order. Either a rule is found all of whose literals are false, or every watcher
of the literal that became false has a true partner or is among the units, each of which is forced.
-/
structure Propagates (rules : RuleSet) (d : Decisions) (f : Literal) (settled : Literal → Prop)
    (found : Propagation) (g : WatchGraph) : Prop where
  tracks : g.Tracks rules.enabled
  guards : g.Guards d settled
  violates : ∀ {id : Nat}, found = .violates id → IsViolated rules d id
  forces : ∀ {units : List (Literal × Nat)}, found = .forces units →
    (∀ u ∈ units, ForcesUnit rules d u.1 u.2) ∧
    ∀ {id : Nat} {y : Literal}, g.Watches id f y → d.satisfies y = true ∨ (y, id) ∈ units

theorem propagate_propagates {g : WatchGraph} {l : Literal}
    (ht : g.Tracks rules.enabled) (hg : g.Guards d settled)
    (hsettled : ∀ x, settled x → d.refutes x = true) (hf : d.refutes (-l) = true) :
    Propagates rules d (-l) settled (g.propagate l rules d).1 (g.propagate l rules d).2 := by
  have h := (Visit.Inv.start (f := -l) ht hg).foldl hsettled hf
  unfold WatchGraph.propagate
  dsimp only
  generalize List.foldl (visit rules d (-l)) _ _ = v at h
  rcases hv : v.violated with _ | i
  · refine ⟨h.tracks, h.guards, fun hi => absurd hi (by simp), ?_⟩
    intro units hs
    cases hs
    refine ⟨fun u hu => h.units (List.mem_reverse.mp hu), fun {id y} hw => ?_⟩
    have hk : id ∈ v.kept := (h.mem_kept_or_rest.mpr ⟨y, hw⟩).resolve_right (by simp)
    exact (h.kept hv hk hw).imp_right List.mem_reverse.mpr
  · refine ⟨h.tracks, h.guards, ?_, fun hu => absurd hu (by simp)⟩
    intro id hs
    cases hs
    exact h.violated hv

end WatchGraph

end DepSolver
