import DepSolver.Proofs.Rule.Set
import DepSolver.Proofs.Search.Extension

/-!
# Two watched literals

A rule of two or more literals watches two of them, and is looked at only when one of the two
becomes false. Two facts make that enough.

`WatchGraph.Tracks` ties the two tables of a `WatchGraph` together: every rule that has to be
watched is, its two watched literals are different literals of the rule, and it is registered once
under each of them and nowhere else.

`WatchGraph.Guards` is what propagation is for. A watched literal may stay false only if its partner
is true, and was made true no later: going back to a level at which the false one is still false
then leaves the partner true. That is why watches need no repair when decisions are taken back.
-/

namespace DepSolver

namespace WatchGraph

/-- A rule watches two literals. The order in which they are stored does not matter. -/
def Watches (g : WatchGraph) (id : Nat) (x y : Literal) : Prop :=
  g.watched[id]? = some (x, y) ∨ g.watched[id]? = some (y, x)

theorem Watches.symm {g : WatchGraph} {id : Nat} {x y : Literal} (h : g.Watches id x y) :
    g.Watches id y x := Or.symm h

/-- A rule watches no third literal. -/
theorem Watches.eq_or_eq {g : WatchGraph} {id : Nat} {x y a b : Literal} (h : g.Watches id x y)
    (h' : g.Watches id a b) : (a = x ∧ b = y) ∨ (a = y ∧ b = x) := by
  rcases h with h | h <;> rcases h' with h' | h' <;> rw [h] at h' <;>
    obtain ⟨h₁, h₂⟩ := Prod.mk.inj (Option.some.inj h')
  · exact .inl ⟨h₁.symm, h₂.symm⟩
  · exact .inr ⟨h₂.symm, h₁.symm⟩
  · exact .inr ⟨h₁.symm, h₂.symm⟩
  · exact .inl ⟨h₂.symm, h₁.symm⟩

/-- The partner of a literal is the same whoever asks for it. -/
theorem Watches.partner_eq {g : WatchGraph} {id : Nat} {x y z : Literal} (h : g.Watches id x y)
    (hne : x ≠ y) (hz : g.Watches id x z) : z = y := by
  rcases h.eq_or_eq hz with ⟨-, he⟩ | ⟨he, -⟩
  · exact he
  · exact absurd he hne

/-- **The tables fit together.** -/
structure Tracks (g : WatchGraph) (rules : List Rule) : Prop where
  /-- Only rules are watched, and by two different literals of theirs. -/
  pair : ∀ {id : Nat} {x y : Literal}, g.Watches id x y →
    ∃ r ∈ rules, r.id = id ∧ x ≠ y ∧ x ∈ r.literals ∧ y ∈ r.literals
  /-- Every rule that has two literals is watched. -/
  total : ∀ {r : Rule}, r ∈ rules → 2 ≤ r.literals.length → ∃ x y, g.Watches r.id x y
  /-- A rule is registered under exactly the literals that it watches. -/
  mem_watchersOf : ∀ {l : Literal} {id : Nat}, id ∈ g.watchersOf l ↔ ∃ y, g.Watches id l y
  /-- It is registered there once. -/
  nodup : ∀ l : Literal, (g.watchersOf l).Nodup

/-- A watched literal that is settled as false has a partner that is true, and not for a shorter
time. -/
def Guards (g : WatchGraph) (d : Decisions) (settled : Literal → Prop) : Prop :=
  ∀ ⦃id : Nat⦄ ⦃x y : Literal⦄, g.Watches id x y → settled x →
    d.satisfies y = true ∧ (d.signedLevel y).natAbs ≤ (d.signedLevel x).natAbs

/-! ## Writing the tables -/

theorem watchersOf_insert (g : WatchGraph) (l x : Literal) (ids : List Nat) :
    ({ g with watchers := g.watchers.insert l ids } : WatchGraph).watchersOf x =
      if l = x then ids.reverse else g.watchersOf x := by
  unfold watchersOf
  rw [Std.TreeMap.getD_insert]
  simp only [Std.LawfulEqCmp.compare_eq_iff_eq]
  split <;> rfl

theorem watchersOf_watch (g : WatchGraph) (l x : Literal) (id : Nat) :
    (g.watch l id).watchersOf x =
      if l = x then g.watchersOf x ++ [id] else g.watchersOf x := by
  rw [watch, watchersOf_insert, List.reverse_cons]
  split
  · rename_i h
    rw [h]
    rfl
  · rfl

theorem watches_watch {g : WatchGraph} {l : Literal} {id id' : Nat} {x y : Literal} :
    (g.watch l id).Watches id' x y ↔ g.Watches id' x y := Iff.rfl

/-- The graph in which a rule watches two given literals. -/
def rewatch (g : WatchGraph) (id : Nat) (x y : Literal) : WatchGraph :=
  { g with watched := g.watched.insert id (x, y) }

theorem watchersOf_rewatch (g : WatchGraph) (id : Nat) (x y l : Literal) :
    (g.rewatch id x y).watchersOf l = g.watchersOf l := rfl

theorem watches_rewatch_self {g : WatchGraph} {id : Nat} {x y a b : Literal} :
    (g.rewatch id x y).Watches id a b ↔ (a = x ∧ b = y) ∨ (a = y ∧ b = x) := by
  unfold Watches rewatch
  simp only [Std.TreeMap.getElem?_insert_self, Option.some.injEq, Prod.mk.injEq]
  refine ⟨?_, ?_⟩
  · intro h
    rcases h with ⟨rfl, rfl⟩ | ⟨rfl, rfl⟩
    · exact .inl ⟨rfl, rfl⟩
    · exact .inr ⟨rfl, rfl⟩
  · intro h
    rcases h with ⟨rfl, rfl⟩ | ⟨rfl, rfl⟩
    · exact .inl ⟨rfl, rfl⟩
    · exact .inr ⟨rfl, rfl⟩

theorem watches_rewatch_of_ne {g : WatchGraph} {id id' : Nat} {x y a b : Literal}
    (h : id' ≠ id) : (g.rewatch id x y).Watches id' a b ↔ g.Watches id' a b := by
  unfold Watches rewatch
  simp only [Std.TreeMap.getElem?_insert, Std.LawfulEqCmp.compare_eq_iff_eq, if_neg h.symm]

/-! ## The first watches -/

theorem tracks_empty : empty.Tracks [] where
  pair h := by
    rcases h with h | h <;> simp [empty] at h
  total h := absurd h (by simp)
  mem_watchersOf := by
    intro l id
    simp [Watches, empty, watchersOf]
  nodup l := by simp [empty, watchersOf]

theorem exists_cons_cons {α : Type} : ∀ {ls : List α}, 2 ≤ ls.length →
    ∃ a b rest, ls = a :: b :: rest
  | a :: b :: rest, _ => ⟨a, b, rest, rfl⟩

theorem addRule_of_short {g : WatchGraph} {r : Rule} (h : r.literals.length < 2) :
    g.addRule r = g := by
  unfold WatchGraph.addRule
  split
  · rename_i hr
    rw [hr] at h
    exact absurd h (by simp)
  · rfl

/-- A rule with fewer than two literals watches nothing. -/
theorem Tracks.addRule_of_short {g : WatchGraph} {rules : List Rule} (h : g.Tracks rules) {r : Rule}
    (hlen : r.literals.length < 2) : (g.addRule r).Tracks (rules ++ [r]) := by
  rw [WatchGraph.addRule_of_short hlen]
  refine ⟨fun hw => ?_, fun {t} ht ht2 => ?_, h.mem_watchersOf, h.nodup⟩
  · obtain ⟨t, ht, hrest⟩ := h.pair hw
    exact ⟨t, List.mem_append_left _ ht, hrest⟩
  · rcases List.mem_append.mp ht with ht | ht
    · exact h.total ht ht2
    · rw [List.mem_singleton.mp ht] at ht2
      exact absurd ht2 (Nat.not_le.mpr hlen)

section

variable {g : WatchGraph} {r : Rule} {a b : Literal} {ls : List Literal}

theorem addRule_of_cons (g : WatchGraph) (hr : r.literals = a :: b :: ls) :
    g.addRule r = ((g.rewatch r.id a b).watch a r.id).watch b r.id := by
  rw [WatchGraph.addRule, hr]
  rfl

theorem watches_addRule_self (hr : r.literals = a :: b :: ls) {x y : Literal} :
    (g.addRule r).Watches r.id x y ↔ (x = a ∧ y = b) ∨ (x = b ∧ y = a) := by
  rw [addRule_of_cons g hr, watches_watch, watches_watch, watches_rewatch_self]

theorem watches_addRule_of_ne (hr : r.literals = a :: b :: ls) {id : Nat} {x y : Literal}
    (hid : id ≠ r.id) : (g.addRule r).Watches id x y ↔ g.Watches id x y := by
  rw [addRule_of_cons g hr, watches_watch, watches_watch, watches_rewatch_of_ne hid]

theorem watchersOf_addRule (g : WatchGraph) (hr : r.literals = a :: b :: ls) (hab : a ≠ b)
    (l : Literal) : (g.addRule r).watchersOf l =
      if a = l ∨ b = l then g.watchersOf l ++ [r.id] else g.watchersOf l := by
  rw [addRule_of_cons g hr, watchersOf_watch, watchersOf_watch, watchersOf_rewatch]
  by_cases ha : a = l
  · rw [if_neg (fun he => hab (ha.trans he.symm)), if_pos ha, if_pos (.inl ha)]
  · rw [if_neg ha]
    by_cases hb : b = l
    · rw [if_pos hb, if_pos (.inr hb)]
    · rw [if_neg hb, if_neg (not_or.mpr ⟨ha, hb⟩)]

end

section

variable {g : WatchGraph} {rules : List Rule} {r : Rule} {a b : Literal} {ls : List Literal}

theorem ne_of_literals_eq (hr : r.literals = a :: b :: ls) : a ≠ b := by
  have hn := r.nodup
  rw [hr, List.nodup_cons] at hn
  intro he
  exact hn.1 (he ▸ List.mem_cons_self ..)

/-- A rule that is new watches nothing yet. -/
theorem Tracks.notMem_watchersOf (h : g.Tracks rules) (hnew : ∀ t ∈ rules, t.id ≠ r.id)
    (l : Literal) : r.id ∉ g.watchersOf l := by
  intro hl
  obtain ⟨y, hy⟩ := h.mem_watchersOf.mp hl
  obtain ⟨t, ht, hid, -⟩ := h.pair hy
  exact hnew t ht hid

theorem Tracks.mem_watchersOf_addRule (h : g.Tracks rules) (hnew : ∀ t ∈ rules, t.id ≠ r.id)
    (hr : r.literals = a :: b :: ls) {l : Literal} {id : Nat} :
    id ∈ (g.addRule r).watchersOf l ↔ ∃ y, (g.addRule r).Watches id l y := by
  rw [watchersOf_addRule g hr (ne_of_literals_eq hr)]
  by_cases hid : id = r.id
  · subst hid
    simp only [watches_addRule_self hr]
    by_cases hl : a = l ∨ b = l
    · rw [if_pos hl]
      refine iff_of_true (List.mem_append_right _ (List.mem_singleton_self _)) ?_
      rcases hl with rfl | rfl
      · exact ⟨b, .inl ⟨rfl, rfl⟩⟩
      · exact ⟨a, .inr ⟨rfl, rfl⟩⟩
    · rw [if_neg hl]
      refine iff_of_false (h.notMem_watchersOf hnew l) fun hw => ?_
      obtain ⟨y, ⟨he, -⟩ | ⟨he, -⟩⟩ := hw
      · exact hl (.inl he.symm)
      · exact hl (.inr he.symm)
  · -- nothing changes for the other rules
    simp only [watches_addRule_of_ne hr hid, ← h.mem_watchersOf]
    split
    · rw [List.mem_append, List.mem_singleton]
      exact ⟨fun hm => hm.resolve_right hid, .inl⟩
    · rfl

/-- A rule that is new watches its first two literals. -/
theorem Tracks.addRule_of_cons (h : g.Tracks rules) (hnew : ∀ t ∈ rules, t.id ≠ r.id)
    (hr : r.literals = a :: b :: ls) : (g.addRule r).Tracks (rules ++ [r]) := by
  refine ⟨fun {id x y} hw => ?_, fun {t} ht ht2 => ?_, h.mem_watchersOf_addRule hnew hr,
    fun l => ?_⟩
  · by_cases hid : id = r.id
    · -- the new rule watches literals of its own
      subst hid
      refine ⟨r, List.mem_append_right _ (List.mem_singleton_self r), rfl, ?_⟩
      rw [hr]
      rcases (watches_addRule_self hr).mp hw with ⟨rfl, rfl⟩ | ⟨rfl, rfl⟩
      · exact ⟨ne_of_literals_eq hr, by simp, by simp⟩
      · exact ⟨(ne_of_literals_eq hr).symm, by simp, by simp⟩
    · obtain ⟨t, ht, hrest⟩ := h.pair ((watches_addRule_of_ne hr hid).mp hw)
      exact ⟨t, List.mem_append_left _ ht, hrest⟩
  · rcases List.mem_append.mp ht with ht | ht
    · obtain ⟨x, y, hw⟩ := h.total ht ht2
      exact ⟨x, y, (watches_addRule_of_ne hr (hnew t ht)).mpr hw⟩
    · rw [List.mem_singleton.mp ht]
      exact ⟨a, b, (watches_addRule_self hr).mpr (.inl ⟨rfl, rfl⟩)⟩
  · rw [watchersOf_addRule g hr (ne_of_literals_eq hr)]
    split
    · rw [List.nodup_append]
      refine ⟨h.nodup l, by simp, fun id hid id' hid' he => ?_⟩
      rw [List.mem_singleton.mp hid'] at he
      exact h.notMem_watchersOf hnew l (he ▸ hid)
    · exact h.nodup l

end

theorem Tracks.addRule {g : WatchGraph} {rules : List Rule} (h : g.Tracks rules) {r : Rule}
    (hnew : ∀ t ∈ rules, t.id ≠ r.id) : (g.addRule r).Tracks (rules ++ [r]) := by
  by_cases hlen : r.literals.length < 2
  · exact h.addRule_of_short hlen
  · obtain ⟨a, b, ls, hr⟩ := exists_cons_cons (Nat.not_lt.mp hlen)
    exact h.addRule_of_cons hnew hr

theorem tracks_foldl_addRule : ∀ {rules known : List Rule} {g : WatchGraph}, g.Tracks known →
    ((known ++ rules).map (·.id)).Nodup →
      (rules.foldl WatchGraph.addRule g).Tracks (known ++ rules)
  | [], known, g, h, _ => by
      rw [List.append_nil]
      exact h
  | r :: rules, known, g, h, hid => by
      rw [List.append_cons] at hid ⊢
      refine tracks_foldl_addRule (h.addRule ?_) hid
      intro t ht he
      rw [List.map_append, List.map_append, List.nodup_append, List.nodup_append] at hid
      exact hid.1.2.2 _ (List.mem_map_of_mem ht) _ (by simp) he

/-- The first watches of the rules in force. -/
theorem tracks_ofRules (rules : RuleSet) : (ofRules rules).Tracks rules.enabled := by
  rw [← List.nil_append rules.enabled]
  refine tracks_foldl_addRule tracks_empty ?_
  rw [List.nil_append]
  exact rules.nodup_enabledIds

end WatchGraph

end DepSolver
