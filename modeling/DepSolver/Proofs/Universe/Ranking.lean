import DepSolver.Preference
import DepSolver.Proofs.Order.Sort
import DepSolver.Proofs.Universe.Index
import DepSolver.Proofs.Version.Tokens

/-!
# How packages rank

Packages are compared by priority, then by version, then by number. Versions alone decide whether
that is an order: where one without a release stands beside two that differ in theirs, it compares
equal to both. `OrdersVersions` says that nothing of the kind is found in a universe. Then whatever
candidates come up can be put in order of preference.

The best of some packages are told by first picking one of them, which nothing in the group ranks
before, and then keeping those that rank like it. Numbers decide which one is picked, but not what
is kept: a package is kept exactly if none of the group is better by priority and version. This
takes that versions are ordered, so it is said of packages whose versions have a release.
-/

namespace DepSolver

namespace Universe

variable {u : Universe} {P : PackageId → Prop}

/-! ## Where versions are ordered -/

/-- Whether the version of a package has a release. -/
def HasRelease (u : Universe) (id : PackageId) : Prop :=
  ∃ p, u.package? id = some p ∧ p.evr.release.isSome = true

instance (u : Universe) (id : PackageId) : Decidable (u.HasRelease id) :=
  decidable_of_iff ((u.package? id).any fun p => p.evr.release.isSome) (Option.any_eq_true ..)

theorem compareNewest_swap (u : Universe) (a b : PackageId) :
    u.compareNewest a b = (u.compareNewest b a).swap := by
  have hswap := fun p q : Package => @Std.OrientedCmp.eq_swap _ Evr.compare _ p.evr q.evr
  unfold compareNewest
  cases u.package? a with
  | none => cases u.package? b <;> rfl
  | some p =>
    cases u.package? b with
    | none => rfl
    | some q => exact hswap q p

/-- Versions that have a release are ordered. -/
theorem ordersOn_compareNewest (u : Universe) : OrdersOn u.compareNewest u.HasRelease where
  eq_swap := u.compareNewest_swap _ _
  isLE_trans {a b c} hab hbc := by
    obtain ⟨a, p, hp, hpr⟩ := a
    obtain ⟨b, q, hq, hqr⟩ := b
    obtain ⟨c, r, hr, hrr⟩ := c
    unfold compareNewest at hab hbc ⊢
    dsimp only at hab hbc ⊢
    rw [hp, hq] at hab
    rw [hq, hr] at hbc
    rw [hp, hr]
    -- the newest comes first, so versions are compared the other way round
    have htrans := @Std.TransCmp.isLE_trans _ Evr.Released.compare _ ⟨r.evr, hrr⟩ ⟨q.evr, hqr⟩
      ⟨p.evr, hpr⟩
    exact htrans hbc hab

/-- **Whether versions order the packages of a universe.** -/
def OrdersVersions (u : Universe) : Prop := OrdersOn u.compareNewest (· ∈ u.ids)

theorem ordersVersions_of_hasRelease (h : ∀ id ∈ u.ids, u.HasRelease id) : u.OrdersVersions :=
  u.ordersOn_compareNewest.mono h

/-! ## The order of preference -/

/-- The order by repository priority and version, numbers left aside. -/
def compareWorth (u : Universe) (a b : PackageId) : Ordering :=
  (compare (u.priority a) (u.priority b)).then (u.compareNewest a b)

/-- Numbers can always be compared by what is known of each. -/
theorem ordersOn_compareOn {β : Type} [Ord β] [Std.TransOrd β] (f : PackageId → β) :
    OrdersOn (fun a b => compare (f a) (f b)) P :=
  show OrdersOn (compareOn f) P from ordersOn_of_transCmp P

theorem ordersOn_yesFirst (f : PackageId → Bool) : OrdersOn (fun a b => yesFirst (f a) (f b)) P :=
  (ordersOn_compareOn fun id => !f id).congr fun a b _ _ => by
    cases f a <;> cases f b <;> rfl

theorem ordersOn_compareWorth (h : OrdersOn u.compareNewest P) : OrdersOn u.compareWorth P :=
  (ordersOn_compareOn u.priority).thenBy h

theorem ordersOn_compareRank (h : OrdersOn u.compareNewest P) : OrdersOn u.compareRank P :=
  (ordersOn_compareWorth h).thenBy (ordersOn_compareOn id)

theorem ordersOn_comparePreferred (h : OrdersOn u.compareNewest P) (arch : Option String) :
    OrdersOn (u.comparePreferred arch) P := by
  refine ((ordersOn_yesFirst u.isInstalled).thenBy ?_).thenBy (ordersOn_compareRank h)
  cases arch with
  | none => exact ordersOn_compareOn fun _ => ()
  | some arch => exact ordersOn_yesFirst (u.suitsArch arch)

/-- **Packages whose versions are ordered can be put in order of preference.** -/
theorem OrdersVersions.ranks (h : u.OrdersVersions) {candidates : List PackageId}
    (hmem : ∀ id ∈ candidates, id ∈ u.ids) (preference : Preference) (source : Option PackageId) :
    u.ranks preference source candidates = true := by
  unfold Universe.ranks
  cases preference with
  | keep => rfl
  | best => exact sorts_of_ordersOn (ordersOn_comparePreferred h none) hmem
  | dependency => exact sorts_of_ordersOn (ordersOn_comparePreferred h _) hmem

/-! ## The top rank -/

/-- Packages are worth the same if they agree in priority and version. -/
theorem compareWorth_eq {a b : PackageId} {p q : Package} (hp : u.package? a = some p)
    (hq : u.package? b = some q) :
    u.compareWorth a b = .eq ↔ u.priority a = u.priority b ∧ p.evr.compare q.evr = .eq := by
  have hnewest : u.compareNewest a b = q.evr.compare p.evr := by
    unfold compareNewest
    rw [hp, hq]
  unfold compareWorth
  rw [Ordering.then_eq_eq, Std.LawfulEqCmp.compare_eq_iff_eq, hnewest, Std.OrientedCmp.eq_comm]

variable {group : List PackageId} {id : PackageId}

/-- **The members of the top rank are those that none of the group is better than.** -/
theorem mem_topRank (hgroup : ∀ c ∈ group, u.HasRelease c) : id ∈ u.topRank group ↔
    id ∈ group ∧ ∀ c ∈ group, (u.compareWorth id c).isLE = true := by
  unfold topRank
  cases hleast : leastBy? u.compareRank group with
  | none =>
      have hnil : group = [] := by
        cases group with
        | nil => rfl
        | cons c group => exact absurd hleast (by simp [leastBy?])
      rw [hnil]
      simp
  | some top =>
      have horders := ordersOn_compareWorth u.ordersOn_compareNewest
      obtain ⟨htop, hrank⟩ :=
        least_of_leastBy? (ordersOn_compareRank u.ordersOn_compareNewest) hgroup hleast
      have hworth : ∀ c ∈ group, (u.compareWorth top c).isLE = true := fun c hc =>
        (Ordering.isLE_then_iff_and.mp (hrank c hc)).1
      obtain ⟨q, hq, -⟩ := hgroup top htop
      rw [List.mem_filter]
      refine and_congr_right fun hid => ?_
      obtain ⟨p, hp, -⟩ := hgroup id hid
      have hsame : (u.priority id == u.priority top && (u.package? id).any fun p =>
          (u.package? top).any fun q => p.evr.compare q.evr == .eq) = true ↔
            u.compareWorth id top = .eq := by
        rw [compareWorth_eq hp hq, hp, hq, Bool.and_eq_true, beq_iff_eq, Option.any_some,
          Option.any_some, beq_iff_eq]
      rw [hsame]
      refine ⟨fun heq c hc => ?_, fun hle => ?_⟩
      · -- what is worth as much as the top is no worse than anything
        have hidtop : (u.compareWorth id top).isLE = true := by
          rw [heq]
          rfl
        exact horders.isLE_trans (hgroup id hid) (hgroup top htop) (hgroup c hc) hidtop
          (hworth c hc)
      · exact horders.isLE_antisymm (hgroup id hid) (hgroup top htop) (hle top htop)
          (hworth id hid)

end Universe

end DepSolver
