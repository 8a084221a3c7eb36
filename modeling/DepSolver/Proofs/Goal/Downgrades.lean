import DepSolver.Goal.Report
import DepSolver.Proofs.Goal.Limit
import DepSolver.Proofs.Solution.Needs
import DepSolver.Proofs.Universe.Ranking

/-!
# What a run downgrades

A run that is not permitted to downgrade gives an installed package a rule that keeps it or puts
something no older in its place. The transaction does not look at rules. Of all that comes in it
takes the newest package of the right name to be the replacement, whatever brought it in; so the
listing can show a downgrade although no rule stepped back.

If it does, the rule of the installed package was met in another way than by its replacement. Either
what obsoletes it came in, which need not be of its name; or a newer version came in that is kept
side by side with others, and so replaces nothing. Or the run was limited. Then what is to be erased
has no rule, and nor has what is not protected, so that the version which something else calls for
comes in instead.
-/

namespace DepSolver

/-! ## What is listed as a downgrade -/

namespace Transaction

variable {u : Universe} {kept multiversion : PackageSet} {id : PackageId}

end Transaction

/-! ## What the rule of the old version allowed -/

namespace Goal

variable {g : Goal} {flags : GoalActions} {e : JobEntry} {id new old : PackageId} {p : Package}

/-- **A run that is asked for upgrades only**, which nothing permits to downgrade or to remove. -/
structure OnlyUpgrades (g : Goal) (flags : GoalActions) : Prop where
  staged : ∀ e ∈ g.staged, e.action = .update ∨ e.action = .userInstalled
  /-- Neither the switches of the run nor what came before it permits downgrades. -/
  downgrade : (g.actions ||| (flags ||| g.defaultActions)).contains .allowDowngrade = false
  uninstall : (flags ||| g.defaultActions).contains .allowUninstall = false
  released : ∀ id ∈ g.world.ids, g.world.HasRelease id

/-- The job that a run solves last. -/
def lastJob (g : Goal) (flags : GoalActions) : Job :=
  if ((g.ready flags).limiting (g.runFlags flags) (g.runJob flags)).isEmpty then g.runJob flags
  else (g.ready flags).limitedJob (g.runFlags flags) (g.runJob flags)

/-- An entry of the last job is one of the run, or there because the run is limited. -/
theorem mem_lastJob (he : e ∈ g.lastJob flags) : e ∈ g.runJob flags ∨
    (e ∈ (g.ready flags).limiting (g.runFlags flags) (g.runJob flags) ∨
      e ∈ (g.ready flags).uninstallEntries) ∧
        (g.ready flags).limiting (g.runFlags flags) (g.runJob flags) ≠ [] := by
  unfold lastJob limitedJob at he
  split at he
  · exact .inl he
  · rename_i hlimited
    rw [List.isEmpty_iff] at hlimited
    rw [List.mem_append, List.mem_append, or_assoc] at he
    exact he.imp_right fun he => ⟨he, hlimited⟩

/-- Limiting adds entries of three actions only. -/
theorem mem_runJob_of_mem_lastJob (he : e ∈ g.lastJob flags)
    (hother : e.action ∉ [JobAction.install, .erase, .allowUninstall]) : e ∈ g.runJob flags := by
  obtain ⟨hlimiting, huninstall⟩ :=
    action_ne_of_mem (g.ready flags) (g.runFlags flags) (g.runJob flags) hother
  refine (mem_lastJob he).resolve_right fun hadded => ?_
  rcases hadded.1 with he | he
  · exact hlimiting e he rfl
  · exact huninstall e he rfl

/-- The entries of a run that is asked for upgrades only. -/
theorem OnlyUpgrades.mem_runJob (h : g.OnlyUpgrades flags) (he : e ∈ g.runJob flags) :
    (e.action = .update ∨ e.action = .userInstalled ∨ e.action = .verify) ∨
      e.action = .multiversion ∧
        ∃ name ∈ g.world.installonly, e.target = .ofProvide (.ofName name) := by
  unfold runJob effectiveJob at he
  rw [h.uninstall, staged_ready, world_ready] at he
  simp only [List.mem_append] at he
  rcases he with ((he | he) | he) | he
  · obtain ⟨staged, hstaged, rfl⟩ := List.mem_map.mp he
    exact .inl ((h.staged staged hstaged).imp_right .inl)
  · obtain ⟨name, hname, rfl⟩ := List.mem_map.mp he
    exact .inr ⟨rfl, name, hname, rfl⟩
  · exact absurd he List.not_mem_nil
  · split at he
    · obtain rfl := List.mem_singleton.mp he
      exact .inl (.inr (.inr rfl))
    · exact absurd he List.not_mem_nil

/-- The entries of its last job of some other action are there because it is limited. -/
theorem OnlyUpgrades.mem_lastJob (h : g.OnlyUpgrades flags) (he : e ∈ g.lastJob flags)
    (hother : e.action ∉ [JobAction.update, .userInstalled, .verify, .multiversion]) :
    (e ∈ (g.ready flags).limiting (g.runFlags flags) (g.runJob flags) ∨
      e ∈ (g.ready flags).uninstallEntries) ∧
        (g.ready flags).limiting (g.runFlags flags) (g.runJob flags) ≠ [] := by
  refine (Goal.mem_lastJob he).resolve_left fun he => hother ?_
  rcases h.mem_runJob he with (hact | hact | hact) | ⟨hact, -⟩ <;> simp [hact]

theorem OnlyUpgrades.cleandeps (h : g.OnlyUpgrades flags) :
    ∀ e ∈ g.lastJob flags, e.action = .erase → e.flags.contains .cleandeps = false := by
  intro e he hact
  rcases (h.mem_lastJob he (by simp [hact])).1 with he | he
  · rw [flags_of_mem_limiting he]
    decide
  · obtain ⟨x, -, rfl⟩ := mem_uninstallEntries.mp he
    exact JobAction.noConfusion hact

/-- What is kept in several versions provides an install-only name. -/
theorem OnlyUpgrades.providesInstallonly (h : g.OnlyUpgrades flags)
    (hmulti : (JobContext.ofJob g.world (g.lastJob flags)).multiversion.contains id = true) :
    g.world.providesInstallonly id = true := by
  obtain ⟨e, he, hact, hid⟩ := multiversion_iff.mp hmulti
  have he := mem_runJob_of_mem_lastJob he (by simp [hact])
  rcases h.mem_runJob he with (hact' | hact' | hact') | ⟨-, name, hname, htarget⟩
  · exact absurd (hact.symm.trans hact') (by decide)
  · exact absurd (hact.symm.trans hact') (by decide)
  · exact absurd (hact.symm.trans hact') (by decide)
  · rw [htarget] at hid
    have hprovides := (List.mem_filter.mp hid).1
    exact List.any_eq_true.mpr ⟨name, hname, List.contains_iff_mem.mpr hprovides⟩

/-- A requirement of a version of a package. -/
def exactly (name version : String) : Relation :=
  (Relation.ofName name).constrained .equal { epoch := 0, version, release := none }

/-- A requirement of version 1 of a package. -/
def firstVersion (name : String) : Relation := exactly name "1"

/-- A new version of a tool, which wants the first version of a library. -/
def newTool : Package := { plainPackage "tool" "2" 1 with requires := [firstVersion "lib"] }

/-- A goal that upgrades a tool whose new version wants an older library than the installed one. -/
def outdatedTool : Goal where
  world :=
    .ofCatalog <| .ofSystem
      [plainPackage "tool" "1" 0, plainPackage "lib" "2" 0]
      [newTool, plainPackage "lib" "1" 1]
  staged := [{ action := .update, target := .all }]

end Goal

end DepSolver
