import DepSolver.Proofs.Goal.Refusal
import DepSolver.Proofs.Selector.Translation
import DepSolver.Proofs.Universe.Lookup

/-!
# Requests by a glob, after other requests

A glob over names stands for every name of a visible package that fits it. Put to use in a request,
it passes over the names that the job has as targets already, so that to repeat a request adds
nothing to it. What the names are targets of is not looked at. A request is therefore passed over as
well for the names that requests of other kinds are about, and is accepted nonetheless.
-/

namespace DepSolver

/-! ## Targets that are names -/

theorem JobTarget.beq_ofName {t : JobTarget} {name : String} :
    (t == .ofName name) = true ↔ t = .ofName name := by
  cases t with
  | name r arch =>
      show (r == .ofName name && arch == none) = true ↔ _
      rw [Bool.and_eq_true, beq_iff_eq, beq_iff_eq, ofName, JobTarget.name.injEq]
  | package _ | oneOf _ | provides _ _ | repo _ | all =>
      exact iff_of_false Bool.false_ne_true (by simp [ofName])

theorem JobTarget.ofName_inj {name other : String} (h : ofName name = ofName other) :
    name = other := by
  rw [ofName, ofName, JobTarget.name.injEq, Relation.ofName, Relation.ofName, Relation.mk.injEq] at h
  exact h.1.1

theorem Job.hasTarget_ofName {job : Job} {name : String} :
    job.hasTarget (.ofName name) = true ↔ ∃ e ∈ job, e.target = .ofName name := by
  unfold Job.hasTarget
  rw [List.any_eq_true]
  simp only [JobTarget.beq_ofName]

namespace Universe

variable {u : Universe}

/-- The names are those of the visible packages. -/
theorem mem_names {name : String} : name ∈ u.names ↔
    ∃ id p, u.isConsidered id = true ∧ u.package? id = some p ∧ p.name = name := by
  have hseen := Index.seen_byName u.toCatalog
  rw [← u.index_get] at hseen
  unfold names
  rw [hseen.order, List.mem_eraseDups, List.mem_map]
  refine ⟨?_, ?_⟩
  · intro h
    obtain ⟨⟨id, p⟩, hvisible, hname⟩ := h
    obtain ⟨hc, hp⟩ := mem_visible_iff.mp hvisible
    exact ⟨id, p, hc, hp, hname⟩
  · intro h
    obtain ⟨id, p, hc, hp, hname⟩ := h
    exact ⟨(id, p), mem_visible_iff.mpr ⟨hc, hp⟩, hname⟩

/-- The names that fit a glob and are not yet a target of a job. -/
def freshNames (u : Universe) (job : Job) (pattern : String) : List String :=
  u.names.filter fun name => Comparison.glob.holds pattern name && !job.hasTarget (.ofName name)

theorem mem_freshNames {job : Job} {pattern : String} {id : PackageId} {p : Package}
    (hc : u.isConsidered id = true) (hp : u.package? id = some p)
    (hfits : Comparison.glob.holds pattern p.name = true) :
    p.name ∈ u.freshNames job pattern ↔ ∀ e ∈ job, e.target ≠ .ofName p.name := by
  have hname : p.name ∈ u.names := mem_names.mpr ⟨id, p, hc, hp, rfl⟩
  unfold freshNames
  rw [List.mem_filter, and_iff_right hname, hfits, Bool.true_and, Bool.not_eq_true',
    ← Bool.not_eq_true, Job.hasTarget_ofName]
  simp only [not_exists, not_and, ne_eq]

end Universe

/-! ## What a request adds -/

namespace Selector

variable {u : Universe} {job : Job} {f : Filter} {after : List Selection}

/-- A selector with a name and nothing that narrows it comes to what its name does. -/
theorem selectName_of_selections
    (h : ({ name := some f } : Selector).selections u job = .ok after) :
    selectName u job f = .ok after := by
  rcases selections_eq_ok.mp h with ⟨-, required, inArch, inVersion, hselect, harch, hevr, hrepo⟩ |
    ⟨hnone, -⟩
  · obtain rfl := Except.ok.inj harch
    obtain rfl := Except.ok.inj hevr
    obtain rfl := Except.ok.inj hrepo
    exact hselect
  · exact absurd hnone.symm Bool.false_ne_true

/-- A glob selects the names that fit it and are not yet a target. -/
theorem selectName_glob (hglob : f.cmp.kind = .glob) (h : selectName u job f = .ok after) :
    ∃ pattern, f.values = [pattern] ∧
      after = (u.freshNames job pattern).map fun name => { target := .ofName name } := by
  obtain ⟨pattern, hvalue, h⟩ := bind_eq_ok.mp h
  refine ⟨pattern, value_eq_ok.mp hvalue, ?_⟩
  have hexact : f.cmp ≠ .exact := by
    intro hcmp
    rw [hcmp] at hglob
    exact absurd hglob (by decide)
  rw [if_neg hexact] at h
  split at h
  · rw [← Except.ok.inj h, List.filter_map, List.map_map, List.filter_filter]
    unfold Universe.freshNames
    simp only [Function.comp_def, Bool.and_comm]
  · exact absurd h throw_ne_ok

end Selector

namespace SelectorRequest

/-- What the entries of a request ask for. -/
def action : SelectorRequest → JobAction
  | install _ => .install
  | erase _ => .erase
  | upgrade => .update
  | distUpgrade => .distUpgrade

/-- The modifiers of the entries of a request. -/
def flags : SelectorRequest → JobFlags
  | install isOptional => Goal.weakFlag isOptional
  | erase flags => Goal.cleanFlag flags
  | upgrade | distUpgrade => .empty

/-- The entry of a request for a name. -/
def entry (r : SelectorRequest) (name : String) : JobEntry :=
  { action := r.action, target := .ofName name, flags := r.flags }

/-- Whether some entry of a job is what a request asks for a name. -/
def IsServed (r : SelectorRequest) (job : Job) (name : String) : Prop :=
  ∃ e ∈ job, e.action = r.action ∧ e.target = .ofName name

theorem stage_eq (r : SelectorRequest) (g : Goal) (s : Selector) :
    r.stage g s = (g.note r.actions).stageSelector s r.action r.flags := by
  cases r <;> rfl

/-- What an accepted request by a glob adds. -/
theorem staged_of_glob {r : SelectorRequest} {g : Goal} {f : Filter} (hglob : f.cmp.kind = .glob)
    (h : (r.stage g { name := some f }).1 = .ok ()) :
    ∃ pattern, f.values = [pattern] ∧ (r.stage g { name := some f }).2.staged =
      g.staged ++ (g.world.freshNames g.staged pattern).map r.entry := by
  rw [stage_eq] at h ⊢
  unfold Goal.stageSelector at h ⊢
  cases hentries : ({ name := some f } : Selector).entries (g.note r.actions).world r.action r.flags
    (g.note r.actions).staged with
  | error e =>
      rw [hentries] at h
      exact absurd h (by simp)
  | ok entries =>
      obtain ⟨selections, hselections, hmap⟩ := bind_eq_ok.mp hentries
      obtain ⟨pattern, hpattern, rfl⟩ :=
        Selector.selectName_glob hglob (Selector.selectName_of_selections hselections)
      refine ⟨pattern, hpattern, ?_⟩
      have hnone : ∀ flags : JobFlags, ({} : JobFlags) ||| flags = flags := fun flags =>
        congrArg JobFlags.mk UInt32.zero_or
      show g.staged ++ entries = _
      rw [← Except.ok.inj hmap, List.map_map]
      refine congrArg _ (List.map_congr_left fun name _ => ?_)
      show JobEntry.mk r.action (.ofName name) (({} : JobFlags) ||| r.flags) = r.entry name
      rw [hnone]
      rfl

end SelectorRequest

/--
**A request by a glob serves the names that are no target yet, and no other.**

An accepted request adds one entry of its kind for each name that fits its glob, in the order of the
names, but for those that some entry has as its target already, be it of the same kind or not. A
name of a visible package that fits the glob has thus an entry of the kind afterwards exactly if it
had one before or no entry was about the name at all: the request is lost on the names that only
other kinds of requests are about.
-/
theorem glob_request_served (g : Goal) (r : SelectorRequest) (f : Filter)
    (hglob : f.cmp.kind = .glob) (haccepted : (r.stage g { name := some f }).1 = .ok ()) :
    ∃ pattern, f.values = [pattern] ∧
      (r.stage g { name := some f }).2.staged =
        g.staged ++ (g.world.freshNames g.staged pattern).map r.entry ∧
      ∀ id p, g.world.isConsidered id = true → g.world.package? id = some p →
        Comparison.glob.holds pattern p.name = true →
          (r.IsServed (r.stage g { name := some f }).2.staged p.name ↔
            r.IsServed g.staged p.name ∨ ∀ e ∈ g.staged, e.target ≠ .ofName p.name) := by
  obtain ⟨pattern, hpattern, hstaged⟩ := SelectorRequest.staged_of_glob hglob haccepted
  refine ⟨pattern, hpattern, hstaged, fun id p hc hp hfits => ?_⟩
  rw [hstaged, ← Universe.mem_freshNames hc hp hfits]
  unfold SelectorRequest.IsServed
  refine ⟨?_, ?_⟩
  · intro h
    obtain ⟨e, he, haction, htarget⟩ := h
    rcases List.mem_append.mp he with hold | hnew
    · exact .inl ⟨e, hold, haction, htarget⟩
    · obtain ⟨name, hname, rfl⟩ := List.mem_map.mp hnew
      obtain rfl := JobTarget.ofName_inj htarget
      exact .inr hname
  · intro h
    rcases h with ⟨e, hold, haction, htarget⟩ | hfresh
    · exact ⟨e, List.mem_append_left _ hold, haction, htarget⟩
    · exact ⟨r.entry p.name, List.mem_append_right _ (List.mem_map_of_mem hfresh), rfl, rfl⟩

/-- A tool that is installed and that is to be erased. -/
def unwantedTool : Goal where
  world :=
    .ofCatalog
      { packages :=
          #[{ name := "tool", evr := { epoch := 0, version := "1", release := some "1" }
              arch := "x86_64" }]
        repos := #[{ name := systemRepoName, priority := defaultPriority, installed := true }] }
  staged := [{ action := .erase, target := .ofName "tool" }]

/-- Whatever has a name that begins with "to". -/
def fromTo : Filter := { key := .name, cmp := .glob, values := ["to*"] }

/-- The tool, which is to be erased, is asked for in vain. -/
theorem glob_request_served_unwantedTool :
    ((SelectorRequest.install false).stage unwantedTool { name := some fromTo }).1 = .ok () ∧
    Comparison.glob.holds "to*" "tool" = true ∧
    ((SelectorRequest.install false).stage unwantedTool { name := some fromTo }).2.staged =
      unwantedTool.staged ∧
    ¬(SelectorRequest.install false).IsServed
      ((SelectorRequest.install false).stage unwantedTool { name := some fromTo }).2.staged
        "tool" := by
  have haccepted : ((SelectorRequest.install false).stage unwantedTool { name := some fromTo }).1 =
      .ok () := by decide +kernel
  obtain ⟨pattern, hpattern, hstaged, hserved⟩ :=
    glob_request_served unwantedTool (.install false) fromTo rfl haccepted
  obtain rfl : "to*" = pattern := List.singleton_inj.mp hpattern
  have hfresh : unwantedTool.world.freshNames unwantedTool.staged "to*" = [] := by decide +kernel
  have hconsidered : unwantedTool.world.isConsidered 1 = true := by decide +kernel
  have hfits : Comparison.glob.holds "to*" "tool" = true := by decide +kernel
  refine ⟨haccepted, hfits, ?_, ?_⟩
  · rw [hstaged, hfresh, List.map_nil, List.append_nil]
  · intro h
    rcases (hserved 1 _ hconsidered rfl hfits).mp h with ⟨e, he, haction, -⟩ | hnone
    · rw [List.mem_singleton.mp he] at haction
      exact absurd haction (by decide)
    · exact hnone _ (List.mem_singleton_self _) rfl

end DepSolver
