import Chassis.Capabilities.Plain
import Chassis.Harness.Active
import Chassis.Harness.Depiction
import Chassis.Harness.Rollback

/-!
# Runs of agents

* `resolveAgent`, `pinRevision`, `startRun`   how a run selects its runtime and its revision;
* `Harness.Attributed`      whatever run starts now executes the runtime of the revision it is pinned
                            to;
* `Harness.Mislabels`       an installation that leaves an active agent another revision's scope;
* `runs_attributed`         **runs are attributed throughout a run of the harness** in which no
                            installation mislabels and each reconcile that succeeds ends with the
                            scopes it was planned from;
* `run_misattributed`       a run whose agent was replaced while a reconcile waited.
-/

set_option linter.unusedSectionVars false

namespace Chassis
open Py Coop

section
variable [Packaging] [Platform]

/-! ## how a run is started -/

namespace AgentRegistry
variable (a : AgentRegistry)

def agentRetired (agent : String) (revisions : List String) : Err :=
  { kind := .Other, message := "agent has been retired; no new run selects it"
    context := [("agent", agent), ("revisions", join ", " (sorted revisions))] }

/-- the runtime that a revision of an agent executes, or the agent itself if it has none -/
def runtimeOf (agent : String) (revision : Option AgentRevision) : Except Err AgentRuntime :=
  a.get ((revision.bind AgentRevision.runtimeRef).getD agent)

def resolveAgent (agent : String) : Except Err (AgentRuntime × Option AgentRevision) :=
  match a.specHistory.get? agent with
  | none => do return (← a.runtimeOf agent none, none)
  | some history =>
    match a.activeSpec agent with
    | none => .error (agentRetired agent history.keys)
    | some revision => do return (← a.runtimeOf agent (some revision), some revision)

/-- `_pin_revision`: the generation wins, if it names another revision that was published -/
def pinRevision (agent : String) (selected : Option AgentRevision) (generation : RuntimeGeneration) :
    Option AgentRevision :=
  selected.map fun selected =>
    match generation.scopes.get? selected.scope with
    | none => selected
    | some resolved =>
      match resolved.metadata.get? agentRevisionMetadataKey with
      | some (.str revision) =>
        if revision = selected.revision then selected
        else (a.published agent revision).getD selected
      | _ => selected

end AgentRegistry

/-- a run: the runtime it executes, and the revision it is attributed to -/
structure AgentRun where
  agent : String
  runtime : AgentRuntime
  pinned : Option AgentRevision

/-- the start of `_run`, when nothing is pending: it does not suspend -/
def Harness.startRun (h : Harness) (agent : String) : Except Err (AgentRun × Harness) := do
  let (runtime, selected) ← h.agents.resolveAgent agent
  let acquired ← h.acquire
  let pinned := (acquired.runs.getLast?.map GenerationLease.generation).bind
    (h.agents.pinRevision agent selected)
  return (⟨agent, runtime, pinned⟩, acquired)

/-- a run that starts now executes the runtime of the revision it is pinned to; while something is
pending, none starts -/
def Harness.Attributed (h : Harness) : Prop :=
  h.hasPendingChanges = false → ∀ agent run h', h.startRun agent = .ok (run, h') →
    h.agents.runtimeOf agent run.pinned = .ok run.runtime

theorem AgentRegistry.resolveAgent_ok {a : AgentRegistry} {agent : String} {runtime : AgentRuntime}
    {selected : Option AgentRevision} (h : a.resolveAgent agent = .ok (runtime, selected)) :
    a.runtimeOf agent selected = .ok runtime ∧ ∀ r ∈ selected, a.activeSpec agent = some r := by
  unfold resolveAgent at h
  split at h
  · obtain ⟨rt, hget, h⟩ := bind_ok.1 h
    cases h
    exact ⟨hget, fun r hr => nomatch hr⟩
  · split at h
    · cases h
    · rename_i r hactive
      obtain ⟨rt, hget, h⟩ := bind_ok.1 h
      cases h
      refine ⟨hget, fun r' hr' => ?_⟩
      cases hr'
      exact hactive

/-- a run is pinned by the current generation -/
theorem Harness.startRun_ok {h h' : Harness} {agent : String} {run : AgentRun}
    (hrun : h.startRun agent = .ok (run, h')) : ∃ selected g,
      h.agents.resolveAgent agent = .ok (run.runtime, selected) ∧ h.generations.current = some g ∧
        run.pinned = h.agents.pinRevision agent selected g := by
  obtain ⟨⟨runtime, selected⟩, hresolve, hrun⟩ := bind_ok.1 hrun
  obtain ⟨acquired, hacq, hrun⟩ := bind_ok.1 hrun
  cases hrun
  obtain ⟨lease, m, hok, rfl⟩ := Harness.acquire_ok hacq
  obtain ⟨g, hg, rfl, -⟩ := GenerationManager.acquireLease_ok hok
  refine ⟨selected, g, hresolve, hg, ?_⟩
  show ((h.runs ++ [_]).getLast?.map GenerationLease.generation).bind _ = _
  rw [List.getLast?_concat]
  rfl

/-! ## the revisions that scopes name -/

/-- the revision that the scope at a path names -/
def Harness.revisionAt (h : Harness) (path : String) : Option String :=
  ((h.composition.get? path).map CompositionScope.metadata).bind revisionOf

/-- the scope of an active revision names no other revision of its agent -/
def Harness.Labelled (h : Harness) : Prop :=
  ∀ name r revision, h.agents.activeSpec name = some r → h.revisionAt r.scope = some revision →
    revision = r.revision ∨ h.agents.published name revision = none

theorem Harness.revisionAt_eq_some {h : Harness} {path revision : String} :
    h.revisionAt path = some revision ↔
      ∃ s, h.composition.get? path = some s ∧ revisionOf s.metadata = some revision := by
  unfold revisionAt
  rw [Option.bind_map, Option.bind_eq_some_iff]
  rfl

/-- **Where the generation depicts the present scopes**, and these are labelled, the revision that a
run is pinned to is the one it selected. -/
theorem Harness.Labelled.attributed {h : Harness} (hl : h.Labelled) (hd : Depicting h) :
    h.Attributed := by
  intro hclean agent run h' hrun
  obtain ⟨selected, g, hresolve, hg, hpin⟩ := startRun_ok hrun
  obtain ⟨hruntime, hactive⟩ := AgentRegistry.resolveAgent_ok hresolve
  suffices hsame : h.agents.pinRevision agent selected g = selected by
    rw [hpin, hsame]
    exact hruntime
  rcases selected with _ | r
  · rfl
  · unfold AgentRegistry.pinRevision
    rw [Option.map_some]
    split
    · rfl
    · rename_i resolved hresolved
      split
      · rename_i revision hrev
        split
        · rfl
        · rename_i hother
          obtain ⟨d, horigin, hdepicts⟩ := hd.depicted g hg
          obtain ⟨s, hs, hpath, hnames⟩ := hdepicts resolved (List.mem_of_find?_eq_some hresolved)
            revision (revisionOf_eq_some.2 hrev)
          have hfound := List.find?_some hresolved
          replace hfound : resolved.path = r.scope := of_decide_eq_true hfound
          have happlied := hd.applied hclean (Option.isSome_iff_exists.2 ⟨g, hg⟩)
          rw [horigin, Option.map_some, Option.some.injEq] at happlied
          rw [happlied] at hs
          have hdecl := hd.orderly.tree.mem_values.1 hs
          rw [hpath, hfound] at hdecl
          rcases hl agent r revision (hactive r rfl)
            (revisionAt_eq_some.2 ⟨s, hdecl, hnames⟩) with heq | hnone
          · exact absurd heq hother
          · rw [hnone]
            rfl
      · rfl

/-! ## what the operations name -/

/-- the digest of a spec can be computed -/
def Harness.digests (h : Harness) (spec : AgentSpec) : Bool :=
  (stableHash (redactConfig h.redactor (compositionPayload spec))).isOk

/-- the installation changes nothing: it is forbidden, or the revision is active already -/
def Harness.Stays (h : Harness) (spec : AgentSpec) (replace : Bool) : Prop :=
  h.Forbids spec replace ∨ ((h.agents.published spec.name spec.revision).isSome ∧
    h.agents.activeRevisions.get? spec.name = some spec.revision)

/-- all of the spec is declared -/
def Harness.Declares (h : Harness) (spec : AgentSpec) : Prop :=
  ∃ staged, h.stageAgent spec (h.precededBy spec) = .ok staged ∧ h.Declarable spec staged

/-- The installation names its revision in the scope of an active revision that it does not replace:
one of another agent, or, as the digest raises, of the same.  The name is one this agent published
before. -/
def Harness.Mislabels (h : Harness) (spec : AgentSpec) (replace : Bool) : Prop :=
  ¬ h.Stays spec replace ∧ h.Declares spec ∧ ∃ name r, h.agents.activeSpec name = some r ∧
    r.scope = spec.scopePath ∧ (name ≠ spec.name ∨ h.digests spec = false) ∧
    spec.revision ≠ r.revision ∧ (h.agents.published name spec.revision).isSome

theorem revisionOf_agentMetadata (spec : AgentSpec) :
    revisionOf (Harness.agentMetadata spec) = some spec.revision :=
  revisionOf_eq_some.2 (Harness.agentMetadata_names spec).2

/-- what is named once a spec was declared: its revision at its path, elsewhere what was before -/
theorem Attempted.revisionAt {h h' : Harness} {spec : AgentSpec} {undo : List Harness.Undo}
    (ha : Attempted spec.scopePath h h' undo)
    (hmeta : ∀ {s}, h'.composition.get? spec.scopePath = some s →
      s.metadata = Harness.agentMetadata spec) {path revision : String}
    (hrev : h'.revisionAt path = some revision) :
    h.revisionAt path = some revision ∨ (path = spec.scopePath ∧ revision = spec.revision) := by
  obtain ⟨s, hs, hnames⟩ := Harness.revisionAt_eq_some.1 hrev
  rcases eq_or_ne path spec.scopePath with rfl | hne
  · rw [hmeta hs, revisionOf_agentMetadata] at hnames
    cases hnames
    exact Or.inr ⟨rfl, rfl⟩
  · rcases ha.added hne hs with hold | ⟨-, -, hempty⟩
    · exact Or.inl (Harness.revisionAt_eq_some.2 ⟨s, hold, hnames⟩)
    · rw [hempty] at hnames
      cases hnames

/-- **What is named after a materialization.** -/
theorem MaterializeOutcome.revisionAt {h : Harness} (ho : h.Orderly) {spec : AgentSpec}
    {previous : Option AgentRevision} {r : Except Err AgentRevision × Harness}
    (hm : MaterializeOutcome h spec previous r) {path revision : String}
    (hrev : r.2.revisionAt path = some revision) : h.revisionAt path = some revision ∨
      (path = spec.scopePath ∧ revision = spec.revision ∧
        (∃ staged, h.stageAgent spec previous = .ok staged ∧ h.Declarable spec staged) ∧
        ∀ e, r.1 = .error e → h.digests spec = false) := by
  have hdropped : ∀ {staged : List Harness.StagedContribution} {h₁ : Harness}
      {undo : List Harness.Undo}, h.stageAgent spec previous = .ok staged →
      h.declareAgent spec staged = (none, h₁, undo) → Attempted spec.scopePath h h₁ undo →
      Declared spec staged h h₁ → (h₁.dropContributions previous
        (sorted (staged.map Harness.StagedContribution.entryId))).revisionAt path = some revision →
      h.revisionAt path = some revision ∨ (path = spec.scopePath ∧ revision = spec.revision ∧
        ∃ staged, h.stageAgent spec previous = .ok staged ∧ h.Declarable spec staged) := by
    intro staged h₁ undo hstage hdeclare ha hd hrev
    have hcomp : (h₁.dropContributions previous
        (sorted (staged.map Harness.StagedContribution.entryId))).composition = h₁.composition := by
      rw [(Harness.dropContributions_reduced ha.orderly.housed previous staged).1.rest]
    unfold Harness.revisionAt at hrev
    rw [hcomp] at hrev
    rcases ha.revisionAt hd.metadata hrev with hold | ⟨hpath, hnew⟩
    · exact Or.inl hold
    · refine Or.inr ⟨hpath, hnew, staged, hstage, ?_⟩
      refine (Harness.declareAgent_none ho (Harness.stageAgent_ok hstage)).1.1 ?_
      rw [hdeclare]
  cases hm with
  | refused => exact Or.inl hrev
  | undone hstage _ ha =>
    refine Or.inl ?_
    have hc := (Harness.stageAgent_ok hstage).canonical
    rcases hget : h.composition.get? spec.scopePath with _ | s
    · rw [hget] at hrev
      obtain ⟨s, hs, hnames⟩ := Harness.revisionAt_eq_some.1 hrev
      rcases (ha.undeclare_absent ho hc hget h.dirty).2.added hs with hold | ⟨-, -, -, hempty⟩
      · exact Harness.revisionAt_eq_some.2 ⟨s, hold, hnames⟩
      · rw [hempty] at hnames
        cases hnames
    · rw [hget] at hrev
      unfold Harness.revisionAt at hrev ⊢
      rw [(ha.undeclare_present ho hget h.dirty).2] at hrev
      exact hrev
  | undigested hstage hdeclare ha hd hdigest =>
    rcases hdropped hstage hdeclare ha hd hrev with hold | ⟨hpath, hnew, hdecl⟩
    · exact Or.inl hold
    · refine Or.inr ⟨hpath, hnew, hdecl, fun _ _ => ?_⟩
      unfold Harness.digests
      rw [hdigest]
      rfl
  | done hstage hdeclare ha hd =>
    rcases hdropped hstage hdeclare ha hd hrev with hold | ⟨hpath, hnew, hdecl⟩
    · exact Or.inl hold
    · exact Or.inr ⟨hpath, hnew, hdecl, fun _ he => (nomatch he)⟩

theorem MaterializeOutcome.names {h h' : Harness} {spec : AgentSpec}
    {previous : Option AgentRevision} {r : AgentRevision}
    (hm : MaterializeOutcome h spec previous (.ok r, h')) {revision : String}
    (hrev : h'.revisionAt spec.scopePath = some revision) : revision = spec.revision := by
  obtain ⟨s, hs, hnames⟩ := Harness.revisionAt_eq_some.1 hrev
  cases hm with
  | @done staged digest h₁ undo _ _ ha hd =>
    rw [(Harness.dropContributions_reduced ha.orderly.housed previous staged).1.rest] at hs
    rw [hd.metadata hs, revisionOf_agentMetadata] at hnames
    exact (Option.some.inj hnames).symm

/-- no materialization changes what is active or published -/
theorem MaterializeOutcome.agents {h : Harness} (ho : h.Orderly) {spec : AgentSpec}
    {previous : Option AgentRevision} {r : Except Err AgentRevision × Harness}
    (hm : MaterializeOutcome h spec previous r) :
    r.2.agents.activeRevisions = h.agents.activeRevisions ∧
      ∀ name revision, r.2.agents.published name revision = h.agents.published name revision := by
  have hdropped : ∀ {staged : List Harness.StagedContribution} {h₁ : Harness}
      {undo : List Harness.Undo}, Attempted spec.scopePath h h₁ undo →
      (h₁.dropContributions previous (sorted
        (staged.map Harness.StagedContribution.entryId))).agents.activeRevisions =
          h.agents.activeRevisions ∧
      ∀ name revision, (h₁.dropContributions previous (sorted
        (staged.map Harness.StagedContribution.entryId))).agents.published name revision =
          h.agents.published name revision := by
    intro staged h₁ undo ha
    rw [(Harness.dropContributions_reduced ha.orderly.housed previous staged).2, ha.agents]
    split
    · exact ⟨rfl, fun _ _ => rfl⟩
    · exact ⟨rfl, fun _ _ => rfl⟩
  cases hm with
  | refused => exact ⟨rfl, fun _ _ => rfl⟩
  | undone hstage _ ha =>
    have hc := (Harness.stageAgent_ok hstage).canonical
    rcases hget : h.composition.get? spec.scopePath with _ | s
    · have hu := (ha.undeclare_absent ho hc hget h.dirty).1
      exact ⟨hu.active, hu.history⟩
    · have hu := (ha.undeclare_present ho hget h.dirty).1
      exact ⟨hu.active, hu.history⟩
  | undigested _ _ ha => exact hdropped ha
  | done _ _ ha => exact hdropped ha

theorem Withdrawn.revisionAt {h h' : Harness} (ho : h.Orderly) {r : AgentRevision}
    (hw : Withdrawn r h h') {path revision : String} (hrev : h'.revisionAt path = some revision) :
    h.revisionAt path = some revision := by
  obtain ⟨s, hs, hnames⟩ := Harness.revisionAt_eq_some.1 hrev
  refine Harness.revisionAt_eq_some.2 ⟨s, ?_, hnames⟩
  cases hw with
  | @scope h₁ _ _ hrem =>
    replace hs : h₁.composition.get? path = some s := hs
    rw [hrem.composition, ho.tree.get?_detach] at hs
    split at hs
    · cases hs
    · exact hs
  | entries =>
    rw [(Harness.uninstallAll_reduced ho.housed _).rest] at hs
    exact hs

theorem Harness.installAgent_stays {h : Harness} {spec : AgentSpec} {replace : Bool}
    (hst : h.Stays spec replace) : (h.installAgent spec replace).2 = h.remembering spec := by
  have hselect : ∀ active, h.agents.activeRevisions.get? spec.name = some active →
      active ≠ spec.revision → replace = false → ((h.remembering spec).selectRevision spec replace
        (h.agents.activeRevisions.get? spec.name)).2 = h.remembering spec := by
    intro active hact hne hreplace
    unfold selectRevision
    rw [if_pos ⟨by rw [hact]; rfl, fun heq => hne (Option.some.inj (hact.symm.trans heq)),
      by rw [hreplace]; rfl⟩]
  unfold installAgent
  show (match (h.remembering spec).agents.published spec.name spec.revision with
      | none => (h.remembering spec).selectRevision spec replace
          ((h.remembering spec).agents.activeRevisions.get? spec.name)
      | some r =>
        if !r.spec.same spec then
          (.error (ConfigurationError
            "a published agent revision is immutable; declare a new revision"
            [("agent", spec.name), ("revision", spec.revision)]), h.remembering spec)
        else if (h.remembering spec).agents.activeRevisions.get? spec.name = some spec.revision then
          (.ok r, h.remembering spec)
        else (h.remembering spec).selectRevision spec replace
          ((h.remembering spec).agents.activeRevisions.get? spec.name)).2 = h.remembering spec
  rw [show (h.remembering spec).agents.activeRevisions = h.agents.activeRevisions from
      AgentRegistry.activeRevisions_remember _ _,
    show (h.remembering spec).agents.published spec.name spec.revision =
      h.agents.published spec.name spec.revision from AgentRegistry.published_remember _ _ _ _]
  rcases hst with (⟨r, hr, hother⟩ | ⟨active, hact, hne, hreplace⟩) | ⟨hpub, hact⟩
  · rw [hr]
    show (if !r.spec.same spec then _ else _ : Except Err AgentRevision × Harness).2 = _
    rw [hother]
    rfl
  · split
    · exact hselect active hact hne hreplace
    · split
      · rfl
      · split
        · rfl
        · exact hselect active hact hne hreplace
  · obtain ⟨r, hr⟩ := Option.isSome_iff_exists.1 hpub
    rw [hr]
    simp only
    split
    · rfl
    · rfl

/-! ## labels -/

theorem Harness.Labelled.mono {h h' : Harness} (hl : h.Labelled)
    (hactive : ∀ name r, h'.agents.activeSpec name = some r → h.agents.activeSpec name = some r)
    (hhistory : ∀ name revision,
      h'.agents.published name revision = h.agents.published name revision)
    (hnames : ∀ name r revision, h.agents.activeSpec name = some r →
      h'.revisionAt r.scope = some revision → h.revisionAt r.scope = some revision ∨
        (revision = r.revision ∨ h.agents.published name revision = none)) : h'.Labelled := by
  intro name r revision hr hrev
  rw [hhistory]
  rcases hnames name r revision (hactive name r hr) hrev with hold | hnew
  · exact hl name r revision (hactive name r hr) hold
  · exact hnew

theorem Harness.Labelled.remembering {h : Harness} (hl : h.Labelled) (spec : AgentSpec) :
    (h.remembering spec).Labelled := by
  have hspec := AgentRegistry.activeSpec_congr
    (AgentRegistry.activeRevisions_remember h.agents spec.name)
    (AgentRegistry.published_remember h.agents spec.name)
  exact hl.mono (fun name r hr => (hspec name).symm.trans hr)
    (AgentRegistry.published_remember _ _) fun _ _ _ _ hrev => Or.inl hrev

/-- **An installation that does not mislabel** leaves the scopes labelled. -/
theorem Harness.Labelled.installAgent {h : Harness} (hl : h.Labelled) (ho : h.Orderly)
    {spec : AgentSpec} {replace : Bool} (hnot : ¬ h.Mislabels spec replace) :
    (h.installAgent spec replace).2.Labelled := by
  by_cases hst : h.Stays spec replace
  · rw [installAgent_stays hst]
    exact hl.remembering spec
  have hother : ∀ name r, h.agents.activeSpec name = some r → r.scope = spec.scopePath →
      h.Declares spec → (name ≠ spec.name ∨ h.digests spec = false) →
      spec.revision = r.revision ∨ h.agents.published name spec.revision = none := by
    intro name r hr hscope hdecl hwhy
    by_contra hcontra
    rw [not_or] at hcontra
    exact hnot ⟨hst, hdecl, name, r, hr, hscope, hwhy, hcontra.1,
      Option.isSome_iff_ne_none.2 hcontra.2⟩
  have hout := installAgent_outcome ho spec replace
  have hor := ho.remembering spec
  have hlr := hl.remembering spec
  have hspec : ∀ name, (h.remembering spec).agents.activeSpec name = h.agents.activeSpec name :=
    AgentRegistry.activeSpec_congr (AgentRegistry.activeRevisions_remember h.agents spec.name)
      (AgentRegistry.published_remember h.agents spec.name)
  generalize h.installAgent spec replace = r at hout ⊢
  cases hout with
  | refused => exact hlr
  | standing => exact hlr
  | @failed e h' _ hm =>
    obtain ⟨hactive, hhistory⟩ := hm.agents hor
    refine hlr.mono (fun name r hr => ?_) hhistory fun name r revision hr hrev => ?_
    · exact (AgentRegistry.activeSpec_congr hactive hhistory name).symm.trans hr
    · rcases hm.revisionAt hor hrev with hold | ⟨hpath, rfl, ⟨staged, hstage, hdecl⟩, hdigest⟩
      · exact Or.inl hold
      · have hdeclares : h.Declares spec :=
          ⟨staged, (h.stageAgent_remembering spec _).symm.trans hstage, hdecl⟩
        rw [show (h.remembering spec).agents.published name spec.revision =
          h.agents.published name spec.revision from AgentRegistry.published_remember _ _ _ _]
        exact Or.inr (hother name r ((hspec name).symm.trans hr) hpath hdeclares
          (Or.inr (hdigest e rfl)))
  | @installed r h₁ h₂ hm hw =>
    obtain ⟨hactive, hhistory⟩ := hm.agents hor
    have ho₁ : h₁.Orderly := hm.orderly hor
    obtain ⟨hspec_eq, hscope_eq⟩ : r.spec = spec ∧ r.scope = spec.scopePath := by
      cases hm with
      | done => exact ⟨rfl, rfl⟩
    have hname : r.name = spec.name := congrArg AgentSpec.name hspec_eq
    have hrevision : r.revision = spec.revision := congrArg AgentSpec.revision hspec_eq
    have hwithdrawn : (h₂.agents.activeRevisions = h₁.agents.activeRevisions ∧
        ∀ name revision, h₂.agents.published name revision = h₁.agents.published name revision) ∧
        ∀ path revision, h₂.revisionAt path = some revision → h₁.revisionAt path = some revision := by
      split at hw
      · subst hw
        exact ⟨⟨rfl, fun _ _ => rfl⟩, fun _ _ hrev => hrev⟩
      · obtain ⟨hhist, hact⟩ := hw.published
        refine ⟨⟨hact, fun name revision => ?_⟩, fun _ _ hrev => hw.revisionAt ho₁ hrev⟩
        unfold AgentRegistry.published
        rw [hhist]
    obtain ⟨⟨hactive₂, hhistory₂⟩, hnames₂⟩ := hwithdrawn
    intro name r' revision hr' hrev
    have hspec' := AgentRegistry.activeSpec_publish h₂.agents r name
    replace hr' : (h₂.agents.publish r).activeSpec name = some r' := hr'
    rw [hspec', hname] at hr'
    have hpub := AgentRegistry.published_publish h₂.agents r name revision
    show revision = r'.revision ∨ (h₂.agents.publish r).published name revision = none
    split at hr'
    · cases hr'
      rw [hscope_eq] at hrev
      exact Or.inl ((hm.names (hnames₂ _ _ hrev)).trans hrevision.symm)
    · rename_i hne
      rw [hpub, if_neg fun hkey => hne (hkey.1.trans hname), hhistory₂, hhistory,
        show (h.remembering spec).agents.published name revision =
          h.agents.published name revision from AgentRegistry.published_remember _ _ _ _]
      have hr : h.agents.activeSpec name = some r' := by
        rw [← hspec, ← AgentRegistry.activeSpec_congr hactive hhistory,
          ← AgentRegistry.activeSpec_congr hactive₂ hhistory₂]
        exact hr'
      rcases hm.revisionAt hor (hnames₂ _ _ hrev) with hold | ⟨hpath, rfl, ⟨staged, hstage, hdecl⟩, -⟩
      · exact hl name r' revision hr hold
      · exact hother name r' hr hpath
          ⟨staged, (h.stageAgent_remembering spec _).symm.trans hstage, hdecl⟩ (Or.inl hne)

theorem Harness.Labelled.removeAgent {h : Harness} (hl : h.Labelled) (ho : h.Orderly)
    (name : String) : (h.removeAgent name).2.Labelled := by
  unfold Harness.removeAgent
  split
  · exact hl
  · rename_i history _
    have hretired : Harness.Orderly { h with agents := h.agents.retire name } :=
      ⟨ho.tree, ho.housed, ho.owned, ho.published⟩
    have hlr : Harness.Labelled { h with agents := h.agents.retire name } := by
      refine hl.mono (fun other r hr => ?_) (fun _ _ => rfl) fun _ _ _ _ hrev => Or.inl hrev
      replace hr : (h.agents.retire name).activeSpec other = some r := hr
      rw [AgentRegistry.activeSpec_retire] at hr
      split at hr
      · cases hr
      · exact hr
    obtain ⟨h', hok, hw, -⟩ := Harness.withdrawOptional_ok hretired
      ((h.agents.activeRevisions.get? name).bind history.get?)
    simp only
    rw [hok]
    split at hw
    · exact hw ▸ hlr
    · obtain ⟨hhist, hact⟩ := hw.published
      have hhistory : ∀ other revision, h'.agents.published other revision =
          (h.agents.retire name).published other revision := by
        intro other revision
        unfold AgentRegistry.published
        rw [hhist]
      refine hlr.mono (fun other r hr => ?_) hhistory fun _ _ _ _ hrev =>
        Or.inl (hw.revisionAt hretired hrev)
      exact (AgentRegistry.activeSpec_congr hact hhistory other).symm.trans hr

/-! ## runs of the harness -/

/-- what an operation leaves alone that is not one on agents: the active and the published
revisions, and what the scopes of active revisions name -/
structure SameLabels (h h' : Harness) : Prop where
  active : ∀ name, h'.agents.activeSpec name = h.agents.activeSpec name
  history : ∀ name revision,
    h'.agents.published name revision = h.agents.published name revision
  names : ∀ name r, h.agents.activeSpec name = some r →
    h'.revisionAt r.scope = h.revisionAt r.scope

/-- an operation on agents that does not mislabel, or one that leaves their labels alone -/
inductive LabellingAct : Harness → Harness → Prop
  /-- `replace` of the source is an installation that replaces -/
  | install (h : Harness) (spec : AgentSpec) (replace : Bool) : ¬ h.Mislabels spec replace →
    LabellingAct h (h.installAgent spec replace).2
  | remove (h : Harness) (name : String) : LabellingAct h (h.removeAgent name).2
  | operation {h h' : Harness} : ControlAct h h' → SameLabels h h' → LabellingAct h h'

theorem LabellingAct.control {h h' : Harness} (ha : LabellingAct h h') : ControlAct h h' := by
  cases ha with
  | install spec replace => exact .installAgent h spec replace
  | remove name => exact .removeAgent h name
  | operation ha => exact ha

theorem Harness.Labelled.act {h h' : Harness} (hl : h.Labelled) (ho : h.Orderly)
    (ha : LabellingAct h h') : h'.Labelled := by
  cases ha with
  | install spec replace hnot => exact hl.installAgent ho hnot
  | remove name => exact hl.removeAgent ho name
  | operation _ hs =>
    refine hl.mono (fun name r hr => (hs.active name).symm.trans hr) hs.history ?_
    intro name r revision hr hrev
    exact Or.inl ((hs.names name r hr).symm.trans hrev)

theorem Pristine.labelled {h : Harness} (hp : Pristine h) : h.Labelled := by
  intro name r revision hr
  rw [hp.agents] at hr
  cases hr

/-- **Runs of agents execute the runtime of the revision they are pinned to**, wherever in a run of
the harness they start, if no installation of it mislabels and each reconcile that succeeds ends with
the scopes it was planned from. -/
theorem runs_attributed {h : Harness} (hp : Pristine h)
    {history : List (Event Job Err × HarnessConfig)} {c : HarnessConfig}
    (hrun : Run LabellingAct Job.program ⟨h, none⟩ history c)
    (hplanned : ∀ c', (.ended .reconcile (.ok ()), c') ∈ history → c'.state.ScopesPlanned) :
    ∀ step ∈ history, step.2.state.Attributed := by
  rintro ⟨ev, c'⟩ hstep
  obtain ⟨before, c'', hbefore, hlast, hsub⟩ := hrun.mem hstep
  have hrun' := hbefore.tail hlast
  have hdepicting : Depicting c'.state := by
    refine depicted_run (fun h h' ha ho => ?_) hp.depicting hrun' fun d hd => hplanned d (hsub hd)
    exact ⟨ho.control ha.control, ha.control.attentive ho⟩
  have hlabelled : c'.state.Orderly ∧ c'.state.Labelled := by
    refine declared_run (I := fun h => h.Orderly ∧ h.Labelled) (fun h h' hi hs => ?_)
      (fun h h' ha hi => ?_) hrun' ⟨hp.orderly, hp.labelled⟩
    · refine ⟨hi.1.of_same hs, hi.2.mono (fun name r hr => ?_) (fun _ _ => ?_) fun name r _ _ hrev => ?_⟩
      · rw [← hs.agents]
        exact hr
      · rw [hs.agents]
      · unfold Harness.revisionAt at hrev ⊢
        rw [hs.composition] at hrev
        exact Or.inl hrev
    · exact ⟨hi.1.control ha.control, hi.2.act hi.1 ha⟩
  exact hlabelled.2.attributed hdepicting

end

section
open scoped Plain

/-- an agent whose revisions execute runtimes of their own -/
def spokenAgent (revision runtime : String) (hrevision : validIdentifier revision = true)
    (hruntime : validIdentifier runtime = true) : AgentSpec :=
  { plainAgent "a" "/a" AgentSpec.valid_a AgentSpec.canonical_a with
    revision := revision
    runtimeRef := some runtime
    revision_valid := hrevision
    runtime_valid := hruntime }

def firstRevision : AgentSpec := spokenAgent "1" "r1" AgentSpec.valid_one (by decide +kernel)

def secondRevision : AgentSpec := spokenAgent "2" "r2" AgentSpec.valid_two (by decide +kernel)

def Harness.withRuntime (name : String) (h : Harness) : Harness :=
  match h.registerRuntime ⟨name, 0⟩ none false with
  | .ok h' => h'
  | .error _ => h

/-- a harness with two runtimes, and an agent that executes the first -/
def spoken : HarnessCourse :=
  (((Course.begin {}).act (Harness.withRuntime "r1")).act (Harness.withRuntime "r2")).act
    fun h => (h.installAgent firstRevision false).2

/-- the agent is replaced between two reconciles -/
def replacedBetween : HarnessCourse :=
  ((((spoken.act (Harness.installed (plainPlugin "p" [] [] []))).start Job.program
    .reconcile).resume honest).act fun h => (h.installAgent secondRevision true).2).start
      Job.program .reconcile

/-- the agent is replaced while the reconcile waits for the `setup` of the plugin -/
def replacedMeanwhile : HarnessCourse :=
  (((spoken.act (Harness.installed (plainPlugin "p" [] [] []))).start Job.program .reconcile).act
    fun h => (h.installAgent secondRevision true).2).resume honest

/-- what a start comes to: the runtime that is executed, the revision that is recorded, and the
runtime of that revision -/
def Harness.startOf (h : Harness) (agent : String) : Option (String × Option String × Option String) :=
  (h.startRun agent).toOption.map fun p => (p.1.runtime.name, p.1.pinned.map AgentRevision.revision,
    ((h.agents.runtimeOf agent p.1.pinned).toOption.map AgentRuntime.name))

theorem Harness.withRuntime_acts (name : String) (h : Harness) : ControlAct h (h.withRuntime name) := by
  unfold Harness.withRuntime
  split
  · rename_i hr
    exact .registerRuntime _ _ _ hr
  · exact .act (.refl h)

theorem Harness.withRuntime_labels (name : String) (h : Harness) :
    SameLabels h (h.withRuntime name) := by
  have hsame : (h.withRuntime name).composition = h.composition ∧
      (h.withRuntime name).agents.activeRevisions = h.agents.activeRevisions ∧
      (h.withRuntime name).agents.specHistory = h.agents.specHistory := by
    unfold Harness.withRuntime
    split
    · rename_i hr
      obtain ⟨agents, hag, hr⟩ := bind_ok.1 hr
      cases hr
      unfold AgentRegistry.register at hag
      split at hag
      · cases hag
      · simp only at hag
        split at hag
        · cases hag
        · cases hag
          exact ⟨rfl, rfl, rfl⟩
    · exact ⟨rfl, rfl, rfl⟩
  obtain ⟨hcomp, hact, hhist⟩ := hsame
  have hpub : ∀ agent revision, (h.withRuntime name).agents.published agent revision =
      h.agents.published agent revision := by
    intro agent revision
    unfold AgentRegistry.published
    rw [hhist]
  refine ⟨AgentRegistry.activeSpec_congr hact hpub, hpub, fun _ r _ => ?_⟩
  unfold Harness.revisionAt
  rw [hcomp]

theorem Harness.installed_labels (plugin : Plugin) (h : Harness) :
    SameLabels h (h.installed plugin) := by
  unfold Harness.installed
  split
  · rename_i hi
    obtain ⟨path, -, hi⟩ := bind_ok.1 hi
    obtain ⟨p, -, hi⟩ := bind_ok.1 hi
    cases hi
    exact ⟨fun _ => rfl, fun _ _ => rfl, fun _ _ _ => rfl⟩
  · exact ⟨fun _ => rfl, fun _ _ => rfl, fun _ _ _ => rfl⟩

theorem Harness.not_mislabels {h : Harness} {spec : AgentSpec} {replace : Bool}
    (halone : ∀ name ∈ h.agents.activeRevisions.keys, name = spec.name)
    (hdigests : h.digests spec = true) : ¬ h.Mislabels spec replace := by
  rintro ⟨-, -, name, r, hr, -, hwhy, -, -⟩
  obtain ⟨revision, hrev, -⟩ := Option.bind_eq_some_iff.1 hr
  rcases hwhy with hne | hfails
  · exact hne (halone name (Dict.mem_keys.2 ⟨revision, hrev⟩))
  · rw [hdigests] at hfails
    cases hfails

theorem spoken_run {acts : Harness → Harness → Prop} (hact : ∀ h h', LabellingAct h h' → acts h h') :
    Run acts Job.program ⟨{}, none⟩ spoken.history spoken.config := by
  unfold spoken
  refine Course.act_run (Course.act_run (Course.act_run .refl ?_) ?_) ?_
  · exact hact _ _ (.operation (Harness.withRuntime_acts _ _) (Harness.withRuntime_labels _ _))
  · exact hact _ _ (.operation (Harness.withRuntime_acts _ _) (Harness.withRuntime_labels _ _))
  · refine hact _ _ (.install _ _ _ (Harness.not_mislabels ?_ (by decide +kernel)))
    decide +kernel

/-- a reconcile that ends well has built the scopes it was planned from -/
def endsPlanned (step : Event Job Err × HarnessConfig) : Bool :=
  match step.1 with
  | .ended .reconcile (.ok _) =>
    decide (step.2.state.work.planned.map Desired.scopes = some step.2.state.composition.scopes)
  | _ => true

theorem runs_attributed_between : (∀ step ∈ replacedBetween.history, step.2.state.Attributed) ∧
    replacedBetween.config.state.startOf "a" = some ("r2", some "2", some "r2") := by
  have hrun : Run LabellingAct Job.program ⟨{}, none⟩ replacedBetween.history
      replacedBetween.config := by
    unfold replacedBetween
    refine Course.start_run (Course.act_run (Course.resume_run (Course.start_run
      (Course.act_run (spoken_run fun _ _ ha => ha) ?_) .reconcile) fun _ => trivial) ?_) .reconcile
    · exact .operation (.act (Harness.installed_acts _ _)) (Harness.installed_labels _ _)
    · refine .install _ _ _ (Harness.not_mislabels ?_ (by decide +kernel))
      decide +kernel
  refine ⟨runs_attributed pristine_new hrun fun c' hin => ?_, by decide +kernel⟩
  have hall : replacedBetween.history.all endsPlanned = true := by decide +kernel
  have hsame := of_decide_eq_true (List.all_eq_true.1 hall _ hin)
  exact hsame

/-- **A run of another revision than it is attributed to**: the agent was replaced while a reconcile
waited for the `setup` of a plugin, so nothing is pending any more, but the current generation is that
of the first revision. -/
theorem run_misattributed : ∃ history c, ControlRun {} history c ∧ c.running.isNone ∧
    c.state.startOf "a" = some ("r2", some "1", some "r1") ∧ ¬ c.state.Attributed := by
  have hrun : Run ControlAct Job.program ⟨{}, none⟩ replacedMeanwhile.history
      replacedMeanwhile.config := by
    unfold replacedMeanwhile
    refine Course.resume_run (Course.act_run (Course.start_run
      (Course.act_run (spoken_run fun _ _ ha => ha.control) ?_) .reconcile) ?_) fun _ => trivial
    · exact .act (Harness.installed_acts _ _)
    · exact .installAgent _ _ _
  have hstart : replacedMeanwhile.config.state.startOf "a" = some ("r2", some "1", some "r1") := by
    decide +kernel
  have hclean : replacedMeanwhile.config.state.hasPendingChanges = false := by decide +kernel
  refine ⟨_, _, ⟨pristine_new, hrun⟩, by decide +kernel, hstart, fun hatt => ?_⟩
  obtain ⟨⟨run, h'⟩, hok, hparts⟩ := ok_of_map _ _ _ hstart
  have hruntime := hatt hclean "a" run h' hok
  simp only [Prod.mk.injEq] at hparts
  rw [hruntime] at hparts
  exact absurd (hparts.1.symm.trans (Option.some.inj hparts.2.2)) (by decide)

end

end Chassis
