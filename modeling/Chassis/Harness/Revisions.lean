import Chassis.Harness.Materialize

/-!
# Revisions of agents

* `MaterializeOutcome`   the ways a materialization ends;
* `Withdrawn`            how a revision is withdrawn, which never raises;
* `InstallOutcome`       the ways an installation ends;
* `Harness.Orderly.control`, `ControlRun.orderly`   **every operation keeps order**, and every
                         configuration of a run is in order.
-/

set_option linter.unusedSectionVars false

namespace Chassis
open Py Coop

section
variable [Packaging] [Platform]

/-! ## materialization as a whole -/

theorem Harness.uninstallAll_agents (h : Harness) (l : List String) :
    (h.uninstallAll l).agents = h.agents := by
  unfold uninstallAll
  induction l generalizing h with
  | nil => rfl
  | cons e l ih => exact ih (h.uninstall e).2

/-- what is dropped: entries of the previous revision that the new one does not have -/
def droppedBy (previous : Option AgentRevision) (staged : List Harness.StagedContribution)
    (id : String) : Prop :=
  id ∈ (previous.map AgentRevision.entries).getD [] ∧
    id ∉ staged.map Harness.StagedContribution.entryId

theorem Harness.dropContributions_reduced {h : Harness} {t : CompositionTree}
    (hh : Housed t h.plugins.entries) (previous : Option AgentRevision)
    (staged : List Harness.StagedContribution) :
    Reduced (fun e => ¬ droppedBy previous staged e.entryId) h (h.dropContributions previous
      (sorted (staged.map Harness.StagedContribution.entryId))) ∧
      (h.dropContributions previous
        (sorted (staged.map Harness.StagedContribution.entryId))).agents = h.agents := by
  refine ⟨(uninstallAll_reduced hh _).congr fun _ => not_congr ?_, uninstallAll_agents _ _⟩
  rw [List.mem_filter, decide_eq_true_iff]
  unfold droppedBy sorted
  rw [mem_sortedBy]

/-- the ways a materialization ends -/
inductive MaterializeOutcome (h : Harness) (spec : AgentSpec) (previous : Option AgentRevision) :
    Except Err AgentRevision × Harness → Prop
  /-- refused before anything changed -/
  | refused {e : Err} : h.stageAgent spec previous = .error e →
    MaterializeOutcome h spec previous (.error e, h)
  /-- a declaration raised, and what there was of it was undone -/
  | undone {staged : List Harness.StagedContribution} {e : Err} {h₁ : Harness}
    {undo : List Harness.Undo} : h.stageAgent spec previous = .ok staged →
    h.declareAgent spec staged = (some e, h₁, undo) → Attempted spec.scopePath h h₁ undo →
    MaterializeOutcome h spec previous (.error e, h₁.undeclareAgent spec.scopePath
      (h.composition.get? spec.scopePath) h.dirty undo)
  /-- everything was declared, but its digest cannot be computed; nothing is undone -/
  | undigested {staged : List Harness.StagedContribution} {e : Err} {h₁ : Harness}
    {undo : List Harness.Undo} : h.stageAgent spec previous = .ok staged →
    h.declareAgent spec staged = (none, h₁, undo) → Attempted spec.scopePath h h₁ undo →
    Declared spec staged h h₁ →
    stableHash (redactConfig h.redactor (compositionPayload spec)) = .error e →
    MaterializeOutcome h spec previous (.error e, h₁.dropContributions previous
      (sorted (staged.map Harness.StagedContribution.entryId)))
  | done {staged : List Harness.StagedContribution} {digest : String} {h₁ : Harness}
    {undo : List Harness.Undo} : h.stageAgent spec previous = .ok staged →
    h.declareAgent spec staged = (none, h₁, undo) → Attempted spec.scopePath h h₁ undo →
    Declared spec staged h h₁ → MaterializeOutcome h spec previous (.ok ⟨spec, spec.scopePath,
        sorted (staged.map Harness.StagedContribution.entryId), digest⟩,
      h₁.dropContributions previous (sorted (staged.map Harness.StagedContribution.entryId)))

theorem Harness.materialize_outcome {h : Harness} (ho : h.Orderly) (spec : AgentSpec)
    (previous : Option AgentRevision) :
    MaterializeOutcome h spec previous (h.materialize spec previous) := by
  unfold materialize
  rcases hstage : h.stageAgent spec previous with e | staged
  · exact .refused hstage
  · obtain ⟨e, h₁, undo, hdeclare, hatt, hall⟩ := declareAgent_effect ho (stageAgent_ok hstage)
    simp only
    rw [hdeclare]
    rcases e with _ | e
    · have hredactor : (h₁.dropContributions previous
          (sorted (staged.map Harness.StagedContribution.entryId))).redactor = h.redactor := by
        rw [(dropContributions_reduced hatt.orderly.housed previous staged).1.rest, hatt.rest]
      simp only
      rw [hredactor]
      split
      · rename_i hdigest
        exact .undigested hstage hdeclare hatt (hall rfl) hdigest
      · exact .done hstage hdeclare hatt (hall rfl)
    · exact .undone hstage hdeclare hatt

theorem Harness.Orderly.undeclared {h h₁ : Harness} (ho : h.Orderly) {spec : AgentSpec}
    {undo : List Harness.Undo} (ha : Attempted spec.scopePath h h₁ undo)
    (hc : canonicalScopePath spec.scopePath = .ok spec.scopePath) (pending : Bool) :
    (h₁.undeclareAgent spec.scopePath (h.composition.get? spec.scopePath) pending undo).Orderly := by
  rcases hget : h.composition.get? spec.scopePath with _ | s
  · exact (ha.undeclare_absent ho hc hget pending).1.orderly
  · exact (ha.undeclare_present ho hget pending).1.orderly

theorem Harness.Orderly.materialize {h : Harness} (ho : h.Orderly) (spec : AgentSpec)
    (previous : Option AgentRevision) : (h.materialize spec previous).2.Orderly := by
  have hout := Harness.materialize_outcome ho spec previous
  generalize h.materialize spec previous = r at hout ⊢
  cases hout with
  | refused => exact ho
  | undone hstage _ ha => exact ho.undeclared ha (Harness.stageAgent_ok hstage).canonical h.dirty
  | undigested _ _ ha => exact ha.orderly.uninstallAll _
  | done _ _ ha => exact ha.orderly.uninstallAll _

/-! ## revisions -/

/-- how a revision was withdrawn: with its scope, if the agents own it, else entry by entry -/
inductive Withdrawn (r : AgentRevision) (h : Harness) : Harness → Prop
  | scope {h' : Harness} : r.scope ∈ h.agents.ownedScopePaths →
    (h.composition.get? r.scope).isSome → Removed r.scope h h' →
    Withdrawn r h { h' with agents := h'.agents.disown r.scope }
  | entries : ¬ (r.scope ∈ h.agents.ownedScopePaths ∧ (h.composition.get? r.scope).isSome) →
    Withdrawn r h (h.uninstallAll r.entries)

/-- **A withdrawal does not raise.** -/
theorem Harness.withdrawRevision_ok {h : Harness} (ho : h.Orderly) (r : AgentRevision) :
    ∃ h', h.withdrawRevision r = (.ok (), h') ∧ Withdrawn r h h' := by
  unfold withdrawRevision
  split
  · rename_i hown
    obtain ⟨hne, hc⟩ := ho.owned _ hown.1
    obtain ⟨entries, h', hok, hrem⟩ := Harness.removeScope_ok ho.tree ho.housed hne hc hown.2
    rw [hok]
    exact ⟨_, rfl, .scope hown.1 hown.2 hrem⟩
  · rename_i hown
    exact ⟨_, rfl, .entries hown⟩

theorem Harness.Orderly.withdrawn {h h' : Harness} (ho : h.Orderly) {r : AgentRevision}
    (hw : Withdrawn r h h') : h'.Orderly := by
  cases hw with
  | scope hown _ hrem =>
    obtain ⟨hne, hc⟩ := ho.owned _ hown
    exact (ho.removed hne hc hrem).disown r.scope
  | entries => exact ho.uninstallAll _

theorem Withdrawn.published {h h' : Harness} {r : AgentRevision} (hw : Withdrawn r h h') :
    h'.agents.specHistory = h.agents.specHistory ∧
      h'.agents.activeRevisions = h.agents.activeRevisions := by
  cases hw with
  | scope _ _ hrem =>
    have hhistory := congrArg (fun a : AgentRegistry => a.specHistory) hrem.agents
    have hactive := congrArg (fun a : AgentRegistry => a.activeRevisions) hrem.agents
    exact ⟨hhistory, hactive⟩
  | entries =>
    rw [Harness.uninstallAll_agents]
    exact ⟨rfl, rfl⟩

theorem Harness.withdrawOptional_ok {h : Harness} (ho : h.Orderly) (r : Option AgentRevision) :
    ∃ h', h.withdrawOptional r = (.ok (), h') ∧ (match r with
      | none => h' = h
      | some r => Withdrawn r h h') ∧ h'.Orderly := by
  rcases r with _ | r
  · exact ⟨h, rfl, rfl, ho⟩
  · obtain ⟨h', hok, hw⟩ := Harness.withdrawRevision_ok ho r
    exact ⟨h', hok, hw, ho.withdrawn hw⟩

/-! ## installations -/

/-- the active revision of the agent, if it is another one -/
def Harness.candidateOf (h : Harness) (spec : AgentSpec) : Option AgentRevision :=
  ((h.agents.activeRevisions.get? spec.name).filter (· ≠ spec.revision)).bind
    (h.agents.published spec.name)

def Harness.precededBy (h : Harness) (spec : AgentSpec) : Option AgentRevision :=
  (h.candidateOf spec).filter fun r => r.scope = spec.scopePath

def Harness.supersededBy (h : Harness) (spec : AgentSpec) : Option AgentRevision :=
  (h.candidateOf spec).filter fun r => r.scope ≠ spec.scopePath

/-- the history of the agent exists from the first attempt on -/
def Harness.remembering (h : Harness) (spec : AgentSpec) : Harness :=
  { h with agents := h.agents.remember spec.name }

/-- the revision is published with another content, or another revision is active and is not to be
replaced -/
def Harness.Forbids (h : Harness) (spec : AgentSpec) (replace : Bool) : Prop :=
  (∃ r, h.agents.published spec.name spec.revision = some r ∧ r.spec.same spec = false) ∨
    ∃ active, h.agents.activeRevisions.get? spec.name = some active ∧ active ≠ spec.revision ∧
      replace = false

/-- the ways an installation ends -/
inductive InstallOutcome (h : Harness) (spec : AgentSpec) (replace : Bool) :
    Except Err AgentRevision × Harness → Prop
  | refused {e : Err} : h.Forbids spec replace →
    InstallOutcome h spec replace (.error e, h.remembering spec)
  /-- the revision is active already -/
  | standing {r : AgentRevision} : h.agents.published spec.name spec.revision = some r →
    h.agents.activeRevisions.get? spec.name = some spec.revision →
    InstallOutcome h spec replace (.ok r, h.remembering spec)
  | failed {e : Err} {h' : Harness} : ¬ h.Forbids spec replace →
    MaterializeOutcome (h.remembering spec) spec (h.precededBy spec) (.error e, h') →
    InstallOutcome h spec replace (.error e, h')
  | installed {r : AgentRevision} {h₁ h₂ : Harness} :
    MaterializeOutcome (h.remembering spec) spec (h.precededBy spec) (.ok r, h₁) →
    (match h.supersededBy spec with
      | none => h₂ = h₁
      | some old => Withdrawn old h₁ h₂) →
    InstallOutcome h spec replace (.ok r, { h₂ with agents := h₂.agents.publish r })

theorem AgentRegistry.published_remember (a : AgentRegistry) (known name revision : String) :
    (a.remember known).published name revision = a.published name revision := by
  unfold remember
  split
  · rfl
  · rename_i hnew
    unfold published
    show (((a.specHistory.set known Dict.empty).get? name).getD Dict.empty).get? revision = _
    rw [Dict.get?_set]
    split
    · rename_i hname
      subst hname
      rw [Option.not_isSome_iff_eq_none.1 hnew]
      rfl
    · rfl

theorem AgentRegistry.activeRevisions_remember (a : AgentRegistry) (known : String) :
    (a.remember known).activeRevisions = a.activeRevisions := by
  unfold remember
  split <;> rfl

theorem AgentRegistry.ownedScopePaths_remember (a : AgentRegistry) (known : String) :
    (a.remember known).ownedScopePaths = a.ownedScopePaths := by
  unfold remember
  split <;> rfl

theorem Harness.Orderly.remembering {h : Harness} (ho : h.Orderly) (spec : AgentSpec) :
    (h.remembering spec).Orderly where
  tree := ho.tree
  housed := ho.housed
  owned := by
    show ∀ path ∈ (h.agents.remember spec.name).ownedScopePaths, _
    rw [AgentRegistry.ownedScopePaths_remember]
    exact ho.owned
  published := by
    intro name revision r hr
    exact ho.published ((AgentRegistry.published_remember _ _ _ _).symm.trans hr)

theorem Harness.selectRevision_outcome {h : Harness} (ho : h.Orderly) {spec : AgentSpec}
    (hsame : ∀ r, h.agents.published spec.name spec.revision = some r → r.spec.same spec = true)
    (replace : Bool) : InstallOutcome h spec replace ((h.remembering spec).selectRevision spec
      replace (h.agents.activeRevisions.get? spec.name)) := by
  have hcandidate : ((h.agents.activeRevisions.get? spec.name).filter (· ≠ spec.revision)).bind
      ((h.remembering spec).agents.published spec.name) = h.candidateOf spec :=
    congrArg (Option.bind _) (funext fun revision => AgentRegistry.published_remember _ _ _ revision)
  unfold selectRevision
  split
  · rename_i hforbid
    obtain ⟨active, hactive⟩ := Option.isSome_iff_exists.1 hforbid.1
    refine .refused (Or.inr ⟨active, hactive, ?_, by simpa using hforbid.2.2⟩)
    rintro rfl
    exact hforbid.2.1 hactive
  · rename_i hallow
    have hallow' : ¬ h.Forbids spec replace := by
      rintro (⟨r, hr, hother⟩ | ⟨active, hactive, hne, hreplace⟩)
      · rw [hsame r hr] at hother
        cases hother
      · rw [hactive, hreplace] at hallow
        exact hallow ⟨rfl, fun h => hne (Option.some.inj h), rfl⟩
    simp only
    rw [hcandidate]
    have hout := materialize_outcome (ho.remembering spec) spec (h.precededBy spec)
    have hor := (ho.remembering spec).materialize spec (h.precededBy spec)
    rw [show ((h.candidateOf spec).filter fun r => decide (r.scope = spec.scopePath)) =
        h.precededBy spec from rfl,
      show ((h.candidateOf spec).filter fun r => decide (r.scope ≠ spec.scopePath)) =
        h.supersededBy spec from rfl]
    rcases hmat : (h.remembering spec).materialize spec (h.precededBy spec) with ⟨e | r, h₁⟩
    · rw [hmat] at hout
      exact .failed hallow' hout
    · rw [hmat] at hout hor
      obtain ⟨h₂, hok, hw, -⟩ := withdrawOptional_ok hor (h.supersededBy spec)
      simp only
      rw [hok]
      exact .installed hout hw

theorem Harness.installAgent_outcome {h : Harness} (ho : h.Orderly) (spec : AgentSpec)
    (replace : Bool) : InstallOutcome h spec replace (h.installAgent spec replace) := by
  have hactive : (h.remembering spec).agents.activeRevisions = h.agents.activeRevisions :=
    AgentRegistry.activeRevisions_remember _ _
  unfold installAgent
  show InstallOutcome h spec replace
    (match (h.remembering spec).agents.published spec.name spec.revision with
      | none => (h.remembering spec).selectRevision spec replace
          ((h.remembering spec).agents.activeRevisions.get? spec.name)
      | some r =>
        if !r.spec.same spec then
          (.error (ConfigurationError
            "a published agent revision is immutable; declare a new revision"
            [("agent", spec.name), ("revision", spec.revision)]), h.remembering spec)
        else if (h.remembering spec).agents.activeRevisions.get? spec.name = some spec.revision then
          (.ok r, h.remembering spec)
        else (h.remembering spec).selectRevision spec replace
          ((h.remembering spec).agents.activeRevisions.get? spec.name))
  rw [hactive, show (h.remembering spec).agents.published spec.name spec.revision =
    h.agents.published spec.name spec.revision from AgentRegistry.published_remember _ _ _ _]
  split
  · rename_i hnone
    refine selectRevision_outcome ho (fun r hr => ?_) replace
    rw [hnone] at hr
    cases hr
  · rename_i r hr
    split
    · rename_i hother
      exact .refused (Or.inl ⟨r, hr, by simpa using hother⟩)
    · rename_i hequal
      split
      · rename_i hcurrent
        exact .standing hr hcurrent
      · refine selectRevision_outcome ho (fun r' hr' => ?_) replace
        rw [hr] at hr'
        cases hr'
        simpa using hequal

/-! ## order -/

theorem AgentRegistry.published_publish (a : AgentRegistry) (r : AgentRevision)
    (name revision : String) : (a.publish r).published name revision =
      if name = r.name ∧ revision = r.revision then some r else a.published name revision := by
  unfold published publish
  simp only
  rw [Dict.get?_set]
  by_cases hname : name = r.name
  · subst hname
    rw [if_pos rfl, Option.getD_some, Dict.get?_set]
    by_cases hrev : revision = r.revision
    · rw [if_pos hrev, if_pos ⟨rfl, hrev⟩]
    · rw [if_neg hrev, if_neg fun h => hrev h.2]
  · rw [if_neg hname, if_neg fun h => hname h.1]

theorem Harness.Orderly.publish {h : Harness} (ho : h.Orderly) {r : AgentRevision}
    (hscope : r.scope = r.spec.scopePath) :
    Harness.Orderly { h with agents := h.agents.publish r } where
  tree := ho.tree
  housed := ho.housed
  owned := ho.owned
  published := by
    intro name revision r' hr'
    have hget := AgentRegistry.published_publish h.agents r name revision
    rw [show ({ h with agents := h.agents.publish r } : Harness).agents.published name revision =
      some r' from hr'] at hget
    split at hget
    · rename_i hkey
      cases hget
      exact ⟨hkey.1.symm, hkey.2.symm, hscope⟩
    · exact ho.published hget.symm

theorem MaterializeOutcome.orderly {h : Harness} (ho : h.Orderly) {spec : AgentSpec}
    {previous : Option AgentRevision} {r : Except Err AgentRevision × Harness}
    (hm : MaterializeOutcome h spec previous r) : r.2.Orderly := by
  cases hm with
  | refused => exact ho
  | undone hstage _ ha => exact ho.undeclared ha (Harness.stageAgent_ok hstage).canonical h.dirty
  | undigested _ _ ha => exact ha.orderly.uninstallAll _
  | done _ _ ha => exact ha.orderly.uninstallAll _

theorem Harness.Orderly.installAgent {h : Harness} (ho : h.Orderly) (spec : AgentSpec)
    (replace : Bool) : (h.installAgent spec replace).2.Orderly := by
  have hout := Harness.installAgent_outcome ho spec replace
  have hor := ho.remembering spec
  generalize h.installAgent spec replace = r at hout ⊢
  cases hout with
  | refused => exact hor
  | standing => exact hor
  | failed _ hm => exact hm.orderly hor
  | @installed r h₁ h₂ hm hw =>
    have ho₂ : h₂.Orderly := by
      have ho₁ : h₁.Orderly := hm.orderly hor
      split at hw
      · exact hw ▸ ho₁
      · exact ho₁.withdrawn hw
    refine ho₂.publish ?_
    cases hm with
    | done => rfl

theorem Harness.Orderly.removeAgent {h : Harness} (ho : h.Orderly) (name : String) :
    (h.removeAgent name).2.Orderly := by
  unfold Harness.removeAgent
  split
  · exact ho
  · rename_i history _
    have hretired : Harness.Orderly { h with agents := h.agents.retire name } :=
      ⟨ho.tree, ho.housed, ho.owned, ho.published⟩
    obtain ⟨h', hok, -, ho'⟩ := Harness.withdrawOptional_ok hretired
      ((h.agents.activeRevisions.get? name).bind history.get?)
    simp only
    rw [hok]
    exact ho'

/-- **Every operation keeps order**, whether it succeeds or raises. -/
theorem Harness.Orderly.control {h h' : Harness} (ho : h.Orderly) (ha : ControlAct h h') :
    h'.Orderly := by
  cases ha with
  | act ha => exact ho.acts ha
  | installFrom source entryId config replace scope hi => exact ho.installFrom hi
  | registerPluginType name construct => exact ho.of_entries rfl rfl fun _ => rfl
  | applyConfig c => exact ho.applyConfig c
  | applyPending => exact ho.applyPending
  | registerRuntime runtime scopeId replace hr =>
    obtain ⟨agents, hagents, hr⟩ := bind_ok.1 hr
    cases hr
    have hsame : agents.ownedScopePaths = h.agents.ownedScopePaths ∧
        agents.specHistory = h.agents.specHistory := by
      unfold AgentRegistry.register at hagents
      split at hagents
      · cases hagents
      · simp only at hagents
        split at hagents
        · cases hagents
        · cases hagents
          exact ⟨rfl, rfl⟩
    refine ⟨ho.tree, ho.housed, ?_, ?_⟩
    · show ∀ path ∈ agents.ownedScopePaths, _
      rw [hsame.1]
      exact ho.owned
    · intro name revision r hr
      refine ho.published ?_
      unfold AgentRegistry.published at hr ⊢
      rw [← hsame.2]
      exact hr
  | releaseRuntime registrationId =>
    have hsame : (h.agents.release registrationId).ownedScopePaths = h.agents.ownedScopePaths ∧
        (h.agents.release registrationId).specHistory = h.agents.specHistory := by
      unfold AgentRegistry.release
      split <;> exact ⟨rfl, rfl⟩
    refine ⟨ho.tree, ho.housed, ?_, ?_⟩
    · show ∀ path ∈ (h.agents.release registrationId).ownedScopePaths, _
      rw [hsame.1]
      exact ho.owned
    · intro name revision r hr
      refine ho.published ?_
      unfold AgentRegistry.published at hr ⊢
      rw [← hsame.2]
      exact hr
  | installAgent spec replace => exact ho.installAgent spec replace
  | removeAgent name => exact ho.removeAgent name

theorem Pristine.orderly {h : Harness} (hp : Pristine h) : h.Orderly where
  tree := by
    rw [hp.composition]
    exact CompositionTree.branching_new
  housed := by
    intro id e he
    rw [hp.plugins] at he
    cases he
  owned := by
    rw [hp.agents]
    exact fun path hpath => nomatch hpath
  published := by
    intro name revision r hr
    rw [hp.agents] at hr
    cases hr

/-- **Every configuration of a run is in order**, also while a reconcile waits. -/
theorem ControlRun.orderly {h : Harness} {history : List (Event Job Err × HarnessConfig)}
    {c : HarnessConfig} (hrun : ControlRun h history c) : c.state.Orderly :=
  hrun.holds (fun _ _ ho hs => ho.of_same hs) (fun _ _ ha ho => ho.control ha) hrun.1.orderly

end
end Chassis
