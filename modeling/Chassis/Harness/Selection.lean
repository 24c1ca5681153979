import Chassis.Harness.Runs

/-!
# What new runs select

* `Selecting h h'`       of the agents only the scopes they own have changed, so that every run
                         selects what it would have selected;
* `materialize_selecting`   so it is after a materialization, and what undoes one;
* `selection_kept_iff`   **an installation that raises leaves every selection as it was** iff the
                         agent was installed before, or that was tried.
-/

set_option linter.unusedSectionVars false

namespace Chassis
open Py Coop

section
variable [Packaging] [Platform]

/-- of the agents only the scopes they own may have changed -/
def Selecting (h h' : Harness) : Prop :=
  h'.agents = { h.agents with ownedScopePaths := h'.agents.ownedScopePaths }

namespace Selecting
variable {h h' h'' : Harness}

theorem of_agents (hagents : h'.agents = h.agents) : Selecting h h' := by
  unfold Selecting
  rw [hagents]

theorem refl (h : Harness) : Selecting h h := of_agents rfl

theorem trans (a : Selecting h h') (b : Selecting h' h'') : Selecting h h'' := by
  unfold Selecting at *
  rw [b, a]

theorem resolveAgent (a : Selecting h h') (agent : String) :
    h'.agents.resolveAgent agent = h.agents.resolveAgent agent := by
  unfold Selecting at a
  rw [a]
  rfl

end Selecting

namespace Harness
variable {h h' : Harness}

/-! ## scopes -/

theorem addScope_agents {parent name : String} {capabilities tools : Option (List String)}
    {metadata : Dict String Value} (hok : h.addScope parent name capabilities tools metadata = .ok h') :
    h'.agents = h.agents := by
  obtain ⟨tree, -, hok⟩ := bind_ok.1 hok
  cases hok
  rfl

theorem ensureScope_agents (h : Harness) (l : List String) : (ensureScope h l).2.agents = h.agents := by
  induction l with
  | nil => rfl
  | cons name above ih =>
    rw [ensureScope]
    split
    · rfl
    · rcases hens : ensureScope h above with ⟨e | ⟨⟩, h₁⟩
      · rw [hens] at ih
        exact ih
      · rw [hens] at ih
        simp only
        split
        · exact ih
        · rename_i hadd
          exact (addScope_agents hadd).trans ih

theorem provideScope_selecting (h : Harness) (path : String) :
    Selecting h (h.provideScope path).2 := by
  have hens := h.ensureScope_agents (segments path)
  unfold provideScope
  split
  · exact .refl h
  · split
    · rename_i heq
      rw [heq] at hens
      exact .of_agents hens
    · rename_i h₁ heq
      rw [heq] at hens
      have ha : Selecting h h₁ := .of_agents hens
      exact ha.trans rfl

theorem reshaped_agents {path : String} (hr : Reshaped path h h') : h'.agents = h.agents := by
  rw [hr.rest]

theorem uninstallScopes_agents (scopes : List CompositionScope) (s : List String × Harness) :
    (scopes.foldl (fun s scope =>
      (s.2.plugins.entriesForScope scope.path).foldl (fun s e =>
        let (removed, h) := s.2.uninstall e
        (if removed then s.1 ++ [e] else s.1, h)) s) s).2.agents = s.2.agents := by
  have hentries : ∀ (l : List String) (s : List String × Harness), (l.foldl (fun s e =>
      let (removed, h) := s.2.uninstall e
      (if removed then s.1 ++ [e] else s.1, h)) s).2.agents = s.2.agents := by
    intro l
    induction l with
    | nil => exact fun _ => rfl
    | cons e l ih => exact fun s => ih _
  induction scopes generalizing s with
  | nil => rfl
  | cons scope scopes ih => exact (ih _).trans (hentries _ s)

theorem removeScope_agents {path : String} {entries : List String}
    (hok : h.removeScope path = .ok (entries, h')) : h'.agents = h.agents := by
  unfold removeScope at hok
  split at hok
  · cases hok
  · obtain ⟨path, -, hok⟩ := bind_ok.1 hok
    split at hok
    · cases hok
      rfl
    · cases hok
      exact uninstallScopes_agents _ ([], h)

theorem retractScope_selecting (h : Harness) (path : String) : Selecting h (h.retractScope path) := by
  unfold retractScope
  simp only
  split
  · split
    · rename_i hok
      exact (Selecting.of_agents (removeScope_agents hok)).trans rfl
    · rfl
  · rfl

/-! ## contributions -/

theorem installContributions_agents {path : String} (staged : List StagedContribution) (h : Harness)
    (undo : List Undo) : (installContributions path staged h undo).2.1.agents = h.agents := by
  induction staged generalizing h undo with
  | nil => rfl
  | cons s rest ih =>
    rw [installContributions]
    split
    · exact ih h undo
    · split
      · rfl
      · rename_i hi
        obtain ⟨_, _, _, -, -, -, -, hrest⟩ := Harness.installFrom_ok hi
        refine (ih _ _).trans ?_
        rw [hrest]

theorem restoreEntries_agents (undo : List Undo) (h : Harness) :
    (undo.foldl restoreEntry h).agents = h.agents := by
  induction undo generalizing h with
  | nil => rfl
  | cons u undo ih => exact ih (h.restoreEntry u)

/-! ## materialization -/

theorem declareAgent_selecting (h : Harness) (spec : AgentSpec) (staged : List StagedContribution) :
    Selecting h (h.declareAgent spec staged).2.1 := by
  have hprovided := h.provideScope_selecting spec.scopePath
  unfold declareAgent
  split
  · rename_i heq
    rw [heq] at hprovided
    exact hprovided
  · rename_i h₁ heq
    rw [heq] at hprovided
    have hdeclared := (h₁.declareScope_reshaped spec).1
    split
    · rename_i h₂ heq'
      rw [heq'] at hdeclared
      exact hprovided.trans (.of_agents (reshaped_agents hdeclared))
    · rename_i h₂ heq'
      rw [heq'] at hdeclared
      refine hprovided.trans ((Selecting.of_agents (reshaped_agents hdeclared)).trans ?_)
      exact .of_agents (installContributions_agents staged h₂ [])

theorem undeclareAgent_selecting (h : Harness) (path : String) (state : Option CompositionScope)
    (pending : Bool) (undo : List Undo) : Selecting h (h.undeclareAgent path state pending undo) := by
  have hrestored : Selecting h { undo.foldl restoreEntry h with dirty := pending } :=
    .of_agents (restoreEntries_agents undo h)
  rcases state with _ | s
  · exact hrestored.trans (retractScope_selecting _ path)
  · exact hrestored.trans (.of_agents (reshaped_agents (restoreScope_reshaped _ path s).1))

/-- **A materialization is no selection**, whether it succeeds or not. -/
theorem materialize_selecting (h : Harness) (spec : AgentSpec) (previous : Option AgentRevision) :
    Selecting h (h.materialize spec previous).2 := by
  unfold materialize
  split
  · exact .refl h
  · rename_i staged _
    have hdeclared := h.declareAgent_selecting spec staged
    split
    · rename_i heq
      rw [heq] at hdeclared
      exact hdeclared.trans (undeclareAgent_selecting _ _ _ _ _)
    · rename_i h₁ undo heq
      rw [heq] at hdeclared
      have hdropped : Selecting h (h₁.dropContributions previous
          (sorted (staged.map StagedContribution.entryId))) :=
        hdeclared.trans (.of_agents (uninstallAll_agents h₁ _))
      simp only
      split
      · exact hdropped
      · exact hdropped

theorem withdrawRevision_raises {r : AgentRevision} {e : Err}
    (hfail : h.withdrawRevision r = (.error e, h')) : h' = h := by
  unfold withdrawRevision at hfail
  split at hfail
  · split at hfail
    · cases hfail
      rfl
    · cases hfail
  · cases hfail

theorem selectRevision_raises {spec : AgentSpec} {replace : Bool} {active : Option String} {e : Err}
    (hfail : h.selectRevision spec replace active = (.error e, h')) : Selecting h h' := by
  unfold selectRevision at hfail
  split at hfail
  · cases hfail
    exact .refl h
  · simp only at hfail
    split at hfail
    · rename_i heq
      cases hfail
      have hmat := h.materialize_selecting spec
        (((active.filter (· ≠ spec.revision)).bind (h.agents.published spec.name)).filter
          fun r => r.scope = spec.scopePath)
      rw [heq] at hmat
      exact hmat
    · rename_i revision h₁ heq
      have hmat := h.materialize_selecting spec
        (((active.filter (· ≠ spec.revision)).bind (h.agents.published spec.name)).filter
          fun r => r.scope = spec.scopePath)
      rw [heq] at hmat
      split at hfail
      · rename_i heq'
        cases hfail
        unfold withdrawOptional at heq'
        split at heq'
        · cases heq'
        · rw [withdrawRevision_raises heq']
          exact hmat
      · cases hfail

theorem installAgent_raises {spec : AgentSpec} {replace : Bool} {e : Err}
    (hfail : h.installAgent spec replace = (.error e, h')) : Selecting (h.remembering spec) h' := by
  unfold installAgent at hfail
  simp only at hfail
  split at hfail
  · exact selectRevision_raises hfail
  · split at hfail
    · cases hfail
      exact .refl _
    · split at hfail
      · cases hfail
      · exact selectRevision_raises hfail

end Harness

/-! ## what a failed installation leaves behind -/

theorem Harness.installAgent_failed {h : Harness} {spec : AgentSpec} {replace : Bool}
    (hfails : (h.installAgent spec replace).1.isOk = false) :
    ∃ e, h.installAgent spec replace = (.error e, (h.installAgent spec replace).2) := by
  rcases hresult : h.installAgent spec replace with ⟨e | r, h'⟩
  · exact ⟨e, rfl⟩
  · rw [hresult] at hfails
    cases hfails

theorem AgentRegistry.resolveAgent_new (a : AgentRegistry) {agent : String}
    (hnew : a.specHistory.get? agent = none) (hidle : (a.remember agent).activeSpec agent = none) :
    (a.remember agent).resolveAgent agent ≠ a.resolveAgent agent := by
  have hknown : (a.remember agent).specHistory.get? agent = some Dict.empty := by
    unfold remember
    rw [if_neg]
    · exact Dict.get?_set_self _ _ _
    · rw [hnew]
      exact Bool.false_ne_true
  unfold AgentRegistry.resolveAgent
  rw [hknown, hidle, hnew]
  simp only
  intro heq
  have hraised : a.runtimeOf agent none =
      .error (agentRetired agent (Dict.empty : Dict String AgentRevision).keys) := by
    rcases hrun : a.runtimeOf agent none with e | runtime
    · rw [hrun] at heq
      exact (congrArg Except.error (Except.error.inj heq)).symm
    · rw [hrun] at heq
      cases heq
  unfold runtimeOf get at hraised
  split at hraised
  · cases hraised
  · have hcontext := congrArg Err.context (Except.error.inj hraised)
    have hkeys : ["agent", "available"] = ["agent", "revisions"] :=
      congrArg (List.map Prod.fst) hcontext
    exact absurd hkeys (by decide)

/-- **An installation that raises leaves every selection as it was** iff the agent has a history,
that is, if it was installed before, or that was tried. -/
theorem selection_kept_iff {h h' : Harness} {spec : AgentSpec} {replace : Bool} {e : Err}
    (hfail : h.installAgent spec replace = (.error e, h')) :
    (∀ agent, h'.agents.resolveAgent agent = h.agents.resolveAgent agent) ↔
      (h.agents.specHistory.get? spec.name).isSome = true := by
  have hselecting := Harness.installAgent_raises hfail
  have hsame : ∀ agent, h'.agents.resolveAgent agent =
      (h.agents.remember spec.name).resolveAgent agent := hselecting.resolveAgent
  constructor
  · intro hall
    by_contra hnew
    have hnone := Option.not_isSome_iff_eq_none.1 hnew
    refine AgentRegistry.resolveAgent_new h.agents hnone ?_ ((hsame spec.name).symm.trans (hall spec.name))
    show ((h.agents.remember spec.name).activeRevisions.get? spec.name).bind
      ((h.agents.remember spec.name).published spec.name) = none
    rcases (h.agents.remember spec.name).activeRevisions.get? spec.name with _ | revision
    · rfl
    · rw [Option.bind_some, AgentRegistry.published_remember]
      unfold AgentRegistry.published
      rw [hnone]
      rfl
  · intro hknown agent
    rw [hsame agent]
    unfold AgentRegistry.remember
    rw [if_pos hknown]

end

section
open scoped Plain

/-- an agent that refers to a plugin the catalog does not have -/
def unknownAgent (revision : String) (hrevision : validIdentifier revision = true) : AgentSpec :=
  { plainAgent "a" "/a" AgentSpec.valid_a AgentSpec.canonical_a with
    revision := revision
    plugins := Dict.empty.set "ghost" (.config Dict.empty)
    revision_valid := hrevision
    plugins_valid := by decide +kernel }

/-- a harness with a runtime and an agent of the same name -/
@[irreducible] def published : Harness :=
  ((({} : Harness).withRuntime "a").installAgent
    (plainAgent "a" "/a" AgentSpec.valid_a AgentSpec.canonical_a) false).2

def unknownSecond : AgentSpec := unknownAgent "2" AgentSpec.valid_two

theorem selection_kept_iff_published :
    (published.installAgent unknownSecond true).1.isOk = false ∧
    ∀ agent, (published.installAgent unknownSecond true).2.agents.resolveAgent agent =
      published.agents.resolveAgent agent := by
  have hfails : (published.installAgent unknownSecond true).1.isOk = false := by decide +kernel
  obtain ⟨e, hfail⟩ := Harness.installAgent_failed hfails
  exact ⟨hfails, (selection_kept_iff hfail).2 (by decide +kernel)⟩

/-- **A runtime that is retired before it was an agent**: a first installation under its name fails,
and from then on no run selects it. -/
theorem runtime_lost :
    ((({} : Harness).withRuntime "a").agents.resolveAgent "a").isOk = true ∧
    (((({} : Harness).withRuntime "a").installAgent (unknownAgent "1" AgentSpec.valid_one) false).1.isOk
      = false) ∧
    ((((({} : Harness).withRuntime "a").installAgent (unknownAgent "1" AgentSpec.valid_one)
      false).2.agents.resolveAgent "a").isOk = false) := by
  refine ⟨by decide +kernel, by decide +kernel, by decide +kernel⟩

end

end Chassis
