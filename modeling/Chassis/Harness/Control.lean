import Chassis.Harness.Agents
import Chassis.Harness.Frame
import Chassis.Harness.Invariance

/-!
# The whole control plane

* `ControlAct`        what the synchronous operations of the control plane do: those on the desired
                      state, on the catalog and on the agents;
* `ControlRun`        its runs, with everything a task may do at an await;
* `SameDeclared`      what the tasks that hold the composition lock leave alone;
* `declared_run`, `ControlRun.holds`   **what every operation keeps, and depends on nothing else,
                      holds in every configuration**, also while a reconcile waits.
-/

set_option linter.unusedSectionVars false

namespace Chassis
open Py Coop

section
variable [Packaging] [Platform]

def Harness.registerRuntime (h : Harness) (runtime : AgentRuntime) (scopeId : Option String)
    (replace : Bool) : Except Err Harness := do
  let agents ← h.agents.register runtime (freshId "agent" h.drawn) scopeId replace
  return { h with agents := agents, drawn := h.drawn + 1 }

def Harness.releaseRuntime (h : Harness) (registrationId : String) : Harness :=
  { h with agents := h.agents.release registrationId }

def Harness.registerPluginType (h : Harness) (name : String) (construct : PluginType) : Harness :=
  { h with catalog := h.catalog.set name construct }

/-- an operation of the control plane, whether it succeeds or raises -/
inductive ControlAct : Harness → Harness → Prop
  | act {h h' : Harness} : Acts h h' → ControlAct h h'
  | installFrom {h h' : Harness} (source : PluginSource) (entryId : Option String)
    (config : Option (Dict String Value)) (replace : Bool) (scope : Option String) {id : String} :
    h.installFrom source entryId config replace scope = .ok (id, h') → ControlAct h h'
  | registerPluginType (h : Harness) (name : String) (construct : PluginType) :
    ControlAct h (h.registerPluginType name construct)
  | applyConfig (h : Harness) (c : Declarative.HarnessConfig) : ControlAct h (h.applyConfig c).2
  | applyPending (h : Harness) : ControlAct h h.applyPending.2
  | registerRuntime {h h' : Harness} (runtime : AgentRuntime) (scopeId : Option String)
    (replace : Bool) : h.registerRuntime runtime scopeId replace = .ok h' → ControlAct h h'
  | releaseRuntime (h : Harness) (registrationId : String) :
    ControlAct h (h.releaseRuntime registrationId)
  | installAgent (h : Harness) (spec : AgentSpec) (replace : Bool) :
    ControlAct h (h.installAgent spec replace).2
  | removeAgent (h : Harness) (name : String) : ControlAct h (h.removeAgent name).2

/-- a new harness, to which nothing was declared either -/
structure Pristine (h : Harness) : Prop extends Fresh h where
  composition : h.composition = {}
  agents : h.agents = {}
  provisions : h.provisions = Dict.empty

theorem pristine_new : Pristine {} :=
  ⟨⟨rfl, rfl, ⟨rfl, rfl, rfl⟩, rfl, ⟨rfl, rfl⟩, rfl⟩, rfl, rfl, rfl⟩

/-- runs of the control plane from a new harness -/
def ControlRun (h : Harness) (history : List (Event Job Err × HarnessConfig))
    (c : HarnessConfig) : Prop := Pristine h ∧ Run ControlAct Job.program ⟨h, none⟩ history c

theorem ControlRun.one {h : Harness} (ha : ControlAct {} h) :
    ControlRun {} [(.acted, ⟨h, none⟩)] ⟨h, none⟩ :=
  ⟨pristine_new, .tail .refl (.act ha)⟩

/-- what is declared does not differ -/
structure SameDeclared (h h' : Harness) : Prop where
  entries : h'.plugins.entries = h.plugins.entries
  revisions : h'.plugins.revisions = h.plugins.revisions
  composition : h'.composition = h.composition
  provisions : h'.provisions = h.provisions
  agents : h'.agents = h.agents
  catalog : h'.catalog = h.catalog

theorem Harness.afterSetup_sameDeclared (h : Harness) (i : PluginInstance) (a : SetupAnswer) :
    SameDeclared h (h.afterSetup i a) := by
  obtain ⟨caps, tools, hooks, n, d, r, -, heq⟩ := h.afterSetup_eq i a
  rw [heq]
  exact ⟨rfl, rfl, rfl, rfl, rfl, rfl⟩

theorem Harness.updateInstance_sameDeclared (h : Harness) (i : PluginInstance)
    (f : PluginInstance → PluginInstance) : SameDeclared h (h.updateInstance i f) := by
  refine ⟨PluginRegistry.entries_update _ _ _, ?_, rfl, rfl, rfl, rfl⟩
  show (h.plugins.update i.instanceId f).revisions = h.plugins.revisions
  rw [PluginRegistry.update]
  split <;> rfl

/-- what others may do meanwhile: anything that keeps `I` -/
def keeping (I : Harness → Prop) : Rules Harness Operation Answer where
  interferes := fun _ _ => True
  admits := fun _ _ => True
  holds := I

section
variable {I : Harness → Prop} (hI : ∀ h h', I h → SameDeclared h h' → I h')
include hI

theorem declared_enduring : Enduring (keeping I) I where
  holds := fun hi => hi
  interferes := fun _ _ hi => hi
  learn := fun _ hi => hI _ _ hi ⟨rfl, rfl, rfl, rfl, rfl, rfl⟩
  note := fun _ hi => hI _ _ hi ⟨rfl, rfl, rfl, rfl, rfl, rfl⟩
  update := fun i f hi => hI _ _ hi (Harness.updateInstance_sameDeclared _ i f)
  adopt := fun _ hi => hI _ _ hi ⟨rfl, rfl, rfl, rfl, rfl, rfl⟩
  forget := fun _ hi => hI _ _ hi ⟨rfl, rfl, rfl, rfl, rfl, rfl⟩
  setup := fun i a hi => hI _ _ hi (Harness.afterSetup_sameDeclared _ i a)
  close := fun _ hi => hI _ _ hi ⟨rfl, rfl, rfl, rfl, rfl, rfl⟩
  mounted := fun _ hi => hI _ _ hi ⟨rfl, rfl, rfl, rfl, rfl, rfl⟩
  reused := fun _ hi => hI _ _ hi ⟨rfl, rfl, rfl, rfl, rfl, rfl⟩
  work := fun _ hi => hI _ _ hi ⟨rfl, rfl, rfl, rfl, rfl, rfl⟩
  report := fun _ hi => hI _ _ hi ⟨rfl, rfl, rfl, rfl, rfl, rfl⟩
  retire := fun _ hi => hI _ _ hi ⟨rfl, rfl, rfl, rfl, rfl, rfl⟩
  refresh := fun hi => hI _ _ hi ⟨rfl, rfl, rfl, rfl, rfl, rfl⟩
  publish := fun _ _ hi => hI _ _ hi ⟨rfl, rfl, rfl, rfl, rfl, rfl⟩
  conclude := fun _ _ hi => hI _ _ hi ⟨rfl, rfl, rfl, rfl, rfl, rfl⟩

/-- **What depends on nothing but what is declared** holds in every configuration, if whatever the
other tasks do keeps it. -/
theorem declared_run {acts : Harness → Harness → Prop}
    (hact : ∀ h h', acts h h' → I h → I h') {h : Harness}
    {history : List (Event Job Err × HarnessConfig)} {c : HarnessConfig}
    (hrun : Run acts Job.program ⟨h, none⟩ history c) (h₀ : I h) : I c.state := by
  have hm : Monitored (keeping I) acts Job.program I (fun _ _ => I) :=
    { refl := fun _ => trivial
      trans := fun _ _ _ _ _ _ => trivial
      admits := fun _ _ _ => trivial
      idle := fun s s' hs ha => hact s s' ha hs
      held := fun s s' hs ha => hact s s' ha hs
      job := fun j _ hs => job_inv (declared_enduring hI) j hs }
  have hsound := hm.run h₀ hrun fun _ _ _ _ hi => hi
  unfold Config.Sound at hsound
  split at hsound
  · exact hsound
  · exact hsound.1

theorem ControlRun.holds (hact : ∀ h h', ControlAct h h' → I h → I h') {h : Harness}
    {history : List (Event Job Err × HarnessConfig)} {c : HarnessConfig}
    (hrun : ControlRun h history c) (h₀ : I h) : I c.state := declared_run hI hact hrun.2 h₀

end

end

end Chassis
