import Chassis.Harness.Lifecycle
import Chassis.Lib.Monitor

/-!
# Instances as objects

`mount` and `dispose` with the state machine of an instance, over all instances that were ever
created; where only the registry matters, `Harness/Lifecycle` has them without it.

* `PluginInstance.transition`   one transition, refused if it is illegal;
* `PluginHost`                  the harness, the instances that left its registry, and a record of
                                what was done to instances;
* `PluginHost.mount`, `PluginHost.dispose`   as in the source, with every transition they attempt;
* `HostAct`                     what is done to instances and registrations besides;
* `HostCall`, `HostRun`             sequences of mounts and disposals that do not overlap.
-/

namespace Chassis
open Py Coop

/-! ## transitions -/

def PluginState.value : PluginState → String
  | .pending => "pending"
  | .loading => "loading"
  | .active => "active"
  | .unloading => "unloading"
  | .disposed => "disposed"
  | .failed => "failed"

/-- `_ALLOWED_TRANSITIONS` -/
def PluginState.allowed : PluginState → List PluginState
  | .pending => [.loading, .disposed]
  | .loading => [.active, .failed]
  | .active => [.unloading, .failed]
  | .unloading => [.disposed]
  | .failed => [.loading, .disposed]
  | .disposed => []

/-- an attempted transition does not raise -/
def PluginState.Legal (current requested : PluginState) : Prop :=
  requested = current ∨ requested ∈ current.allowed

/-- `transition`: to where the instance is already, nothing happens -/
def PluginInstance.transition (i : PluginInstance) (newState : PluginState) :
    Except Err PluginInstance :=
  if newState = i.state then .ok i
  else if newState ∈ i.state.allowed then .ok { i with state := newState }
  else .error (HarnessStateError
    ("illegal plugin transition " ++ i.state.value ++ " -> " ++ newState.value)
    [("plugin", i.manifest.name), ("instance_id", i.instanceId), ("current", i.state.value),
     ("requested", newState.value)])

/-! ## the state -/

/-- Every instance that was created is an object: one of the registry's map, or of those that were
popped from it, which whoever holds them can still use.  What `attempts` to `torn` record, no code
reads. -/
structure PluginHost where
  harness : Harness := {}
  /-- the instances that were forgotten, by their id -/
  popped : Dict String PluginInstance := Dict.empty
  /-- the ids of the scopes that were closed -/
  closed : List String := []
  /-- the ids of all instances, in the order they were mounted -/
  created : List String := []
  /-- the transitions that were attempted: from where, and to where -/
  attempts : List (PluginState × PluginState) := []
  /-- the instances whose `setup` succeeded -/
  ready : List String := []
  /-- the instances whose `teardown` ran, once for each time it did -/
  torn : List String := []

abbrev Hosting := Prog PluginHost Operation Answer Err

namespace PluginHost
variable (s : PluginHost)

def instances : Dict String PluginInstance := s.harness.plugins.instances

def object? (instanceId : String) : Option PluginInstance :=
  (s.instances.get? instanceId).or (s.popped.get? instanceId)

/-- what happens to an object is seen by all who hold it -/
def update (instanceId : String) (f : PluginInstance → PluginInstance) : PluginHost :=
  { s with
    harness := { s.harness with plugins := s.harness.plugins.update instanceId f }
    popped := match s.popped.get? instanceId with
      | some i => s.popped.set instanceId (f i)
      | none => s.popped }

/-- a new instance: an object, and the newest of its entry -/
def adopt (i : PluginInstance) : PluginHost :=
  { s with harness := s.harness.adopt i, created := s.created ++ [i.instanceId] }

/-- `_forget`: the registry drops the instance, and its object stays -/
def forget (i : PluginInstance) : PluginHost :=
  { s with
    harness := { s.harness with plugins := s.harness.plugins.forget i }
    popped := match s.instances.get? i.instanceId with
      | some live => s.popped.set i.instanceId live
      | none => s.popped }

/-- the scope of an instance is closed, and what it registered is withdrawn -/
def closeScope (i : PluginInstance) : PluginHost :=
  { s with harness := s.harness.closeScope i, closed := s.closed ++ [i.scopeId] }

section
variable [Packaging] [Platform]

/-- what `setup` left in the registries; a scope that it closed itself refuses the rest -/
def afterSetup (i : PluginInstance) (a : SetupAnswer) : PluginHost :=
  if i.scopeId ∈ s.closed then { s with harness := s.harness.learn a.secrets }
  else { s with harness := s.harness.afterSetup i a }

end

/-- the entry has an instance of its current revision -/
def isMounted (entry : PluginEntry) : Bool :=
  match s.harness.plugins.instance? entry.entryId with
  | some current => current.state ≠ .disposed && current.entryRevision = entry.revision
  | none => false

/-! ## the operations -/

/-- `instance.transition(newState)`, with its record -/
def transition (instanceId : String) (newState : PluginState) : Hosting Unit := do
  let s ← Prog.gets id
  match s.object? instanceId with
  | none => return ()
  | some i => do
    Prog.modify fun s => { s with attempts := s.attempts ++ [(i.state, newState)] }
    let moved ← Prog.ofExcept (i.transition newState)
    Prog.modify fun s => s.update instanceId fun i => { i with state := moved.state }

/-- `await instance.scope.aclose()`.  Until the closing is through, what is still registered through
the scope is withdrawn with the rest. -/
def aclose (i : PluginInstance) (recorded : List CleanupFailure) : Hosting (List CleanupFailure) := do
  let answer : CloseAnswer ← Prog.perform (Operation.close i)
  Prog.modify fun s => s.closeScope i
  match answer.cancelled with
  | some e => .raise e
  | none => return recorded ++ answer.failures

def rollback (i : PluginInstance) : Hosting (List CleanupFailure) :=
  Prog.tryCatch (do
    let failures ← aclose i []
    transition i.instanceId .failed
    return failures) fun e => do
    transition i.instanceId .failed
    .raise e

/-- the way out of every disposal that closed a scope -/
def disposed (i : PluginInstance) : Hosting Unit := do
  let s ← Prog.gets id
  match s.object? i.instanceId with
  | none => return ()
  | some live => do
    if live.state = .unloading ∨ live.state = .failed then
      transition i.instanceId .disposed
    Prog.modify fun s => s.forget i

/-- the scope closes, and in any case the instance is disposed; a failed mount has already reported
its cleanup failures -/
def closeAndForget (i : PluginInstance) (recorded : List CleanupFailure) : Hosting Unit := do
  let failures ← Prog.tryCatch (aclose i recorded) fun e => do
    disposed i
    .raise e
  let failed ← Prog.gets fun s =>
    decide ((s.object? i.instanceId).map PluginInstance.state = some .failed)
  disposed i
  if failures ≠ [] ∧ !failed then .raise (EffectCleanupError i.scopeName failures)
  else return ()

/-- `PluginRegistry.dispose`, of any object -/
def dispose (instanceId : String) : Hosting Unit := do
  let s ← Prog.gets id
  match s.object? instanceId with
  | none => return ()
  | some i =>
    if i.state = .disposed then return ()
    else if 0 < i.generationRefs then
      .raise (PluginLoadError
        "refusing to dispose a plugin instance reachable from a live generation"
        [("plugin", i.manifest.name), ("instance_id", i.instanceId),
         ("generation_refs", toString i.generationRefs)])
    else
      match i.state with
      | .active => do
        transition instanceId .unloading
        Prog.modify fun s => { s with torn := s.torn ++ [instanceId] }
        let answer : TeardownAnswer ← Prog.perform (Operation.teardown i)
        Prog.modify fun s => { s with harness := s.harness.learn answer.secrets }
        closeAndForget i (answer.raised.toList.map fun e =>
          e.recorded ("teardown of " ++ quoted i.manifest.name))
      | .pending => do
        transition instanceId .disposed
        -- here a closing that raises leaves the instance in the registry
        let failures ← aclose i []
        if failures ≠ [] then .raise (EffectCleanupError i.scopeName failures)
        else Prog.modify fun s => s.forget i
      | .loading =>
        .raise (PluginLoadError "cannot dispose a plugin instance while it is loading"
          [("plugin", i.manifest.name), ("instance_id", i.instanceId)])
      | _ => closeAndForget i []

section
variable [Packaging] [Platform]

/-- `setup` of a new instance, and what comes of it -/
def runSetup (entry : PluginEntry) (i : PluginInstance) : Hosting PluginInstance := do
  Prog.modify fun s => s.adopt { i with state := .pending }
  transition i.instanceId .loading
  let answer : SetupAnswer ← Prog.perform (Operation.setup i)
  Prog.modify fun s => s.afterSetup i answer
  match answer.raised with
  | some error =>
    let failures ← rollback i
    if error.kind.isException then .raise (pluginSetupError entry i failures) else .raise error
  | none =>
    Prog.modify fun s => { s with ready := s.ready ++ [i.instanceId] }
    transition i.instanceId .active
    return { i with state := .active }

def mount (entry : PluginEntry) (resolved : Dict String CapabilityRegistration)
    (supersede : Bool) : Hosting PluginInstance := do
  let s ← Prog.gets id
  if !supersede && s.isMounted entry then
    .raise (PluginLoadError "plugin entry is already mounted for this revision"
      [("entry_id", entry.entryId)])
  else runSetup entry (s.harness.newInstance entry resolved)

end

end PluginHost

/-! ## runs -/

variable [Packaging] [Platform]

/-- What is done to the instances and their registrations besides mounting and disposing, at any
time. -/
inductive HostAct : PluginHost → PluginHost → Prop
  /-- generations count the instances they reach, and give them their identity -/
  | count (s : PluginHost) (instanceId : String) (refs : Nat)
    (identity : Option SemanticIdentity) : HostAct s (s.update instanceId fun i =>
      { i with generationRefs := refs, semanticIdentity := identity })
  /-- a plugin registers through the context of an instance; a closed scope refuses that -/
  | provide {s : PluginHost} {instanceId : String} {i : PluginInstance}
    (c : CapabilityKey × Option String) : s.object? instanceId = some i → i.scopeId ∉ s.closed →
    HostAct s { s with harness := s.harness.provideCapability i c }
  | registerTool {s : PluginHost} {instanceId : String} {i : PluginInstance}
    (t : ToolDeclaration) : s.object? instanceId = some i → i.scopeId ∉ s.closed →
    HostAct s { s with harness := s.harness.registerTool i t }
  | registerHook {s : PluginHost} {instanceId : String} {i : PluginInstance}
    (d : HookDeclaration) : s.object? instanceId = some i → i.scopeId ∉ s.closed →
    HostAct s { s with harness := s.harness.registerHook i d }
  /-- registrations are withdrawn, by whomever -/
  | withdraw (s : PluginHost) (c : CapabilityRegistration → Bool) (t : RegisteredTool → Bool)
    (k : HookRegistration → Bool) : HostAct s { s with harness := { s.harness with
      capabilities := s.harness.capabilities.discard c
      tools := s.harness.tools.discard t
      hooks := s.harness.hooks.discard k } }
  /-- a plugin closes the scope of an instance of its own accord -/
  | close {s : PluginHost} {instanceId : String} {i : PluginInstance} :
    s.object? instanceId = some i → HostAct s (s.closeScope i)
  /-- all else the harness does -/
  | other (s : PluginHost) {h : Harness} : h.plugins.instances = s.harness.plugins.instances →
    h.plugins.byEntry = s.harness.plugins.byEntry → h.capabilities = s.harness.capabilities →
    h.tools = s.harness.tools → h.hooks = s.harness.hooks → s.harness.drawn ≤ h.drawn →
    HostAct s { s with harness := h }

inductive HostCall
  | mount (entry : PluginEntry) (resolved : Dict String CapabilityRegistration) (supersede : Bool)
  | dispose (instanceId : String)

def HostCall.program : HostCall → Hosting Unit
  | .mount entry resolved supersede => do
    let _ ← PluginHost.mount entry resolved supersede
  | .dispose instanceId => PluginHost.dispose instanceId

abbrev HostConfig := Config PluginHost Operation HostCall Answer Err

/-- the runs from a new registry: the calls do not overlap, and the rest happens whenever it may -/
def HostRun (history : List (Event HostCall Err × HostConfig)) (c : HostConfig) : Prop :=
  Run HostAct HostCall.program ⟨{}, none⟩ history c

end Chassis
