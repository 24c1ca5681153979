import Chassis.Harness.State

/-!
# Hooks, mounting and disposal

* `dispatch`, `observe`        a hook event: the chain of its handlers, and its failures recorded;
* `mount`                      one instance: its scope, its `setup`, and the rollback of a failed one;
* `dispose`, `disposeInstance` the way out: `teardown`, the closing of the scope, the registry.
-/

namespace Chassis
open Py Coop

/-! ## hooks -/

structure HookResult where
  payload : List (String × Value)
  stopped : Bool := false
  failures : List CleanupFailure := []

/-- the error of a handler whose policy is `RAISE` -/
def hookExecutionError (d : Dispatch) (registration : HookRegistration) (message : String) : Err :=
  { kind := .HookExecutionError, message := message
    context := [("event", d.event.value), ("handler", registration.handlerName),
      ("owner", registration.ownerId)] }

def hookDescription (d : Dispatch) (registration : HookRegistration) : String :=
  "hook " ++ d.event.value ++ " (" ++ registration.handlerName ++ ")"

/-- what becomes of the chain after one handler -/
inductive Verdict
  | goOn (payload : List (String × Value)) (failures : List CleanupFailure)
  | stop
  | fail (e : Err)

/-- `except Exception`, then the mode of the handler.  What it returned is read outside the `try`. -/
def judge (d : Dispatch) (registration : HookRegistration) (payload : List (String × Value)) :
    HandlerResult → Verdict
  | .error e =>
    if e.kind.isException then
      match registration.errorPolicy with
      | .raise => .fail (hookExecutionError d registration
          ("hook " ++ registration.handlerName ++ " failed for " ++ d.event.value))
      | .record => .goOn payload [e.recorded (hookDescription d registration)]
    else .fail e
  | .ok none => .goOn payload []
  | .ok (some result) =>
    match registration.mode with
    | .observe => .goOn payload []
    | .transform =>
      match result.mapping with
      | .error e => .fail e
      | .ok (some items) => .goOn items []
      | .ok none =>
        match registration.errorPolicy with
        | .raise => .fail (hookExecutionError d registration
            ("transform hook " ++ registration.handlerName ++ " did not return a mapping"))
        | .record => .goOn payload
            [⟨hookDescription d registration, .Other, "transform hook did not return a mapping"⟩]
    | .bail =>
      match result.truth with
      | .error e => .fail e
      | .ok true => .stop
      | .ok false => .goOn payload []

def runHandlers (d : Dispatch) :
    List HookRegistration → List (String × Value) → List CleanupFailure → Task HookResult
  | [], payload, failures => return ⟨payload, false, failures⟩
  | registration :: rest, payload, failures => do
    let answer : HandlerAnswer ← Prog.perform (Operation.handler d registration payload)
    Prog.modify fun h => h.learn answer.secrets
    match judge d registration payload answer.outcome with
    | .goOn payload new => runHandlers d rest payload (failures ++ new)
    | .stop => return ⟨payload, true, failures⟩
    | .fail e => .raise e

def dispatch (d : Dispatch) : Task HookResult := do
  let handlers ← Prog.gets fun h => HookRegistry.handlers h.hooks d.event
  runHandlers d handlers d.payload []

/-- The failures of the handlers.  The policy `RAISE` is downgraded here; every other error of a
dispatch passes through. -/
def observe (d : Dispatch) : Task (List CleanupFailure) :=
  Prog.tryCatch (do
    let result ← dispatch d
    return result.failures) fun e =>
    if e.kind = .HookExecutionError then return [e.recorded ("hook " ++ d.event.value)]
    else .raise e

/-- `failures.extend(await self._observe(...))` -/
def observed (d : Dispatch) : Task Unit := do
  let failures ← observe d
  Prog.modify fun h => h.note failures

/-! ## mounting -/

section
variable [Packaging] [Platform]

def Harness.provideCapability (h : Harness) (i : PluginInstance)
    (c : CapabilityKey × Option String) : Harness :=
  if c.1.apiVersion = "" then h
  else
    match registrationVersion c.1 c.2 with
    | .error _ => h
    | .ok version =>
      { h with
        capabilities := h.capabilities.add
          ⟨freshId "cap" h.drawn, c.1, version, i.instanceId, i.manifest.name, i.scopeId⟩
        drawn := h.drawn + 1 }

def Harness.registerTool (h : Harness) (i : PluginInstance) (t : ToolDeclaration) : Harness :=
  if t.name = "" ∨ t.description = "" then h
  else
    { h with
      tools := h.tools.add ⟨freshId "tool" h.drawn, t.name, t.description, t.inputSchema,
        i.instanceId, i.manifest.name, i.scopeId, t.policy⟩
      drawn := h.drawn + 1 }

def Harness.registerHook (h : Harness) (i : PluginInstance) (d : HookDeclaration) : Harness :=
  { h with
    hooks := h.hooks.add ⟨freshId "hook" h.drawn, d.event, d.handlerName, d.mode, d.priority,
      d.errorPolicy, h.hookSequence + 1, i.instanceId, i.scopeId⟩
    hookSequence := h.hookSequence + 1
    drawn := h.drawn + 1 }

def Harness.afterSetup (h : Harness) (i : PluginInstance) (a : SetupAnswer) : Harness :=
  let h := a.capabilities.foldl (fun h c => h.provideCapability i c) h
  let h := a.tools.foldl (fun h t => h.registerTool i t) h
  let h := a.hooks.foldl (fun h d => h.registerHook i d) h
  h.learn a.secrets

/-- the scope of an instance is closed: what it registered is withdrawn -/
def Harness.closeScope (h : Harness) (i : PluginInstance) : Harness :=
  { h with
    capabilities := h.capabilities.closeScope i.scopeId
    tools := h.tools.closeScope i.scopeId
    hooks := h.hooks.closeScope i.scopeId }

def Harness.updateInstance (h : Harness) (i : PluginInstance)
    (f : PluginInstance → PluginInstance) : Harness :=
  { h with plugins := h.plugins.update i.instanceId f }

def setState (i : PluginInstance) (state : PluginState) : Task Unit :=
  Prog.modify fun h => h.updateInstance i fun i => { i with state := state }

/-- `await instance.scope.aclose()`: the cleanup failures it raises as `EffectCleanupError`, those
recorded before it among them -/
def closeScope (i : PluginInstance) (recorded : List CleanupFailure) :
    Task (List CleanupFailure) := do
  let answer : CloseAnswer ← Prog.perform (Operation.close i)
  Prog.modify fun h => h.closeScope i
  match answer.cancelled with
  | some e => .raise e
  | none => return recorded ++ answer.failures

def Harness.newInstance (h : Harness) (entry : PluginEntry)
    (resolved : Dict String CapabilityRegistration) : PluginInstance :=
  { instanceId := freshId "plugin" h.drawn
    entryId := entry.entryId
    manifest := entry.manifest
    plugin := entry.plugin
    scopeId := freshId "scope" (h.drawn + 1)
    config := entry.config
    resolved := resolved
    entryRevision := entry.revision
    state := .loading }

def pluginSetupError (entry : PluginEntry) (i : PluginInstance) (failures : List CleanupFailure) :
    Err :=
  { kind := .PluginSetupError
    message := "plugin " ++ quoted entry.manifest.name ++ " failed during setup"
    context := [("plugin", entry.manifest.name), ("entry_id", entry.entryId),
      ("instance_id", i.instanceId)]
    failures := failures }

/-- `_rollback`: whatever the closing of the scope comes to, the instance has failed -/
def rollbackMount (i : PluginInstance) : Task (List CleanupFailure) :=
  Prog.tryCatch (do
    let failures ← closeScope i []
    setState i .failed
    return failures) fun e => do
    setState i .failed
    .raise e

def Harness.isMounted (h : Harness) (entry : PluginEntry) : Bool :=
  match h.plugins.instance? entry.entryId with
  | some current => current.entryRevision = entry.revision
  | none => false

def Harness.adopt (h : Harness) (i : PluginInstance) : Harness :=
  { h with plugins := h.plugins.adopt i, drawn := h.drawn + 2 }

def runSetup (entry : PluginEntry) (i : PluginInstance) : Task PluginInstance := do
  Prog.modify fun h => h.adopt i
  let answer : SetupAnswer ← Prog.perform (Operation.setup i)
  Prog.modify fun h => h.afterSetup i answer
  match answer.raised with
  | some error =>
    let failures ← rollbackMount i
    if error.kind.isException then .raise (pluginSetupError entry i failures) else .raise error
  | none =>
    setState i .active
    return { i with state := .active }

def mount (entry : PluginEntry) (resolved : Dict String CapabilityRegistration)
    (supersede : Bool) : Task PluginInstance := do
  let h ← Prog.gets id
  if !supersede && h.isMounted entry then
    .raise (PluginLoadError "plugin entry is already mounted for this revision"
      [("entry_id", entry.entryId)])
  else runSetup entry (h.newInstance entry resolved)

/-! ## disposal -/

/-- `_forget`, of an instance that is disposed -/
def forget (i : PluginInstance) : Task Unit :=
  Prog.modify fun h => { h with plugins := h.plugins.forget i }

/-- the scope closes, and in any case the instance is forgotten; a failed mount has already
reported its cleanup failures -/
def closeAndForget (i : PluginInstance) (failed : Bool) (recorded : List CleanupFailure) :
    Task Unit := do
  let failures ← Prog.tryCatch (closeScope i recorded) fun e => do
    forget i
    .raise e
  forget i
  if failures ≠ [] ∧ !failed then .raise (EffectCleanupError i.scopeName failures)
  else return ()

/-- `PluginRegistry.dispose`; an instance the registry does not hold is disposed already -/
def dispose (i : PluginInstance) : Task Unit := do
  let h ← Prog.gets id
  match h.plugins.instances.get? i.instanceId with
  | none => return ()
  | some live =>
    if 0 < live.generationRefs then
      .raise (PluginLoadError
        "refusing to dispose a plugin instance reachable from a live generation"
        [("plugin", i.manifest.name), ("instance_id", i.instanceId),
         ("generation_refs", toString live.generationRefs)])
    else
      match live.state with
      | .active =>
        setState i .unloading
        let answer : TeardownAnswer ← Prog.perform (Operation.teardown i)
        Prog.modify fun h => h.learn answer.secrets
        closeAndForget i false (answer.raised.toList.map fun e =>
          e.recorded ("teardown of " ++ quoted i.manifest.name))
      | .loading =>
        .raise (PluginLoadError "cannot dispose a plugin instance while it is loading"
          [("plugin", i.manifest.name), ("instance_id", i.instanceId)])
      | .failed => closeAndForget i true []
      | _ => closeAndForget i false []

def instancePayload (i : PluginInstance) : List (String × Value) :=
  [("plugin", .str i.manifest.name), ("entry_id", .str i.entryId),
   ("instance_id", .str i.instanceId)]

def disposalFailures (i : PluginInstance) (e : Err) : List CleanupFailure :=
  if e.kind = .EffectCleanupError then e.failures
  else [e.recorded ("dispose of " ++ quoted i.manifest.name)]

/-- `_dispose_instance`: nothing that is raised inside the disposal aborts the loop around it -/
def disposeInstance (i : PluginInstance) : Task Unit := do
  observed ⟨.pluginUnmounting, instancePayload i ++ [("scope_id", .str i.scopeId)]⟩
  Prog.tryCatch (dispose i) fun e => Prog.modify fun h => h.note (disposalFailures i e)
  observed ⟨.pluginUnmounted, instancePayload i⟩

end

end Chassis
