import Chassis.Agents.Spec
import Chassis.Harness.State
import Chassis.Lib.Calls
import Chassis.Lib.Custody
import Chassis.Lib.Indexed

/-!
# Scopes and the registries

Every registration is made through a scope, which keeps its inverse and calls it when it closes.

* `Scope`        its state, the effects it owns and their disposers, the failures of its unwind;
* `Scopes`       the scopes, and the four registries they own registrations of;
* `provide`, `registerTool`, `registerHook`, `registerAgent`   registering, as in the source; what
                 raises returns the state it leaves behind as well;
* `aclose`, `unwind`, `finish`   closing, one disposer at a time, as other tasks run in between;
* `ScopeOp`      the calls; `after` is what a sequence of them leads to.
-/

namespace Chassis
open Py

instance : Named RegisteredTool := ⟨RegisteredTool.name⟩

/-- a runtime that no scope owns has no scope id, and the empty one is none -/
instance : Registration RuntimeRegistration where
  id := RuntimeRegistration.registrationId
  scopeId r := r.scopeId.getD ""

instance : Named RuntimeRegistration := ⟨RuntimeRegistration.name⟩

structure EffectRecord where
  effectId : String
  kind : String
  description : String
  deriving DecidableEq

/-- the inverse of an effect -/
inductive Disposer
  | withdraw (registrationId : String)
  | releaseTool (registrationId : String)
  | unregisterHook (registrationId : String)
  | releaseAgent (registrationId : String)
  | closeChild (scopeId : String)
  /-- of a plugin: what it does to the registries are calls of its own -/
  | callback
  deriving DecidableEq

structure Scope where
  id : String
  name : String
  parent : Option String
  state : Phase := .opened
  children : List String := []
  effects : Dict String EffectRecord := Dict.empty
  /-- the effects of contexts that are being entered -/
  entering : List EffectRecord := []
  /-- what closing will call, the newest first -/
  stack : List (EffectRecord × Disposer) := []
  /-- what the unwind waits for -/
  waiting : Option (EffectRecord × Disposer) := none
  failures : List CleanupFailure := []
  /-- the last error of the unwind that is no `Exception` -/
  unwindError : Option Err := none
  /-- what the close raised -/
  raised : Option Err := none

/-- a disposer ended: what it raised is recorded, or aggregated below -/
def Scope.recorded (s : Scope) (record : EffectRecord) : Option Err → Scope
  | none => s
  | some e =>
    if e.kind.isException then
      { s with failures := s.failures ++ [e.recorded record.description] }
    else { s with unwindError := some e }

def phaseValue : Phase → String
  | .opened => "open"
  | .closing => "closing"
  | .closed => "closed"

structure Scopes where
  scopes : Dict String Scope := Dict.empty
  capabilities : CapabilityRegistry := Owned.empty
  hooks : HookRegistry := Owned.empty
  hookSequence : Nat := 0
  tools : Indexed RegisteredTool := {}
  agents : Indexed RuntimeRegistration := {}
  /-- how many identifiers were drawn -/
  drawn : Nat := 0

namespace Scopes
variable (w : Scopes)

/-! ## scopes -/

def assertOpen (scopeId operation : String) : Except Err Scope :=
  match w.scopes.get? scopeId with
  | none => .error { kind := .Other, message := "there is no such scope" }
  | some s =>
    if s.state = .opened then .ok s
    else .error
      { kind := .ScopeClosedError
        message := "cannot " ++ operation ++ ": scope " ++ quoted s.name ++ " is " ++
          phaseValue s.state
        context := [("scope", s.name), ("scope_id", s.id), ("state", phaseValue s.state)] }

section
variable [Platform]

/-- `cleanup`: the effect is recorded, and its inverse registered -/
def cleanup (scopeId description kind : String) (d : Disposer) : Except Err Scopes := do
  let s ← w.assertOpen scopeId ("register effect " ++ quoted description)
  let record : EffectRecord := ⟨freshId "fx" w.drawn, kind, description⟩
  return { w with
    scopes := w.scopes.set scopeId { s with
      effects := s.effects.set record.effectId record
      stack := (record, d) :: s.stack }
    drawn := w.drawn + 1 }

/-- `release_effect`: the record is forgotten, not the inverse -/
def releaseEffect (scopeId effectId : String) : Scopes :=
  match w.scopes.get? scopeId with
  | none => w
  | some s =>
    { w with scopes := w.scopes.set scopeId { s with effects := s.effects.erase effectId } }

/-- how `enter_context` and `enter_async_context` begin: the effect is recorded before the context is
entered -/
def enter (scopeId description : String) : Except Err Scopes := do
  let s ← w.assertOpen scopeId ("register effect " ++ quoted description)
  let record : EffectRecord := ⟨freshId "fx" w.drawn, "context", description⟩
  return { w with
    scopes := w.scopes.set scopeId { s with
      effects := s.effects.set record.effectId record
      entering := record :: s.entering }
    drawn := w.drawn + 1 }

/-- how they end: the exit of the context is pushed, or the effect released, as what was not entered
is not owned, and what was entered after the scope began to close is exited at once -/
def entered (scopeId effectId : String) (failed : Bool) : Scopes :=
  match w.scopes.get? scopeId with
  | none => w
  | some s =>
    match s.entering.find? fun record => record.effectId = effectId with
    | none => w
    | some record =>
      let s' := { s with entering := s.entering.filter fun record => record.effectId ≠ effectId }
      if failed ∨ s.state ≠ .opened then
        { w with scopes := w.scopes.set scopeId { s' with effects := s.effects.erase effectId } }
      else { w with scopes := w.scopes.set scopeId { s' with stack := (record, .callback) :: s.stack } }

def construct (name : String) (parent : Option String) : String × Scopes :=
  let id := freshId "scope" w.drawn
  (id, { w with
    scopes := w.scopes.set id { id := id, name := name, parent := parent }
    drawn := w.drawn + 1 })

def child (scopeId name : String) : Except Err String × Scopes :=
  match w.assertOpen scopeId ("create child scope " ++ quoted name) with
  | .error e => (.error e, w)
  | .ok s =>
    let (id, w') := w.construct name (some scopeId)
    let w' := { w' with
      scopes := w'.scopes.set scopeId { s with children := s.children ++ [id] } }
    match w'.cleanup scopeId ("child scope " ++ quoted name) "child" (.closeChild id) with
    | .error e => (.error e, w')
    | .ok w'' => (.ok id, w'')

end

/-! ## the registries -/

section
variable [Packaging] [Platform]

def provide (scopeId : String) (key : CapabilityKey) (version : Option String)
    (providerId providerName : String) : Except Err CapabilityRegistration × Scopes :=
  match w.assertOpen scopeId ("provide capability " ++ key.str) with
  | .error e => (.error e, w)
  | .ok s =>
    if key.apiVersion = "" then
      (.error (ConfigurationError "cannot provide a generation-agnostic capability key"
        [("capability", key.name)]), w)
    else
      match registrationVersion key version with
      | .error e => (.error e, w)
      | .ok parsed =>
        let providerName := if providerName = "" then providerId else providerName
        let registration : CapabilityRegistration :=
          ⟨freshId "cap" w.drawn, key, parsed, providerId, providerName, s.id⟩
        let w' := { w with
          capabilities := w.capabilities.add registration
          drawn := w.drawn + 1 }
        match w'.cleanup scopeId ("capability " ++ key.str ++ " from " ++ providerName) "capability"
            (.withdraw registration.registrationId) with
        | .error e => (.error e, w')
        | .ok w'' => (.ok registration, w'')

end

def withdraw (registrationId : String) : Scopes :=
  { w with capabilities := w.capabilities.pop registrationId }

def withdrawProvider (providerId : String) : Scopes :=
  { w with capabilities := w.capabilities.discard fun c => c.providerId = providerId }

def clear : Scopes := { w with capabilities := Owned.empty }

section
variable [Platform]

/-- `register` of the tool registry; whether the object is a tool, and `ainvoke` asynchronous, is
part of what is registered -/
def registerTool (scopeId : String) (t : ToolDeclaration) (isTool isAsync : Bool)
    (ownerId ownerName : String) : Except Err RegisteredTool × Scopes :=
  match w.assertOpen scopeId ("register tool " ++ t.name) with
  | .error e => (.error e, w)
  | .ok s =>
    if !isTool ∨ t.name = "" ∨ t.description = "" then
      (.error (ConfigurationError ("registered tools must expose a non-empty name, a non-empty " ++
        "description, and an awaitable ainvoke")), w)
    else if !isAsync then
      (.error (ConfigurationError "registered tools must implement ainvoke asynchronously"), w)
    else
      let ownerName := if ownerName = "" then ownerId else ownerName
      let entry : RegisteredTool :=
        ⟨freshId "tool" w.drawn, t.name, t.description, t.inputSchema, ownerId, ownerName, s.id,
          t.policy⟩
      let w' := { w with tools := w.tools.insert entry, drawn := w.drawn + 1 }
      match w'.cleanup scopeId ("tool " ++ entry.name) "tool" (.releaseTool entry.registrationId) with
      | .error e => (.error e, w')
      | .ok w'' => (.ok entry, w'')

def registerHook (scopeId : String) (d : HookDeclaration) (ownerId : String) :
    Except Err HookRegistration × Scopes :=
  match w.assertOpen scopeId ("register hook for " ++ d.event.value) with
  | .error e => (.error e, w)
  | .ok s =>
    let registration : HookRegistration :=
      ⟨freshId "hook" w.drawn, d.event, d.handlerName, d.mode, d.priority, d.errorPolicy,
        w.hookSequence + 1, ownerId, s.id⟩
    let w' := { w with
      hooks := w.hooks.add registration
      hookSequence := w.hookSequence + 1
      drawn := w.drawn + 1 }
    match w'.cleanup scopeId
        ("hook " ++ d.event.value ++ " (" ++ registration.handlerName ++ ")") "hook"
        (.unregisterHook registration.registrationId) with
    | .error e => (.error e, w')
    | .ok w'' => (.ok registration, w'')

/-- `register` of the agent registry: the runtime is bound, then its inverse registered, and only
then it is listed -/
def registerAgent (runtime : AgentRuntime) (scopeId : Option String) (replace : Bool)
    (binder : Option Err) : Except Err RuntimeRegistration × Scopes :=
  if runtime.name = "" ∨ runtime.name ≠ strip runtime.name then
    (.error (ConfigurationError "agent runtime must declare a non-empty, trimmed name"), w)
  else
    match scopeId.mapM fun s => w.assertOpen s ("register agent " ++ quoted runtime.name) with
    | .error e => (.error e, w)
    | .ok scope =>
      if w.agents.ids runtime.name ≠ [] ∧ !replace then
        (.error (ConfigurationError "agent name is already registered"
          [("agent", runtime.name)]), w)
      else
        let registration : RuntimeRegistration :=
          ⟨freshId "agent" w.drawn, runtime.name, runtime, scope.map Scope.id⟩
        let w' := { w with drawn := w.drawn + 1 }
        match binder with
        | some e => (.error e, w')
        | none =>
          match scopeId with
          | none =>
            (.ok registration, { w' with agents := w'.agents.insert registration })
          | some s =>
            match w'.cleanup s ("agent " ++ runtime.name) "agent"
                (.releaseAgent registration.registrationId) with
            | .error e => (.error e, w')
            | .ok w'' => (.ok registration, { w'' with agents := w''.agents.insert registration })

end

/-- `unregister` of the tool registry; the error is a `KeyError` -/
def unregisterTool (name : String) (ownerId : Option String) : Except String Bool × Scopes :=
  let (removed, tools) := w.tools.unregister name
    (ownerId.map fun owner (t : RegisteredTool) => decide (t.ownerId = owner))
  (removed, { w with tools := tools })

def unregisterHook (registrationId : String) : Scopes :=
  { w with hooks := w.hooks.pop registrationId }

/-- `unregister` of the agent registry; the error is a `KeyError` -/
def unregisterAgent (name : String) (scopeId : Option String) : Except String Bool × Scopes :=
  let (removed, agents) := w.agents.unregister name
    (scopeId.map fun s (r : RuntimeRegistration) => decide (r.scopeId = some s))
  (removed, { w with agents := agents })

/-! ## closing -/

/-- `aclose`: only the first caller closes -/
def aclose (scopeId : String) : Scopes :=
  match w.scopes.get? scopeId with
  | some s =>
    if s.state = .opened then
      { w with scopes := w.scopes.set scopeId { s with state := .closing } }
    else w
  | none => w

/-- One step of the unwind of a scope that closes.  What it waits for ends, a callback with
`outcome`, a child as it closed; else the newest effect is released and its inverse called. -/
def unwind (scopeId : String) (outcome : Option Err) : Scopes :=
  match w.scopes.get? scopeId with
  | none => w
  | some s =>
    match s.state, s.waiting, s.stack with
    | .closing, some (record, d), _ =>
      let ended (raised : Option Err) : Scopes :=
        { w with
          scopes := w.scopes.set scopeId
            (Scope.recorded { s with waiting := none } record raised) }
      match d with
      | .closeChild c =>
        match w.scopes.get? c with
        | none => ended none
        | some child => if child.state = .closed then ended child.raised else w
      | _ => ended outcome
    | .closing, none, (record, d) :: rest =>
      let s' := { s with effects := s.effects.erase record.effectId, stack := rest }
      let popped : Scopes := { w with scopes := w.scopes.set scopeId s' }
      let awaits : Scopes :=
        { w with scopes := w.scopes.set scopeId { s' with waiting := some (record, d) } }
      match d with
      | .withdraw id => popped.withdraw id
      | .releaseTool id => { popped with tools := (popped.tools.release id).2 }
      | .unregisterHook id => popped.unregisterHook id
      | .releaseAgent id => { popped with agents := (popped.agents.release id).2 }
      | .callback => awaits
      | .closeChild c => awaits.aclose c
    | _, _, _ => w

/-- the end of `_close`: what it raises is kept for those who wait for it -/
def finish (scopeId : String) : Scopes :=
  match w.scopes.get? scopeId with
  | none => w
  | some s =>
    match s.state, s.waiting, s.stack with
    | .closing, none, [] =>
      let failures := s.failures ++ s.unwindError.toList.map fun e => e.recorded "effect unwind"
      let raised := if failures = [] then none else some (EffectCleanupError s.name failures)
      { w with
        scopes := w.scopes.set scopeId
          { s with state := .closed, failures := failures, raised := raised } }
    | _, _, _ => w

end Scopes

inductive ScopeOp
  | construct (name : String)
  | child (scopeId name : String)
  | releaseEffect (scopeId effectId : String)
  /-- `cleanup` of a plugin -/
  | cleanup (scopeId description kind : String)
  /-- `enter_context` and `enter_async_context` of a plugin, and their end -/
  | enter (scopeId description : String)
  | entered (scopeId effectId : String) (failed : Bool)
  | provide (scopeId : String) (key : CapabilityKey) (version : Option String)
    (providerId providerName : String)
  | withdraw (registrationId : String)
  | withdrawProvider (providerId : String)
  | clear
  | registerTool (scopeId : String) (t : ToolDeclaration) (isTool isAsync : Bool)
    (ownerId ownerName : String)
  | unregisterTool (name : String) (ownerId : Option String)
  | registerHook (scopeId : String) (d : HookDeclaration) (ownerId : String)
  | unregisterHook (registrationId : String)
  | registerAgent (runtime : AgentRuntime) (scopeId : Option String) (replace : Bool)
    (binder : Option Err)
  | unregisterAgent (name : String) (scopeId : Option String)
  | aclose (scopeId : String)
  | unwind (scopeId : String) (outcome : Option Err)
  | finish (scopeId : String)

namespace Scopes
variable [Packaging] [Platform]

/-- what a call leaves behind, whether it raises or not -/
def step (w : Scopes) : ScopeOp → Scopes
  | .construct name => (w.construct name none).2
  | .child scopeId name => (w.child scopeId name).2
  | .releaseEffect scopeId effectId => w.releaseEffect scopeId effectId
  | .cleanup scopeId description kind =>
    match w.cleanup scopeId description kind .callback with
    | .error _ => w
    | .ok w' => w'
  | .enter scopeId description =>
    match w.enter scopeId description with
    | .error _ => w
    | .ok w' => w'
  | .entered scopeId effectId failed => w.entered scopeId effectId failed
  | .provide scopeId key version providerId providerName =>
    (w.provide scopeId key version providerId providerName).2
  | .withdraw registrationId => w.withdraw registrationId
  | .withdrawProvider providerId => w.withdrawProvider providerId
  | .clear => w.clear
  | .registerTool scopeId t isTool isAsync ownerId ownerName =>
    (w.registerTool scopeId t isTool isAsync ownerId ownerName).2
  | .unregisterTool name ownerId => (w.unregisterTool name ownerId).2
  | .registerHook scopeId d ownerId => (w.registerHook scopeId d ownerId).2
  | .unregisterHook registrationId => w.unregisterHook registrationId
  | .registerAgent runtime scopeId replace binder =>
    (w.registerAgent runtime scopeId replace binder).2
  | .unregisterAgent name scopeId => (w.unregisterAgent name scopeId).2
  | .aclose scopeId => w.aclose scopeId
  | .unwind scopeId outcome => w.unwind scopeId outcome
  | .finish scopeId => w.finish scopeId

theorem step_cleanup (w : Scopes) (scopeId description kind : String) :
    w.step (.cleanup scopeId description kind) =
      ((w.cleanup scopeId description kind .callback).toOption).getD w := by
  simp only [step]
  cases w.cleanup scopeId description kind .callback <;> rfl

theorem step_enter (w : Scopes) (scopeId description : String) :
    w.step (.enter scopeId description) = ((w.enter scopeId description).toOption).getD w := by
  simp only [step]
  cases w.enter scopeId description <;> rfl

def after (ops : List ScopeOp) : Scopes := Calls.run step {} ops

end Scopes
end Chassis
