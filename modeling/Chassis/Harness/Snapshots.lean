import Chassis.Harness.System
import Chassis.Tools.Executor

/-!
# What a run sees of its generation

* `toolSnapshot`, `hookSnapshot`   the tools and hooks a run executes against, read from the live
                       registries by the instances of its generation;
* `unregister`         early withdrawals;
* `LateAct owner`      what is registered for the instance `owner`, or withdrawn, after its `setup`;
* `LiveActs may`       what a task does that does not hold the composition lock, with the late acts
                       that `may` allows.
-/

namespace Chassis
open Py Coop

/-! ## the registries -/

namespace ToolRegistry

/-- `unregister`: with an owner, all its registrations of the name; without one, the newest of them
all.  Whether anything was removed, and the registry after it. -/
def unregister (r : ToolRegistry) (name : String) (ownerId : Option String) : Bool × ToolRegistry :=
  match ownerId with
  | none =>
    match (r.all.filter fun t => t.name = name).getLast? with
    | none => (false, r)
    | some newest => (true, r.discard fun t => t.registrationId = newest.registrationId)
  | some owner =>
    let gone (t : RegisteredTool) : Bool := t.name = name && t.ownerId = owner
    (r.all.any gone, r.discard gone)

end ToolRegistry

namespace HookRegistry

/-- all registrations: by event, then priority, then registration order -/
def registrations (r : HookRegistry) : List HookRegistration :=
  sortedBy (fun h => h.event.value)
    (sortedBy HookRegistration.priority (sortedBy HookRegistration.sequence r.all))

/-- the hooks owned by given instances -/
def snapshot (r : HookRegistry) (generationId : String) (ownerIds : List String) : HookSnapshot :=
  ⟨generationId, (registrations r).filter fun h => h.ownerId ∈ ownerIds⟩

/-- `unregister`: whether there was such a registration, and the registry after it -/
def unregister (r : HookRegistry) (registrationId : String) : Bool × HookRegistry :=
  ((r.byId.get? registrationId).isSome, r.discard fun h => h.registrationId = registrationId)

end HookRegistry

/-! ## the views of a generation -/

/-- `_resolved_scope`: the published scope of that path -/
def RuntimeGeneration.resolvedScope (g : RuntimeGeneration) (scope : Option String) :
    Except Err (Option ResolvedScope) :=
  match scope with
  | none => .ok none
  | some path =>
    match g.scopes.get? path with
    | some resolved => .ok (some resolved)
    | none => .error (ConfigurationError "unknown composition scope for this generation"
        [("scope", path), ("generation_id", g.generationId)])

/-- `tool_snapshot`, narrowed to what a scope exposes if one is named -/
def Harness.toolSnapshot (h : Harness) (g : RuntimeGeneration) (scope : Option String) :
    Except Err ToolSnapshot := do
  let entries := ToolRegistry.snapshot h.tools g.instanceIds
  match ← g.resolvedScope scope with
  | none => return ⟨g.generationId, entries⟩
  | some resolved => return ⟨g.generationId,
      sortedBy RegisteredTool.name (entries.filter fun t => t.name ∈ resolved.visibleTools)⟩

def Harness.hookSnapshot (h : Harness) (g : RuntimeGeneration) : HookSnapshot :=
  HookRegistry.snapshot h.hooks g.generationId g.instanceIds

/-! ## after the setup -/

variable [Packaging] [Platform]

/-- An instance whose scope was not closed.  While it is being closed it accepts nothing either, so
that this allows a little more than the scope does. -/
def Harness.ScopeOpen (h : Harness) (i : PluginInstance) : Prop :=
  h.plugins.instances.get? i.instanceId = some i ∧ i.state ≠ .failed

/-- A plugin uses the context it was set up with, at any time: a tool or a hook of the instance
`owner` is registered or withdrawn.  What is refused, or finds nothing to withdraw, is no act. -/
inductive LateAct (owner : String) : Harness → Harness → Prop
  | registerTool {h : Harness} (i : PluginInstance) (t : ToolDeclaration) : h.ScopeOpen i →
    i.instanceId = owner → t.name ≠ "" → t.description ≠ "" → LateAct owner h (h.registerTool i t)
  | registerHook {h : Harness} (i : PluginInstance) (d : HookDeclaration) : h.ScopeOpen i →
    i.instanceId = owner → LateAct owner h (h.registerHook i d)
  | unregisterTool {h : Harness} (name : String) :
    (ToolRegistry.unregister h.tools name (some owner)).1 = true →
    LateAct owner h { h with tools := (ToolRegistry.unregister h.tools name (some owner)).2 }
  /-- by its id: the facade does not ask whose it is -/
  | unregisterHook {h : Harness} {registration : HookRegistration} :
    h.hooks.byId.get? registration.registrationId = some registration →
    registration.ownerId = owner →
    LateAct owner h { h with
      hooks := (HookRegistry.unregister h.hooks registration.registrationId).2 }

/-- what a task does that does not hold the composition lock; `may h owner` says whose
registrations it may add to or withdraw late -/
inductive LiveActs (may : Harness → String → Prop) : Harness → Harness → Prop
  | other {h h' : Harness} : Acts h h' → LiveActs may h h'
  | late {h h' : Harness} {owner : String} : may h owner → LateAct owner h h' → LiveActs may h h'

/-- runs from a new harness, with late acts -/
def LiveRun (may : Harness → String → Prop) (h : Harness)
    (history : List (Event Job Err × HarnessConfig)) (c : HarnessConfig) : Prop :=
  Fresh h ∧ Run (LiveActs may) Job.program ⟨h, none⟩ history c

end Chassis
