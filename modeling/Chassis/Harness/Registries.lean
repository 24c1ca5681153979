import Chassis.Lib.Owned
import Chassis.Capabilities.Registration
import Chassis.Core.Values
import Chassis.Policy.Permissions

/-!
# The registries of the harness

Capabilities, tools and hooks are registered through the scope of a plugin instance; closing it
withdraws them.

* `CapabilityRegistry`     providers of capability contracts, in a deterministic order;
* `ToolRegistry`           tools, by name;
* `HookRegistry`           handlers of hook events, by priority.
-/

namespace Chassis
open Py

/-! ## capabilities -/

instance : Registration CapabilityRegistration where
  id := CapabilityRegistration.registrationId
  scopeId := CapabilityRegistration.scopeId

abbrev CapabilityRegistry := Owned CapabilityRegistration

/-- registration ids are random, so the order never depends on them -/
def registrationOrder (r : CapabilityRegistration) : List String := [r.providerName, r.providerId]

namespace CapabilityRegistry

def registrations (r : CapabilityRegistry) : List CapabilityRegistration :=
  sortedBy registrationOrder r.all

def byName (r : CapabilityRegistry) (name : String) : List CapabilityRegistration :=
  (registrations r).filter (fun c => c.key.name = name)

/-- what an instance registered -/
def ofProvider (r : CapabilityRegistry) (providerId : String) : List CapabilityRegistration :=
  (registrations r).filter (fun c => c.providerId = providerId)

end CapabilityRegistry

section
variable [Packaging]

/-- the version of a registration has to lie in the generation of its key -/
def registrationVersion (key : CapabilityKey) (version : Option String) : Except Err Version := do
  let parsed ← parseVersion (version.getD key.apiVersion) key.name
  if toString (Packaging.major parsed) ≠ key.apiVersion then
    .error (ConfigurationError "provided version does not match the capability contract generation"
      [("capability", key.str), ("version", parsed.text)])
  else .ok parsed

end

/-! ## tools -/

/-- what a tool says of its arguments -/
inductive InputSchema
  /-- no `get_input_schema` -/
  | absent
  | schema (value : Value)
  /-- the schema cannot be computed -/
  | fails
  deriving DecidableEq

structure RegisteredTool where
  registrationId : String
  name : String
  description : String
  inputSchema : InputSchema
  ownerId : String
  ownerName : String
  scopeId : String
  policy : ToolPolicy := {}
  deriving DecidableEq

instance : Registration RegisteredTool where
  id := RegisteredTool.registrationId
  scopeId := RegisteredTool.scopeId

abbrev ToolRegistry := Owned RegisteredTool

namespace ToolRegistry

def entries (r : ToolRegistry) : List RegisteredTool :=
  sortedBy (fun t => [t.name, t.registrationId]) r.all

/-- the tools owned by given instances -/
def snapshot (r : ToolRegistry) (ownerIds : List String) : List RegisteredTool :=
  sortedBy RegisteredTool.name ((entries r).filter (fun t => t.ownerId ∈ ownerIds))

end ToolRegistry

/-! ## hooks -/

/-- the boundaries at which hooks are dispatched -/
inductive HookEvent
  | pluginMounting
  | pluginMounted
  | pluginUnmounting
  | pluginUnmounted
  | beforeAgentRun
  | afterAgentRun
  | agentError
  | beforeToolExecute
  | afterToolExecute
  | toolError
  | generationPublished
  | generationDraining
  | policyDecision
  deriving DecidableEq, Repr

def HookEvent.value : HookEvent → String
  | .pluginMounting => "plugin_mounting"
  | .pluginMounted => "plugin_mounted"
  | .pluginUnmounting => "plugin_unmounting"
  | .pluginUnmounted => "plugin_unmounted"
  | .beforeAgentRun => "before_agent_run"
  | .afterAgentRun => "after_agent_run"
  | .agentError => "agent_error"
  | .beforeToolExecute => "before_tool_execute"
  | .afterToolExecute => "after_tool_execute"
  | .toolError => "tool_error"
  | .generationPublished => "generation_published"
  | .generationDraining => "generation_draining"
  | .policyDecision => "policy_decision"

inductive HookMode
  | observe
  | transform
  | bail
  deriving DecidableEq, Repr

inductive HookErrorPolicy
  | record
  | raise
  deriving DecidableEq, Repr

structure HookRegistration where
  registrationId : String
  event : HookEvent
  handlerName : String
  mode : HookMode
  priority : Int
  errorPolicy : HookErrorPolicy
  sequence : Nat
  ownerId : String
  scopeId : String
  deriving DecidableEq

instance : Registration HookRegistration where
  id := HookRegistration.registrationId
  scopeId := HookRegistration.scopeId

abbrev HookRegistry := Owned HookRegistration

namespace HookRegistry

/-- the handlers of one event: priority first, then registration order -/
def handlers (r : HookRegistry) (event : HookEvent) : List HookRegistration :=
  sortedBy HookRegistration.priority
    (sortedBy HookRegistration.sequence (r.all.filter (fun h => h.event = event)))

end HookRegistry

end Chassis
