import Chassis.Agents.Spec
import Chassis.Config.Models
import Chassis.Core.Generations
import Chassis.Lib.Task

/-!
# The state of a harness

* `Harness`     everything the control plane reads and writes;
* `Operation`   what it awaits: the plugins' `setup` and `teardown`, the closing of a scope, a
                handler of a hook;
* `Answer`      how such an operation ends, and what it did meanwhile;
* `Task`        programs of the control plane.
-/

namespace Chassis
open Py Coop

inductive HarnessState
  | created
  | running
  | stopping
  | stopped
  deriving DecidableEq, Repr

def HarnessState.value : HarnessState → String
  | .created => "created"
  | .running => "running"
  | .stopping => "stopping"
  | .stopped => "stopped"

/-- the desired state: what a plan is computed from -/
structure Desired where
  entries : Dict String PluginEntry
  preferences : Dict String String
  scopes : Dict String CompositionScope
  deriving DecidableEq

/-- The lists a composing task fills: `mounted`, `reused` and `failures` are shared with its
callees and outlive an exception.  `planned` is the desired state its plan was computed from; no
code reads it. -/
structure Work where
  mounted : List PluginInstance := []
  reused : List String := []
  failures : List CleanupFailure := []
  planned : Option Desired := none

structure Harness where
  name : String := "chassis"
  state : HarnessState := .created
  plugins : PluginRegistry := {}
  capabilities : CapabilityRegistry := Owned.empty
  tools : ToolRegistry := Owned.empty
  hooks : HookRegistry := Owned.empty
  /-- how many hooks were registered -/
  hookSequence : Nat := 0
  generations : GenerationManager := {}
  composition : CompositionTree := {}
  /-- what the application provides, with the version it states -/
  provisions : Dict CapabilityKey (Option String) := Dict.empty
  providerPreference : Dict String String := Dict.empty
  configPreferences : Dict String String := Dict.empty
  agents : AgentRegistry := {}
  catalog : PluginCatalog := Dict.empty
  /-- the configuration that was applied most recently -/
  config : Option Declarative.HarnessConfig := none
  /-- the one handed to the constructor, until it is applied -/
  pendingConfig : Option Declarative.HarnessConfig := none
  dirty : Bool := false
  plan : Option ResolutionPlan := none
  lastFailures : List CleanupFailure := []
  redactor : Redactor := []
  /-- whether a recording is attached -/
  replay : Bool := false
  /-- the leases the runs in progress hold, in the frames of `acquire` -/
  runs : List GenerationLease := []
  /-- how many identifiers were drawn -/
  drawn : Nat := 0
  work : Work := {}
  /-- the desired state the current generation was planned from; no code reads it -/
  origin : Option Desired := none

namespace Harness
variable (h : Harness)

/-- programmatic preferences take precedence over those of the configuration -/
def effectivePreferences : Dict String String := h.configPreferences.update h.providerPreference

def desired : Desired := ⟨h.plugins.entries, h.effectivePreferences, h.composition.scopes⟩

def candidates : List PluginCandidate :=
  h.plugins.candidates fun id => CapabilityRegistry.ofProvider h.capabilities id

/-- the redactor tracks what was read -/
def learn (secrets : List String) : Harness :=
  { h with redactor := secrets.foldl Redactor.add h.redactor }

def note (failures : List CleanupFailure) : Harness :=
  { h with work := { h.work with failures := h.work.failures ++ failures } }

end Harness

/-! ## what is awaited -/

structure Dispatch where
  event : HookEvent
  payload : List (String × Value)
  deriving DecidableEq

inductive Operation
  | setup (i : PluginInstance)
  | teardown (i : PluginInstance)
  | close (i : PluginInstance)
  /-- one handler, with the payload the handlers before it left -/
  | handler (d : Dispatch) (registration : HookRegistration) (payload : List (String × Value))
  deriving DecidableEq

structure ToolDeclaration where
  name : String
  description : String
  inputSchema : InputSchema
  policy : ToolPolicy := {}

structure HookDeclaration where
  event : HookEvent
  handlerName : String
  mode : HookMode := .observe
  priority : Int := 0
  errorPolicy : HookErrorPolicy := .record

/-- what `setup` registered through its context, the secrets it read, and what it raised -/
structure SetupAnswer where
  capabilities : List (CapabilityKey × Option String) := []
  tools : List ToolDeclaration := []
  hooks : List HookDeclaration := []
  secrets : List String := []
  raised : Option Err := none

structure TeardownAnswer where
  secrets : List String := []
  raised : Option Err := none

/-- The disposers that failed.  The closing itself is shielded: it is carried through also when the
task that waits for it is cancelled. -/
structure CloseAnswer where
  failures : List CleanupFailure := []
  cancelled : Option Err := none

/-- What a handler returned, as far as a dispatch reads it: the payload it is frozen to, if it is a
mapping, and its truth.  To ask for either runs code of the object, which may raise. -/
structure Returned where
  mapping : Except Err (Option (List (String × Value))) := .ok none
  truth : Except Err Bool := .ok true

/-- what a handler returned, if not `None`, or what it raised -/
abbrev HandlerResult := Except Err (Option Returned)

structure HandlerAnswer where
  secrets : List String := []
  outcome : HandlerResult := .ok none

def Answer : Operation → Type
  | .setup _ => SetupAnswer
  | .teardown _ => TeardownAnswer
  | .close _ => CloseAnswer
  | .handler .. => HandlerAnswer

abbrev Task := Prog Harness Operation Answer Err

end Chassis
