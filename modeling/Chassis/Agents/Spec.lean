import Chassis.Composition
import Chassis.Plugins.Catalog

/-!
# Agent composition descriptions

* `AgentSpec`       an immutable description of the composition one logical agent sees;
* `AgentRevision`   a spec that was published, with the entries it declared;
* `AgentRegistry`   the runtimes by name, every published revision, and the active ones.

What the constructor of a spec checks is a field here, but for the specifiers: these are parsed
again when the spec is materialized.
-/

namespace Chassis
open Py

/-- reserved scope metadata: the agent and the revision that a scope materialized -/
def agentMetadataKey : String := "chassis.agent"
def agentRevisionMetadataKey : String := "chassis.agent_revision"

/-- `_validate_identifier`: a non-empty, trimmed string without a slash -/
def validIdentifier (s : String) : Bool := s ≠ "" && s = strip s && !s.toList.contains '/'

/-- a plugin contribution: a configuration for a class of the catalog, or a plugin or a class -/
inductive Contribution
  | config (config : Dict String Value)
  | object (plugin : Plugin)
  /-- a class, with its name and its identity -/
  | class (typeName : String) (identity : Nat) (construct : PluginType)

/-- `a == b`: classes are compared by identity -/
def Contribution.same : Contribution → Contribution → Bool
  | .config c, .config d => Value.same (.dict c.items) (.dict d.items)
  | .object p, .object q => p = q
  | .class _ i _, .class _ j _ => i = j
  | _, _ => false

structure AgentSpec where
  name : String
  revision : String := "1"
  scope : Option String := none
  description : String := ""
  runtimeRef : Option String := none
  capabilities : Option (List String) := none
  requires : Dict String String := Dict.empty
  optional : Dict String String := Dict.empty
  plugins : Dict String Contribution := Dict.empty
  tools : Option (List String) := none
  profile : Option String := none
  metadata : Dict String Value := Dict.empty
  name_valid : validIdentifier name = true
  revision_valid : validIdentifier revision = true
  runtime_valid : runtimeRef.all validIdentifier = true
  plugins_valid : plugins.keys.all validIdentifier = true
  scope_canonical : ∀ path ∈ scope, (canonicalScopePath path).isOk = true
  unreserved : metadata.get? agentMetadataKey = none ∧
    metadata.get? agentRevisionMetadataKey = none

namespace AgentSpec

theorem runtime_none : (none : Option String).all validIdentifier = true := rfl

theorem unreserved_empty : (Dict.empty : Dict String Value).get? agentMetadataKey = none ∧
    (Dict.empty : Dict String Value).get? agentRevisionMetadataKey = none := ⟨rfl, rfl⟩

theorem valid_a : validIdentifier "a" = true := by decide +kernel

theorem valid_one : validIdentifier "1" = true := by decide +kernel

theorem valid_two : validIdentifier "2" = true := by decide +kernel

theorem canonical_a : (canonicalScopePath "/a").isOk = true := by decide +kernel

theorem canonical_b : (canonicalScopePath "/b").isOk = true := by decide +kernel

variable (s : AgentSpec)

def scopePath : String := s.scope.getD ("/agents/" ++ s.name)

/-- `a == b`, field by field -/
def same (s t : AgentSpec) : Bool :=
  s.name = t.name && s.revision = t.revision && s.scope = t.scope &&
    s.description = t.description && s.runtimeRef = t.runtimeRef &&
    s.capabilities.map nameSet = t.capabilities.map nameSet && s.requires.same t.requires &&
    s.optional.same t.optional && s.tools.map nameSet = t.tools.map nameSet &&
    s.profile = t.profile && Value.same (.dict s.metadata.items) (.dict t.metadata.items) &&
    s.plugins.items.length = t.plugins.items.length &&
    s.plugins.items.all fun p => (t.plugins.get? p.1).any p.2.same

end AgentSpec

/-- `_describe` of a class or an instance, or the configuration -/
def Contribution.payload : Contribution → Value
  | .config c => .dict c.items
  | .object p => .str ("<" ++ p.typeName ++ ">")
  | .class typeName _ _ => .str ("<" ++ typeName ++ ">")

def namesValue : Option (List String) → Value
  | none => .none
  | some l => .list ((nameSet l).map .str)

def textsValue (d : Dict String String) : Value :=
  .dict ((sortedBy Prod.fst d.items).map fun p => (p.1, .str p.2))

/-- what of a spec affects the composition, before redaction -/
def compositionPayload (s : AgentSpec) : Value :=
  .dict
    [("name", .str s.name), ("revision", .str s.revision), ("scope", .str s.scopePath),
     ("runtime_ref", optionalText s.runtimeRef), ("profile", optionalText s.profile),
     ("capabilities", namesValue s.capabilities), ("requires", textsValue s.requires),
     ("optional", textsValue s.optional), ("tools", namesValue s.tools),
     ("plugins", .dict ((sortedBy Prod.fst s.plugins.items).map fun p => (p.1, p.2.payload)))]

/-- a published revision of one agent's composition -/
structure AgentRevision where
  spec : AgentSpec
  scope : String
  entries : List String
  compositionDigest : String

namespace AgentRevision

def name (r : AgentRevision) : String := r.spec.name
def revision (r : AgentRevision) : String := r.spec.revision
def runtimeRef (r : AgentRevision) : Option String := r.spec.runtimeRef

end AgentRevision

/-- an execution engine -/
structure AgentRuntime where
  name : String
  identity : Nat
  deriving DecidableEq

structure RuntimeRegistration where
  registrationId : String
  name : String
  runtime : AgentRuntime
  scopeId : Option String
  deriving DecidableEq

structure AgentRegistry where
  entries : Dict String RuntimeRegistration := Dict.empty
  /-- the ids of the registrations of a name, oldest first -/
  names : Dict String (List String) := Dict.empty
  specHistory : Dict String (Dict String AgentRevision) := Dict.empty
  activeRevisions : Dict String String := Dict.empty
  retired : List String := []
  ownedScopePaths : List String := []

namespace AgentRegistry
variable (a : AgentRegistry)

def agentNotFound (name : String) : Err :=
  { kind := .Other, message := "agent " ++ quoted name ++ " is not registered"
    context := [("agent", name), ("available", join ", " (sorted a.names.keys))] }

def get (name : String) : Except Err AgentRuntime :=
  match ((a.names.get? name).bind List.getLast?).bind a.entries.get? with
  | some r => .ok r.runtime
  | none => .error (a.agentNotFound name)

/-- `register`, of a runtime whose name is valid, with the id that was drawn for it -/
def register (runtime : AgentRuntime) (registrationId : String) (scopeId : Option String)
    (replace : Bool) : Except Err AgentRegistry :=
  if runtime.name = "" ∨ runtime.name ≠ strip runtime.name then
    .error (ConfigurationError "agent runtime must declare a non-empty, trimmed name")
  else
    let ids := (a.names.get? runtime.name).getD []
    if ids ≠ [] ∧ !replace then
      .error (ConfigurationError "agent name is already registered" [("agent", runtime.name)])
    else .ok { a with
      entries := a.entries.set registrationId ⟨registrationId, runtime.name, runtime, scopeId⟩
      names := a.names.set runtime.name (ids ++ [registrationId]) }

def release (registrationId : String) : AgentRegistry :=
  match a.entries.get? registrationId with
  | none => a
  | some r =>
    { a with
      entries := a.entries.erase registrationId
      names := match ((a.names.get? r.name).getD []).erase registrationId with
        | [] => a.names.erase r.name
        | left => a.names.set r.name left }

def activeSpec (name : String) : Option AgentRevision :=
  (a.activeRevisions.get? name).bind fun revision =>
    ((a.specHistory.get? name).getD Dict.empty).get? revision

def published (name revision : String) : Option AgentRevision :=
  ((a.specHistory.get? name).getD Dict.empty).get? revision

/-- the registration owns the scope it created -/
def own (path : String) : AgentRegistry :=
  { a with ownedScopePaths := if path ∈ a.ownedScopePaths then a.ownedScopePaths
      else a.ownedScopePaths ++ [path] }

def disown (path : String) : AgentRegistry :=
  { a with ownedScopePaths := a.ownedScopePaths.filter (· ≠ path) }

/-- `_spec_history.setdefault(name, {})` -/
def remember (name : String) : AgentRegistry :=
  if (a.specHistory.get? name).isSome then a
  else { a with specHistory := a.specHistory.set name Dict.empty }

def publish (r : AgentRevision) : AgentRegistry :=
  { a with
    specHistory := a.specHistory.set r.name
      (((a.specHistory.get? r.name).getD Dict.empty).set r.revision r)
    activeRevisions := a.activeRevisions.set r.name r.revision
    retired := a.retired.filter (· ≠ r.name) }

def retire (name : String) : AgentRegistry :=
  { a with
    retired := if name ∈ a.retired then a.retired else a.retired ++ [name]
    activeRevisions := a.activeRevisions.erase name }

end AgentRegistry
end Chassis
