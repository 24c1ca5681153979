import Chassis.Core.Identity

/-!
# Plugin entries and instances

The registry owns the desired entries and the instances that were mounted for them; which of them
belong to the composition is not its business.

* `PluginEntry`      a desired plugin, with the revision of its last installation;
* `PluginInstance`   one mounted plugin, owned by one scope;
* `install`, `uninstall`, `candidates`, `instance?`, `forget`   as in the source.
-/

namespace Chassis
open Py

inductive PluginState
  | pending
  | loading
  | active
  | unloading
  | disposed
  | failed
  deriving DecidableEq, Repr

/-- A plugin as it was constructed: `source` tells objects of one class apart, whose `setup` may
differ. -/
structure Plugin where
  manifest : PluginManifest
  config : Dict String Value := Dict.empty
  /-- module and qualified name of its class -/
  implementation : String
  source : Nat := 0
  deriving DecidableEq

structure PluginEntry where
  entryId : String
  plugin : Plugin
  manifest : PluginManifest
  config : Dict String Value
  revision : Nat
  scope : String
  deriving DecidableEq

def PluginEntry.own (e : PluginEntry) : OwnInputs :=
  ⟨e.entryId, e.scope, e.manifest, e.config, e.plugin.implementation⟩

structure PluginInstance where
  instanceId : String
  entryId : String
  manifest : PluginManifest
  plugin : Plugin
  scopeId : String
  config : Dict String Value
  resolved : Dict String CapabilityRegistration
  entryRevision : Nat
  state : PluginState := .pending
  /-- how many live generations reach it -/
  generationRefs : Nat := 0
  semanticIdentity : Option SemanticIdentity := none
  deriving DecidableEq

def PluginInstance.scopeName (i : PluginInstance) : String := "plugin:" ++ i.entryId

structure PluginRegistry where
  entries : Dict String PluginEntry := Dict.empty
  /-- every instance that was mounted and not yet forgotten, by its id -/
  instances : Dict String PluginInstance := Dict.empty
  /-- the ids of the instances of an entry, oldest first -/
  byEntry : Dict String (List String) := Dict.empty
  revisions : Dict String Nat := Dict.empty

namespace PluginRegistry
variable (r : PluginRegistry)

/-! ## desired state -/

/-- the first of `base-2`, `base-3`, … that is free; one of the first so many is -/
def freeSuffix (base : String) : Nat → Nat → String
  | 0, suffix => base ++ "-" ++ toString suffix
  | n + 1, suffix =>
    if (r.entries.get? (base ++ "-" ++ toString suffix)).isSome then freeSuffix base n (suffix + 1)
    else base ++ "-" ++ toString suffix

def defaultEntryId (m : PluginManifest) : String :=
  if (r.entries.get? m.name).isSome then r.freeSuffix m.name r.entries.items.length 2 else m.name

def validEntryId (entryId : String) : Bool := entryId ≠ "" && entryId = strip entryId

/-- `install`: the entry, and the registry after it -/
def install (plugin : Plugin) (entryId : Option String) (replace : Bool) (scope : String) :
    Except Err (PluginEntry × PluginRegistry) :=
  if entryId.any (fun e => !validEntryId e) then
    .error (ConfigurationError "entry id must be a non-empty, trimmed string"
      [("entry", entryId.getD "")])
  else
    let id := entryId.getD (r.defaultEntryId plugin.manifest)
    if (r.entries.get? id).isSome ∧ !replace then
      .error (PluginLoadError "duplicate plugin entry id"
        [("entry_id", id), ("plugin", plugin.manifest.name)])
    else
      let revision := (r.revisions.get? id).getD 0 + 1
      let entry : PluginEntry := ⟨id, plugin, plugin.manifest, plugin.config, revision, scope⟩
      .ok (entry, { r with
        entries := r.entries.set id entry, revisions := r.revisions.set id revision })

/-- `uninstall`: whether there was an entry, and the registry after it -/
def uninstall (entryId : String) : Bool × PluginRegistry :=
  ((r.entries.get? entryId).isSome, { r with entries := r.entries.erase entryId })

def entry? (entryId : String) : Option PluginEntry := r.entries.get? entryId

def sortedEntries : List PluginEntry := sortedBy PluginEntry.entryId r.entries.values

def entriesForScope (path : String) : List String :=
  (r.sortedEntries.filter (fun e => e.scope = path)).map PluginEntry.entryId

/-! ## instances -/

/-- the newest live instance mounted for an entry -/
def instance? (entryId : String) : Option PluginInstance :=
  ((r.byEntry.get? entryId).bind List.getLast?).bind r.instances.get?

def sortedInstances : List PluginInstance :=
  sortedBy PluginInstance.instanceId r.instances.values

/-- an instance mounted for the current revision of its entry -/
def isActive (e : PluginEntry) : Bool :=
  match r.instance? e.entryId with
  | some i => i.state = .active && i.entryRevision = e.revision
  | none => false

/-- the entry and its live registrations, for the resolver -/
def candidate (registrationsOf : String → List CapabilityRegistration) (e : PluginEntry) :
    PluginCandidate :=
  { entryId := e.entryId
    manifest := e.manifest
    instanceId := (r.instance? e.entryId).map PluginInstance.instanceId
    active := r.isActive e
    registrations := match r.instance? e.entryId with
      | some i => if r.isActive e then registrationsOf i.instanceId else []
      | none => []
    scope := e.scope }

def candidates (registrationsOf : String → List CapabilityRegistration) : List PluginCandidate :=
  r.sortedEntries.map (r.candidate registrationsOf)

/-- a new instance is the newest of its entry -/
def adopt (i : PluginInstance) : PluginRegistry :=
  { r with
    instances := r.instances.set i.instanceId i
    byEntry := r.byEntry.set i.entryId ((r.byEntry.get? i.entryId).getD [] ++ [i.instanceId]) }

/-- what happens to an instance is seen by all who hold it -/
def update (instanceId : String) (f : PluginInstance → PluginInstance) : PluginRegistry :=
  match r.instances.get? instanceId with
  | some i => { r with instances := r.instances.set instanceId (f i) }
  | none => r

def forget (i : PluginInstance) : PluginRegistry :=
  { r with
    instances := r.instances.erase i.instanceId
    byEntry := match r.byEntry.get? i.entryId with
      | none => r.byEntry
      | some ids =>
        if i.instanceId ∈ ids then
          match ids.erase i.instanceId with
          | [] => r.byEntry.erase i.entryId
          | left => r.byEntry.set i.entryId left
        else r.byEntry }

end PluginRegistry
end Chassis
