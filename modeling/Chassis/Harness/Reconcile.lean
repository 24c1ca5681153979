import Chassis.Harness.Lifecycle
import Chassis.Plugins.Plan

/-!
# Reconciliation

* `materialize`          mounts or reuses one instance per activated entry;
* `validatePublication`  the registrations against the manifests and the plan;
* `stage`                everything up to the candidate; a failure rolls back what was mounted;
* `reclaim`              retires idle generations and disposes what none reaches;
* `commit`               publication, reclamation and bookkeeping;
* `reconcile`, `reclaimAfterDrain`   the two jobs that hold the composition lock.
-/

namespace Chassis
open Py Coop

variable [Packaging] [Platform]

/-! ## the instances of a plan -/

/-- `_resolutions_for`: each satisfied requirement of an entry, bound to a live registration -/
def Harness.resolutionsFor (h : Harness) (plan : ResolutionPlan) (entryId : String) :
    Dict String CapabilityRegistration :=
  (((plan.planFor entryId).map PluginPlan.requirements).getD []).foldl (fun resolved r =>
    if !r.satisfied then resolved
    else
      match r.providerEntryId.bind h.plugins.instance? with
      | none => resolved
      | some provider =>
        let matching := (CapabilityRegistry.byName h.capabilities r.requirement.name).filter
          fun c => c.providerId = provider.instanceId && r.requirement.accepts c.key c.version
        let exact := matching.filter fun c =>
          some c.key.str = r.providerKey && some c.version.text = r.providerVersion
        match exact ++ matching with
        | [] => resolved
        | c :: _ => resolved.set r.requirement.name c) Dict.empty

/-- `provider_identity`: of the node if it is decided, else of the instance that is mounted -/
def Harness.identityOf (h : Harness) (identities : Dict String SemanticIdentity)
    (provider : String) : Option String :=
  match identities.get? provider with
  | some known => some known.identityDigest
  | none => (h.plugins.instance? provider).bind fun i =>
      i.semanticIdentity.map SemanticIdentity.identityDigest

def Harness.semanticIdentity (h : Harness) (entry : PluginEntry) (plan : ResolutionPlan)
    (identities : Dict String SemanticIdentity) : Except Err SemanticIdentity :=
  buildSemanticIdentity entry.own
    (((plan.planFor entry.entryId).map PluginPlan.requirements).getD [])
    (fun provider => (h.plugins.instance? provider).map PluginInstance.instanceId)
    (h.identityOf identities) h.redactor

/-- the instance of an entry that may be carried over as it is -/
def Harness.reusable (h : Harness) (entry : PluginEntry) (identity : SemanticIdentity) :
    Option PluginInstance :=
  (h.plugins.instance? entry.entryId).filter fun i =>
    i.state = .active && i.entryRevision = entry.revision && i.semanticIdentity = some identity

/-- the instances in activation order, and the identities decided so far -/
structure Progress where
  ordered : List PluginInstance := []
  identities : Dict String SemanticIdentity := Dict.empty

def mountingPayload (entry : PluginEntry) : List (String × Value) :=
  [("plugin", .str entry.manifest.name), ("entry_id", .str entry.entryId),
   ("revision", .int entry.revision),
   ("requirements", .list ((sorted entry.manifest.requires.keys).map .str))]

def mountedPayload (i : PluginInstance) : List (String × Value) :=
  [("plugin", .str i.manifest.name), ("entry_id", .str i.entryId),
   ("instance_id", .str i.instanceId), ("scope_id", .str i.scopeId)]

/-- a new instance of `entry`, which takes the place of `existing` -/
def mountEntry (plan : ResolutionPlan) (entry : PluginEntry) (identity : SemanticIdentity)
    (existing : Option PluginInstance) : Task PluginInstance := do
  observed ⟨.pluginMounting, mountingPayload entry⟩
  let resolved ← Prog.gets fun h => h.resolutionsFor plan entry.entryId
  let mounted ← mount entry resolved existing.isSome
  let i := { mounted with semanticIdentity := some identity }
  Prog.modify fun h => h.updateInstance i fun i => { i with semanticIdentity := some identity }
  observed ⟨.pluginMounted, mountedPayload i⟩
  Prog.modify fun h => { h with work := { h.work with mounted := h.work.mounted ++ [i] } }
  return i

/-- one turn of the loop of `_materialize` -/
def materializeEntry (plan : ResolutionPlan) (p : Progress) (entryId : String) :
    Task Progress := do
  let h ← Prog.gets id
  match h.plugins.entry? entryId with
  | none => return p
  | some entry =>
    let identity ← Prog.ofExcept (h.semanticIdentity entry plan p.identities)
    match h.reusable entry identity with
    | some existing =>
      Prog.modify fun h => { h with work := { h.work with reused := h.work.reused ++ [entryId] } }
      return ⟨p.ordered ++ [existing], p.identities.set entryId identity⟩
    | none =>
      let existing := h.plugins.instance? entryId
      -- a failed instance is released before its entry is tried again
      match existing.filter (fun i => i.state = .failed) with
      | some failed => disposeInstance failed
      | none => pure ()
      let i ← mountEntry plan entry identity existing
      return ⟨p.ordered ++ [i], p.identities.set entryId identity⟩

def materialize (plan : ResolutionPlan) : Task (List PluginInstance) := do
  let progress ← plan.activationOrder.foldlM (materializeEntry plan) {}
  return progress.ordered

/-! ## validation -/

/-- `f"{key} {version}"` of some registrations -/
def registrationTexts (l : List CapabilityRegistration) : List String :=
  l.map fun c => c.key.str ++ " " ++ c.version.text

/-- entries whose satisfied requirements depend on a capability -/
def consumersOf (plan : ResolutionPlan) (capability : String) : List String :=
  plan.activationOrder.filter fun e =>
    (((plan.planFor e).map PluginPlan.requirements).getD []).any fun r =>
      r.satisfied && r.requirement.name = capability

def pluginContractError (message provider : String) (promised : String) (actual consumers : List String) :
    Err :=
  { kind := .PluginContractError, message := message
    context := [("provider", provider), ("promised", promised), ("actual", join ", " actual),
      ("consumers", join ", " consumers)] }

/-- every promised contract is registered by the instance that promised it -/
def Harness.validatePromises (h : Harness) (plan : ResolutionPlan) (i : PluginInstance) :
    Except Err Unit :=
  let actual := CapabilityRegistry.ofProvider h.capabilities i.instanceId
  i.manifest.providedContracts.forM fun p => do
    let key ← CapabilityKey.fromVersion p.1 p.2
    if actual.any (fun c => c.key = key) then .ok ()
    else .error (pluginContractError ("plugin " ++ quoted i.manifest.name ++ " promised " ++
      key.str ++ " but its registrations do not provide it") i.entryId key.str
      (registrationTexts actual) (consumersOf plan p.1))

/-- no tool name twice among the instances of one generation -/
def Harness.validateTools (h : Harness) (instances : List PluginInstance) : Except Err Unit :=
  let names := instances.flatMap fun i =>
    (ToolRegistry.snapshot h.tools [i.instanceId]).map RegisteredTool.name
  match firstRepeated [] names with
  | some name => .error (ConfigurationError "a tool with this name is already registered"
      [("tool", name)])
  | none => .ok ()

/-- every satisfied requirement can be answered by the registrations of its provider -/
def Harness.validateAnswers (h : Harness) (plan : ResolutionPlan) (instances : List PluginInstance)
    (entryId : String) : Except Err Unit :=
  (((plan.planFor entryId).map PluginPlan.requirements).getD []).forM fun r =>
    if !r.satisfied then .ok ()
    else
      let actual := match instances.find? (fun i => some i.entryId = r.providerEntryId) with
        | none => []
        | some i => CapabilityRegistry.ofProvider h.capabilities i.instanceId
      if actual.any (fun c => r.requirement.accepts c.key c.version) then .ok ()
      else .error (pluginContractError ("consumer " ++ quoted entryId ++ " resolved " ++
        r.requirement.str ++ " to " ++ quoted (r.providerEntryId.getD "") ++
        ", whose registrations cannot satisfy it") (r.providerEntryId.getD "") r.requirement.str
        (registrationTexts actual) [entryId])

def Harness.validatePublication (h : Harness) (plan : ResolutionPlan)
    (instances : List PluginInstance) : Except Err Unit := do
  instances.forM (h.validatePromises plan)
  h.validateTools instances
  plan.activationOrder.forM (h.validateAnswers plan instances)

/-! ## the candidate -/

def Harness.snapshotFactory (h : Harness) (instances : List PluginInstance)
    (generationId : String) : CapabilitySnapshot :=
  .fromRegistrations generationId
    ((CapabilityRegistry.registrations h.capabilities).filter fun c =>
      c.providerId ∈ instances.map PluginInstance.instanceId)

def sameComposition (current : RuntimeGeneration) (instances : List PluginInstance)
    (snapshotFactory : String → CapabilitySnapshot) (scopeTree : ScopeTree)
    (preferences : Dict String String) : Bool :=
  decide (instances.map PluginInstance.instanceId = current.instanceIds) &&
    scopeTree.sameObservable current.scopes &&
    current.metadata.providerPreferences.same preferences &&
    decide (snapshotFactory current.generationId = current.snapshot)

/-- what a reconcile is about to publish; `reuse` is the generation it need not replace -/
structure Candidate where
  plan : ResolutionPlan
  instances : List PluginInstance
  scopeTree : ScopeTree
  snapshotFactory : String → CapabilitySnapshot
  reuse : Option RuntimeGeneration

/-- the body of the `try` -/
def assemble (plan : ResolutionPlan) : Task Candidate := do
  let instances ← materialize plan
  let h ← Prog.gets id
  Prog.ofExcept (h.validatePublication plan instances)
  let scopeTree ← Prog.ofExcept (buildScopeTree instances plan
    (CapabilityRegistry.registrations h.capabilities) (ToolRegistry.entries h.tools))
  let reuse := h.generations.current.filter fun current =>
    sameComposition current instances (h.snapshotFactory instances) scopeTree
      h.effectivePreferences
  return ⟨plan, instances, scopeTree, h.snapshotFactory instances, reuse⟩

/-- the context a rollback adds to an error -/
def withRollback (mounted : List PluginInstance) (e : Err) : Err :=
  if e.kind = .PluginContractError then
    { e with context := e.context ++
        [("rolled_back", join ", " (mounted.reverse.map PluginInstance.entryId))] }
  else e

/-- the `except BaseException`: everything mounted is disposed again, the last one first -/
def rollback (error : Err) : Task Candidate := do
  let mounted ← Prog.gets fun h => h.work.mounted
  mounted.reverse.forM disposeInstance
  if error.kind = .PluginSetupError then Prog.modify fun h => h.note error.failures
  else pure ()
  Prog.modify fun h => { h with lastFailures := h.work.failures }
  .raise (withRollback mounted error)

def requireComposable : Task Unit := do
  let h ← Prog.gets id
  if h.state = .created ∨ h.state = .running then return ()
  else .raise (HarnessStateError ("cannot reconcile a harness that is " ++ h.state.value)
    [("harness", h.name), ("state", h.state.value)])

def stage : Task Candidate := do
  requireComposable
  let h ← Prog.gets id
  let plan ← Prog.ofExcept (resolve h.candidates h.effectivePreferences
    (some h.composition.specs))
  Prog.ofExcept plan.raiseForCycles
  Prog.modify fun h => { h with work := { planned := some h.desired } }
  Prog.tryCatch (assemble plan) rollback

/-! ## reclamation -/

/-- how many live generations have an instance -/
def Harness.references (h : Harness) (i : PluginInstance) : Nat :=
  (h.generations.live.filter (fun g => i.instanceId ∈ g.instanceIds)).length

def Harness.refreshReferences (h : Harness) : Harness :=
  { h with plugins := { h.plugins with
      instances := h.plugins.instances.mapValues fun i =>
        { i with generationRefs := h.references i } } }

/-- instances no live generation reaches, and failed ones that are no longer desired -/
def Harness.doomed (h : Harness) : List PluginInstance :=
  h.plugins.sortedInstances.filter fun i =>
    (i.state = .active && i.instanceId ∉ h.generations.reachableInstanceIds) ||
      (i.state = .failed && i.entryId ∉ h.plugins.sortedEntries.map PluginEntry.entryId)

/-- provider and consumer of every binding among the live instances -/
def Harness.liveEdges (h : Harness) : List (String × String) :=
  h.plugins.sortedInstances.flatMap fun i =>
    (i.resolved.values.filter (fun c => (h.plugins.instances.get? c.providerId).isSome)).map
      fun c => (c.providerId, i.instanceId)

/-- those nobody left consumes go first; a cycle goes as a whole.  Every round removes one. -/
def teardownRounds (edges : List (String × String)) : Nat → List String → List String
  | 0, _ => []
  | n + 1, remaining =>
    let ready := sorted (remaining.filter fun id =>
      !edges.any fun e => e.1 = id && decide (e.2 ∈ remaining))
    let ready := if ready = [] then sorted remaining else ready
    ready ++ teardownRounds edges n (remaining.filter (· ∉ ready))

/-- `_teardown_order`: consumers before the providers they reach -/
def Harness.teardownOrder (h : Harness) (target : List PluginInstance) : List PluginInstance :=
  (teardownRounds h.liveEdges target.length (target.map PluginInstance.instanceId)).filterMap
    fun id => target.find? (fun i => i.instanceId = id)

/-- the draining generations without leases retire -/
def retireIdle : Task Unit := do
  let draining ← Prog.gets fun h => h.generations.draining
  (draining.filter (fun g => g.leases = 0)).forM fun g => do
    let m ← Prog.gets fun h => h.generations
    let m ← Prog.ofExcept (m.retire g)
    Prog.modify fun h => { h with generations := m }

/-- `_reclaim`: the entries of the instances it disposed -/
def reclaim : Task (List String) := do
  retireIdle
  Prog.modify Harness.refreshReferences
  let order ← Prog.gets fun h => h.teardownOrder h.doomed
  order.forM disposeInstance
  Prog.modify Harness.refreshReferences
  return order.map PluginInstance.entryId

/-! ## publication -/

/-- `record_snapshot(self.snapshot_for(generation).to_dict())`: of the hashes a snapshot is made
of, those that may fail -/
def Harness.snapshotHashes (h : Harness) (g : RuntimeGeneration) : Except Err (String × String) := do
  let configHash ← stableHash (.dict (g.instances.map fun i =>
    (i.entryId, redactConfig h.redactor (.dict i.config.items))))
  let tools ← (ToolRegistry.snapshot h.tools g.instanceIds).mapM fun t =>
    match t.inputSchema with
    | .absent => .ok (Value.dict [("name", .str t.name), ("description", .str t.description),
        ("args", .none)])
    | .schema value => .ok (Value.dict [("name", .str t.name),
        ("description", .str t.description), ("args", value)])
    | .fails => .error (ConfigurationError "tool input schema cannot be serialized"
        [("tool", t.name)])
  let toolSchemaHash ← stableHash (.list tools)
  return (configHash, toolSchemaHash)

def generationPayload (g : RuntimeGeneration) : List (String × Value) :=
  [("generation_id", .str g.generationId), ("sequence", .int g.sequence)]

def drainingPayload (previous g : RuntimeGeneration) : List (String × Value) :=
  generationPayload previous ++
    [("successor", .str g.generationId), ("leases", .int previous.leases)]

def publishedPayload (g : RuntimeGeneration) (previous : Option RuntimeGeneration) :
    List (String × Value) :=
  generationPayload g ++ [("previous", optionalText (previous.map (·.generationId))),
    ("plugins", .int g.instances.length)]

def Harness.recordSnapshot (h : Harness) (g : RuntimeGeneration) : Except Err Unit :=
  if h.replay then (h.snapshotHashes g).map fun _ => () else .ok ()

/-- what is announced of a new generation, after it became current -/
def announce (g : RuntimeGeneration) (previous : Option RuntimeGeneration) : Task Unit := do
  match previous with
  | some p => observed ⟨.generationDraining, drainingPayload p g⟩
  | none => pure ()
  let h ← Prog.gets id
  Prog.ofExcept (h.recordSnapshot g)
  observed ⟨.generationPublished, publishedPayload g previous⟩

/-- the generation of a candidate, and the manager that built it -/
def Harness.buildGeneration (h : Harness) (c : Candidate) : RuntimeGeneration × GenerationManager :=
  h.generations.build c.snapshotFactory c.instances
    ⟨c.instances.length, c.scopeTree.scopes.length, h.effectivePreferences⟩ c.scopeTree

/-- builds the generation of a candidate and publishes it -/
def publishCandidate (c : Candidate) : Task RuntimeGeneration := do
  let h ← Prog.gets id
  let built := h.buildGeneration c
  let published ← Prog.ofExcept (built.2.publish built.1)
  Prog.modify fun h => { h with generations := published.2, origin := h.work.planned }
  announce built.1 published.1
  return built.1

structure ReconcileResult where
  plan : ResolutionPlan
  generationId : String
  mounted : List String
  reused : List String
  disposed : List String
  failures : List CleanupFailure

/-- nothing changed: the generation stays, and all its instances are reused -/
def keepGeneration (c : Candidate) (g : RuntimeGeneration) : Task RuntimeGeneration := do
  Prog.modify fun h => { h with
    work := { h.work with reused := c.instances.map PluginInstance.entryId }
    origin := h.work.planned }
  return g

/-- the generation that is current from now on -/
def enact (c : Candidate) : Task RuntimeGeneration :=
  match c.reuse with
  | some g => keepGeneration c g
  | none => publishCandidate c

/-- reclamation and bookkeeping -/
def conclude (c : Candidate) (g : RuntimeGeneration) : Task ReconcileResult := do
  let disposed ← reclaim
  Prog.modify fun h => { h with
    plan := some c.plan, dirty := false, lastFailures := h.work.failures }
  let work ← Prog.gets fun h => h.work
  return ⟨c.plan, g.generationId, work.mounted.map PluginInstance.entryId, work.reused, disposed,
    work.failures⟩

/-- everything after the candidate -/
def commit (c : Candidate) : Task ReconcileResult := do
  let g ← enact c
  conclude c g

/-- `Harness.reconcile`, under the composition lock -/
def reconcile : Task ReconcileResult := do
  let candidate ← stage
  commit candidate

def reclaimAfterDrain : Task Unit := do
  let h ← Prog.gets id
  if h.state = .stopping ∨ h.state = .stopped then return ()
  else do
    Prog.modify fun h => { h with work := {} }
    let _ ← reclaim
    Prog.modify fun h => { h with lastFailures := h.lastFailures ++ h.work.failures }

end Chassis
