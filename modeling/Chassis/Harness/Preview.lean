import Chassis.Core.Impact
import Chassis.Harness.Configure
import Chassis.Harness.Reconcile

/-!
# What the next application would do

* `PlanAction`, `PlanResult`   the planning contract: one action an entry, and one for the
                         generation;
* `foreseeEntry`         a turn of `_materialize` that mounts nothing: the identity an entry would
                         have, and whether its instance would be carried over;
* `planAction`, `removeAction`, `rejectAction`   how an entry is classified;
* `preview`              the whole, of the desired state as it is or of a configuration.

Nothing here suspends or changes the harness.
-/

namespace Chassis
open Py Declarative

/-! ## the planning contract -/

inductive ActionKind
  | add
  | remove
  | replace
  | reuse
  | rebuild
  | publish
  | reject
  | noop
  deriving DecidableEq, Repr

inductive ReasonCode
  | entryAdded
  | entryRemoved
  | implementationChanged
  | configurationChanged
  | semanticIdentityUnchanged
  | dependencyChanged
  | capabilityContractChanged
  | scopeVisibilityChanged
  | requirementUnsatisfied
  | requirementAmbiguous
  | pendingDependency
  | pluginCycle
  | revisionChanged
  | instanceInactive
  | compositionChanged
  | compositionUnchanged
  deriving DecidableEq, Repr

def ReasonCode.value : ReasonCode → String
  | .entryAdded => "entry_added"
  | .entryRemoved => "entry_removed"
  | .implementationChanged => "implementation_changed"
  | .configurationChanged => "configuration_changed"
  | .semanticIdentityUnchanged => "semantic_identity_unchanged"
  | .dependencyChanged => "dependency_changed"
  | .capabilityContractChanged => "capability_contract_changed"
  | .scopeVisibilityChanged => "scope_visibility_changed"
  | .requirementUnsatisfied => "requirement_unsatisfied"
  | .requirementAmbiguous => "requirement_ambiguous"
  | .pendingDependency => "pending_dependency"
  | .pluginCycle => "plugin_cycle"
  | .revisionChanged => "revision_changed"
  | .instanceInactive => "instance_inactive"
  | .compositionChanged => "composition_changed"
  | .compositionUnchanged => "composition_unchanged"

/-- whether an action forces a new generation -/
inductive GenerationImpact
  | none
  | newGeneration
  deriving DecidableEq, Repr

def IdentityInput.reasonCode : IdentityInput → ReasonCode
  | .implementation => .implementationChanged
  | .contracts => .capabilityContractChanged
  | .config => .configurationChanged
  | .scope => .scopeVisibilityChanged
  | .dependencies => .dependencyChanged

structure ValidationFailure where
  code : String
  detail : String
  deriving DecidableEq

/-- a requirement that several providers could satisfy -/
structure Ambiguity where
  consumer : String
  capability : String
  requirement : String
  candidates : List String
  preference : Option String := none
  deriving DecidableEq

structure PlanAction where
  action : ActionKind
  reasons : List ReasonCode
  entryId : Option String := none
  plugin : Option String := none
  scope : String := rootScope
  configKeys : List String := []
  causeCapability : Option String := none
  causeProvider : Option String := none
  expectedReuse : Bool := false
  instanceId : Option String := none
  generationImpact : GenerationImpact := .none
  validationFailures : List ValidationFailure := []
  ambiguities : List Ambiguity := []
  deriving DecidableEq

/-- what an application would do -/
structure PlanResult where
  actions : List PlanAction
  wouldPublish : Bool
  currentGenerationId : Option String
  pending : List String
  cycles : List (List String)
  preferences : Dict String String

def PlanResult.actionFor (r : PlanResult) (entryId : String) : Option PlanAction :=
  r.actions.find? fun a => a.entryId = some entryId

variable [Packaging] [Platform]

namespace Harness
variable (h : Harness)

/-! ## one entry -/

/-- what a preview has decided of the entries so far -/
structure Forecast where
  identities : Dict String SemanticIdentity := Dict.empty
  reused : Dict String Bool := Dict.empty
  actions : Dict String PlanAction := Dict.empty

/-- `predicted_instance`: a provider that will be mounted has no instance id yet -/
def predictedInstance (reused : Dict String Bool) (provider : String) : Option String :=
  if reused.get? provider = some false then some ("pending:" ++ provider)
  else (h.plugins.instance? provider).map PluginInstance.instanceId

/-- `_semantic_identity`, in the state that a plan which is not applied yet would lead to -/
def predictedIdentity (entry : PluginEntry) (plan : ResolutionPlan) (f : Forecast) :
    Except Err SemanticIdentity :=
  buildSemanticIdentity entry.own
    (((plan.planFor entry.entryId).map PluginPlan.requirements).getD [])
    (h.predictedInstance f.reused) (h.identityOf f.identities) h.redactor

/-- an entry that no change is about, or one that leaves it as it is -/
def untouched (change : Option DesiredStateChange) : Bool :=
  match change with
  | none => true
  | some c => c.action = .unchanged

/-- an instance that is active, of the revision of the entry, and has the identity -/
def matchesEntry (entry : PluginEntry) (identity : SemanticIdentity) :
    Option PluginInstance → Bool
  | none => false
  | some i => i.state = .active && i.entryRevision = entry.revision &&
      i.semanticIdentity = some identity

/-- what all actions on an entry say of it -/
def actionOn (entry : PluginEntry) (action : ActionKind) (reasons : List ReasonCode)
    (impact : GenerationImpact) : PlanAction where
  action := action
  reasons := reasons
  entryId := some entry.entryId
  plugin := some entry.manifest.identity
  scope := entry.scope
  configKeys := sorted entry.config.keys
  generationImpact := impact

/-- the entry is constructed anew: does its configuration differ, or its implementation? -/
def replacementReason (entry : PluginEntry) : Except Err ReasonCode := do
  let old ← match h.plugins.entry? entry.entryId with
    | none => .ok none
    | some e => (configFingerprint e.manifest.name e.config).map some
  let new ← configFingerprint entry.manifest.name entry.config
  return if old ≠ some new then .configurationChanged else .implementationChanged

/-- the first binding that the recorded identity does not have, or has otherwise -/
def cause (previous identity : SemanticIdentity) : Option DependencyBinding :=
  identity.bindings.find? fun b =>
    match (bindingsByCapability previous).get? b.capability with
    | none => true
    | some old => old.semanticKey ≠ b.semanticKey

/-- why an instance that is mounted cannot be carried over -/
def rebuildReasons (entry : PluginEntry) (identity : SemanticIdentity) (i : PluginInstance) :
    List ReasonCode :=
  (if i.entryRevision ≠ entry.revision then [.revisionChanged] else []) ++
  (match i.semanticIdentity with
    | none => []
    | some previous => sortedBy ReasonCode.value
        ((previous.changedInputs identity).map IdentityInput.reasonCode)) ++
  (if i.state ≠ .active then [.instanceInactive] else [])

def planAction (entry : PluginEntry) (change : Option DesiredStateChange)
    (identity : SemanticIdentity) (existing : Option PluginInstance) (willReuse : Bool) :
    Except Err PlanAction :=
  match change.map DesiredStateChange.action with
  | some .add => .ok (actionOn entry .add [.entryAdded] .newGeneration)
  | some .replace => do
    let reason ← h.replacementReason entry
    return actionOn entry .replace [reason] .newGeneration
  | _ =>
    match existing with
    | none => .ok (actionOn entry .add [.entryAdded] .newGeneration)
    | some i =>
      if willReuse then
        .ok { actionOn entry .reuse [.semanticIdentityUnchanged] .none with
          expectedReuse := true, instanceId := some i.instanceId }
      else
        let changed := i.semanticIdentity.bind fun previous => cause previous identity
        .ok { actionOn entry .rebuild (rebuildReasons entry identity i) .newGeneration with
          causeCapability := changed.map DependencyBinding.capability
          causeProvider := changed.bind DependencyBinding.providerEntryId }

/-- one turn of the loop of `_build_plan_result` -/
def foreseeEntry (plan : ResolutionPlan) (entries : Dict String PluginEntry)
    (changes : Dict String DesiredStateChange) (f : Forecast) (entryId : String) :
    Except Err Forecast :=
  match entries.get? entryId with
  | none => .ok f
  | some entry => do
    let change := changes.get? entryId
    let identity ← h.predictedIdentity entry plan f
    let existing := h.plugins.instance? entryId
    let willReuse := untouched change && matchesEntry entry identity existing
    let action ← h.planAction entry change identity existing willReuse
    return ⟨f.identities.set entryId identity, f.reused.set entryId willReuse,
      f.actions.set entryId action⟩

/-! ## entries that are not activated -/

def hasActive (entryId : String) : Bool :=
  match h.plugins.instance? entryId with
  | none => false
  | some i => i.state = .active

def removeAction (entryId : String) (change : DesiredStateChange) : PlanAction where
  action := .remove
  reasons := [.entryRemoved]
  entryId := some entryId
  plugin := some (change.plugin.getD change.entryId)
  scope := ((h.plugins.entry? entryId).map PluginEntry.scope).getD rootScope
  instanceId := (h.plugins.instance? entryId).map PluginInstance.instanceId
  generationImpact := if h.hasActive entryId then .newGeneration else .none

def requirementReason (r : RequirementResolution) : Option ReasonCode :=
  match r.status with
  | .resolved => none
  | .ambiguous => some .requirementAmbiguous
  | .providerPending => some .pendingDependency
  | _ => some .requirementUnsatisfied

def requirementFailure (r : RequirementResolution) : Option ValidationFailure :=
  match r.status with
  | .resolved | .ambiguous => none
  | status => some ⟨status.value, r.requirement.str⟩

def requirementAmbiguity (planned : PluginPlan) (preferences : Dict String String)
    (r : RequirementResolution) : Option Ambiguity :=
  match r.status with
  | .ambiguous => some {
      consumer := planned.entryId
      capability := r.requirement.name
      requirement := r.requirement.str
      candidates := ((r.assessments.filter fun a => a.eligible && a.visible).map
        ProviderAssessment.providerEntryId).eraseDups
      preference := preference preferences planned.entryId r.requirement.name planned.scope }
  | _ => none

/-- the cycles an entry is in -/
def cyclesOf (plan : ResolutionPlan) (entryId : String) : List (List String) :=
  plan.cycles.filter fun c => entryId ∈ c

def rejectAction (planned : PluginPlan) (entry : Option PluginEntry) (plan : ResolutionPlan)
    (preferences : Dict String String) : PlanAction where
  action := .reject
  reasons := (planned.requirements.filterMap requirementReason ++
    (cyclesOf plan planned.entryId).map fun _ => ReasonCode.pluginCycle).eraseDups
  entryId := some planned.entryId
  plugin := entry.map fun e => e.manifest.identity
  scope := planned.scope
  configKeys := (entry.map fun e => sorted e.config.keys).getD []
  validationFailures := planned.requirements.filterMap requirementFailure ++
    (cyclesOf plan planned.entryId).map fun c =>
      ⟨"plugin_cycle", join " -> " (c ++ c.head?.toList)⟩
  ambiguities := planned.requirements.filterMap (requirementAmbiguity planned preferences)
  generationImpact := if h.hasActive planned.entryId then .newGeneration else .none

/-! ## the whole plan -/

def withRemovals (changes : Dict String DesiredStateChange) (actions : Dict String PlanAction) :
    Dict String PlanAction :=
  changes.items.foldl (fun d p =>
    if p.2.action = .remove then d.set p.1 (h.removeAction p.1 p.2) else d) actions

/-- every other entry of the plan is rejected -/
def withRejections (plan : ResolutionPlan) (entries : Dict String PluginEntry)
    (preferences : Dict String String) (actions : Dict String PlanAction) :
    Dict String PlanAction :=
  plan.plugins.foldl (fun d planned =>
    if (d.get? planned.entryId).isSome then d
    else d.set planned.entryId
      (h.rejectAction planned (entries.get? planned.entryId) plan preferences)) actions

def entryActions (plan : ResolutionPlan) (entries : Dict String PluginEntry)
    (changes : Dict String DesiredStateChange) (preferences : Dict String String) :
    Except Err (List PlanAction) := do
  let forecast ← plan.activationOrder.foldlM (h.foreseeEntry plan entries changes) {}
  let actions := h.withRejections plan entries preferences
    (h.withRemovals changes forecast.actions)
  return (sortedBy Prod.fst actions.items).map Prod.snd

/-- the test of a reconcile that reuses everything -/
def keepsComposition (plan : ResolutionPlan) (preferences : Dict String String)
    (current : RuntimeGeneration) : Except Err Bool := do
  let instances := plan.activationOrder.filterMap h.plugins.instance?
  let scopeTree ← buildScopeTree instances plan
    (CapabilityRegistry.registrations h.capabilities) (ToolRegistry.entries h.tools)
  return sameComposition current instances (h.snapshotFactory instances) scopeTree preferences

/-- an action that cannot do without a new generation -/
def forcing (actions : List PlanAction) : Bool :=
  actions.any fun a => a.generationImpact = .newGeneration

def wouldPublish (plan : ResolutionPlan) (preferences : Dict String String)
    (actions : List PlanAction) : Except Err Bool :=
  match h.generations.current with
  | none => .ok true
  | some current =>
    if forcing actions then .ok true
    else (h.keepsComposition plan preferences current).map not

/-- the action on the generation -/
def publication (would : Bool) : PlanAction where
  action := if would then .publish else .noop
  reasons := [if would then .compositionChanged else .compositionUnchanged]
  generationImpact := if would then .newGeneration else .none

def buildPlanResult (plan : ResolutionPlan) (entries : Dict String PluginEntry)
    (changes : Dict String DesiredStateChange) (preferences : Dict String String) :
    Except Err PlanResult := do
  let actions ← h.entryActions plan entries changes preferences
  let would ← h.wouldPublish plan preferences actions
  return {
    actions := actions ++ [publication would]
    wouldPublish := would
    currentGenerationId := h.generations.current.map RuntimeGeneration.generationId
    pending := plan.pending
    cycles := plan.cycles
    preferences := preferences }

/-! ## the entries of a configuration -/

/-- `_preview_entry`: the entry that an application would install -/
def previewEntry (wanted : PluginEntryConfig) (action : DesiredStateAction) :
    Except Err PluginEntry := do
  let construct ← h.catalog.find wanted.plugin
  match ← construct (some wanted.config) with
  | .other _ => .error (PluginLoadError "plugin does not declare a PluginManifest"
      [("plugin", wanted.plugin)])
  | .plugin plugin =>
    let revision := match h.plugins.entry? wanted.id, action with
      | none, _ | _, .add => 1
      | some existing, .replace => existing.revision + 1
      | some existing, _ => existing.revision
    return ⟨wanted.id, plugin, plugin.manifest, wanted.config, revision, rootScope⟩

def previewEntries (c : Declarative.HarnessConfig) :
    List DesiredStateChange → Dict String PluginEntry → Except Err (Dict String PluginEntry)
  | [], entries => .ok entries
  | change :: rest, entries =>
    if change.action = .remove then previewEntries c rest entries
    else
      match c.entry? change.entryId with
      | none => previewEntries c rest entries
      | some wanted => do
        let entry ← h.previewEntry wanted change.action
        previewEntries c rest (entries.set change.entryId entry)

/-- an entry that an application would touch -/
def mutating (change : Option DesiredStateChange) : Bool :=
  match change with
  | none => false
  | some c => c.action = .add || c.action = .remove || c.action = .replace

/-- one entry as the resolver would find it: a replaced one only declares what it provides -/
def previewCandidate (changes : Dict String DesiredStateChange) (entryId : String)
    (entry : PluginEntry) : PluginCandidate :=
  let current := h.candidates.find? fun c => c.entryId = entryId
  let declaring : PluginCandidate :=
    { entryId := entryId
      manifest := entry.manifest
      instanceId := current.bind PluginCandidate.instanceId
      active := false
      registrations := []
      scope := entry.scope }
  match current with
  | none => declaring
  | some c => if mutating (changes.get? entryId) then declaring else c

def previewCandidates (entries : Dict String PluginEntry)
    (changes : Dict String DesiredStateChange) : List PluginCandidate :=
  (sortedBy Prod.fst entries.items).map fun p => h.previewCandidate changes p.1 p.2

/-- the preferences an application would lead to -/
def previewPreferences (c : Declarative.HarnessConfig) : Dict String String :=
  (preferencesOf c).update h.providerPreference

/-- what a preview is about: the entries, their changes, and the preferences -/
structure Outlook where
  entries : Dict String PluginEntry
  changes : Dict String DesiredStateChange
  preferences : Dict String String

/-- the desired state as it is -/
def outlook : Outlook where
  entries := Dict.ofList (h.plugins.sortedEntries.map fun e => (e.entryId, e))
  changes := Dict.empty
  preferences := h.effectivePreferences

/-- the desired state that a configuration leads to; it is checked as by an application -/
def outlookOf (c : Declarative.HarnessConfig) : Except Err Outlook := do
  h.stageConfig c
  let changes ← diffDesiredState c (← h.installedState)
  let entries ← h.previewEntries c changes Dict.empty
  return ⟨entries, Dict.ofList (changes.map fun change => (change.entryId, change)),
    h.previewPreferences c⟩

def previewPlan (o : Outlook) : Except Err ResolutionPlan :=
  resolve (h.previewCandidates o.entries o.changes) o.preferences (some h.composition.specs)

def previewOutlook (o : Outlook) : Except Err PlanResult := do
  let plan ← h.previewPlan o
  h.buildPlanResult plan o.entries o.changes o.preferences

/-- `preview`, of a configuration that was parsed -/
def preview (config : Option Declarative.HarnessConfig) : Except Err PlanResult := do
  let o ← match config with
    | none => .ok h.outlook
    | some c => h.outlookOf c
  h.previewOutlook o

end Harness
end Chassis
