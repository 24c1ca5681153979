import Chassis.Core.Identity
import Chassis.Plugins.Registry

/-!
# Impact of a change on composition nodes

* `NodeObservation`     a node as a generation shows it;
* `changedInputs`, `reasonsFor`   what tells two identities apart, and why a node could not be
                        reused;
* `compareNodes`        the fate of a node that both compositions have;
* `analyseImpact`       the fate of every node.
-/

set_option linter.unusedSectionVars false

namespace Chassis
open Py

inductive ReuseDecision
  | unchanged
  | reused
  | rebuilt
  | rewired
  | added
  | removed
  deriving DecidableEq, Repr

inductive ReuseReason
  | configChanged
  | implementationChanged
  | dependencyChanged
  | scopeVisibilityChanged
  | providerSelectionChanged
  | capabilityContractChanged
  | preferenceChanged
  deriving DecidableEq, Repr

/-- the inputs of an identity that are compared by name -/
inductive IdentityInput
  | implementation
  | contracts
  | config
  | scope
  | dependencies
  deriving DecidableEq, Repr

/-- `_REASON_FOR_INPUT` -/
def IdentityInput.reason : IdentityInput → ReuseReason
  | .implementation => .implementationChanged
  | .contracts => .capabilityContractChanged
  | .config => .configChanged
  | .scope => .scopeVisibilityChanged
  | .dependencies => .dependencyChanged

/-- what counts of an identity for behaviour: no instance -/
structure SemanticKey where
  entryId : String
  kind : String
  scopePath : String
  implementation : String
  contracts : String
  config : String
  bindings : List Value
  deriving DecidableEq

namespace SemanticIdentity

def semanticKey (i : SemanticIdentity) : SemanticKey :=
  ⟨i.entryId, i.kind, i.scopePath, i.implementationFingerprint, i.contractFingerprint,
    i.configFingerprint, i.bindings.map DependencyBinding.semanticKey⟩

def semanticallyEqual (i j : SemanticIdentity) : Bool := i.semanticKey = j.semanticKey

/-- `changed_inputs`: those that differ, in a stable order -/
def changedInputs (i j : SemanticIdentity) : List IdentityInput :=
  (if i.implementationFingerprint ≠ j.implementationFingerprint then [.implementation] else []) ++
  (if i.contractFingerprint ≠ j.contractFingerprint then [.contracts] else []) ++
  (if i.configFingerprint ≠ j.configFingerprint then [.config] else []) ++
  (if i.scopePath ≠ j.scopePath then [.scope] else []) ++
  (if i.dependencyFingerprint ≠ j.dependencyFingerprint then [.dependencies] else [])

end SemanticIdentity

/-! ## what is observed -/

/-- One node as one generation shows it.  `semanticId` is the displayable text of its identity, and
`preferences` the preference its bindings recorded, by capability. -/
structure NodeObservation where
  entryId : String
  kind : String
  scopePath : String
  instanceId : String
  identity : Option SemanticIdentity
  scopeView : Option (List String)
  semanticId : Option String
  preferences : String → Option String

/-- what an identity says for display only, and how a scope is viewed -/
structure Explanation where
  semanticId : SemanticIdentity → String
  preference : SemanticIdentity → String → Option String
  scopeView : String → Option (List String)

def observationsFrom (ex : Explanation) (instances : List PluginInstance) :
    Dict String NodeObservation :=
  .ofList (instances.map fun i =>
    let scopePath := (i.semanticIdentity.map SemanticIdentity.scopePath).getD ""
    (i.entryId,
      { entryId := i.entryId
        kind := "plugin"
        scopePath := scopePath
        instanceId := i.instanceId
        identity := i.semanticIdentity
        scopeView := ex.scopeView scopePath
        semanticId := i.semanticIdentity.map ex.semanticId
        preferences := fun capability =>
          i.semanticIdentity.bind fun identity => ex.preference identity capability }))

/-! ## why -/

/-- what `_binding_changes` collects -/
structure BindingChanges where
  selection : Bool := false
  preference : Bool := false
  changed : List String := []

/-- the bindings of an identity by capability, the last one of a name -/
def bindingsByCapability (i : SemanticIdentity) : Dict String DependencyBinding :=
  .ofList (i.bindings.map fun b => (b.capability, b))

/-- one turn of the loop of `_binding_changes` -/
def bindingChange (before after : NodeObservation) (capability : String)
    (previous current : Option DependencyBinding) (c : BindingChanges) : BindingChanges :=
  if previous = current then c
  else
    let selection := match previous, current with
      | some p, some q => p.providerEntryId ≠ q.providerEntryId ||
          p.providerInstanceId ≠ q.providerInstanceId
      | _, _ => true
    let preference := match previous, current with
      | some _, some _ => before.preferences capability ≠ after.preferences capability
      | _, _ => false
    { selection := c.selection || selection
      preference := c.preference || preference
      changed := c.changed ++ (previous.bind DependencyBinding.providerEntryId).toList ++
        (current.bind DependencyBinding.providerEntryId).toList }

def bindingChanges (before after : NodeObservation) (old new : SemanticIdentity) : BindingChanges :=
  let old := bindingsByCapability old
  let new := bindingsByCapability new
  (sorted (old.keys ++ new.keys).dedup).foldl (fun c capability =>
    bindingChange before after capability (old.get? capability) (new.get? capability) c) {}

/-- `_reasons`: the reasons, each once, and the providers of the bindings that changed -/
def reasonsFor (before after : NodeObservation) (inputs : List IdentityInput) :
    List ReuseReason × List String :=
  let named : List ReuseReason := inputs.map IdentityInput.reason
  let changes : BindingChanges :=
    match before.identity, after.identity with
    | some old, some new =>
      if .dependencies ∈ inputs then bindingChanges before after old new else {}
    | _, _ => {}
  let reasons : List ReuseReason := named ++
    (if changes.selection then [.providerSelectionChanged] else []) ++
    (if changes.preference then [.preferenceChanged] else [])
  let reasons : List ReuseReason :=
    if before.scopeView ≠ after.scopeView ∧ .dependencies ∈ inputs ∧
        .scopeVisibilityChanged ∉ reasons then reasons ++ [.scopeVisibilityChanged]
    else reasons
  (reasons.reverse.dedup.reverse, sorted changes.changed.dedup)

/-! ## the decision -/

structure NodeImpact where
  entryId : String
  kind : String
  scopePath : String
  decision : ReuseDecision
  reasons : List ReuseReason := []
  changedInputs : List IdentityInput := []
  dependencyChanges : List String := []
  oldSemanticId : Option String := none
  newSemanticId : Option String := none
  oldInstanceId : Option String := none
  newInstanceId : Option String := none
  sharedInstanceId : Option String := none
  semanticallyUnchanged : Bool := false
  physicallyReused : Bool := false

/-- `_single`, of a node that was added -/
def addedNode (entryId : String) (after : NodeObservation) : NodeImpact :=
  { entryId := entryId
    kind := after.kind
    scopePath := after.scopePath
    decision := .added
    newSemanticId := after.semanticId
    newInstanceId := some after.instanceId }

/-- `_single`, of a node that was removed -/
def removedNode (entryId : String) (before : NodeObservation) : NodeImpact :=
  { entryId := entryId
    kind := before.kind
    scopePath := before.scopePath
    decision := .removed
    oldSemanticId := before.semanticId
    oldInstanceId := some before.instanceId }

/-- an input of the node itself -/
def IdentityInput.own : IdentityInput → Bool
  | .dependencies => false
  | _ => true

/-- what became of a node, given whether it is the same instance, whether it means the same, and
what changed -/
def decisionFor (physicallyReused semanticallyUnchanged : Bool) (inputs : List IdentityInput) :
    ReuseDecision :=
  if semanticallyUnchanged then if physicallyReused then .reused else .unchanged
  else if .dependencies ∈ inputs ∧ ¬ inputs.any IdentityInput.own then .rewired
  else .rebuilt

/-- `_compare` -/
def compareNodes (before after : NodeObservation) : NodeImpact :=
  let physicallyReused : Bool := before.instanceId = after.instanceId
  let (semanticallyUnchanged, inputs) : Bool × List IdentityInput :=
    match before.identity, after.identity with
    | some old, some new => (old.semanticallyEqual new, old.changedInputs new)
    | _, _ => (false, [.implementation])
  let why : List ReuseReason × List String :=
    if semanticallyUnchanged then ([], []) else reasonsFor before after inputs
  { entryId := after.entryId
    kind := after.kind
    scopePath := if after.scopePath = "" then before.scopePath else after.scopePath
    decision := decisionFor physicallyReused semanticallyUnchanged inputs
    reasons := why.1
    changedInputs := if semanticallyUnchanged then [] else inputs
    dependencyChanges := why.2
    oldSemanticId := before.semanticId
    newSemanticId := after.semanticId
    oldInstanceId := some before.instanceId
    newInstanceId := some after.instanceId
    sharedInstanceId := if physicallyReused then some after.instanceId else none
    semanticallyUnchanged := semanticallyUnchanged
    physicallyReused := physicallyReused }

/-- the fate of a node of either composition -/
def nodeImpact (old new : Dict String NodeObservation) (entryId : String) : Option NodeImpact :=
  match old.get? entryId, new.get? entryId with
  | none, none => none
  | none, some after => some (addedNode entryId after)
  | some before, none => some (removedNode entryId before)
  | some before, some after => some (compareNodes before after)

/-- the nodes of `analyse_impact` -/
def analyseImpact (old new : Dict String NodeObservation) (includeUnchanged : Bool) :
    List NodeImpact :=
  let nodes := (sorted (old.keys ++ new.keys).dedup).filterMap (nodeImpact old new)
  if includeUnchanged then nodes else nodes.filter fun node => node.decision ≠ .unchanged

end Chassis
