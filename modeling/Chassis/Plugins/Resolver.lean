import Mathlib.Data.List.Lex
import Mathlib.Data.List.Dedup
import Chassis.Lib.Kahn
import Chassis.Capabilities.Registration
import Chassis.Plugins.Manifest
import Chassis.Plugins.Scopes

/-!
# Dependency resolution over a hierarchical composition

Given the desired plugins, the scopes they live in and the providers at hand: which plugins may
activate, in what order, and why are the others pending?

* `PluginCandidate`, `ProviderOption`   what is considered, and what it offers;
* `ScopeView`                           what one scope can observe;
* `resolveOne`                          one requirement: its status, its provider and why;
* `fixpoint`                            the elimination of the entries that cannot activate;
* `detectCycles`                        Tarjan's components of the declared graph;
* `resolve`                             the whole plan.

The mappings by capability name of the source (`visible`, `pool`, `all_options_by_name`) are
lists here, filtered by name where they are read.
-/

set_option linter.unusedSectionVars false

namespace Chassis
open Py

/-! ## what is considered -/

inductive RequirementStatus
  | resolved
  | noProvider
  | versionMismatch
  | ambiguous
  | selfReference
  | notVisible
  | providerPending
  deriving DecidableEq, Repr

inductive PlanStatus
  | eligible
  | pending
  deriving DecidableEq, Repr

/-- where a provider lives, seen from the consumer -/
inductive ProviderOrigin
  | «local»
  | inherited
  | unrelated
  deriving DecidableEq, Repr

inductive Rejection
  | selfReference
  | notVisible
  | capabilityNotExposed
  | providerPending
  | contractMismatch
  | versionMismatch
  | ambiguous
  | notSelected
  deriving DecidableEq, Repr

inductive SelectionReason
  | onlyEligible
  | explicitPreference
  deriving DecidableEq, Repr

inductive ConsumerKind
  | plugin
  | scope
  deriving DecidableEq, Repr

/-- one plugin considered for the next composition -/
structure PluginCandidate where
  entryId : String
  manifest : PluginManifest
  instanceId : Option String := none
  active : Bool := false
  registrations : List CapabilityRegistration := []
  scope : String := rootScope
  deriving DecidableEq

/-- a provider that could satisfy a requirement -/
structure ProviderOption where
  entryId : String
  instanceId : Option String
  providerName : String
  key : CapabilityKey
  version : Version
  active : Bool
  scope : String
  deriving DecidableEq

/-- why one provider was or was not viable for one requirement -/
structure ProviderAssessment where
  providerEntryId : String
  providerInstanceId : Option String
  providerName : String
  version : String
  scope : String
  origin : ProviderOrigin
  visible : Bool
  eligible : Bool
  selected : Bool
  rejection : Option Rejection
  deriving DecidableEq

/-- why a requirement is satisfied or not, with its provenance -/
structure RequirementResolution where
  requirement : CapabilityRequirement
  status : RequirementStatus
  providerEntryId : Option String
  providerInstanceId : Option String
  providerName : Option String
  providerVersion : Option String
  providerKey : Option String
  explain : String
  consumer : String
  consumerKind : ConsumerKind
  providerScope : Option String
  providerOrigin : Option ProviderOrigin
  selectionReason : Option SelectionReason
  assessments : List ProviderAssessment
  deriving DecidableEq

def RequirementResolution.satisfied (r : RequirementResolution) : Bool := r.status = .resolved

/-- a hard requirement that is not satisfied -/
def RequirementResolution.blocks (r : RequirementResolution) : Bool :=
  !r.satisfied && !r.requirement.optional

structure PluginPlan where
  entryId : String
  manifest : PluginManifest
  status : PlanStatus
  instanceId : Option String
  active : Bool
  order : Option Nat
  requirements : List RequirementResolution
  reasons : List String
  scope : String
  deriving DecidableEq

/-- resolved plan for one composition scope -/
structure ScopePlan where
  path : String
  name : String
  parent : Option String
  children : List String
  capabilities : Option (List String)
  entries : List String
  order : List String
  pending : List String
  providers : List (String × List String)
  inherited : List (String × List String)
  visible : List (String × List String)
  requirements : List RequirementResolution
  provenance : List RequirementResolution
  metadata : Dict String Value
  tools : Option (List String)
  deriving DecidableEq

structure ResolutionPlan where
  plugins : List PluginPlan
  activationOrder : List String
  pending : List String
  edges : List (String × String)
  cycles : List (List String)
  scopes : List ScopePlan
  deriving DecidableEq

def ResolutionPlan.planFor (p : ResolutionPlan) (entryId : String) : Option PluginPlan :=
  p.plugins.find? (fun q => q.entryId = entryId)

def ResolutionPlan.scopeFor (p : ResolutionPlan) (path : String) : Option ScopePlan :=
  p.scopes.find? (fun s => s.path = path)

/-- raises `PluginCycleError` if the declared graph has cycles -/
def ResolutionPlan.raiseForCycles (p : ResolutionPlan) : Except Err Unit :=
  if p.cycles ≠ [] then
    let rendered := p.cycles.map fun c => join " -> " (c ++ c.head?.toList)
    .error { kind := .PluginCycleError
             message := "dependency cycle detected: " ++ join "; " rendered
             context := [("cycles", join "; " rendered)] }
  else .ok ()

/-! ## options -/

section
variable [Packaging]

/-- a candidate with everything that is parsed out of its manifest -/
structure Prepared where
  candidate : PluginCandidate
  declared : List ProviderOption
  providedKeys : List CapabilityKey
  required : List CapabilityRequirement
  optional : List CapabilityRequirement
  deriving DecidableEq

namespace Prepared

def entryId (p : Prepared) : String := p.candidate.entryId
def scope (p : Prepared) : String := p.candidate.scope

/-- hard requirements, then soft ones -/
def requirements (p : Prepared) : List CapabilityRequirement := p.required ++ p.optional

/-- what the live registrations of an active instance offer -/
def registrationOptions (c : PluginCandidate) : List ProviderOption :=
  c.registrations.map fun r =>
    { entryId := c.entryId, instanceId := c.instanceId, providerName := r.providerName,
      key := r.key, version := r.version, active := true, scope := c.scope }

/-- an active plugin offers what it registered, the others what they declare -/
def options (p : Prepared) : List ProviderOption :=
  if p.candidate.active then registrationOptions p.candidate else p.declared

end Prepared

def declaredOptions (c : PluginCandidate) : Except Err (List ProviderOption) :=
  c.manifest.providedContracts.mapM fun nv => do
    let key ← CapabilityKey.fromVersion nv.1 nv.2
    let version ← parseVersion nv.2 nv.1
    return ⟨c.entryId, c.instanceId, c.manifest.name, key, version, c.active, c.scope⟩

/-- Everything the plan needs from the manifests, in the order in which the source parses it: all
declared options, all hard requirements, then the rest of each entry. -/
def prepare (ordered : List PluginCandidate) : Except Err (List Prepared) := do
  let declared ← ordered.mapM fun c => do return (c, ← declaredOptions c)
  let required ← declared.mapM fun p => do return (p, ← p.1.manifest.requiredCapabilities)
  required.mapM fun p => do
    let optional ← p.1.1.manifest.optionalCapabilities
    let providedKeys ← p.1.1.manifest.providedKeys
    return ⟨p.1.1, p.1.2, providedKeys, p.2, optional⟩

/-- candidates by entry id, no id twice -/
def orderedCandidates (candidates : List PluginCandidate) : Except Err (List PluginCandidate) :=
  let ordered := sortedBy PluginCandidate.entryId candidates
  match firstRepeated [] (ordered.map PluginCandidate.entryId) with
  | some entryId =>
    .error (ConfigurationError "duplicate desired plugin entry id" [("entry_id", entryId)])
  | none => .ok ordered

/-- the key providers are sorted by -/
def optionOrder (o : ProviderOption) : List String :=
  [o.providerName, o.entryId, o.instanceId.getD "", o.version.text, o.scope]

/-- `option == selected`: versions compare as versions -/
def ProviderOption.same (o o' : ProviderOption) : Bool :=
  o.entryId = o'.entryId && o.instanceId = o'.instanceId && o.providerName = o'.providerName &&
    o.key = o'.key && Packaging.versionEq o.version o'.version && o.active = o'.active &&
    o.scope = o'.scope

/-! ## views -/

/-- what one scope can observe while resolving -/
structure ScopeView where
  path : String
  lineage : List String
  allowed : Option (List String)
  eligible : List String
  options : List ProviderOption

namespace ScopeView

def visible (v : ScopeView) (name : String) : List ProviderOption :=
  sortedBy optionOrder (v.options.filter (fun o => o.key.name = name))

/-- `view.pool.get(name, ())`: of the visible options, those of eligible entries -/
def pool (v : ScopeView) (name : String) : List ProviderOption :=
  sortedBy optionOrder
    ((v.options.filter (fun o => o.key.name = name)).filter (fun o => o.entryId ∈ v.eligible))

def origin (v : ScopeView) (providerScope : String) : ProviderOrigin :=
  if providerScope = v.path then .local
  else if providerScope ∈ v.lineage then .inherited
  else .unrelated

end ScopeView

/-- every option in the lineage of a scope that its view exposes -/
def visibleOptions (index : ScopeIndex) (entries : List Prepared) (path : String) :
    List ProviderOption :=
  (index.lineage path).flatMap fun ancestor =>
    (entries.filter (fun p => p.scope = ancestor)).flatMap fun p =>
      p.options.filter (fun o => index.exposes path o.key.name)

/-- `views[path]` of one iteration -/
def buildView (index : ScopeIndex) (entries : List Prepared) (eligible : List String)
    (path : String) : ScopeView :=
  { path := path
    lineage := index.lineage path
    allowed := index.allowed path
    eligible := eligible
    options := visibleOptions index entries path }

/-! ## one requirement -/

/-- most specific preference wins: consumer, then scope, then global -/
def preference (selection : Dict String String) (consumer capability scope : String) :
    Option String :=
  match selection.get? (consumer ++ ":" ++ capability) with
  | some p => some p
  | none =>
    match selection.get? ("scope:" ++ scope ++ ":" ++ capability) with
    | some p => some p
    | none => selection.get? capability

def resolvedExplain (o : ProviderOption) (consumerScope : String) : String :=
  let base := "provided by " ++ o.entryId ++ " (" ++ o.providerName ++ " " ++ o.version.text ++ ")"
  if o.scope = consumerScope then base else base ++ " inherited from " ++ o.scope

def offeredMessage (options : List ProviderOption) : String :=
  "no provider satisfies the requirement; registered: " ++
    join ", " (options.map fun o => o.entryId ++ "@" ++ o.version.text)

/-- entry ids of some options, as a set -/
def entryIds (options : List ProviderOption) : List String :=
  sorted (options.map ProviderOption.entryId).dedup

def assessments (options : List ProviderOption) (view : ScopeView)
    (requirement : CapabilityRequirement) (excludeEntry : Option String)
    (selected : Option ProviderOption) (status : RequirementStatus) : List ProviderAssessment :=
  (sortedBy optionOrder options).map fun o =>
    let isVisible := (view.visible requirement.name).any (fun v => o.same v)
    let relation := view.origin o.scope
    let isSelected := match selected with
      | some s => o.same s
      | none => false
    let rejection : Option Rejection :=
      if some o.entryId = excludeEntry then some .selfReference
      else if !isVisible then
        if relation = .unrelated then some .notVisible else some .capabilityNotExposed
      else if o.entryId ∉ view.eligible then some .providerPending
      else if !requirement.accepts o.key o.version then
        if requirement.key.apiVersion ≠ "" ∧ o.key.apiVersion ≠ requirement.key.apiVersion then
          some .contractMismatch
        else some .versionMismatch
      else if isSelected then none
      else if status = .ambiguous then some .ambiguous
      else some .notSelected
    { providerEntryId := o.entryId, providerInstanceId := o.instanceId,
      providerName := o.providerName, version := o.version.text, scope := o.scope,
      origin := relation, visible := isVisible,
      eligible := isVisible && decide (o.entryId ∈ view.eligible) &&
        decide (some o.entryId ≠ excludeEntry) && requirement.accepts o.key o.version,
      selected := isSelected, rejection := rejection }

/-- what the choice among the acceptable options comes to -/
structure Choice where
  status : RequirementStatus
  explain : String
  selected : Option ProviderOption := none
  reason : Option SelectionReason := none

def matchingOptions (requirement : CapabilityRequirement) (poolOpts : List ProviderOption) :
    List ProviderOption :=
  sortedBy optionOrder (poolOpts.filter (fun o => requirement.accepts o.key o.version))

/-- the only acceptable option, or the preferred one -/
def chooseOption (consumer : String) (requirement : CapabilityRequirement) (path : String)
    (selection : Dict String String) : List ProviderOption → Option Choice
  | [] => none
  | [o] => some ⟨.resolved, resolvedExplain o path, some o, some .onlyEligible⟩
  | o :: o' :: os =>
    let selected := (preference selection consumer requirement.name path).bind fun preferred =>
      (o :: o' :: os).find? (fun x => x.entryId = preferred)
    match selected with
    | some s => some ⟨.resolved, resolvedExplain s path ++ " (explicit provider preference)",
        some s, some .explicitPreference⟩
    | none => some ⟨.ambiguous, "ambiguous provider selection among " ++
        join ", " ((o :: o' :: os).map ProviderOption.entryId) ++
        "; select one explicitly with provider preference", none, none⟩

/-- why there is nothing to choose from -/
def unmetChoice (requirement : CapabilityRequirement) (view : ScopeView)
    (allOptions : List ProviderOption) (excludeEntry : Option String)
    (providedKeys : List CapabilityKey) (poolOpts : List ProviderOption) : Choice :=
  let visibleExcl :=
    (view.visible requirement.name).filter (fun o => some o.entryId ≠ excludeEntry)
  if poolOpts ≠ [] then ⟨.versionMismatch, offeredMessage poolOpts, none, none⟩
  else if visibleExcl.any (fun o => requirement.accepts o.key o.version) then
    ⟨.providerPending, "provider(s) " ++ join ", " (entryIds visibleExcl) ++ " for " ++
      quoted requirement.name ++ " are visible but not active in this composition", none, none⟩
  else if visibleExcl ≠ [] then ⟨.versionMismatch, offeredMessage visibleExcl, none, none⟩
  else if allOptions.any (fun o => o.key.name = requirement.name ∧ some o.entryId ≠ excludeEntry)
  then
    ⟨.notVisible, "no provider for " ++ quoted requirement.name ++ " is visible in scope " ++
      view.path, none, none⟩
  else if providedKeys.any (fun k => k.name = requirement.name) then
    ⟨.selfReference, "the only declared provider is the consumer itself", none, none⟩
  else ⟨.noProvider, "no provider for " ++ quoted requirement.name, none, none⟩

def resolveOne (consumer : String) (kind : ConsumerKind) (requirement : CapabilityRequirement)
    (view : ScopeView) (selection : Dict String String) (allOptions : List ProviderOption)
    (excludeEntry : Option String) (providedKeys : List CapabilityKey) : RequirementResolution :=
  let poolOpts := (view.pool requirement.name).filter (fun o => some o.entryId ≠ excludeEntry)
  let choice :=
    match chooseOption consumer requirement view.path selection
        (matchingOptions requirement poolOpts) with
    | some choice => choice
    | none => unmetChoice requirement view allOptions excludeEntry providedKeys poolOpts
  { requirement := requirement
    status := choice.status
    providerEntryId := choice.selected.map ProviderOption.entryId
    providerInstanceId := choice.selected.bind ProviderOption.instanceId
    providerName := choice.selected.map ProviderOption.providerName
    providerVersion := choice.selected.map fun o => o.version.text
    providerKey := choice.selected.map fun o => o.key.str
    explain := choice.explain
    consumer := consumer
    consumerKind := kind
    providerScope := choice.selected.map ProviderOption.scope
    providerOrigin := choice.selected.map fun o => view.origin o.scope
    selectionReason := choice.reason
    assessments := assessments (allOptions.filter (fun o => o.key.name = requirement.name)) view
      requirement excludeEntry choice.selected choice.status }

/-- the requirements of one entry against the view of its scope -/
def resolveRequirements (p : Prepared) (view : ScopeView) (selection : Dict String String)
    (allOptions : List ProviderOption) : List RequirementResolution :=
  p.requirements.map fun requirement =>
    resolveOne p.entryId .plugin requirement view selection allOptions (some p.entryId)
      p.providedKeys

/-! ## the fixpoint -/

/-- what the loop carries: who is still eligible, and how its requirements resolved last -/
structure Eligibility where
  eligible : List String
  resolutions : Dict String (List RequirementResolution)

/-- the inner loop body: `candidate` against the views of the pass -/
def visit (resolve : Prepared → List RequirementResolution) (s : Eligibility × Bool)
    (p : Prepared) : Eligibility × Bool :=
  if p.entryId ∉ s.1.eligible then s
  else
    let rs := resolve p
    let resolutions := s.1.resolutions.set p.entryId rs
    if rs.any RequirementResolution.blocks then
      (⟨s.1.eligible.filter (· ≠ p.entryId), resolutions⟩, true)
    else (⟨s.1.eligible, resolutions⟩, s.2)

/-- how the requirements of `p` resolve when the entries in `eligible` remain -/
def resolutionsIn (index : ScopeIndex) (entries : List Prepared) (selection : Dict String String)
    (eligible : List String) (p : Prepared) : List RequirementResolution :=
  resolveRequirements p (buildView index entries eligible p.scope) selection
    (entries.flatMap Prepared.options)

/-- The elimination loop.  A pass that changes something drops an entry, so after as many passes
as there are entries nobody is left to resolve. -/
def fixpoint (index : ScopeIndex) (entries : List Prepared) (selection : Dict String String) :
    Nat → Eligibility → Eligibility
  | 0, s => s
  | n + 1, s =>
    let r := entries.foldl (visit (resolutionsIn index entries selection s.eligible)) (s, false)
    if r.2 then fixpoint index entries selection n r.1 else r.1

/-! ## order and cycles -/

/-- provider and consumer of every selection among the eligible entries -/
def dependencyEdges (eligible : List (String × List RequirementResolution)) :
    List (String × String) :=
  (sortedBy (fun e => [e.1, e.2]) (eligible.flatMap fun p =>
    p.2.filterMap fun r => r.providerEntryId.bind fun provider =>
      if provider = p.1 then none else some (provider, p.1))).dedup

/-- Kahn's order, ties broken by entry id -/
def activationOrder (eligible : List String) (edges : List (String × String))
    (excluded : List String) : List String :=
  Kahn.sort (sorted (eligible.filter (· ∉ excluded))) edges

/-- state of Tarjan's algorithm -/
structure Tarjan where
  counter : Nat := 0
  indices : Dict String Nat := Dict.empty
  lowlink : Dict String Nat := Dict.empty
  stack : List String := []
  components : List (List String) := []
  /-- the frames, innermost first: a node and the neighbours it has still to look at -/
  work : List (String × List String) := []

namespace Tarjan

def low (s : Tarjan) (v : String) : Nat := (s.lowlink.get? v).getD 0
def idx (s : Tarjan) (v : String) : Nat := (s.indices.get? v).getD 0

/-- a node seen for the first time gets its number -/
def enter (s : Tarjan) (node : String) : Tarjan :=
  match s.indices.get? node with
  | some _ => s
  | none =>
    { s with indices := s.indices.set node s.counter, lowlink := s.lowlink.set node s.counter,
             counter := s.counter + 1, stack := node :: s.stack }

/-- looks at neighbours up to the first new one, which is returned with those after it -/
def scan (s : Tarjan) (node : String) : List String → Tarjan × Option (String × List String)
  | [] => (s, none)
  | neighbour :: rest =>
    match s.indices.get? neighbour with
    | none => (s, some (neighbour, rest))
    | some i =>
      let s := if neighbour ∈ s.stack then
          { s with lowlink := s.lowlink.set node (min (s.low node) i) }
        else s
      scan s node rest

/-- the frame of `node` is done: its parent learns its lowlink, a root closes its component -/
def leave (s : Tarjan) (node : String) (work : List (String × List String)) : Tarjan :=
  let lowlink := match work with
    | [] => s.lowlink
    | (parent, _) :: _ => s.lowlink.set parent (min (s.low parent) (s.low node))
  let s := { s with lowlink := lowlink, work := work }
  if s.low node = s.idx node then
    let members := s.stack.takeWhile (· ≠ node) ++ [node]
    { s with stack := (s.stack.dropWhile (· ≠ node)).tail,
             components := s.components ++ [sorted members] }
  else s

/-- one turn of the `while work` loop -/
def turn (adjacency : String → List String) (s : Tarjan) : Tarjan :=
  match s.work with
  | [] => s
  | (node, neighbours) :: rest =>
    let s := s.enter node
    match s.scan node neighbours with
    | (s, some (neighbour, left)) =>
      { s with work := (neighbour, sorted (adjacency neighbour)) :: (node, left) :: rest }
    | (s, none) => s.leave node rest

def turns (adjacency : String → List String) : Nat → Tarjan → Tarjan
  | 0, s => s
  | n + 1, s => if s.work = [] then s else turns adjacency n (turn adjacency s)

end Tarjan

/-- Iterative Tarjan.  Every turn enters a node for good or leaves one, so twice as many turns as
nodes are enough. -/
def stronglyConnectedComponents (nodes : List String) (adjacency : String → List String) :
    List (List String) :=
  ((sorted nodes).foldl (fun s root =>
    match s.indices.get? root with
    | some _ => s
    | none => Tarjan.turns adjacency (2 * nodes.length + 1)
        { s with work := [(root, sorted (adjacency root))] }) ({} : Tarjan)).components

/-- the consumers of `provider` in the observable declared graph, hard requirements only -/
def declaredConsumers (index : ScopeIndex) (entries : List Prepared) (provider : String) :
    List String :=
  ((entries.filter fun c => c.required.any fun r =>
    (entries.flatMap Prepared.declared).any fun o =>
      o.entryId = provider && o.key.name = r.name && o.entryId ≠ c.entryId &&
        index.canSee c.scope o.scope r.name && r.accepts o.key o.version).map
    Prepared.entryId).dedup

/-- strongly connected components of more than one entry in the declared graph -/
def detectCycles (index : ScopeIndex) (entries : List Prepared) : List (List String) :=
  sorted ((stronglyConnectedComponents (entries.map Prepared.entryId)
    (declaredConsumers index entries)).filter (fun c => 1 < c.length) |>.map sorted)

/-! ## the plan -/

def finalEligibility (index : ScopeIndex) (entries : List Prepared)
    (selection : Dict String String) : Eligibility :=
  fixpoint index entries selection entries.length ⟨entries.map Prepared.entryId, Dict.empty⟩

def byEntry (entries : List Prepared) (entryId : String) : Option Prepared :=
  entries.find? (fun p => p.entryId = entryId)

/-- names of the visible options, in order -/
def viewNames (v : ScopeView) : List String := sorted (v.options.map fun o => o.key.name).dedup

def scopePlan (index : ScopeIndex) (entries : List Prepared) (plans : List PluginPlan)
    (view : ScopeView) (order pendingSet : List String) (selection : Dict String String)
    (spec : ScopeSpec) : ScopePlan :=
  let allOptions := entries.flatMap Prepared.options
  let here := sorted ((entries.filter (fun p => p.scope = spec.path)).map Prepared.entryId)
  let owners (keep : ProviderOption → Bool) : List (String × List String) :=
    (viewNames view).filterMap fun name =>
      match entryIds ((view.visible name).filter keep) with
      | [] => none
      | ids => some (name, ids)
  let requirements := spec.requirements.map fun r =>
    resolveOne spec.path .scope r view selection allOptions none []
  { path := spec.path
    name := spec.name
    parent := spec.parent
    children := index.children spec.path
    capabilities := view.allowed.map sorted
    entries := here
    order := sortedBy (fun e => order.idxOf e) (here.filter (· ∈ order))
    pending := here.filter (· ∈ pendingSet)
    providers := owners (fun o => o.scope = spec.path)
    inherited := owners (fun o => o.scope ≠ spec.path)
    visible := (viewNames view).map fun name => (name, entryIds (view.visible name))
    requirements := requirements
    provenance := sortedBy (fun r => [r.consumer, r.requirement.name]) (requirements ++
      here.flatMap fun e => (plans.filter (fun p => p.entryId = e)).flatMap PluginPlan.requirements)
    metadata := spec.metadata
    tools := spec.tools.map sorted }

def entryPlan (p : Prepared) (status : PlanStatus) (order : Option Nat)
    (requirements : List RequirementResolution) (reasons : List String) : PluginPlan :=
  { entryId := p.entryId, manifest := p.candidate.manifest, status := status,
    instanceId := p.candidate.instanceId, active := p.candidate.active, order := order,
    requirements := requirements, reasons := reasons, scope := p.scope }

/-- plans of the activated entries, with the resolutions the loop recorded last -/
def activePlans (entries : List Prepared) (final : Eligibility) (order : List String) :
    List PluginPlan :=
  order.filterMap fun e => (byEntry entries e).bind fun p =>
    (final.resolutions.get? e).map fun rs => entryPlan p .eligible (some (order.idxOf e)) rs []

/-- the entries left out, members of cycles apart -/
def pendingEntries (entries : List Prepared) (eligible cycleMembers : List String) :
    List Prepared :=
  entries.filter (fun p => p.entryId ∉ eligible ∧ p.entryId ∉ cycleMembers)

/-- a pending entry is resolved once more, against those that remain -/
def pendingPlan (resolve : Prepared → List RequirementResolution) (p : Prepared) : PluginPlan :=
  entryPlan p .pending none (resolve p)
    (((resolve p).filter RequirementResolution.blocks).map RequirementResolution.explain)

def cyclicPlans (resolve : Prepared → List RequirementResolution) (entries : List Prepared)
    (cycleMembers : List String) : List PluginPlan :=
  (sorted cycleMembers).filterMap fun e => (byEntry entries e).map fun p =>
    entryPlan p .pending none (resolve p) ["dependency cycle"]

/-- everything after the parsing -/
def composePlan (index : ScopeIndex) (entries : List Prepared) (selection : Dict String String) :
    ResolutionPlan :=
  let cycles := detectCycles index entries
  let cycleMembers := cycles.flatten
  let final := finalEligibility index entries selection
  let edges := dependencyEdges (final.eligible.filterMap fun e =>
    (final.resolutions.get? e).map fun rs => (e, rs))
  let order := activationOrder final.eligible edges cycleMembers
  let resolveFinal := resolutionsIn index entries selection final.eligible
  let pending := pendingEntries entries final.eligible cycleMembers
  let plans := activePlans entries final order ++ pending.map (pendingPlan resolveFinal) ++
    cyclicPlans resolveFinal entries cycleMembers
  let pendingIds := pending.map Prepared.entryId
  { plugins := plans
    activationOrder := order
    pending := sorted (pendingIds ++ cycleMembers)
    edges := edges
    cycles := cycles
    scopes := index.ordered.map fun spec =>
      scopePlan index entries plans (buildView index entries final.eligible spec.path) order
        (pendingIds ++ cycleMembers) selection spec }

/-- what `resolve` has validated and parsed before it plans -/
def prepareAll (candidates : List PluginCandidate) (scopes : Option (List ScopeSpec)) :
    Except Err (ScopeIndex × List Prepared) := do
  let ordered ← orderedCandidates candidates
  let index ← ScopeIndex.make scopes
  ordered.forM fun c => index.require c.scope
  return (index, ← prepare ordered)

/-- `DependencyResolver.resolve` -/
def resolve (candidates : List PluginCandidate) (prefer : Dict String String)
    (scopes : Option (List ScopeSpec)) : Except Err ResolutionPlan := do
  let (index, entries) ← prepareAll candidates scopes
  return composePlan index entries prefer

end

end Chassis
