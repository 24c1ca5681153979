import Chassis.Harness.Registries
import Chassis.Plugins.Registry

/-!
# Hierarchical composition scopes

* `CompositionTree`   the desired tree of scopes; `specs` is what the resolver reads of it;
* `ScopeTree`         the immutable, resolved tree of one generation;
* `buildScopeTree`    binds a plan to the instances and registrations that were mounted;
* `ScopeTree.sameObservable`   two trees are alike in everything a run can observe.
-/

namespace Chassis
open Py

/-! ## the desired tree -/

def nameSet (l : List String) : List String := sorted l.dedup

structure CompositionScope where
  path : String
  name : String
  parent : Option String
  capabilities : Option (List String) := none
  tools : Option (List String) := none
  metadata : Dict String Value := Dict.empty
  requirements : Dict String CapabilityRequirement := Dict.empty
  deriving DecidableEq

def joinPath (parent name : String) : String :=
  if parent = rootScope then rootScope ++ name else parent ++ "/" ++ name

def validateScopeName (name : String) : Except Err Unit :=
  if name = "" ∨ name ≠ strip name then
    .error (ConfigurationError "composition scope name must not be empty" [("name", name)])
  else if name.toList.contains '/' then
    .error (ConfigurationError "composition scope name must not contain '/'" [("name", name)])
  else if name = "." ∨ name = ".." then
    .error (ConfigurationError "composition scope name is reserved" [("name", name)])
  else .ok ()

/-- absolute, no empty or untrimmed segment, none reserved, no slash at the end -/
def canonicalScopePath (path : String) : Except Err String :=
  if !startsWith path "/" then
    .error (ConfigurationError "scope path must be an absolute path" [("scope", path)])
  else if path = rootScope then .ok path
  else if endsWith path "/" then
    .error (ConfigurationError "scope path must not end with '/'" [("scope", path)])
  else
    let segments := split '/' (String.ofList (path.toList.drop 1))
    match segments.find? (fun s => s = "" || s ≠ strip s || s = "." || s = "..") with
    | none => .ok path
    | some s =>
      if s = "." ∨ s = ".." then
        .error (ConfigurationError "scope path segment is reserved" [("scope", path)])
      else .error (ConfigurationError "scope path segments must be non-empty and trimmed"
        [("scope", path)])

structure CompositionTree where
  scopes : Dict String CompositionScope :=
    Dict.ofList [(rootScope, { path := rootScope, name := "root", parent := none })]

namespace CompositionTree
variable (t : CompositionTree)

def get? (path : String) : Option CompositionScope := t.scopes.get? path

def children (path : String) : List CompositionScope :=
  sortedBy CompositionScope.name (t.scopes.values.filter (fun s => s.parent = some path))

/-- a scope and what is below it, in pre-order -/
def walk : Nat → CompositionScope → List CompositionScope
  | 0, _ => []
  | n + 1, s => s :: (t.children s.path).flatMap (walk n)

def ordered : List CompositionScope :=
  ((t.get? rootScope).map (t.walk t.scopes.items.length)).getD []

def toSpec (s : CompositionScope) : ScopeSpec :=
  { path := s.path
    name := s.name
    parent := s.parent
    capabilities := s.capabilities
    tools := s.tools
    requirements := (sortedBy Prod.fst s.requirements.items).map Prod.snd
    metadata := s.metadata }

def specs : List ScopeSpec := t.ordered.map toSpec

/-- `child` of a scope, attached below it -/
def attach (parent name : String) (capabilities tools : Option (List String))
    (metadata : Dict String Value) : Except Err CompositionTree := do
  validateScopeName name
  if (t.get? parent).isNone then
    .error (ConfigurationError "composition scope parent does not exist" [("path", parent)])
  else
    let path := joinPath parent name
    if (t.get? path).isSome then
      .error (ConfigurationError "duplicate composition scope path" [("path", path)])
    else .ok ⟨t.scopes.set path
      ⟨path, name, some parent, capabilities.map nameSet, tools.map nameSet, metadata, Dict.empty⟩⟩

/-- a scope changes what it declares -/
def modify (path : String) (f : CompositionScope → CompositionScope) : CompositionTree :=
  match t.get? path with
  | some s => ⟨t.scopes.set path (f s)⟩
  | none => t

def isWithin (path ancestor : String) : Bool :=
  ancestor = rootScope || path = ancestor || startsWith path (ancestor ++ "/")

/-- a scope and its descendants, deepest first -/
def descendants (path : String) : List CompositionScope :=
  sortedBy (fun s => -((s.path.toList.count '/' : Nat) : Int))
    (t.ordered.filter (fun s => isWithin s.path path))

def detach (path : String) : CompositionTree :=
  ⟨(t.descendants path).foldl (fun d s => d.erase s.path) t.scopes⟩

end CompositionTree

/-! ## the published tree -/

/-- immutable composition of one scope -/
structure ResolvedScope where
  path : String
  name : String
  parent : Option String
  children : List String
  capabilities : Option (List String)
  entries : List String
  instances : List String
  providers : List (String × List String)
  inherited : List (String × List String)
  visible : List (String × List String)
  requirements : List RequirementResolution
  provenance : List RequirementResolution
  metadata : Dict String Value
  tools : Option (List String)
  localTools : List String
  inheritedTools : List String
  visibleTools : List String

structure ScopeTree where
  root : String
  scopes : List ResolvedScope

namespace ScopeTree

def flatRoot : ResolvedScope :=
  { path := rootScope, name := "root", parent := none, children := [], capabilities := none,
    entries := [], instances := [], providers := [], inherited := [], visible := [],
    requirements := [], provenance := [], metadata := Dict.empty, tools := none,
    localTools := [], inheritedTools := [], visibleTools := [] }

/-- the tree of a composition with no declared scopes -/
def rootOnly : ScopeTree := ⟨rootScope, [flatRoot]⟩

def get? (t : ScopeTree) (path : String) : Option ResolvedScope :=
  t.scopes.find? (fun s => s.path = path)

/-- one selection of a fingerprint -/
structure Selection where
  consumer : String
  requirement : String
  status : RequirementStatus
  provider : Option String
  providerScope : Option String
  deriving DecidableEq

/-- what a run can observe of a scope, its metadata apart -/
structure Observable where
  path : String
  parent : Option String
  children : List String
  capabilities : Option (List String)
  tools : Option (List String)
  entries : List String
  providers : List (String × List String)
  visibleTools : List String
  selections : List Selection
  deriving DecidableEq

def observable (s : ResolvedScope) : Observable :=
  { path := s.path
    parent := s.parent
    children := s.children
    capabilities := s.capabilities
    tools := s.tools
    entries := s.entries
    providers := sortedBy Prod.fst s.providers
    visibleTools := s.visibleTools
    selections := s.provenance.map fun r =>
      ⟨r.consumer, r.requirement.str, r.status, r.providerEntryId, r.providerScope⟩ }

def fingerprint (t : ScopeTree) : String × List Observable := (t.root, t.scopes.map observable)

/-- the metadata of two trees, scope by scope -/
def sameMetadata : List ResolvedScope → List ResolvedScope → Bool
  | [], [] => true
  | s :: l, s' :: l' =>
    s.path = s'.path && Value.same (.dict s.metadata.items) (.dict s'.metadata.items) &&
      sameMetadata l l'
  | _, _ => false

def sameObservable (t t' : ScopeTree) : Bool :=
  t.fingerprint = t'.fingerprint && sameMetadata t.scopes t'.scopes

end ScopeTree

/-! ## building it -/

/-- `plans[path]` and its ancestors, nearest first -/
def scopeChain (plans : List ScopePlan) : Nat → String → Except Err (List ScopePlan)
  | 0, path => .error { kind := .Other, message := path }
  | n + 1, path =>
    match plans.find? (fun s => s.path = path) with
    | none => .error { kind := .Other, message := path }
    | some s =>
      match s.parent with
      | none => .ok [s]
      | some parent => (scopeChain plans n parent).map (s :: ·)

/-- the intersection of the views a chain of scopes declares -/
def intersectViews (views : List (Option (List String))) : Option (List String) :=
  views.foldl (fun result view => match view, result with
    | none, result => result
    | some names, none => some names
    | some names, some result => some (result.filter (· ∈ names))) none

/-- `{name: ids}` of the registrations of some instances -/
def providersAmong (registrations : List CapabilityRegistration) (instanceIds : List String) :
    List (String × List String) :=
  let mine := registrations.filter (fun r => r.providerId ∈ instanceIds)
  (nameSet (mine.map fun r => r.key.name)).map fun name =>
    (name, nameSet ((mine.filter (fun r => r.key.name = name)).map (·.providerId)))

/-- names with the union of their ids -/
def mergeProviders (l : List (List (String × List String))) : List (String × List String) :=
  (nameSet (l.flatten.map Prod.fst)).map fun name =>
    (name, nameSet ((l.flatten.filter (fun p => p.1 = name)).flatMap Prod.snd))

def within (view : Option (List String)) (name : String) : Bool :=
  match view with
  | none => true
  | some names => names.contains name

section
variable (instances : List PluginInstance)

def instanceByEntry (entryId : String) : Option PluginInstance :=
  instances.find? (fun i => i.entryId = entryId)

/-- the instance that backs an entry, or the one the plan had in mind -/
def bindInstance (entryId : Option String) (instanceId : Option String) : Option String :=
  match entryId.bind (instanceByEntry instances) with
  | some i => some i.instanceId
  | none => instanceId

def boundProvenance (r : RequirementResolution) : RequirementResolution :=
  { r with
    providerInstanceId := bindInstance instances r.providerEntryId r.providerInstanceId
    assessments := r.assessments.map fun a =>
      { a with providerInstanceId :=
          bindInstance instances (some a.providerEntryId) a.providerInstanceId } }

def localInstanceIds (s : ScopePlan) : List String :=
  sorted (s.entries.filterMap fun e => (instanceByEntry instances e).map (·.instanceId))

/-- the scope that declares the entry of the owner of a tool; the last one that lists it -/
def toolScope (plans : List ScopePlan) (ownerId : String) : Option String :=
  (plans.filter (fun s => ownerId ∈ localInstanceIds instances s)).getLast?.map ScopePlan.path

def localToolNames (plans : List ScopePlan) (tools : List RegisteredTool) (path : String) :
    List String :=
  nameSet ((tools.filter (fun t => toolScope instances plans t.ownerId = some path)).map (·.name))

def resolveScope (plans : List ScopePlan) (registrations : List CapabilityRegistration)
    (tools : List RegisteredTool) (s : ScopePlan) : Except Err ResolvedScope := do
  let chain ← scopeChain plans (plans.length + 1) s.path
  let ancestors := chain.tail
  let view := intersectViews (chain.map ScopePlan.capabilities)
  let toolView := intersectViews (chain.map ScopePlan.tools)
  let localProviders (s : ScopePlan) := providersAmong registrations (localInstanceIds instances s)
  let here := (localProviders s).filter (fun p => within view p.1)
  let inherited := (mergeProviders (ancestors.map localProviders)).filter (fun p => within view p.1)
  let owned := (localToolNames instances plans tools s.path).filter (within toolView)
  let inheritedTools := (nameSet (ancestors.flatMap fun a =>
    localToolNames instances plans tools a.path)).filter (within toolView)
  return {
    path := s.path
    name := s.name
    parent := s.parent
    children := s.children
    capabilities := s.capabilities
    entries := s.entries
    instances := localInstanceIds instances s
    providers := here
    inherited := inherited
    visible := mergeProviders [here, inherited]
    requirements := s.requirements
    provenance := s.provenance.map (boundProvenance instances)
    metadata := s.metadata
    tools := s.tools
    localTools := owned
    inheritedTools := inheritedTools
    visibleTools := nameSet (owned ++ inheritedTools) }

def buildScopeTree (plan : ResolutionPlan) (registrations : List CapabilityRegistration)
    (tools : List RegisteredTool) : Except Err ScopeTree :=
  match plan.scopes with
  | [] => .ok ScopeTree.rootOnly
  | s :: _ => do
    let resolved ← plan.scopes.mapM (resolveScope instances plan.scopes registrations tools)
    return ⟨s.path, resolved⟩

end

end Chassis
