import Chassis.Capabilities.Plain
import Chassis.Core.Identity
import Chassis.Harness.Snapshots
import Chassis.Langgraph.Graphs
import Chassis.Persistence.Snapshots

/-!
# The snapshot of a generation

* `semanticScopes`, `capabilityVersions`, `configHash`, `pluginGraphHash`   what a snapshot says of a
                       generation;
* `fromGeneration`, `Harness.snapshotFor`   the snapshot;
* `Rebuilt ren g g'`   `g'` is `g`, mounted again: its instances are renamed by `ren`;
* `semantic_rebuilt`   **a generation that is mounted again has the same semantic composition**.
-/

set_option linter.unusedSectionVars false

namespace Chassis
open Py

/-! ## scopes -/

def textList (l : List String) : Value := .list (l.map .str)

/-- a list, or `None` -/
def optionalTexts (l : Option (List String)) : Value := (l.map textList).getD .none

namespace ScopeTree

def Selection.toValue (s : Selection) : Value := .dict
  [("consumer", .str s.consumer), ("requirement", .str s.requirement),
   ("status", .str s.status.value), ("provider", .ofOption s.provider),
   ("provider_scope", .ofOption s.providerScope)]

/-- one scope, the instances that provide a capability rendered by `shown` -/
def Observable.toValue (shown : List String → List String) (s : Observable) : Value := .dict
  [("path", .str s.path), ("parent", .ofOption s.parent), ("children", textList s.children),
   ("capabilities", optionalTexts s.capabilities), ("tools", optionalTexts s.tools),
   ("entries", textList s.entries),
   ("providers", .dict (s.providers.map fun p => (p.1, textList (shown p.2)))),
   ("visible_tools", textList s.visibleTools),
   ("selections", .list (s.selections.map Selection.toValue))]

def toDocument (shown : List String → List String) (t : ScopeTree) : Document :=
  [("root", .str t.root), ("scopes", .list (t.scopes.map fun s => (observable s).toValue shown))]

end ScopeTree

/-! ## what a snapshot says of a generation -/

namespace RuntimeGeneration
variable (g : RuntimeGeneration)

def entryByInstance : Dict String String :=
  Dict.ofList (g.instances.map fun i => (i.instanceId, i.entryId))

def entryIds (ids : List String) : List String :=
  sorted (ids.map fun id => (g.entryByInstance.get? id).getD id)

def semanticScopes : Document := g.scopes.toDocument g.entryIds

/-- `collected.setdefault(name, []).append(version)` -/
def collectVersion (d : Dict String (List String)) (r : CapabilityRegistration) :
    Dict String (List String) :=
  d.set r.key.name ((d.get? r.key.name).getD [] ++ [r.version.text])

def capabilityVersions : Dict String (List String) :=
  Dict.ofList ((sortedItems (g.snapshot.registrations.foldl collectVersion Dict.empty)).map
    fun p => (p.1, sorted p.2))

/-- the configurations that are hashed -/
def configPayload (redactor : Redactor) : Value :=
  .dict (Dict.ofList (g.instances.map fun i =>
    (i.entryId, redactConfig redactor (.dict i.config.items)))).items

/-- the edges of the plugin graph: who provides to whom -/
def providerEdges : List (List String) :=
  (g.instances.flatMap fun i => i.resolved.values.filterMap fun r =>
    (g.entryByInstance.get? r.providerId).map fun provider => [provider, i.entryId]).dedup

def graphPayload : Value := .dict
  [("nodes", .list ((sorted (g.instances.map fun i => [i.entryId, i.manifest.identity])).map
      textList)),
   ("edges", .list ((sorted g.providerEdges).map textList))]

variable [Platform]

def configHash (redactor : Redactor) : Except Err String := stableHash (g.configPayload redactor)

def pluginGraphHash : Except Err String := stableHash g.graphPayload

end RuntimeGeneration

/-- what is hashed of a registered tool; which object it is plays no role -/
def RegisteredTool.contract (t : RegisteredTool) : BaseTool where
  object := 0
  name := t.name
  description := t.description
  inputSchema := t.inputSchema

section
variable [Platform]

def toolsHash : Option ToolSnapshot → Except Err String
  | none => stableHash (.list [])
  | some tools => toolSchemaHash (tools.entries.map RegisteredTool.contract)

/-- what a run adds to the snapshot of its generation -/
structure Attribution where
  agent : Option String := none
  agentRevision : Option String := none
  agentRuntime : Option String := none
  graphDefinitionHash : Option String := none
  promptHash : Option String := none
  metadata : Document := []

/-- the installed release, and when the generation was built -/
structure Stamp where
  chassisVersion : String
  createdAt : Rat

/-- `RuntimeSnapshot.from_generation` -/
def RuntimeSnapshot.fromGeneration (g : RuntimeGeneration) (tools : Option ToolSnapshot)
    (redactor : Redactor) (a : Attribution) (p : Stamp) : Except Err RuntimeSnapshot := do
  let configHash ← g.configHash redactor
  let pluginGraphHash ← g.pluginGraphHash
  let toolSchemaHash ← toolsHash tools
  return {
    chassisVersion := p.chassisVersion
    generationId := g.generationId
    sequence := g.sequence
    agentRuntime := a.agentRuntime.getD "unknown"
    agent := a.agent
    agentRevision := a.agentRevision
    plugins := Dict.ofList (g.instances.map fun i => (i.manifest.name, i.manifest.version))
    pluginEntries := some (g.instances.map fun i => Dict.ofList [("entry_id", i.entryId),
      ("name", i.manifest.name), ("version", i.manifest.version)])
    capabilities := g.capabilityVersions
    configHash := configHash
    pluginGraphHash := pluginGraphHash
    toolSchemaHash := toolSchemaHash
    graphDefinitionHash := a.graphDefinitionHash
    promptHash := a.promptHash
    createdAt := p.createdAt
    metadata := redactFields redactor [] a.metadata
    scopes := g.scopes.toDocument id
    runtimeInstanceIds := g.instanceIds
    semanticScopes := g.semanticScopes }

def Harness.snapshotFor (h : Harness) (g : RuntimeGeneration) (a : Attribution) (p : Stamp) :
    Except Err RuntimeSnapshot := do
  let tools ← h.toolSnapshot g none
  RuntimeSnapshot.fromGeneration g (some tools) h.redactor a p

/-- `all_generations`: those that live and those that are remembered, newest first -/
def GenerationManager.allGenerations (m : GenerationManager) : List RuntimeGeneration :=
  sortedBy (fun g => -(g.sequence : Int)) (m.live ++ m.retired)

/-- `run_snapshot`, of a run of an agent in that generation; an empty name is none -/
def Harness.runSnapshot (h : Harness) (generationId agent : String) (agentRevision : Option String)
    (p : Stamp) : Except Err RuntimeSnapshot :=
  match h.generations.allGenerations.find? fun g => g.generationId = generationId with
  | some g => h.snapshotFor g
      { agent := if agent = "" then none else some agent, agentRevision := agentRevision } p
  | none => .error (HarnessStateError "run context refers to an unknown generation"
      [("generation_id", generationId)])

def Harness.semanticDigestOf (h : Harness) (g : RuntimeGeneration) (a : Attribution)
    (p : Stamp) : Except Err String := do
  let s ← h.snapshotFor g a p
  s.semanticDigest

end

/-! ## a generation that is mounted again -/

/-- `i'` is an instance of the entry of `i`, configured as that one and served by the same entries -/
structure PluginInstance.Remounted (ren : String → String) (i i' : PluginInstance) : Prop where
  instanceId : i'.instanceId = ren i.instanceId
  entryId : i'.entryId = i.entryId
  manifest : i'.manifest = i.manifest
  config : i'.config = i.config
  providers : ∀ id, id ∈ i'.resolved.values.map CapabilityRegistration.providerId ↔
    id ∈ (i.resolved.values.map CapabilityRegistration.providerId).map ren

/-- one scope, where renamed instances provide what is provided -/
structure ScopeTree.Observable.Relocated (ren : String → String) (o o' : Observable) : Prop where
  rest : o' = { o with providers := o'.providers }
  providers : List.Forall₂ (fun p p' => p'.1 = p.1 ∧ p'.2.Perm (p.2.map ren)) o.providers
    o'.providers

/-- `g'` has the composition of `g`, with other instances; the capabilities these provide have the
same versions, in any order -/
structure RuntimeGeneration.Rebuilt (ren : String → String) (g g' : RuntimeGeneration) : Prop where
  injective : Function.Injective ren
  instances : List.Forall₂ (PluginInstance.Remounted ren) g.instances g'.instances
  registrations : (g'.snapshot.registrations.map fun r => (r.key.name, r.version.text)).Perm
    (g.snapshot.registrations.map fun r => (r.key.name, r.version.text))
  root : g'.scopes.root = g.scopes.root
  scopes : List.Forall₂ (ScopeTree.Observable.Relocated ren)
    (g.scopes.scopes.map ScopeTree.observable) (g'.scopes.scopes.map ScopeTree.observable)
  /-- what provides in a scope is an instance of the generation -/
  provided : ∀ s ∈ g.scopes.scopes, ∀ p ∈ s.providers, ∀ id ∈ p.2, id ∈ g.instanceIds

theorem forall₂_map_eq {α β γ : Type} {R : α → β → Prop} {f : α → γ} {f' : β → γ}
    (hf : ∀ a b, R a b → f' b = f a) {l : List α} {l' : List β} (h : List.Forall₂ R l l') :
    l'.map f' = l.map f := by
  induction h with
  | nil => rfl
  | cons hab _ ih => rw [List.map_cons, List.map_cons, hf _ _ hab, ih]

theorem mem_flatMap_forall₂ {α β γ : Type} {R : α → β → Prop} {f : α → List γ} {f' : β → List γ}
    {x : γ} (hf : ∀ a b, R a b → (x ∈ f' b ↔ x ∈ f a)) {l : List α} {l' : List β}
    (h : List.Forall₂ R l l') : x ∈ l'.flatMap f' ↔ x ∈ l.flatMap f := by
  induction h with
  | nil => exact Iff.rfl
  | cons hab _ ih =>
    rw [List.flatMap_cons, List.flatMap_cons, List.mem_append, List.mem_append, hf _ _ hab, ih]

theorem get?_ofList_map {κ ν : Type} [DecidableEq κ] {ren : κ → κ} (hren : Function.Injective ren)
    (l : List (κ × ν)) (k : κ) :
    (Dict.ofList (l.map fun p => (ren p.1, p.2))).get? (ren k) = (Dict.ofList l).get? k := by
  rw [Dict.get?_ofList_eq, Dict.get?_ofList_eq, ← List.map_reverse, List.find?_map, Option.map_map]
  have hkey : (fun p : κ × ν => decide ((ren p.1, p.2).1 = ren k)) =
      fun p => decide (p.1 = k) := by
    funext p
    exact decide_eq_decide.2 hren.eq_iff
  show Option.map _ (List.find? (fun p : κ × ν => decide ((ren p.1, p.2).1 = ren k)) _) = _
  rw [hkey]
  rfl

/-! ### versions -/

section
variable {κ ν : Type} [LinearOrder κ] [DecidableEq κ] [LinearOrder ν]

/-- the values of each key, in order -/
def grouped (l : List (κ × ν)) : Dict κ (List ν) :=
  l.foldl (fun d p => d.set p.1 ((d.get? p.1).getD [] ++ [p.2])) Dict.empty

theorem get?_grouped (l : List (κ × ν)) (k : κ) : (grouped l).get? k =
    match (l.filter fun p => p.1 = k).map Prod.snd with
    | [] => none
    | vs => some vs := by
  induction l using List.reverseRecOn with
  | nil => rfl
  | append_singleton l p ih =>
    have hlast : grouped (l ++ [p]) =
        (grouped l).set p.1 (((grouped l).get? p.1).getD [] ++ [p.2]) := by
      unfold grouped
      rw [List.foldl_append]
      rfl
    rw [hlast, Dict.get?_set, List.filter_append]
    by_cases hk : k = p.1
    · have hlast : [p].filter (fun p => p.1 = k) = [p] :=
        List.filter_cons_of_pos (decide_eq_true hk.symm)
      rw [if_pos hk, ← hk, ih, hlast, List.map_append]
      cases (l.filter fun p => p.1 = k).map Prod.snd with
      | nil => rfl
      | cons v vs => rfl
    · have hlast : [p].filter (fun p => p.1 = k) = [] :=
        List.filter_cons_of_neg (by simpa using Ne.symm hk)
      rw [if_neg hk, ih, hlast, List.append_nil]

/-- in another order the same values are grouped -/
theorem grouped_perm {l l' : List (κ × ν)} (h : l'.Perm l) {k : κ} {vs : List ν}
    (hvs : (grouped l).get? k = some vs) : ∃ vs', (grouped l').get? k = some vs' ∧ vs'.Perm vs := by
  have hperm : ((l'.filter fun p => p.1 = k).map Prod.snd).Perm
      ((l.filter fun p => p.1 = k).map Prod.snd) := (h.filter _).map _
  rw [get?_grouped] at hvs ⊢
  cases hl : (l.filter fun p => p.1 = k).map Prod.snd with
  | nil =>
    rw [hl] at hvs
    cases hvs
  | cons v rest =>
    rw [hl] at hvs hperm
    cases hvs
    cases hl' : (l'.filter fun p => p.1 = k).map Prod.snd with
    | nil =>
      rw [hl'] at hperm
      exact absurd hperm.nil_eq (List.cons_ne_nil v rest).symm
    | cons v' rest' =>
      rw [hl'] at hperm
      exact ⟨_, rfl, hperm⟩

/-- **Sorted, the order does not show.** -/
theorem sorted_grouped_perm {l l' : List (κ × ν)} (h : l'.Perm l) :
    (sortedBy Prod.fst (grouped l').items).map (fun p => (p.1, sorted p.2)) =
      (sortedBy Prod.fst (grouped l).items).map fun p => (p.1, sorted p.2) := by
  have hin : ∀ {m m' : List (κ × ν)}, m'.Perm m → ∀ q ∈ (grouped m).items.map
      (fun p => (p.1, sorted p.2)), q ∈ (grouped m').items.map fun p => (p.1, sorted p.2) := by
    intro m m' hm q hq
    obtain ⟨p, hp, rfl⟩ := List.mem_map.1 hq
    obtain ⟨vs', hvs', hperm⟩ := grouped_perm hm (Dict.mem_items.1 hp)
    exact List.mem_map.2 ⟨(p.1, vs'), Dict.mem_items.2 hvs', by rw [sorted_eq_of_perm hperm]⟩
  have hnodup : ∀ m : List (κ × ν),
      ((grouped m).items.map fun p => (p.1, sorted p.2)).Nodup := by
    intro m
    refine List.Nodup.of_map Prod.fst ?_
    rw [List.map_map]
    exact (grouped m).nodup
  have hsort : ∀ m : List (κ × ν),
      (sortedBy Prod.fst (grouped m).items).map (fun p => (p.1, sorted p.2)) =
        sortedBy Prod.fst ((grouped m).items.map fun p => (p.1, sorted p.2)) :=
    fun m => (sortedBy_map Prod.fst (fun p : κ × List ν => (p.1, sorted p.2)) _).symm
  rw [hsort, hsort]
  refine sortedBy_eq_of_perm (fun p hp q hq hkey => ?_)
    ((List.perm_ext_iff_of_nodup (hnodup l') (hnodup l)).2 fun q => ⟨hin h.symm q, hin h q⟩)
  refine List.inj_on_of_nodup_map ?_ hp hq hkey
  rw [List.map_map]
  exact (grouped l').nodup

end

/-! ### the parts of a snapshot -/

namespace RuntimeGeneration
variable {ren : String → String} {g g' : RuntimeGeneration}

theorem foldl_collectVersion (l : List CapabilityRegistration) :
    l.foldl collectVersion Dict.empty = grouped (l.map fun r => (r.key.name, r.version.text)) := by
  unfold grouped
  rw [List.foldl_map]
  rfl

namespace Rebuilt
variable (hb : Rebuilt ren g g')
include hb

theorem capabilityVersions : g'.capabilityVersions = g.capabilityVersions := by
  unfold RuntimeGeneration.capabilityVersions sortedItems
  rw [foldl_collectVersion, foldl_collectVersion, sorted_grouped_perm hb.registrations]

theorem instances_eq {γ : Type} {f f' : PluginInstance → γ}
    (hf : ∀ i i', PluginInstance.Remounted ren i i' → f' i' = f i) :
    g'.instances.map f' = g.instances.map f := forall₂_map_eq hf hb.instances

theorem configPayload (redactor : Redactor) :
    g'.configPayload redactor = g.configPayload redactor := by
  have hconfigs : g'.instances.map
        (fun i => (i.entryId, redactConfig redactor (.dict i.config.items))) =
      g.instances.map fun i => (i.entryId, redactConfig redactor (.dict i.config.items)) :=
    hb.instances_eq fun i i' h => by rw [h.entryId, h.config]
  unfold RuntimeGeneration.configPayload
  rw [hconfigs]

theorem entryByInstance (id : String) :
    g'.entryByInstance.get? (ren id) = g.entryByInstance.get? id := by
  have hpairs : g'.instances.map (fun i => (i.instanceId, i.entryId)) =
      g.instances.map fun i => (ren i.instanceId, i.entryId) :=
    hb.instances_eq fun i i' h => by rw [h.instanceId, h.entryId]
  have hsplit : (g.instances.map fun i => (ren i.instanceId, i.entryId)) =
      (g.instances.map fun i => (i.instanceId, i.entryId)).map fun p => (ren p.1, p.2) := by
    rw [List.map_map]
    rfl
  unfold RuntimeGeneration.entryByInstance
  rw [hpairs, hsplit, get?_ofList_map hb.injective]

omit hb in
theorem entryByInstance_isSome {id : String} (hid : id ∈ g.instanceIds) :
    (g.entryByInstance.get? id).isSome = true := by
  obtain ⟨i, hi, rfl⟩ := List.mem_map.1 hid
  unfold RuntimeGeneration.entryByInstance
  rw [Dict.get?_ofList_eq, Option.isSome_map, List.find?_isSome]
  refine ⟨(i.instanceId, i.entryId), ?_, decide_eq_true rfl⟩
  exact List.mem_reverse.2 (List.mem_map.2 ⟨i, hi, rfl⟩)

theorem entryIds {ids ids' : List String} (h : ids'.Perm (ids.map ren))
    (hknown : ∀ id ∈ ids, id ∈ g.instanceIds) : g'.entryIds ids' = g.entryIds ids := by
  have hentry : ∀ id ∈ ids, (g'.entryByInstance.get? (ren id)).getD (ren id) =
      (g.entryByInstance.get? id).getD id := by
    intro id hid
    obtain ⟨entry, hentry⟩ := Option.isSome_iff_exists.1 (entryByInstance_isSome (hknown id hid))
    rw [hb.entryByInstance, hentry]
    rfl
  have hperm := h.map fun id => (g'.entryByInstance.get? id).getD id
  rw [List.map_map] at hperm
  have hsame : ids.map ((fun id => (g'.entryByInstance.get? id).getD id) ∘ ren) =
      ids.map fun id => (g.entryByInstance.get? id).getD id := List.map_congr_left hentry
  rw [hsame] at hperm
  exact sorted_eq_of_perm hperm

theorem observable_toValue {o o' : ScopeTree.Observable}
    (h : ScopeTree.Observable.Relocated ren o o')
    (hknown : ∀ p ∈ o.providers, ∀ id ∈ p.2, id ∈ g.instanceIds) :
    o'.toValue g'.entryIds = o.toValue g.entryIds := by
  have hproviders : o'.providers.map (fun p => (p.1, textList (g'.entryIds p.2))) =
      o.providers.map fun p => (p.1, textList (g.entryIds p.2)) := by
    refine forall₂_map_eq (fun p p' hp => ?_) ((List.forall₂_and_left _ _).2 ⟨hknown, h.providers⟩)
    rw [hb.entryIds hp.2.2 hp.1, hp.2.1]
  unfold ScopeTree.Observable.toValue
  rw [hproviders, h.rest]

theorem semanticScopes : g'.semanticScopes = g.semanticScopes := by
  have hknown : ∀ o ∈ g.scopes.scopes.map ScopeTree.observable,
      ∀ p ∈ o.providers, ∀ id ∈ p.2, id ∈ g.instanceIds := by
    intro o ho p hp
    obtain ⟨s, hs, rfl⟩ := List.mem_map.1 ho
    exact hb.provided s hs p (mem_sortedBy.1 hp)
  have hboth := (List.forall₂_and_left _ _).2 ⟨hknown, hb.scopes⟩
  have hscopes := forall₂_map_eq (fun o o' ho => hb.observable_toValue ho.2 ho.1) hboth
  rw [List.map_map, List.map_map] at hscopes
  unfold RuntimeGeneration.semanticScopes ScopeTree.toDocument
  rw [hb.root]
  exact congrArg (fun scopes => [("root", Value.str g.scopes.root), ("scopes", .list scopes)]) hscopes

theorem mem_providerEdges (edge : List String) :
    edge ∈ g'.providerEdges ↔ edge ∈ g.providerEdges := by
  have hlink : ∀ (i i' : PluginInstance), PluginInstance.Remounted ren i i' →
      (edge ∈ (i'.resolved.values.filterMap fun r =>
        (g'.entryByInstance.get? r.providerId).map fun provider => [provider, i'.entryId]) ↔
      edge ∈ i.resolved.values.filterMap fun r =>
        (g.entryByInstance.get? r.providerId).map fun provider => [provider, i.entryId]) := by
    intro i i' h
    have hids : ∀ (g : RuntimeGeneration) (i : PluginInstance),
        (edge ∈ (i.resolved.values.filterMap fun r =>
          (g.entryByInstance.get? r.providerId).map fun provider => [provider, i.entryId]) ↔
        ∃ id ∈ i.resolved.values.map CapabilityRegistration.providerId,
          (g.entryByInstance.get? id).map (fun provider => [provider, i.entryId]) = some edge) := by
      intro g i
      rw [List.mem_filterMap]
      constructor
      · rintro ⟨r, hr, hedge⟩
        exact ⟨_, List.mem_map_of_mem hr, hedge⟩
      · rintro ⟨id, hid, hedge⟩
        obtain ⟨r, hr, rfl⟩ := List.mem_map.1 hid
        exact ⟨r, hr, hedge⟩
    rw [hids, hids, h.entryId]
    constructor
    · rintro ⟨id', hid', hedge⟩
      obtain ⟨id, hid, rfl⟩ := List.mem_map.1 ((h.providers id').1 hid')
      rw [hb.entryByInstance] at hedge
      exact ⟨id, hid, hedge⟩
    · rintro ⟨id, hid, hedge⟩
      refine ⟨ren id, (h.providers _).2 (List.mem_map_of_mem hid), ?_⟩
      rw [hb.entryByInstance]
      exact hedge
  unfold RuntimeGeneration.providerEdges
  rw [List.mem_dedup, List.mem_dedup]
  exact mem_flatMap_forall₂ hlink hb.instances

theorem graphPayload : g'.graphPayload = g.graphPayload := by
  have hnodes : g'.instances.map (fun i => [i.entryId, i.manifest.identity]) =
      g.instances.map fun i => [i.entryId, i.manifest.identity] :=
    hb.instances_eq fun i i' h => by rw [h.entryId, h.manifest]
  have hedges : sorted g'.providerEdges = sorted g.providerEdges :=
    sorted_eq_of_perm ((List.perm_ext_iff_of_nodup (List.nodup_dedup _) (List.nodup_dedup _)).2
      hb.mem_providerEdges)
  unfold RuntimeGeneration.graphPayload
  rw [hnodes, hedges]

omit hb in
/-- a generation with all its instances renamed, and nothing else, is one that is mounted again -/
theorem of_renamed (hren : Function.Injective ren)
    (hinstances : g'.instances.map (fun i => (i.instanceId, i.entryId, i.manifest, i.config,
        i.resolved.values.map CapabilityRegistration.providerId)) =
      g.instances.map fun i => (ren i.instanceId, i.entryId, i.manifest, i.config,
        (i.resolved.values.map CapabilityRegistration.providerId).map ren))
    (hregistrations : g'.snapshot.registrations.map (fun r => (r.key.name, r.version.text)) =
      g.snapshot.registrations.map fun r => (r.key.name, r.version.text))
    (hroot : g'.scopes.root = g.scopes.root)
    (hscopes : g'.scopes.scopes.map ScopeTree.observable =
      (g.scopes.scopes.map ScopeTree.observable).map fun o =>
        { o with providers := o.providers.map fun p => (p.1, p.2.map ren) })
    (hprovided : ∀ s ∈ g.scopes.scopes, ∀ p ∈ s.providers, ∀ id ∈ p.2, id ∈ g.instanceIds) :
    Rebuilt ren g g' where
  injective := hren
  instances := by
    have hrel := List.forall₂_map_left_iff.1 (List.forall₂_map_right_iff.1
      (List.forall₂_eq_eq_eq ▸ hinstances.symm :
        List.Forall₂ (· = ·) (g.instances.map _) (g'.instances.map _)))
    refine hrel.imp fun i i' h => ?_
    simp only [Prod.mk.injEq] at h
    obtain ⟨hid, hentry, hmanifest, hconfig, hresolved⟩ := h
    exact ⟨hid.symm, hentry.symm, hmanifest.symm, hconfig.symm, fun id => by rw [← hresolved]⟩
  registrations := List.Perm.of_eq hregistrations
  root := hroot
  scopes := by
    rw [hscopes, List.forall₂_map_right_iff]
    refine List.forall₂_same.2 fun o _ => ⟨rfl, ?_⟩
    rw [List.forall₂_map_right_iff]
    exact List.forall₂_same.2 fun p _ => ⟨rfl, List.Perm.refl _⟩
  provided := hprovided

end Rebuilt
end RuntimeGeneration

/-! ### the snapshots -/

section
variable [Platform]

/-- what the semantic digest reads of a snapshot -/
theorem RuntimeSnapshot.semanticDigest_congr {s s' : RuntimeSnapshot} (hplugins : s'.plugins = s.plugins)
    (hcapabilities : s'.capabilities = s.capabilities) (hconfig : s'.configHash = s.configHash)
    (hgraph : s'.pluginGraphHash = s.pluginGraphHash)
    (htools : s'.toolSchemaHash = s.toolSchemaHash) (hscopes : s'.semanticScopes = s.semanticScopes)
    (hentries : s'.pluginEntries = s.pluginEntries) : s'.semanticDigest = s.semanticDigest := by
  unfold semanticDigest semanticComposition pluginItems capabilityItems
  rw [hplugins, hcapabilities, hconfig, hgraph, htools, hscopes, hentries]

/-- The tools of two generations, the contracts the same and no two of a name: they are hashed
alike, since a snapshot lists them by name. -/
theorem contracts_eq {r r' : ToolRegistry} {ids ids' : List String}
    (hperm : ((ToolRegistry.snapshot r' ids').map RegisteredTool.contract).Perm
      ((ToolRegistry.snapshot r ids).map RegisteredTool.contract))
    (hnames : ((ToolRegistry.snapshot r ids).map RegisteredTool.name).Nodup) :
    (ToolRegistry.snapshot r' ids').map RegisteredTool.contract =
      (ToolRegistry.snapshot r ids).map RegisteredTool.contract := by
  have hsorted : ∀ (r : ToolRegistry) (ids : List String),
      sortedBy BaseTool.name ((ToolRegistry.snapshot r ids).map RegisteredTool.contract) =
        (ToolRegistry.snapshot r ids).map RegisteredTool.contract := by
    intro r ids
    rw [sortedBy_map]
    exact congrArg _ (sortedBy_sortedBy RegisteredTool.name _)
  rw [← hsorted r', ← hsorted r]
  refine sortedBy_eq_of_perm (fun a ha b hb hkey => ?_) hperm
  refine List.inj_on_of_nodup_map ?_ (hperm.mem_iff.1 ha) (hperm.mem_iff.1 hb) hkey
  rw [List.map_map]
  exact hnames

variable {ren : String → String} {g g' : RuntimeGeneration}

/-- **A composition that is mounted again is the same composition.**  Of a generation, and of one
with its composition whose instances were mounted anew, the snapshots have the same semantic digest,
whatever runs they are taken for: if the tools have the same contracts, none of the same name, and
no secret was learned meanwhile. -/
theorem semantic_rebuilt (hb : g.Rebuilt ren g') {h h' : Harness} (hredactor : h'.redactor = h.redactor)
    (htools : ((ToolRegistry.snapshot h'.tools g'.instanceIds).map RegisteredTool.contract).Perm
      ((ToolRegistry.snapshot h.tools g.instanceIds).map RegisteredTool.contract))
    (hnames : ((ToolRegistry.snapshot h.tools g.instanceIds).map RegisteredTool.name).Nodup)
    (a a' : Attribution) (p p' : Stamp) :
    h'.semanticDigestOf g' a' p' = h.semanticDigestOf g a p := by
  have hcontracts := contracts_eq htools hnames
  have hconfig : g'.configHash h'.redactor = g.configHash h.redactor := by
    unfold RuntimeGeneration.configHash
    rw [hredactor, hb.configPayload]
  have hgraph : g'.pluginGraphHash = g.pluginGraphHash := by
    unfold RuntimeGeneration.pluginGraphHash
    rw [hb.graphPayload]
  have htools' : toolsHash (some ⟨g'.generationId, ToolRegistry.snapshot h'.tools g'.instanceIds⟩) =
      toolsHash (some ⟨g.generationId, ToolRegistry.snapshot h.tools g.instanceIds⟩) :=
    congrArg toolSchemaHash hcontracts
  show (RuntimeSnapshot.fromGeneration g' (some _) h'.redactor a' p' >>= _) =
    (RuntimeSnapshot.fromGeneration g (some _) h.redactor a p >>= _)
  unfold RuntimeSnapshot.fromGeneration
  rw [hconfig, hgraph, htools']
  cases g.configHash h.redactor with
  | error e => rfl
  | ok config =>
    cases g.pluginGraphHash with
    | error e => rfl
    | ok graph =>
      cases toolsHash (some ⟨g.generationId, ToolRegistry.snapshot h.tools g.instanceIds⟩) with
      | error e => rfl
      | ok tools =>
        refine RuntimeSnapshot.semanticDigest_congr ?_ hb.capabilityVersions rfl rfl rfl
          hb.semanticScopes ?_
        · exact congrArg Dict.ofList (hb.instances_eq fun i i' hi => by rw [hi.manifest])
        · exact congrArg some (hb.instances_eq fun i i' hi => by rw [hi.entryId, hi.manifest])

end

section
open scoped Plain

/-- a provider and its consumer are mounted, by a harness that drew so many identifiers before -/
def paired (drawn : Nat) : HarnessCourse :=
  playFrom { drawn := drawn } [.install (plainPlugin "a" [("db", "1.0.0")] [] []),
    .install (plainPlugin "b" [] [("db", ">=1")] []), .start .reconcile, .resume honest,
    .resume honest]

/-- the instances of the other harness stand for those of the first -/
def anew : Equiv.Perm String :=
  (Equiv.swap "plugin_0000" "plugin_0010").trans (Equiv.swap "plugin_0003" "plugin_0013")

set_option synthInstance.maxSize 512 in
theorem semantic_rebuilt_paired : ∃ g g', (paired 0).config.state.generations.current = some g ∧
    (paired 10).config.state.generations.current = some g' ∧
    g.instanceIds = ["plugin_0000", "plugin_0003"] ∧
    g'.instanceIds = ["plugin_0010", "plugin_0013"] ∧
    (paired 10).config.state.semanticDigestOf g' { agent := some "assistant" } ⟨"0.9.0", 2⟩ =
      (paired 0).config.state.semanticDigestOf g {} ⟨"0.9.0", 1⟩ := by
  obtain ⟨g, hg⟩ : ∃ g, (paired 0).config.state.generations.current = some g :=
    Option.isSome_iff_exists.1 (by decide +kernel)
  obtain ⟨g', hg'⟩ : ∃ g, (paired 10).config.state.generations.current = some g :=
    Option.isSome_iff_exists.1 (by decide +kernel)
  have hids : (paired 0).config.state.generations.current.map RuntimeGeneration.instanceIds =
      some ["plugin_0000", "plugin_0003"] := by decide +kernel
  have hids' : (paired 10).config.state.generations.current.map RuntimeGeneration.instanceIds =
      some ["plugin_0010", "plugin_0013"] := by decide +kernel
  have hinstances : ((paired 10).config.state.generations.current.map fun g => g.instances.map
        fun i => (i.instanceId, i.entryId, i.manifest, i.config,
          i.resolved.values.map CapabilityRegistration.providerId)) =
      (paired 0).config.state.generations.current.map fun g => g.instances.map
        fun i => (anew i.instanceId, i.entryId, i.manifest, i.config,
          (i.resolved.values.map CapabilityRegistration.providerId).map anew) := by decide +kernel
  have hregistrations : ((paired 10).config.state.generations.current.map fun g =>
        g.snapshot.registrations.map fun r => (r.key.name, r.version.text)) =
      (paired 0).config.state.generations.current.map fun g =>
        g.snapshot.registrations.map fun r => (r.key.name, r.version.text) := by decide +kernel
  have hscopes : ((paired 10).config.state.generations.current.map fun g =>
        (g.scopes.root, g.scopes.scopes.map ScopeTree.observable)) =
      (paired 0).config.state.generations.current.map fun g =>
        (g.scopes.root, (g.scopes.scopes.map ScopeTree.observable).map fun o =>
          { o with providers := o.providers.map fun p => (p.1, p.2.map anew) }) := by decide +kernel
  have hprovided : ((paired 0).config.state.generations.current.all fun g => g.scopes.scopes.all
      fun s => s.providers.all fun p => p.2.all fun id => id ∈ g.instanceIds) = true := by
    decide +kernel
  have htools : (paired 0).config.state.tools.all = [] ∧ (paired 10).config.state.tools.all = [] ∧
      (paired 10).config.state.redactor = (paired 0).config.state.redactor := by decide +kernel
  rw [hg] at hids hinstances hregistrations hscopes hprovided
  rw [hg'] at hids' hinstances hregistrations hscopes
  simp only [Option.map_some, Option.some.injEq, Prod.mk.injEq] at hids hids' hscopes
  have hinstances := Option.some.inj hinstances
  have hregistrations := Option.some.inj hregistrations
  have hnone : ∀ (r : ToolRegistry) (ids : List String), r.all = [] →
      ToolRegistry.snapshot r ids = [] := by
    intro r ids hr
    unfold ToolRegistry.snapshot ToolRegistry.entries
    rw [hr]
    rfl
  refine ⟨g, g', hg, hg', hids, hids', semantic_rebuilt (RuntimeGeneration.Rebuilt.of_renamed
    anew.injective hinstances hregistrations hscopes.1 hscopes.2 ?_) htools.2.2 ?_ ?_ _ _ _ _⟩
  · simpa using hprovided
  · rw [hnone _ _ htools.1, hnone _ _ htools.2.1]
  · rw [hnone _ _ htools.1]
    exact List.nodup_nil

end

end Chassis
