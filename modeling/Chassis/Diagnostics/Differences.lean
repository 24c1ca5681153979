import Chassis.Composition.Fingerprint
import Chassis.Core.Generations
import Chassis.Core.Impact

/-!
# The difference of two generations

The difference looks at where the scopes are and which capabilities they admit, at the instances
and at the selected providers.  It does not look at the tools that a scope admits, nor at the scope
that declares an entry.

* `diffGenerations`    the changes between two generations, scope by scope, entry by entry and
                       requirement by requirement;
* `Publication`        what a generation was published from;
* `Unmoved`, `Spared`  whatever an instance offers, it offers from the same scope, and to the same
                       scopes;
* `diff_complete_iff`  generations without a change between them look alike to every run, exactly if
                       all capabilities and tools are spared.
-/

set_option linter.unusedSectionVars false

namespace Chassis
open Py

/-! ## changes -/

inductive ChangeCategory
  | scope
  | provider
  | requirement
  deriving DecidableEq, Repr

inductive ChangeKind
  | added
  | removed
  | changed
  | replaced
  | rewired
  | unchanged
  deriving DecidableEq, Repr

def ChangeCategory.value : ChangeCategory → String
  | .scope => "scope"
  | .provider => "provider"
  | .requirement => "requirement"

def ChangeKind.value : ChangeKind → String
  | .added => "added"
  | .removed => "removed"
  | .changed => "changed"
  | .replaced => "replaced"
  | .rewired => "rewired"
  | .unchanged => "unchanged"

structure CompositionChange where
  category : ChangeCategory
  kind : ChangeKind
  subject : String
  old : Option String := none
  new : Option String := none
  reason : String := ""
  deriving DecidableEq

/-- how the values of one category are compared, and what is said of them -/
structure Comparison (ν : Type) where
  category : ChangeCategory
  /-- the kind of a change of a value that both generations have -/
  altered : ChangeKind
  same : ν → ν → Bool
  text : ν → String
  reason : ν → String

def Comparison.change {ν : Type} (c : Comparison ν) (includeUnchanged : Bool) (subject : String) :
    Option ν → Option ν → Option CompositionChange
  | none, none => none
  | none, some after => some
      { category := c.category, kind := .added, subject := subject, new := some (c.text after) }
  | some before, none => some
      { category := c.category, kind := .removed, subject := subject, old := some (c.text before) }
  | some before, some after =>
    if c.same before after then
      if includeUnchanged then
        some { category := c.category, kind := .unchanged, subject := subject }
      else none
    else some
      { category := c.category
        kind := c.altered
        subject := subject
        old := some (c.text before)
        new := some (c.text after)
        reason := c.reason after }

section
variable {κ ν : Type} [DecidableEq κ]

def Comparison.changes (c : Comparison ν) (includeUnchanged : Bool) (order : κ → List String)
    (subject : κ → String) (old new : Dict κ ν) : List CompositionChange :=
  (sortedBy order (old.keys ++ new.keys).dedup).filterMap fun k =>
    c.change includeUnchanged (subject k) (old.get? k) (new.get? k)

/-- nothing of a category is reported iff both have the same subjects, with values that are the
same to it -/
theorem Comparison.silent_iff {c : Comparison ν} (haltered : c.altered ≠ .unchanged)
    {includeUnchanged : Bool} {order : κ → List String} {subject : κ → String} {old new : Dict κ ν} :
    (∀ change ∈ c.changes includeUnchanged order subject old new, change.kind = .unchanged) ↔
      ∀ k, Option.Rel (fun before after => c.same before after = true) (old.get? k) (new.get? k) := by
  have hone : ∀ k, (∀ change, c.change includeUnchanged (subject k) (old.get? k) (new.get? k) =
      some change → change.kind = .unchanged) ↔
      Option.Rel (fun before after => c.same before after = true) (old.get? k) (new.get? k) := by
    intro k
    rcases old.get? k with _ | before
    · rcases new.get? k with _ | after
      · exact iff_of_true (fun _ h => (nomatch h)) .none
      · exact iff_of_false (fun h => nomatch h _ rfl) fun h => nomatch h
    · rcases new.get? k with _ | after
      · exact iff_of_false (fun h => nomatch h _ rfl) fun h => nomatch h
      · rw [Option.rel_some_some]
        by_cases hsame : c.same before after = true
        · refine iff_of_true (fun change h => ?_) hsame
          rw [Comparison.change, if_pos hsame] at h
          split_ifs at h
          cases h
          rfl
        · refine iff_of_false (fun h => haltered ?_) hsame
          exact h _ (by rw [Comparison.change, if_neg hsame])
  have hkeys : ∀ k, k ∉ (old.keys ++ new.keys).dedup → old.get? k = none ∧ new.get? k = none := by
    intro k hk
    rw [List.mem_dedup, List.mem_append, not_or] at hk
    constructor
    · exact Option.eq_none_iff_forall_ne_some.2 fun v hv => hk.1 (Dict.mem_keys.2 ⟨v, hv⟩)
    · exact Option.eq_none_iff_forall_ne_some.2 fun v hv => hk.2 (Dict.mem_keys.2 ⟨v, hv⟩)
  constructor
  · intro h k
    by_cases hk : k ∈ (old.keys ++ new.keys).dedup
    · refine (hone k).1 fun change hchange => h change ?_
      exact List.mem_filterMap.2 ⟨k, mem_sortedBy.2 hk, hchange⟩
    · obtain ⟨hold, hnew⟩ := hkeys k hk
      rw [hold, hnew]
      exact .none
  · intro h change hchange
    obtain ⟨k, -, hchange⟩ := List.mem_filterMap.1 hchange
    exact (hone k).2 (h k) change hchange

end

/-! ## what is compared -/

namespace Diagnostics

/-- where a scope is, and what it admits: what it declares and requires is of other categories -/
def signature (s : ResolvedScope) : Option String × List String × Option (List String) :=
  (s.parent, s.children, s.capabilities)

def scopeComparison : Comparison ResolvedScope where
  category := .scope
  altered := .changed
  same := fun before after => signature before = signature after
  text := ResolvedScope.name
  reason := fun _ => "scope composition changed"

def providerComparison : Comparison PluginInstance where
  category := .provider
  altered := .replaced
  same := fun before after =>
    before.instanceId = after.instanceId && before.manifest.identity = after.manifest.identity
  text := fun i => i.manifest.identity ++ "#" ++ i.instanceId
  reason := fun _ => "provider implementation or instance changed"

/-- `provider_entry_id or status` -/
def selectionText (r : RequirementResolution) : String :=
  match r.providerEntryId with
  | some e => if e = "" then r.status.value else e
  | none => r.status.value

def requirementComparison : Comparison RequirementResolution where
  category := .requirement
  altered := .rewired
  same := fun previous current =>
    previous.providerEntryId = current.providerEntryId && previous.status = current.status
  text := selectionText
  reason := RequirementResolution.explain

/-- a requirement of a consumer in a scope -/
structure RequirementKey where
  path : String
  consumer : String
  capability : String
  deriving DecidableEq

section
variable (includeUnchanged : Bool) (old new : RuntimeGeneration)

def scopesByPath (g : RuntimeGeneration) : Dict String ResolvedScope :=
  .ofList (g.scopes.scopes.map fun s => (s.path, s))

def diffScopes : List CompositionChange :=
  scopeComparison.changes includeUnchanged (fun path => [path]) id (scopesByPath old)
    (scopesByPath new)

def instancesByEntry (g : RuntimeGeneration) : Dict String PluginInstance :=
  .ofList (g.instances.map fun i => (i.entryId, i))

def diffProviders : List CompositionChange :=
  providerComparison.changes includeUnchanged (fun entryId => [entryId]) id (instancesByEntry old)
    (instancesByEntry new)

def requirementsByKey (g : RuntimeGeneration) : Dict RequirementKey RequirementResolution :=
  .ofList (g.scopes.scopes.flatMap fun s =>
    s.provenance.map fun r => (⟨s.path, r.consumer, r.requirement.name⟩, r))

def diffRequirements : List CompositionChange :=
  requirementComparison.changes includeUnchanged
    (fun k => [k.path, k.consumer, k.capability])
    (fun k => k.path ++ "::" ++ k.consumer ++ "::" ++ k.capability)
    (requirementsByKey old) (requirementsByKey new)

def observations (ex : Explanation) (g : RuntimeGeneration) : Dict String NodeObservation :=
  observationsFrom { ex with
    scopeView := fun path => (g.scopes.get? path).bind ResolvedScope.capabilities } g.instances

end

end Diagnostics

structure GenerationDiff where
  oldGenerationId : String
  newGenerationId : String
  changes : List CompositionChange
  includeUnchanged : Bool
  nodes : List NodeImpact

/-- no change is reported, but perhaps that there is none -/
def GenerationDiff.Silent (d : GenerationDiff) : Prop := ∀ c ∈ d.changes, c.kind = .unchanged

namespace Diagnostics

/-- the difference of two generations that were found -/
def difference (ex : Explanation) (includeUnchanged : Bool) (old new : RuntimeGeneration) :
    GenerationDiff :=
  { oldGenerationId := old.generationId
    newGenerationId := new.generationId
    changes := sortedBy (fun c : CompositionChange => [c.category.value, c.kind.value, c.subject])
      (diffScopes includeUnchanged old new ++ diffProviders includeUnchanged old new ++
        diffRequirements includeUnchanged old new)
    includeUnchanged := includeUnchanged
    nodes := analyseImpact (observations ex old) (observations ex new) includeUnchanged }

/-- `all_generations`: every generation still known, newest first -/
def allGenerations (m : GenerationManager) : List RuntimeGeneration :=
  sortedBy (fun g => -(g.sequence : Int)) (m.live ++ m.retired)

def lookupGeneration (m : GenerationManager) (generationId : String) :
    Except Err RuntimeGeneration :=
  match (allGenerations m).find? (fun g => g.generationId = generationId) with
  | some g => .ok g
  | none => .error (HarnessStateError "unknown runtime generation"
      [("generation_id", generationId)])

def diffGenerations (ex : Explanation) (m : GenerationManager) (oldId newId : String)
    (includeUnchanged : Bool) : Except Err GenerationDiff := do
  let old ← lookupGeneration m oldId
  let new ← lookupGeneration m newId
  return difference ex includeUnchanged old new

end Diagnostics
/-! ## what a generation was published from -/

section
variable [Packaging]

/-- The plan, the registrations and the tools a generation was published from.  Every instance is
that of an entry of the plan, no two are of one entry, and no two register a tool of one name. -/
structure Publication (g : RuntimeGeneration) where
  candidates : List PluginCandidate
  prefer : Dict String String
  specs : List ScopeSpec
  plan : ResolutionPlan
  registrations : List CapabilityRegistration
  tools : List RegisteredTool
  resolved : resolve candidates prefer (some specs) = .ok plan
  rooted : ∀ s ∈ specs, OnLineage specs s.path rootScope
  built : buildScopeTree g.instances plan registrations tools = .ok g.scopes
  ids : (g.instances.map PluginInstance.instanceId).Nodup
  entries : (g.instances.map PluginInstance.entryId).Nodup
  planned : ∀ i ∈ g.instances, ∃ c ∈ candidates, c.entryId = i.entryId
  named : ∀ t ∈ tools, ∀ t' ∈ tools, t.ownerId ∈ g.instanceIds → t'.ownerId ∈ g.instanceIds →
    t.name = t'.name → t.ownerId = t'.ownerId

/-- the providers of every capability and the tools that a run sees in a scope -/
def RuntimeGeneration.sight (g : RuntimeGeneration) (path : String) :
    Option (List (String × List String) × List String) :=
  (g.scopes.get? path).map fun r => (r.visible, r.visibleTools)

namespace Publication
variable {g : RuntimeGeneration} (p : Publication g)

theorem scopesPlanned : ScopesPlanned p.candidates p.specs p.plan.scopes :=
  resolve_planned p.resolved p.rooted

/-- the instance registers a capability of that name -/
def Provides (id name : String) : Prop :=
  ∃ c ∈ p.registrations, c.providerId = id ∧ c.key.name = name

/-- the instance registers a tool of that name -/
def HasTool (id name : String) : Prop := ∃ t ∈ p.tools, t.ownerId = id ∧ t.name = name

/-- the scope declares the entry of the instance -/
def Home (id path : String) : Prop := OwnedBy p.candidates g.instances path id

/-- there is such a scope -/
def Published (path : String) : Prop := path ∈ p.plan.scopes.map ScopePlan.path

/-- the scope is there, and the views of its lineage admit the name -/
def Shows (view : ScopeSpec → Option (List String)) (path name : String) : Prop :=
  p.Published path ∧ Admitted p.specs view path name

/-- the scope sees the name of an instance that is declared on its lineage -/
def Offers (view : ScopeSpec → Option (List String)) (has : String → String → Prop)
    (path name id : String) : Prop :=
  Admitted p.specs view path name ∧ ∃ a, OnLineage p.specs path a ∧ p.Home id a ∧ has id name

theorem published_above {path a : String} (h : p.Published path) (ha : OnLineage p.specs path a) :
    p.Published a := by
  obtain ⟨s, hs, rfl⟩ := List.mem_map.1 h
  obtain ⟨q, hq, rfl⟩ := p.scopesPlanned.above hs ha
  exact List.mem_map_of_mem hq

theorem home_unique {id a b : String} (ha : p.Home id a) (hb : p.Home id b) : a = b := by
  obtain ⟨c, hc, rfl, i, hi, hid⟩ := ha
  obtain ⟨d, hd, rfl, j, hj, hjd⟩ := hb
  have hentry : ∀ {e : String} {k : PluginInstance}, instanceByEntry g.instances e = some k →
      k ∈ g.instances ∧ k.entryId = e := by
    intro e k hk
    have hfound := List.find?_some hk
    exact ⟨List.mem_of_find?_eq_some hk, of_decide_eq_true hfound⟩
  obtain ⟨hin, hie⟩ := hentry hi
  obtain ⟨hjn, hje⟩ := hentry hj
  obtain rfl := List.inj_on_of_nodup_map p.ids hin hjn (hid.trans hjd.symm)
  rw [p.scopesPlanned.distinct c hc d hd (hie.symm.trans hje)]

theorem home_exists {id : String} (h : id ∈ g.instanceIds) : ∃ a, p.Home id a := by
  obtain ⟨i, hi, rfl⟩ := List.mem_map.1 h
  obtain ⟨c, hc, hentry⟩ := p.planned i hi
  refine ⟨c.scope, c, hc, rfl, i, ?_, rfl⟩
  rw [hentry]
  exact (find?_key p.entries).2 ⟨hi, rfl⟩

theorem home_mem {id a : String} (h : p.Home id a) : id ∈ g.instanceIds := by
  obtain ⟨c, -, -, i, hi, rfl⟩ := h
  exact List.mem_map_of_mem (List.mem_of_find?_eq_some hi)

theorem toolAt_iff {a name : String} (ha : p.Published a) :
    ToolAt g.instances p.plan.scopes p.tools a name ↔ ∃ id, p.Home id a ∧ p.HasTool id name := by
  constructor
  · rintro ⟨t, ht, hname, hscope⟩
    exact ⟨t.ownerId, toolScope_owned p.scopesPlanned g.instances hscope, t, ht, rfl, hname⟩
  · rintro ⟨id, hhome, t, ht, rfl, hname⟩
    refine ⟨t, ht, hname, ?_⟩
    obtain ⟨s, hs, rfl⟩ := List.mem_map.1 ha
    have howns : s ∈ p.plan.scopes.filter fun s => t.ownerId ∈ localInstanceIds g.instances s :=
      List.mem_filter.2 ⟨hs, decide_eq_true
        ((mem_localInstanceIds p.scopesPlanned g.instances hs).2 hhome)⟩
    unfold toolScope
    rcases hlast : (p.plan.scopes.filter fun s =>
        decide (t.ownerId ∈ localInstanceIds g.instances s)).getLast? with _ | q
    · rw [List.getLast?_eq_none_iff] at hlast
      rw [hlast] at howns
      cases howns
    · obtain ⟨hq, howner⟩ := List.mem_filter.1 (List.mem_of_getLast? hlast)
      have hhome' := (mem_localInstanceIds p.scopesPlanned g.instances hq).1
        (of_decide_eq_true howner)
      exact congrArg some (p.home_unique hhome' hhome)

theorem mem_scopes {r : ResolvedScope} : r ∈ g.scopes.scopes ↔ ∃ s ∈ p.plan.scopes,
    resolveScope g.instances p.plan.scopes p.registrations p.tools s = .ok r := by
  have h := p.built
  unfold buildScopeTree at h
  split at h
  · rename_i hnil
    exact absurd hnil p.scopesPlanned.nonempty
  · obtain ⟨resolved, hresolved, h⟩ := bind_ok.1 h
    have hscopes : resolved = g.scopes.scopes := congrArg ScopeTree.scopes (Except.ok.inj h)
    rw [← hscopes]
    constructor
    · exact fun hr => mapM_ok_mem hresolved hr
    · rintro ⟨s, hs, hr⟩
      obtain ⟨r', hr', hok⟩ := mapM_ok_mem_left hresolved hs
      rwa [Except.ok.inj (hr.symm.trans hok)]

theorem resolved_place {s : ScopePlan} {r : ResolvedScope}
    (h : resolveScope g.instances p.plan.scopes p.registrations p.tools s = .ok r) :
    r.path = s.path ∧ r.parent = s.parent ∧ r.capabilities = s.capabilities := by
  obtain ⟨chain, -, h⟩ := bind_ok.1 h
  cases h
  exact ⟨rfl, rfl, rfl⟩

include p in
theorem path_unique {r r' : ResolvedScope} (hr : r ∈ g.scopes.scopes) (hr' : r' ∈ g.scopes.scopes)
    (hpath : r.path = r'.path) : r = r' := by
  obtain ⟨s, hs, hok⟩ := p.mem_scopes.1 hr
  obtain ⟨s', hs', hok'⟩ := p.mem_scopes.1 hr'
  have hsame : s.path = s'.path :=
    (p.resolved_place hok).1.symm.trans (hpath.trans (p.resolved_place hok').1)
  rw [p.scopesPlanned.unique s hs s' hs' hsame] at hok
  exact Except.ok.inj (hok.symm.trans hok')

include p in
theorem get?_iff {path : String} {r : ResolvedScope} :
    g.scopes.get? path = some r ↔ r ∈ g.scopes.scopes ∧ r.path = path := by
  unfold ScopeTree.get?
  constructor
  · intro h
    have hfound := List.find?_some h
    exact ⟨List.mem_of_find?_eq_some h, of_decide_eq_true hfound⟩
  · rintro ⟨hr, rfl⟩
    obtain ⟨r', hr'⟩ : ∃ r', g.scopes.scopes.find? (fun s => decide (s.path = r.path)) = some r' := by
      rw [← Option.isSome_iff_exists, List.find?_isSome]
      exact ⟨r, hr, decide_eq_true rfl⟩
    have hfound := List.find?_some hr'
    rw [hr', p.path_unique (List.mem_of_find?_eq_some hr') hr (of_decide_eq_true hfound)]

theorem published_iff {path : String} : p.Published path ↔ ∃ r, g.scopes.get? path = some r := by
  constructor
  · intro h
    obtain ⟨s, hs, rfl⟩ := List.mem_map.1 h
    obtain ⟨r, hr, hpath, -⟩ := resolveScope_sees p.scopesPlanned g.instances p.registrations
      p.tools hs
    exact ⟨r, p.get?_iff.2 ⟨p.mem_scopes.2 ⟨s, hs, hr⟩, hpath⟩⟩
  · rintro ⟨r, hget⟩
    obtain ⟨hin, hpath⟩ := p.get?_iff.1 hget
    obtain ⟨s, hs, hok⟩ := p.mem_scopes.1 hin
    rw [← hpath, (p.resolved_place hok).1]
    exact List.mem_map_of_mem hs

/-- what a published scope sees -/
structure Shown (path : String) (r : ResolvedScope) : Prop where
  grouped : Grouped r.visible
  ordered : r.visibleTools.Pairwise (· < ·)
  visible : ∀ name id, Lists r.visible name id ↔
    p.Offers ScopeSpec.capabilities p.Provides path name id
  tools : ∀ name, name ∈ r.visibleTools ↔ ∃ id, p.Offers ScopeSpec.tools p.HasTool path name id

theorem shown {path : String} {r : ResolvedScope} (h : g.scopes.get? path = some r) :
    p.Shown path r := by
  obtain ⟨hr, rfl⟩ := p.get?_iff.1 h
  obtain ⟨s, hs, hok⟩ := p.mem_scopes.1 hr
  obtain ⟨r', hok', hpath, -, hsees⟩ := resolveScope_sees p.scopesPlanned g.instances
    p.registrations p.tools hs
  obtain rfl := Except.ok.inj (hok.symm.trans hok')
  have hpublished : p.Published r.path := p.published_iff.2 ⟨r, h⟩
  refine ⟨(resolveScope_grouped hok).2, ?_, fun name id => ?_, fun name => ?_⟩
  · obtain ⟨chain, -, hok⟩ := bind_ok.1 hok
    cases hok
    exact nameSet_ordered _
  · rw [hsees.visible name id]
    exact Iff.rfl
  · rw [hsees.visibleTools name]
    unfold Offers
    rw [exists_and_left]
    refine and_congr_right fun _ => ?_
    constructor
    · rintro ⟨a, hon, htool⟩
      obtain ⟨id, hhome, htool⟩ := (p.toolAt_iff (p.published_above hpublished hon)).1 htool
      exact ⟨id, a, hon, hhome, htool⟩
    · rintro ⟨id, a, hon, hhome, htool⟩
      exact ⟨a, hon, (p.toolAt_iff (p.published_above hpublished hon)).2 ⟨id, hhome, htool⟩⟩

/-! ### lineages -/

theorem parentOf_iff {path parent : String} {r : ResolvedScope}
    (h : g.scopes.get? path = some r) : ParentOf p.specs path parent ↔ r.parent = some parent := by
  obtain ⟨hr, rfl⟩ := p.get?_iff.1 h
  obtain ⟨s, hs, hok⟩ := p.mem_scopes.1 hr
  obtain ⟨hpath, hparent, -⟩ := p.resolved_place hok
  rw [hpath, hparent]
  exact p.scopesPlanned.parentOf hs

/-- no two scopes are above each other -/
theorem onLineage_antisymm {a b : String} (ha : p.Published a) (hab : OnLineage p.specs a b)
    (hba : OnLineage p.specs b a) : a = b := by
  rcases Relation.ReflTransGen.cases_head hab with h | ⟨parent, hparent, hup⟩
  · exact h
  · obtain ⟨s, hs, rfl⟩ := List.mem_map.1 ha
    obtain ⟨spec, hspec, hpath, -⟩ := p.scopesPlanned.spec s hs
    have hok := p.scopesPlanned.rooted spec hspec
    rw [hpath] at hok
    rcases hl : lineageOf p.specs s.path with e | l
    · rw [hl] at hok
      cases hok
    · exact absurd (hup.trans hba) (not_onLineage_parent p.scopesPlanned.nodup hl hparent)

theorem admitted_iff {path name : String} {r : ResolvedScope} (h : g.scopes.get? path = some r) :
    Admitted p.specs ScopeSpec.capabilities path name ↔ within r.capabilities name = true := by
  obtain ⟨hr, rfl⟩ := p.get?_iff.1 h
  obtain ⟨s, hs, hok⟩ := p.mem_scopes.1 hr
  obtain ⟨hpath, -, hcapabilities⟩ := p.resolved_place hok
  rw [hpath, hcapabilities]
  exact (p.scopesPlanned.admits s hs name).symm

end Publication

/-! ## generations without a change between them -/

/-- the same scopes in the same places, with the same capabilities, and the same instances -/
structure SameShape (g g' : RuntimeGeneration) : Prop where
  scopes : ∀ path, Option.Rel (fun r r' => Diagnostics.signature r = Diagnostics.signature r')
    (g.scopes.get? path) (g'.scopes.get? path)
  ids : ∀ id, id ∈ g.instanceIds ↔ id ∈ g'.instanceIds

section
variable {g g' : RuntimeGeneration} (p : Publication g) (p' : Publication g')
include p

theorem Publication.get?_scopesByPath (path : String) :
    (Diagnostics.scopesByPath g).get? path = g.scopes.get? path := by
  refine Option.ext fun r => ?_
  rw [p.get?_iff, Diagnostics.scopesByPath, Dict.get?_ofList_of_unique]
  · constructor
    · intro h
      obtain ⟨s, hs, heq⟩ := List.mem_map.1 h
      cases heq
      exact ⟨hs, rfl⟩
    · rintro ⟨hr, rfl⟩
      exact List.mem_map_of_mem hr
  · intro x hx y hy hkey
    obtain ⟨s, hs, rfl⟩ := List.mem_map.1 hx
    obtain ⟨s', hs', rfl⟩ := List.mem_map.1 hy
    rw [p.path_unique hs hs' hkey]

theorem Publication.get?_instancesByEntry {e : String} {i : PluginInstance} :
    (Diagnostics.instancesByEntry g).get? e = some i ↔ i ∈ g.instances ∧ i.entryId = e := by
  rw [Diagnostics.instancesByEntry, Dict.get?_ofList]
  · constructor
    · intro h
      obtain ⟨j, hj, heq⟩ := List.mem_map.1 h
      cases heq
      exact ⟨hj, rfl⟩
    · rintro ⟨hi, rfl⟩
      exact List.mem_map_of_mem hi
  · rw [List.map_map]
    exact p.entries

theorem instances_sub (p' : Publication g')
    (h : ∀ e, Option.Rel (fun i i' => Diagnostics.providerComparison.same i i' = true)
      ((Diagnostics.instancesByEntry g).get? e) ((Diagnostics.instancesByEntry g').get? e))
    {id : String} (hid : id ∈ g.instanceIds) : id ∈ g'.instanceIds := by
  obtain ⟨i, hi, rfl⟩ := List.mem_map.1 hid
  have hrel := h i.entryId
  rw [p.get?_instancesByEntry.2 ⟨hi, rfl⟩] at hrel
  rcases hfound : (Diagnostics.instancesByEntry g').get? i.entryId with _ | i'
  · rw [hfound] at hrel
    cases hrel
  · rw [hfound, Option.rel_some_some] at hrel
    have hsame := (Bool.and_eq_true_iff.1 hrel).1
    rw [of_decide_eq_true hsame]
    exact List.mem_map_of_mem (p'.get?_instancesByEntry.1 hfound).1

include p' in
/-- **Where no change is reported** the shapes are the same. -/
theorem difference_silent {ex : Explanation} {includeUnchanged : Bool}
    (h : (Diagnostics.difference ex includeUnchanged g g').Silent) : SameShape g g' := by
  have hall : ∀ c ∈ Diagnostics.diffScopes includeUnchanged g g' ++
      Diagnostics.diffProviders includeUnchanged g g' ++
        Diagnostics.diffRequirements includeUnchanged g g', c.kind = .unchanged :=
    fun c hc => h c (mem_sortedBy.2 hc)
  have hscopes : ∀ path, _ := (Comparison.silent_iff (by decide)).1 fun c hc =>
    hall c (List.mem_append_left _ (List.mem_append_left _ hc))
  have hproviders : ∀ e, _ := (Comparison.silent_iff (by decide)).1 fun c hc =>
    hall c (List.mem_append_left _ (List.mem_append_right _ hc))
  refine ⟨fun path => ?_, fun id => ⟨instances_sub p p' hproviders, ?_⟩⟩
  · rw [← p.get?_scopesByPath, ← p'.get?_scopesByPath]
    have hrel := hscopes path
    revert hrel
    generalize (Diagnostics.scopesByPath g).get? path = found
    generalize (Diagnostics.scopesByPath g').get? path = found'
    intro hrel
    cases hrel with
    | none => exact .none
    | some hsame => exact .some (of_decide_eq_true hsame)
  · refine instances_sub p' p fun e => ?_
    have hrel := hproviders e
    revert hrel
    generalize (Diagnostics.instancesByEntry g).get? e = found
    generalize (Diagnostics.instancesByEntry g').get? e = found'
    intro hrel
    cases hrel with
    | none => exact .none
    | some hsame =>
      refine .some ?_
      simp only [Diagnostics.providerComparison, Bool.and_eq_true, decide_eq_true_eq] at hsame ⊢
      exact ⟨hsame.1.symm, hsame.2.symm⟩

end

/-! ## what a run sees of them -/

namespace SameShape
variable {g g' : RuntimeGeneration} (hs : SameShape g g') (p : Publication g) (p' : Publication g')
include hs

theorem symm : SameShape g' g where
  scopes := fun path => by
    have hrel := hs.scopes path
    revert hrel
    generalize g.scopes.get? path = found
    generalize g'.scopes.get? path = found'
    intro hrel
    cases hrel with
    | none => exact .none
    | some hsame => exact .some hsame.symm
  ids := fun id => (hs.ids id).symm

theorem counterpart {path : String} {r : ResolvedScope} (h : g.scopes.get? path = some r) :
    ∃ r', g'.scopes.get? path = some r' ∧ r.parent = r'.parent ∧ r.capabilities = r'.capabilities := by
  have hrel := hs.scopes path
  rw [h] at hrel
  rcases hfound : g'.scopes.get? path with _ | r'
  · rw [hfound] at hrel
    cases hrel
  · rw [hfound, Option.rel_some_some] at hrel
    have hparent := congrArg Prod.fst hrel
    have hcapabilities := congrArg (fun x => x.2.2) hrel
    exact ⟨r', rfl, hparent, hcapabilities⟩

theorem published {path : String} (h : p.Published path) : p'.Published path := by
  obtain ⟨r, hr⟩ := p.published_iff.1 h
  obtain ⟨r', hr', -⟩ := hs.counterpart hr
  exact p'.published_iff.2 ⟨r', hr'⟩

theorem lineage {path a : String} (h : p.Published path) (ha : OnLineage p.specs path a) :
    OnLineage p'.specs path a := by
  induction ha using Relation.ReflTransGen.head_induction_on with
  | refl => exact .refl
  | @head path parent hparent _ ih =>
    obtain ⟨r, hr⟩ := p.published_iff.1 h
    obtain ⟨r', hr', heq, -⟩ := hs.counterpart hr
    have hparent' : ParentOf p'.specs path parent := by
      rw [p'.parentOf_iff hr', ← heq]
      exact (p.parentOf_iff hr).1 hparent
    exact .head hparent' (ih (p.published_above h (.single hparent)))

theorem admitted {path name : String} (h : p.Published path) :
    Admitted p.specs ScopeSpec.capabilities path name ↔
      Admitted p'.specs ScopeSpec.capabilities path name := by
  obtain ⟨r, hr⟩ := p.published_iff.1 h
  obtain ⟨r', hr', -, heq⟩ := hs.counterpart hr
  rw [p.admitted_iff hr, p'.admitted_iff hr', heq]

end SameShape

section
variable {g g' : RuntimeGeneration} (p : Publication g) (p' : Publication g')

/-- What an instance has and its scope shows, in either generation, both of them declare in the same
scope. -/
def Unmoved (view : ScopeSpec → Option (List String)) (has : String → String → Prop) : Prop :=
  ∀ id name a a', p.Home id a → p'.Home id a' → has id name →
    p.Shows view a name ∨ p'.Shows view a' name → a = a'

/-- Moreover the views of both admit it in the same scopes below. -/
def Spared (view : ScopeSpec → Option (List String)) (has : String → String → Prop) : Prop :=
  ∀ id name a a', p.Home id a → p'.Home id a' → has id name →
    p.Shows view a name ∨ p'.Shows view a' name →
    a = a' ∧ ∀ path, p.Published path → OnLineage p.specs path a →
      (Admitted p.specs view path name ↔ Admitted p'.specs view path name)

variable {p p'} {view : ScopeSpec → Option (List String)} {has has' : String → String → Prop}
  (hs : SameShape g g') (hhas : ∀ id ∈ g.instanceIds, ∀ name, has id name ↔ has' id name)
include hs hhas

/-- what is spared, whatever sees it in one generation sees in the other -/
theorem Spared.offers (h : Spared p p' view has) {path name id : String} (hpath : p.Published path)
    (ho : p.Offers view has path name id) : p'.Offers view has' path name id := by
  obtain ⟨hadm, a, hon, hhome, hhas'⟩ := ho
  obtain ⟨a', hhome'⟩ := p'.home_exists ((hs.ids id).1 (p.home_mem hhome))
  obtain ⟨rfl, hviews⟩ := h id name a a' hhome hhome' hhas'
    (Or.inl ⟨p.published_above hpath hon, hadm.above hon⟩)
  exact ⟨(hviews path hpath hon).1 hadm, a, hs.lineage p p' hpath hon, hhome',
    (hhas id (p.home_mem hhome) name).1 hhas'⟩

theorem Spared.offers_back (h : Spared p p' view has) {path name id : String}
    (hpath : p.Published path) (ho : p'.Offers view has' path name id) :
    p.Offers view has path name id := by
  obtain ⟨hadm, a', hon, hhome', hhas'⟩ := ho
  have hpath' := hs.published p p' hpath
  have hid := (hs.ids id).2 (p'.home_mem hhome')
  obtain ⟨a, hhome⟩ := p.home_exists hid
  obtain ⟨rfl, hviews⟩ := h id name a a' hhome hhome' ((hhas id hid name).2 hhas')
    (Or.inr ⟨p'.published_above hpath' hon, hadm.above hon⟩)
  have hon' := hs.symm.lineage p' p hpath' hon
  exact ⟨(hviews path hpath hon').2 hadm, a, hon', hhome, (hhas id hid name).2 hhas'⟩

/-- **What every scope of both generations sees is the same**, exactly if it is spared. -/
theorem offers_iff_spared : (∀ path, p.Published path → ∀ name id,
    p.Offers view has path name id ↔ p'.Offers view has' path name id) ↔ Spared p p' view has := by
  constructor
  · intro h id name a a' hhome hhome' hhas' hshows
    have hid := p.home_mem hhome
    have hup : ∀ {b}, p.Published b → p.Offers view has b name id → OnLineage p.specs b a := by
      rintro b - ⟨-, c, hon, hc, -⟩
      rwa [p.home_unique hhome hc]
    have hup' : ∀ {b}, p.Published b → p'.Offers view has' b name id → OnLineage p.specs b a' := by
      rintro b hb ⟨-, c, hon, hc, -⟩
      rw [p'.home_unique hhome' hc]
      exact hs.symm.lineage p' p (hs.published p p' hb) hon
    have hself' : p'.Shows view a' name → p'.Offers view has' a' name id :=
      fun hshow => ⟨hshow.2, a', .refl, hhome', (hhas id hid name).1 hhas'⟩
    have hself : p.Shows view a name → p.Offers view has a name id :=
      fun hshow => ⟨hshow.2, a, .refl, hhome, hhas'⟩
    have hsame : a = a' := by
      rcases hshows with hshow | hshow
      · have hseen' := (h a hshow.1 name id).1 (hself hshow)
        have haa' := hup' hshow.1 hseen'
        have ha' := p.published_above hshow.1 haa'
        have hadm' : Admitted p'.specs view a' name :=
          hseen'.1.above (hs.lineage p p' hshow.1 haa')
        have hback := (h a' ha' name id).2 (hself' ⟨hs.published p p' ha', hadm'⟩)
        exact p.onLineage_antisymm hshow.1 haa' (hup ha' hback)
      · have ha' := hs.symm.published p' p hshow.1
        have hseen := (h a' ha' name id).2 (hself' hshow)
        have ha'a := hup ha' hseen
        have ha := p.published_above ha' ha'a
        have hback := (h a ha name id).1 (hself ⟨ha, hseen.1.above ha'a⟩)
        exact p.onLineage_antisymm ha (hup' ha hback) ha'a
    refine ⟨hsame, fun path hpath hon => ?_⟩
    subst hsame
    constructor
    · exact fun hadm => ((h path hpath name id).1 ⟨hadm, a, hon, hhome, hhas'⟩).1
    · exact fun hadm => ((h path hpath name id).2 ⟨hadm, a, hs.lineage p p' hpath hon, hhome',
        (hhas id hid name).1 hhas'⟩).1
  · exact fun h path hpath name id => ⟨h.offers hs hhas hpath, h.offers_back hs hhas hpath⟩

end

theorem spared_capabilities {g g' : RuntimeGeneration} {p : Publication g} {p' : Publication g'}
    (hs : SameShape g g') {has : String → String → Prop} :
    Spared p p' ScopeSpec.capabilities has ↔ Unmoved p p' ScopeSpec.capabilities has := by
  constructor
  · exact fun h id name a a' hhome hhome' hhas hshows => (h id name a a' hhome hhome' hhas hshows).1
  · intro h id name a a' hhome hhome' hhas hshows
    exact ⟨h id name a a' hhome hhome' hhas hshows, fun path hpath _ => hs.admitted p p' hpath⟩

/-- instances that both generations have register the same in both -/
structure KeepRegistered {g g' : RuntimeGeneration} (p : Publication g) (p' : Publication g') :
    Prop where
  provides : ∀ id ∈ g.instanceIds, id ∈ g'.instanceIds →
    ∀ name, p.Provides id name ↔ p'.Provides id name
  tools : ∀ id ∈ g.instanceIds, id ∈ g'.instanceIds →
    ∀ name, p.HasTool id name ↔ p'.HasTool id name

section
variable {g g' : RuntimeGeneration} {p : Publication g} {p' : Publication g'}

theorem tool_owner (hs : SameShape g g') (hkeep : KeepRegistered p p') {path name id id' : String}
    (h : p.Offers ScopeSpec.tools p.HasTool path name id)
    (h' : p'.Offers ScopeSpec.tools p'.HasTool path name id') : id = id' := by
  obtain ⟨-, a, -, hhome, t, ht, rfl, rfl⟩ := h
  obtain ⟨-, a', -, hhome', htool⟩ := h'
  have hid' := (hs.ids id').2 (p'.home_mem hhome')
  obtain ⟨t', ht', rfl, hname⟩ := (hkeep.tools id' hid' (p'.home_mem hhome') _).2 htool
  exact p.named t ht t' ht' (p.home_mem hhome) hid' hname.symm

/-- what is seen of a scope, of what it offers -/
theorem sight_iff (hs : SameShape g g') (hkeep : KeepRegistered p p') {path : String}
    (h : p.Published path) : g.sight path = g'.sight path ↔
      (∀ name id, p.Offers ScopeSpec.capabilities p.Provides path name id ↔
        p'.Offers ScopeSpec.capabilities p'.Provides path name id) ∧
      ∀ name id, p.Offers ScopeSpec.tools p.HasTool path name id ↔
        p'.Offers ScopeSpec.tools p'.HasTool path name id := by
  obtain ⟨r, hr⟩ := p.published_iff.1 h
  obtain ⟨r', hr', -⟩ := hs.counterpart hr
  have hshown := p.shown hr
  have hshown' := p'.shown hr'
  have htools : (∀ name, name ∈ r.visibleTools ↔ name ∈ r'.visibleTools) ↔
      ∀ name id, p.Offers ScopeSpec.tools p.HasTool path name id ↔
        p'.Offers ScopeSpec.tools p'.HasTool path name id := by
    constructor
    · intro heq name id
      have hex := heq name
      rw [hshown.tools, hshown'.tools] at hex
      constructor
      · intro ho
        obtain ⟨id', ho'⟩ := hex.1 ⟨id, ho⟩
        rwa [tool_owner hs hkeep ho ho']
      · intro ho'
        obtain ⟨id', ho⟩ := hex.2 ⟨id, ho'⟩
        rwa [← tool_owner hs hkeep ho ho']
    · intro hall name
      rw [hshown.tools, hshown'.tools]
      exact exists_congr fun id => hall name id
  unfold RuntimeGeneration.sight
  rw [hr, hr', Option.map_some, Option.map_some, Option.some.injEq, Prod.mk.injEq, ← htools]
  refine and_congr ?_ ⟨fun heq name => by rw [heq], ordered_ext hshown.ordered hshown'.ordered⟩
  constructor
  · intro heq name id
    rw [← hshown.visible, ← hshown'.visible, heq]
  · intro hall
    refine hshown.grouped.ext hshown'.grouped fun name id => ?_
    rw [hshown.visible, hshown'.visible]
    exact hall name id

/-- **A difference is complete, exactly if no capability has moved and all tools are spared.**  Two
generations without a reported change between them, whose instances register the same in both: every
scope sees the same providers and the same tools in both, iff whatever the scope of an instance shows
of it is declared in the same scope by both, and the views of both admit its tools in the same scopes
below. -/
theorem diff_complete_iff {ex : Explanation} {includeUnchanged : Bool}
    (hsilent : (Diagnostics.difference ex includeUnchanged g g').Silent)
    (hkeep : KeepRegistered p p') : (∀ path, g.sight path = g'.sight path) ↔
      Unmoved p p' ScopeSpec.capabilities p.Provides ∧ Spared p p' ScopeSpec.tools p.HasTool := by
  have hs := difference_silent p p' hsilent
  have hprovides : ∀ id ∈ g.instanceIds, ∀ name, p.Provides id name ↔ p'.Provides id name :=
    fun id hid => hkeep.provides id hid ((hs.ids id).1 hid)
  have htools : ∀ id ∈ g.instanceIds, ∀ name, p.HasTool id name ↔ p'.HasTool id name :=
    fun id hid => hkeep.tools id hid ((hs.ids id).1 hid)
  rw [← spared_capabilities hs, ← offers_iff_spared hs hprovides, ← offers_iff_spared hs htools]
  constructor
  · intro h
    exact ⟨fun path hpath => ((sight_iff hs hkeep hpath).1 (h path)).1,
      fun path hpath => ((sight_iff hs hkeep hpath).1 (h path)).2⟩
  · rintro ⟨hcap, htool⟩ path
    by_cases hpath : p.Published path
    · exact (sight_iff hs hkeep hpath).2 ⟨hcap path hpath, htool path hpath⟩
    · have hnone : g.scopes.get? path = none := by
        refine Option.eq_none_iff_forall_ne_some.2 fun r hr => hpath ?_
        exact p.published_iff.2 ⟨r, hr⟩
      have hnone' : g'.scopes.get? path = none := by
        refine Option.eq_none_iff_forall_ne_some.2 fun r hr => hpath ?_
        exact hs.symm.published p' p (p'.published_iff.2 ⟨r, hr⟩)
      unfold RuntimeGeneration.sight
      rw [hnone, hnone']

end

end

/-! ### a scope that comes to admit no tools -/

section
open Plain

def toolTree (view : Option (List String)) : CompositionTree :=
  match ({} : CompositionTree).attach rootScope "web" none view Dict.empty with
  | .ok t => t
  | .error _ => {}

theorem toolTree_branching (view : Option (List String)) : (toolTree view).Branching := by
  unfold toolTree
  split
  · rename_i ht
    exact CompositionTree.branching_new.attach ht
  · exact CompositionTree.branching_new

def queryTool : RegisteredTool where
  registrationId := "tool_0003"
  name := "query"
  description := "asks the database"
  inputSchema := .absent
  ownerId := "plugin_0000"
  ownerName := "plugin-db"
  scopeId := "scope_0001"

def queryGeneration (scopes : ScopeTree) : RuntimeGeneration where
  generationId := "gen_0001"
  sequence := 1
  snapshot := ⟨"gen_0001", [dbRegistration]⟩
  instances := [dbInstance]
  metadata := ⟨1, 2, Dict.empty⟩
  scopes := scopes

theorem query_generations (view view' : Option (List String)) (sight sight' : List String)
    (h : (do
      let plan ← (resolve webCandidates Dict.empty (some (toolTree view).specs)).toOption
      let t ← (buildScopeTree [dbInstance] plan [dbRegistration] [queryTool]).toOption
      let plan' ← (resolve webCandidates Dict.empty (some (toolTree view').specs)).toOption
      let t' ← (buildScopeTree [dbInstance] plan' [dbRegistration] [queryTool]).toOption
      let r ← t.get? "/web"
      let r' ← t'.get? "/web"
      return decide (Diagnostics.diffScopes false (queryGeneration t) (queryGeneration t') ++
        Diagnostics.diffProviders false (queryGeneration t) (queryGeneration t') ++
        Diagnostics.diffRequirements false (queryGeneration t) (queryGeneration t') = [] ∧
        r.visibleTools = sight ∧ r'.visibleTools = sight') : Option Bool) = some true) :
    ∃ (t t' : ScopeTree) (p : Publication (queryGeneration t))
      (p' : Publication (queryGeneration t')), p.specs = (toolTree view).specs ∧
      p'.specs = (toolTree view').specs ∧ KeepRegistered p p' ∧
      (∀ ex, (Diagnostics.difference ex false (queryGeneration t) (queryGeneration t')).Silent) ∧
      ((queryGeneration t).sight "/web").map Prod.snd = some sight ∧
      ((queryGeneration t').sight "/web").map Prod.snd = some sight' := by
  obtain ⟨plan, hplan, h⟩ := Option.bind_eq_some_iff.1 h
  obtain ⟨t, ht, h⟩ := Option.bind_eq_some_iff.1 h
  obtain ⟨plan', hplan', h⟩ := Option.bind_eq_some_iff.1 h
  obtain ⟨t', ht', h⟩ := Option.bind_eq_some_iff.1 h
  obtain ⟨r, hr, h⟩ := Option.bind_eq_some_iff.1 h
  obtain ⟨r', hr', h⟩ := Option.bind_eq_some_iff.1 h
  obtain ⟨hchanges, hsight, hsight'⟩ := of_decide_eq_true (Option.some.inj h)
  have hpublication : ∀ {view plan t},
      (resolve webCandidates Dict.empty (some (toolTree view).specs)).toOption = some plan →
      (buildScopeTree [dbInstance] plan [dbRegistration] [queryTool]).toOption = some t →
      ∃ p : Publication (queryGeneration t), p.specs = (toolTree view).specs ∧
        p.registrations = [dbRegistration] ∧ p.tools = [queryTool] := by
    intro view plan t hplan ht
    refine ⟨{
      candidates := webCandidates
      prefer := Dict.empty
      specs := (toolTree view).specs
      plan := plan
      registrations := [dbRegistration]
      tools := [queryTool]
      resolved := ok_of_toOption hplan
      rooted := (toolTree_branching view).descends
      built := ok_of_toOption ht
      ids := List.nodup_singleton _
      entries := List.nodup_singleton _
      planned := ?_
      named := ?_ }, rfl, rfl, rfl⟩
    · intro i hi
      rw [List.mem_singleton.1 hi]
      exact ⟨_, List.mem_cons_self, rfl⟩
    · intro u hu u' hu' _ _ _
      rw [List.mem_singleton.1 hu, List.mem_singleton.1 hu']
  obtain ⟨p, hspecs, hregistrations, htools⟩ := hpublication hplan ht
  obtain ⟨p', hspecs', hregistrations', htools'⟩ := hpublication hplan' ht'
  refine ⟨t, t', p, p', hspecs, hspecs', ⟨fun id _ _ name => ?_, fun id _ _ name => ?_⟩,
    fun ex c hc => ?_, ?_, ?_⟩
  · unfold Publication.Provides
    rw [hregistrations, hregistrations']
  · unfold Publication.HasTool
    rw [htools, htools']
  · rw [Diagnostics.difference, mem_sortedBy, hchanges] at hc
    cases hc
  · show (((t.get? "/web").map _).map Prod.snd) = _
    rw [hr, ← hsight]
    rfl
  · show (((t'.get? "/web").map _).map Prod.snd) = _
    rw [hr', ← hsight']
    rfl

theorem diff_complete_iff_query :
    ∃ (t t' : ScopeTree) (p : Publication (queryGeneration t))
      (p' : Publication (queryGeneration t')),
      ((queryGeneration t).sight "/web").map Prod.snd = some ["query"] ∧
      ((∀ path, (queryGeneration t).sight path = (queryGeneration t').sight path) ↔
        Unmoved p p' ScopeSpec.capabilities p.Provides ∧ Spared p p' ScopeSpec.tools p.HasTool) := by
  obtain ⟨t, t', p, p', -, -, hkeep, hsilent, hsight, -⟩ :=
    query_generations none (some ["query"]) ["query"] ["query"] (by decide +kernel)
  exact ⟨t, t', p, p', hsight,
    diff_complete_iff (hsilent ⟨fun _ => "", fun _ _ => none, fun _ => none⟩) hkeep⟩

/-- **A scope comes to admit no tools, and no change is reported.**  The instance at the root keeps
its tool; the scope below sees it in the one generation, and nothing in the other. -/
theorem tools_withdrawn_silently : ∃ (t t' : ScopeTree) (p : Publication (queryGeneration t))
    (p' : Publication (queryGeneration t')), p.specs = (toolTree none).specs ∧
    p'.specs = (toolTree (some [])).specs ∧ KeepRegistered p p' ∧
    (∀ ex, (Diagnostics.difference ex false (queryGeneration t) (queryGeneration t')).Silent) ∧
    ((queryGeneration t).sight "/web").map Prod.snd = some ["query"] ∧
    ((queryGeneration t').sight "/web").map Prod.snd = some [] ∧
    ¬ ∀ path, (queryGeneration t).sight path = (queryGeneration t').sight path := by
  obtain ⟨t, t', p, p', hspecs, hspecs', hkeep, hsilent, hsight, hsight'⟩ :=
    query_generations none (some []) ["query"] [] (by decide +kernel)
  refine ⟨t, t', p, p', hspecs, hspecs', hkeep, hsilent, hsight, hsight', fun hall => ?_⟩
  rw [hall "/web", hsight'] at hsight
  cases hsight

end
end Chassis
