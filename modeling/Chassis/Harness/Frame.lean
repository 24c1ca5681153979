import Chassis.Harness.System

/-!
# What the operations leave alone

* `PluginRegistry.get?_update`, `get?_adopt`, `get?_forget`   one instance changes, the others stay;
* `SameRuntime h h'`    nothing that is mounted, published or leased differs;
* `DesiredAct.sameRuntime`   the operations on the desired state touch no more than that;
* `SameHoldings h h'`   the weaker relation that the registries of a `setup` keep as well.
-/

set_option linter.unusedSectionVars false

namespace Chassis
open Py Coop

namespace PluginRegistry
variable (r : PluginRegistry)

theorem get?_update (instanceId : String) (f : PluginInstance → PluginInstance) (k : String) :
    (r.update instanceId f).instances.get? k =
      if k = instanceId then (r.instances.get? instanceId).map f else r.instances.get? k := by
  unfold update
  cases hi : r.instances.get? instanceId with
  | none =>
    by_cases hk : k = instanceId
    · rw [if_pos hk, hk]
      exact hi
    · rw [if_neg hk]
  | some i => exact Dict.get?_set r.instances instanceId k (f i)

theorem get?_adopt (i : PluginInstance) (k : String) :
    (r.adopt i).instances.get? k = if k = i.instanceId then some i else r.instances.get? k :=
  Dict.get?_set r.instances i.instanceId k i

theorem get?_forget (i : PluginInstance) (k : String) :
    (r.forget i).instances.get? k = if k = i.instanceId then none else r.instances.get? k :=
  Dict.get?_erase r.instances i.instanceId k

theorem entries_update (instanceId : String) (f : PluginInstance → PluginInstance) :
    (r.update instanceId f).entries = r.entries := by
  rw [update]
  split <;> rfl

/-- instances are kept under their ids -/
def Keyed : Prop := ∀ k i, r.instances.get? k = some i → i.instanceId = k

variable {r}

theorem Keyed.update (hk : r.Keyed) {instanceId : String} {f : PluginInstance → PluginInstance}
    (hf : ∀ i, (f i).instanceId = i.instanceId) : (r.update instanceId f).Keyed := by
  intro k i hi
  rw [get?_update] at hi
  split at hi
  · rename_i hki
    obtain ⟨j, hj, rfl⟩ := Option.map_eq_some_iff.1 hi
    rw [hf, hki]
    exact hk instanceId j hj
  · exact hk k i hi

theorem Keyed.adopt (hk : r.Keyed) (i : PluginInstance) : (r.adopt i).Keyed := by
  intro k j hj
  rw [get?_adopt] at hj
  split at hj
  · rename_i hki
    rw [← Option.some.inj hj, hki]
  · exact hk k j hj

theorem Keyed.forget (hk : r.Keyed) (i : PluginInstance) : (r.forget i).Keyed := by
  intro k j hj
  rw [get?_forget] at hj
  split at hj
  · cases hj
  · exact hk k j hj

theorem instance?_mem {entryId : String} {i : PluginInstance} (h : r.instance? entryId = some i) :
    ∃ k, r.instances.get? k = some i := by
  obtain ⟨k, -, hk⟩ := Option.bind_eq_some_iff.1 h
  exact ⟨k, hk⟩

theorem Keyed.instance? (hk : r.Keyed) {entryId : String} {i : PluginInstance}
    (h : r.instance? entryId = some i) : r.instances.get? i.instanceId = some i := by
  obtain ⟨k, hi⟩ := instance?_mem h
  rw [hk k i hi]
  exact hi

theorem Keyed.of_mem (hk : r.Keyed) {i : PluginInstance} (h : i ∈ r.sortedInstances) :
    r.instances.get? i.instanceId = some i := by
  obtain ⟨k, hi⟩ := Dict.mem_values.1 (mem_sortedBy.1 h)
  rw [hk k i hi]
  exact hi

theorem Keyed.nodup (hk : r.Keyed) :
    (r.sortedInstances.map PluginInstance.instanceId).Nodup := by
  have hvalues : r.instances.values.map PluginInstance.instanceId = r.instances.keys := by
    unfold Dict.values Dict.keys
    rw [List.map_map]
    refine List.map_congr_left fun p hp => ?_
    exact hk p.1 p.2 (Dict.mem_items.1 hp)
  unfold sortedInstances
  rw [((sortedBy_perm _ _).map PluginInstance.instanceId).nodup_iff, hvalues]
  exact r.instances.keys_nodup

end PluginRegistry

/-- nothing that is mounted, published or leased differs -/
structure SameRuntime (h h' : Harness) : Prop where
  instances : h'.plugins.instances = h.plugins.instances
  byEntry : h'.plugins.byEntry = h.plugins.byEntry
  capabilities : h'.capabilities = h.capabilities
  tools : h'.tools = h.tools
  hooks : h'.hooks = h.hooks
  hookSequence : h'.hookSequence = h.hookSequence
  generations : h'.generations = h.generations
  runs : h'.runs = h.runs
  redactor : h'.redactor = h.redactor
  work : h'.work = h.work
  origin : h'.origin = h.origin
  state : h'.state = h.state
  drawn : h.drawn ≤ h'.drawn

/-- whatever is mounted, published or leased -/
def Harness.runtime (h : Harness) :=
  (h.plugins.instances, h.plugins.byEntry, h.capabilities, h.tools, h.hooks, h.hookSequence,
    h.generations, h.runs, h.redactor, h.work, h.origin, h.state)

namespace SameRuntime

theorem of_runtime {h h' : Harness} (hr : h'.runtime = h.runtime) (hd : h.drawn ≤ h'.drawn) :
    SameRuntime h h' := by
  simp only [Harness.runtime, Prod.mk.injEq] at hr
  obtain ⟨hi, hb, hc, ht, hh, hs, hg, hl, hre, hw, ho, hst⟩ := hr
  exact ⟨hi, hb, hc, ht, hh, hs, hg, hl, hre, hw, ho, hst, hd⟩

theorem refl (h : Harness) : SameRuntime h h := of_runtime rfl (le_refl _)

theorem trans {h h' h'' : Harness} (a : SameRuntime h h') (b : SameRuntime h' h'') :
    SameRuntime h h'' where
  instances := b.instances.trans a.instances
  byEntry := b.byEntry.trans a.byEntry
  capabilities := b.capabilities.trans a.capabilities
  tools := b.tools.trans a.tools
  hooks := b.hooks.trans a.hooks
  hookSequence := b.hookSequence.trans a.hookSequence
  generations := b.generations.trans a.generations
  runs := b.runs.trans a.runs
  redactor := b.redactor.trans a.redactor
  work := b.work.trans a.work
  origin := b.origin.trans a.origin
  state := b.state.trans a.state
  drawn := a.drawn.trans b.drawn

theorem of_plugins {h h' : Harness} (plugins : PluginRegistry)
    (hi : plugins.instances = h.plugins.instances) (hb : plugins.byEntry = h.plugins.byEntry)
    (hs : SameRuntime { h with plugins := plugins } h') : SameRuntime h h' :=
  { hs with
    instances := hs.instances.trans hi
    byEntry := hs.byEntry.trans hb }

end SameRuntime

theorem Harness.get?_refreshReferences (h : Harness) (k : String) :
    h.refreshReferences.plugins.instances.get? k =
      (h.plugins.instances.get? k).map fun i => { i with generationRefs := h.references i } :=
  Dict.get?_mapValues _ _ k

section
variable [Packaging]

theorem Harness.install_sameRuntime {h h' : Harness} {plugin : Plugin} {entryId : Option String}
    {replace : Bool} {scope : Option String} {id : String}
    (hi : h.install plugin entryId replace scope = .ok (id, h')) : SameRuntime h h' := by
  obtain ⟨path, -, hi⟩ := bind_ok.1 hi
  obtain ⟨⟨entry, plugins⟩, hp, hi⟩ := bind_ok.1 hi
  have htouch := PluginRegistry.install_touches hp
  cases hi
  refine SameRuntime.of_plugins plugins htouch.instances htouch.byEntry ?_
  exact .of_runtime rfl (le_refl _)

theorem Harness.uninstall_sameRuntime (h : Harness) (entryId : String) :
    SameRuntime h (h.uninstall entryId).2 := by
  exact .of_runtime rfl (le_refl _)

theorem Harness.syncServicesEntry_sameRuntime {h h' : Harness}
    (hs : h.syncServicesEntry = .ok h') : SameRuntime h h' := by
  rw [Harness.syncServicesEntry] at hs
  split at hs
  · cases hs
    exact .of_runtime rfl (le_refl _)
  · obtain ⟨keys, -, hs⟩ := bind_ok.1 hs
    obtain ⟨⟨id, h₁⟩, hi, hs⟩ := bind_ok.1 hs
    cases hs
    have hinst := Harness.install_sameRuntime hi
    exact { hinst with drawn := (Nat.le_succ _).trans hinst.drawn }

theorem Harness.withProvisions_sameRuntime (h : Harness)
    (provisions : Dict CapabilityKey (Option String)) :
    SameRuntime h (h.withProvisions provisions).2 := by
  simp only [Harness.withProvisions]
  split
  · exact .of_runtime rfl (le_refl _)
  · rename_i h₁ hs
    exact { Harness.syncServicesEntry_sameRuntime hs with }

theorem Harness.uninstallAll_sameRuntime (entries : List String) (s : List String × Harness) :
    SameRuntime s.2 (entries.foldl (fun s e =>
      let (removed, h) := s.2.uninstall e
      (if removed then s.1 ++ [e] else s.1, h)) s).2 := by
  induction entries generalizing s with
  | nil => exact SameRuntime.refl s.2
  | cons e rest ih =>
    exact (s.2.uninstall_sameRuntime e).trans
      (ih (if (s.2.uninstall e).1 then s.1 ++ [e] else s.1, (s.2.uninstall e).2))

theorem Harness.uninstallScopes_sameRuntime (scopes : List CompositionScope)
    (s : List String × Harness) :
    SameRuntime s.2 (scopes.foldl (fun s scope =>
      (s.2.plugins.entriesForScope scope.path).foldl (fun s e =>
        let (removed, h) := s.2.uninstall e
        (if removed then s.1 ++ [e] else s.1, h)) s) s).2 := by
  induction scopes generalizing s with
  | nil => exact SameRuntime.refl s.2
  | cons scope rest ih => exact (Harness.uninstallAll_sameRuntime _ s).trans (ih _)

theorem Harness.removeScope_sameRuntime {h h' : Harness} {path : String} {entries : List String}
    (hs : h.removeScope path = .ok (entries, h')) : SameRuntime h h' := by
  rw [Harness.removeScope] at hs
  split at hs
  · cases hs
  · obtain ⟨path', -, hs⟩ := bind_ok.1 hs
    simp only at hs
    split at hs
    · cases hs
      exact SameRuntime.refl h
    · cases hs
      exact { Harness.uninstallScopes_sameRuntime (h.composition.descendants path') ([], h) with }

theorem Harness.preferProvider_ok {h h' : Harness} {capability provider : String}
    {consumer scope : Option String} (hp : h.preferProvider capability provider consumer scope = .ok h') :
    ∃ key, h' = { h with
      providerPreference := h.providerPreference.set key provider, dirty := true } := by
  unfold Harness.preferProvider at hp
  split at hp
  · cases hp
  · cases hp
    exact ⟨_, rfl⟩
  · obtain ⟨path, -, hp⟩ := bind_ok.1 hp
    cases hp
    exact ⟨_, rfl⟩
  · cases hp
    exact ⟨_, rfl⟩

/-- **Operations on the desired state touch nothing that runs.** -/
theorem DesiredAct.sameRuntime {h h' : Harness} (ha : DesiredAct h h') : SameRuntime h h' := by
  cases ha with
  | install plugin entryId replace scope hi => exact Harness.install_sameRuntime hi
  | uninstall entryId => exact h.uninstall_sameRuntime entryId
  | provide capability version => exact h.withProvisions_sameRuntime _
  | withdraw matching =>
    simp only [Harness.withdraw]
    split
    · exact SameRuntime.refl h
    · exact h.withProvisions_sameRuntime _
  | preferProvider capability provider consumer scope hp =>
    obtain ⟨key, rfl⟩ := Harness.preferProvider_ok hp
    exact .of_runtime rfl (le_refl _)
  | addScope parent name capabilities tools metadata hs =>
    obtain ⟨tree, -, hs⟩ := bind_ok.1 hs
    cases hs
    exact .of_runtime rfl (le_refl _)
  | removeScope path hs => exact Harness.removeScope_sameRuntime hs
  | changeScope path change => exact .of_runtime rfl (le_refl _)
  | dropRequirement path capability =>
    simp only [Harness.dropRequirement]
    split
    · exact .of_runtime rfl (le_refl _)
    · exact SameRuntime.refl h

/-! ## leases -/

variable {h h' : Harness}

theorem Harness.acquire_ok (ha : h.acquire = .ok h') : ∃ lease m,
    h.generations.acquireLease = .ok (lease, m) ∧
      h' = { h with generations := m, runs := h.runs ++ [lease] } := by
  unfold Harness.acquire at ha
  split at ha
  · cases ha
  · obtain ⟨⟨lease, m⟩, hok, ha⟩ := bind_ok.1 ha
    cases ha
    exact ⟨lease, m, hok, rfl⟩

theorem Harness.release_ok {n : Nat} {becameIdle : Bool} (hr : h.release n = .ok (becameIdle, h')) :
    h' = h ∨ ∃ (lease : GenerationLease) (idle : Bool) (m : GenerationManager),
      h.runs[n]? = some lease ∧ h.generations.releaseLease lease = .ok (idle, m) ∧
      h' = { h with generations := m, runs := h.runs.eraseIdx n } := by
  unfold Harness.release at hr
  split at hr
  · cases hr
    exact Or.inl rfl
  · rename_i lease hl
    obtain ⟨⟨idle, m⟩, hok, hr⟩ := bind_ok.1 hr
    cases hr
    exact Or.inr ⟨lease, _, m, hl, hok, rfl⟩

end

/-- the instances, the generations and the leases do not differ -/
structure SameHoldings (h h' : Harness) : Prop where
  instances : h'.plugins.instances = h.plugins.instances
  generations : h'.generations = h.generations
  runs : h'.runs = h.runs
  mounted : h'.work.mounted = h.work.mounted
  drawn : h.drawn ≤ h'.drawn

theorem SameRuntime.sameHoldings {h h' : Harness} (a : SameRuntime h h') : SameHoldings h h' where
  instances := a.instances
  generations := a.generations
  runs := a.runs
  mounted := by rw [a.work]
  drawn := a.drawn

namespace Harness
variable (h : Harness)

theorem learn_sameHoldings (secrets : List String) : SameHoldings h (h.learn secrets) :=
  ⟨rfl, rfl, rfl, rfl, le_refl _⟩

theorem note_sameHoldings (failures : List CleanupFailure) : SameHoldings h (h.note failures) :=
  ⟨rfl, rfl, rfl, rfl, le_refl _⟩

theorem closeScope_sameHoldings (i : PluginInstance) : SameHoldings h (h.closeScope i) :=
  ⟨rfl, rfl, rfl, rfl, le_refl _⟩

variable [Packaging] [Platform]

theorem afterSetup_eq (i : PluginInstance) (a : SetupAnswer) :
    ∃ capabilities tools hooks hookSequence drawn redactor, h.drawn ≤ drawn ∧
      h.afterSetup i a = { h with
        capabilities := capabilities, tools := tools, hooks := hooks
        hookSequence := hookSequence, drawn := drawn, redactor := redactor } := by
  have hcaps : ∀ (l : List (CapabilityKey × Option String)) (h : Harness),
      ∃ capabilities drawn, h.drawn ≤ drawn ∧ l.foldl (fun h c => h.provideCapability i c) h =
        { h with capabilities := capabilities, drawn := drawn } := by
    intro l
    induction l with
    | nil => exact fun h => ⟨_, _, le_refl _, rfl⟩
    | cons c l ih =>
      intro h
      obtain ⟨caps, d, hd, heq⟩ := ih (h.provideCapability i c)
      have hone : ∃ caps d, h.drawn ≤ d ∧ h.provideCapability i c =
          { h with capabilities := caps, drawn := d } := by
        unfold provideCapability
        split
        · exact ⟨_, _, le_refl _, rfl⟩
        · split
          · exact ⟨_, _, le_refl _, rfl⟩
          · exact ⟨_, _, Nat.le_succ _, rfl⟩
      obtain ⟨caps', d', hd', heq'⟩ := hone
      rw [heq'] at hd heq
      rw [List.foldl_cons, heq']
      exact ⟨caps, d, hd'.trans hd, heq⟩
  have htools : ∀ (l : List ToolDeclaration) (h : Harness),
      ∃ tools drawn, h.drawn ≤ drawn ∧ l.foldl (fun h t => h.registerTool i t) h =
        { h with tools := tools, drawn := drawn } := by
    intro l
    induction l with
    | nil => exact fun h => ⟨_, _, le_refl _, rfl⟩
    | cons t l ih =>
      intro h
      obtain ⟨tools, d, hd, heq⟩ := ih (h.registerTool i t)
      have hone : ∃ tools d, h.drawn ≤ d ∧ h.registerTool i t =
          { h with tools := tools, drawn := d } := by
        unfold registerTool
        split
        · exact ⟨_, _, le_refl _, rfl⟩
        · exact ⟨_, _, Nat.le_succ _, rfl⟩
      obtain ⟨tools', d', hd', heq'⟩ := hone
      rw [heq'] at hd heq
      rw [List.foldl_cons, heq']
      exact ⟨tools, d, hd'.trans hd, heq⟩
  have hhooks : ∀ (l : List HookDeclaration) (h : Harness),
      ∃ hooks sequence drawn, h.drawn ≤ drawn ∧ l.foldl (fun h d => h.registerHook i d) h =
        { h with hooks := hooks, hookSequence := sequence, drawn := drawn } := by
    intro l
    induction l with
    | nil => exact fun h => ⟨_, _, _, le_refl _, rfl⟩
    | cons d l ih =>
      intro h
      obtain ⟨hooks, n, d', hd, heq⟩ := ih (h.registerHook i d)
      exact ⟨hooks, n, d', (Nat.le_succ _).trans hd, heq⟩
  obtain ⟨caps, d₁, hd₁, h₁⟩ := hcaps a.capabilities h
  obtain ⟨tools, d₂, hd₂, h₂⟩ := htools a.tools { h with capabilities := caps, drawn := d₁ }
  obtain ⟨hooks, n, d₃, hd₃, h₃⟩ := hhooks a.hooks
    { h with capabilities := caps, tools := tools, drawn := d₂ }
  refine ⟨caps, tools, hooks, n, d₃, a.secrets.foldl Redactor.add h.redactor,
    (hd₁.trans hd₂).trans hd₃, ?_⟩
  unfold afterSetup
  rw [h₁]
  simp only
  rw [h₂]
  simp only
  rw [h₃]
  rfl

theorem afterSetup_sameHoldings (i : PluginInstance) (a : SetupAnswer) :
    SameHoldings h (h.afterSetup i a) := by
  obtain ⟨caps, tools, hooks, n, d, r, hd, heq⟩ := h.afterSetup_eq i a
  rw [heq]
  exact ⟨rfl, rfl, rfl, rfl, hd⟩

end Harness

end Chassis
