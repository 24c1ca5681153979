import Chassis.Capabilities.Plain
import Chassis.Harness.Hosting
import Chassis.Harness.Ownership

/-!
# The life of an instance

* `Core`               what an instance is known by, and its state;
* `Unmoved s s'`       no instance was created, dropped or moved to another state;
* `Objects`, `Annals`, `Registered`, `Lawful`   what holds of all instances, except that one may be
                       in the middle of an operation;
* `mount_lawful`, `dispose_lawful`   **every operation restores it**, however it ends;
* `instance_lifecycle`   **what holds in every run of mounts and disposals.**
-/

set_option linter.unusedSectionVars false

namespace Chassis
open Py Coop

/-- what an instance is known by, and its state -/
structure Core where
  instanceId : String
  entryId : String
  scopeId : String
  state : PluginState
  deriving DecidableEq

def PluginInstance.core (i : PluginInstance) : Core := ⟨i.instanceId, i.entryId, i.scopeId, i.state⟩

namespace PluginHost

def live (s : PluginHost) (id : String) : Option Core := (s.instances.get? id).map PluginInstance.core

/-- those it dropped -/
def gone (s : PluginHost) (id : String) : Option Core := (s.popped.get? id).map PluginInstance.core

theorem core_object {s : PluginHost} {id : String} {i : PluginInstance}
    (h : s.object? id = some i) : s.live id = some i.core ∨ s.gone id = some i.core := by
  rcases Option.or_eq_some_iff.1 h with h | ⟨-, h⟩
  · refine Or.inl ?_
    rw [live, h]
    rfl
  · refine Or.inr ?_
    rw [gone, h]
    rfl

theorem object_of_live {s : PluginHost} {id : String} {c : Core} (h : s.live id = some c) :
    ∃ i, s.instances.get? id = some i ∧ s.object? id = some i ∧ i.core = c := by
  obtain ⟨i, hi, hc⟩ := Option.map_eq_some_iff.1 h
  refine ⟨i, hi, ?_, hc⟩
  rw [object?, hi]
  rfl

theorem live_update (s : PluginHost) (x : String) (f : PluginInstance → PluginInstance)
    (k : String) : (s.update x f).live k =
      if k = x then (s.instances.get? x).map (PluginInstance.core ∘ f) else s.live k := by
  unfold live
  rw [show (s.update x f).instances = (s.harness.plugins.update x f).instances from rfl,
    PluginRegistry.get?_update]
  split
  · exact Option.map_map _ _ _
  · rfl

theorem gone_update (s : PluginHost) (x : String) (f : PluginInstance → PluginInstance)
    (k : String) : (s.update x f).gone k =
      if k = x then (s.popped.get? x).map (PluginInstance.core ∘ f) else s.gone k := by
  have hget : (s.update x f).popped.get? k =
      if k = x then (s.popped.get? x).map f else s.popped.get? k := by
    unfold update
    cases hx : s.popped.get? x with
    | none =>
      by_cases hk : k = x
      · rw [if_pos hk, hk]
        exact hx
      · rw [if_neg hk]
    | some i => exact Dict.get?_set s.popped x k (f i)
  unfold gone
  rw [hget]
  split
  · exact Option.map_map _ _ _
  · rfl

theorem byEntry_update (s : PluginHost) (x : String) (f : PluginInstance → PluginInstance) :
    (s.update x f).harness.plugins.byEntry = s.harness.plugins.byEntry := by
  show (s.harness.plugins.update x f).byEntry = _
  rw [PluginRegistry.update]
  split <;> rfl

/-! ## what only counts and registers -/

/-- no instance was created, dropped or moved to another state -/
structure Unmoved (s s' : PluginHost) : Prop where
  live : s'.live = s.live
  gone : s'.gone = s.gone
  byEntry : s'.harness.plugins.byEntry = s.harness.plugins.byEntry
  created : s'.created = s.created
  attempts : s'.attempts = s.attempts
  ready : s'.ready = s.ready
  torn : s'.torn = s.torn
  closed : s.closed ⊆ s'.closed
  drawn : s.harness.drawn ≤ s'.harness.drawn

theorem unmoved_harness (s : PluginHost) {h : Harness}
    (hi : h.plugins.instances = s.harness.plugins.instances)
    (hb : h.plugins.byEntry = s.harness.plugins.byEntry) (hd : s.harness.drawn ≤ h.drawn) :
    Unmoved s { s with harness := h } where
  live := by
    funext id
    unfold PluginHost.live instances
    rw [hi]
  gone := rfl
  byEntry := hb
  created := rfl
  attempts := rfl
  ready := rfl
  torn := rfl
  closed := List.Subset.refl _
  drawn := hd

theorem unmoved_update (s : PluginHost) (x : String) {f : PluginInstance → PluginInstance}
    (hf : ∀ i, (f i).core = i.core) : Unmoved s (s.update x f) where
  live := by
    funext k
    rw [live_update, show PluginInstance.core ∘ f = PluginInstance.core from funext hf]
    split
    · rename_i hk
      rw [hk]
      rfl
    · rfl
  gone := by
    funext k
    rw [gone_update, show PluginInstance.core ∘ f = PluginInstance.core from funext hf]
    split
    · rename_i hk
      rw [hk]
      rfl
    · rfl
  byEntry := s.byEntry_update x f
  created := rfl
  attempts := rfl
  ready := rfl
  torn := rfl
  closed := List.Subset.refl _
  drawn := le_refl _

theorem unmoved_closeScope (s : PluginHost) (i : PluginInstance) : Unmoved s (s.closeScope i) where
  live := rfl
  gone := rfl
  byEntry := rfl
  created := rfl
  attempts := rfl
  ready := rfl
  torn := rfl
  closed := List.subset_append_left _ _
  drawn := le_refl _

end PluginHost

section
variable [Packaging] [Platform]

theorem Harness.provideCapability_byEntry (h : Harness) (i : PluginInstance)
    (c : CapabilityKey × Option String) : (h.provideCapability i c).plugins = h.plugins ∧
      h.drawn ≤ (h.provideCapability i c).drawn := by
  unfold Harness.provideCapability
  split
  · exact ⟨rfl, le_refl _⟩
  · split
    · exact ⟨rfl, le_refl _⟩
    · exact ⟨rfl, Nat.le_succ _⟩

theorem Harness.registerTool_plugins (h : Harness) (i : PluginInstance) (t : ToolDeclaration) :
    (h.registerTool i t).plugins = h.plugins ∧ h.drawn ≤ (h.registerTool i t).drawn := by
  unfold Harness.registerTool
  split
  · exact ⟨rfl, le_refl _⟩
  · exact ⟨rfl, Nat.le_succ _⟩

theorem HostAct.unmoved {s s' : PluginHost} (ha : HostAct s s') : s.Unmoved s' := by
  cases ha with
  | count x refs identity => exact s.unmoved_update x fun _ => rfl
  | provide c hi ho =>
    obtain ⟨hplugins, hd⟩ := s.harness.provideCapability_byEntry _ c
    exact s.unmoved_harness (congrArg _ hplugins) (congrArg _ hplugins) hd
  | registerTool t hi ho =>
    obtain ⟨hplugins, hd⟩ := s.harness.registerTool_plugins _ t
    exact s.unmoved_harness (congrArg _ hplugins) (congrArg _ hplugins) hd
  | registerHook d hi ho => exact s.unmoved_harness rfl rfl (Nat.le_succ _)
  | withdraw c t k => exact s.unmoved_harness rfl rfl (le_refl _)
  | close hi => exact s.unmoved_closeScope _
  | other hi hb _ _ _ hd => exact s.unmoved_harness hi hb hd

end

/-! ## what holds of the instances -/

namespace PluginHost
variable [Platform]

/-- the ids of an instance and of its scope were drawn together -/
def Drew (drawn : Nat) (id : String) (c : Core) : Prop :=
  c.instanceId = id ∧ ∃ n < drawn, id = freshId "plugin" n ∧ c.scopeId = freshId "scope" (n + 1)

/-- what the record says of an instance, by its state -/
def Recorded (s : PluginHost) (c : Core) : Prop :=
  match c.state with
  | .pending | .loading => c.instanceId ∉ s.torn
  | .active => c.instanceId ∈ s.ready ∧ c.instanceId ∉ s.torn
  | .unloading => c.instanceId ∈ s.ready
  | .failed | .disposed => c.scopeId ∈ s.closed

/-- the attempted transitions were legal -/
def Legal (s : PluginHost) : Prop := ∀ a ∈ s.attempts, a.1.Legal a.2

/-- the instances and the indexes of the registry, where `busy` is in the middle of an operation -/
structure Objects (busy : Option String) (s : PluginHost) : Prop where
  drew : ∀ id c, s.live id = some c ∨ s.gone id = some c → Drew s.harness.drawn id c
  nodup : s.created.Nodup
  created : ∀ id, id ∈ s.created ↔ (∃ c, s.live id = some c) ∨ ∃ c, s.gone id = some c
  gone : ∀ id c, s.gone id = some c → c.state = .disposed ∧ s.live id = none
  settled : ∀ id c, s.live id = some c → busy = some id ∨ c.state = .active ∨ c.state = .failed
  listed : ∀ e, (s.harness.plugins.byEntry.get? e).getD [] =
    s.created.filter fun id => (s.live id).any fun c => c.entryId = e
  proper : ∀ e, s.harness.plugins.byEntry.get? e ≠ some []

/-- what was recorded -/
structure Annals (s : PluginHost) : Prop where
  recorded : ∀ id c, s.live id = some c ∨ s.gone id = some c → Recorded s c
  legal : s.Legal
  torn : s.torn.Nodup ∧ s.torn ⊆ s.ready
  known : s.ready ⊆ s.created

/-- registrations are made by the owner of a scope, through that scope, and end with it -/
def Through {β : Type} [Registration β] (kind : String) (owner : β → String) (r : Owned β)
    (drawn : Nat) (closed : List String) : Prop :=
  Traced kind owner r drawn ∧ ∀ b ∈ r.all, Registration.scopeId b ∉ closed

structure Registered (s : PluginHost) : Prop where
  capabilities : Through "cap" CapabilityRegistration.providerId s.harness.capabilities
    s.harness.drawn s.closed
  tools : Through "tool" RegisteredTool.ownerId s.harness.tools s.harness.drawn s.closed
  hooks : Through "hook" HookRegistration.ownerId s.harness.hooks s.harness.drawn s.closed

structure Lawful (busy : Option String) (s : PluginHost) : Prop where
  objects : s.Objects busy
  annals : s.Annals
  registered : s.Registered

/-! ### what leaves the instances unmoved -/

section
variable {s s' : PluginHost} {busy : Option String}

theorem Drew.owns {drawn : Nat} {id : String} {c : Core} (h : Drew drawn id c) :
    Owns c.instanceId c.scopeId := by
  obtain ⟨rfl, n, -, hid, hscope⟩ := h
  exact ⟨n, hid, hscope⟩

theorem Drew.later {drawn drawn' : Nat} {id : String} {c : Core} (h : Drew drawn id c)
    (hd : drawn ≤ drawn') : Drew drawn' id c := by
  obtain ⟨hc, n, hn, hid⟩ := h
  exact ⟨hc, n, lt_of_lt_of_le hn hd, hid⟩

theorem Recorded.unmoved {c : Core} (h : s.Recorded c) (hu : s.Unmoved s') : s'.Recorded c := by
  unfold Recorded at h ⊢
  rw [hu.ready, hu.torn]
  split at h
  · exact h
  · exact h
  · exact h
  · exact h
  · exact hu.closed h
  · exact hu.closed h

theorem Objects.unmoved (h : s.Objects busy) (hu : s.Unmoved s') : s'.Objects busy where
  drew := by
    rw [hu.live, hu.gone]
    exact fun id c hc => (h.drew id c hc).later hu.drawn
  nodup := hu.created ▸ h.nodup
  created := by
    rw [hu.live, hu.gone, hu.created]
    exact h.created
  gone := by
    rw [hu.live, hu.gone]
    exact h.gone
  settled := by
    rw [hu.live]
    exact h.settled
  listed := by
    rw [hu.byEntry, hu.live, hu.created]
    exact h.listed
  proper := by
    rw [hu.byEntry]
    exact h.proper

theorem Annals.unmoved (h : s.Annals) (hu : s.Unmoved s') : s'.Annals where
  recorded := by
    rw [hu.live, hu.gone]
    exact fun id c hc => (h.recorded id c hc).unmoved hu
  legal := by
    unfold Legal
    rw [hu.attempts]
    exact h.legal
  torn := by
    rw [hu.torn, hu.ready]
    exact h.torn
  known := by
    rw [hu.ready, hu.created]
    exact h.known

end

/-! ### registrations -/

section
variable {β : Type} [Registration β] {kind : String} {owner : β → String} {r : Owned β} {drawn : Nat}
  {closed : List String}

theorem Through.later (h : Through kind owner r drawn closed) {drawn' : Nat} (hd : drawn ≤ drawn') :
    Through kind owner r drawn' closed := ⟨h.1.later hd, h.2⟩

theorem Through.discard (h : Through kind owner r drawn closed) (gone : β → Bool) :
    Through kind owner (r.discard gone) drawn closed := by
  refine ⟨h.1.discard gone, fun b hb => h.2 b ?_⟩
  rw [Owned.all_discard] at hb
  exact (List.mem_filter.1 hb).1

theorem Through.closeScope (h : Through kind owner r drawn closed) (scopeId : String) :
    Through kind owner (r.closeScope scopeId) drawn (closed ++ [scopeId]) := by
  refine ⟨h.1.closeScope scopeId, fun b hb hmem => ?_⟩
  rw [Owned.all_closeScope, List.mem_filter, decide_eq_true_iff] at hb
  rcases List.mem_append.1 hmem with hmem | hmem
  · exact h.2 b hb.1 hmem
  · exact hb.2 (List.mem_singleton.1 hmem)

theorem Through.add (h : Through kind owner r drawn closed) {b : β}
    (hid : Registration.id b = freshId kind drawn) (ho : Owns (owner b) (Registration.scopeId b))
    (hopen : Registration.scopeId b ∉ closed) : Through kind owner (r.add b) (drawn + 1) closed := by
  refine ⟨h.1.add hid ho, fun b' hb' => ?_⟩
  rw [Owned.all_add (h.1.new hid)] at hb'
  rcases List.mem_append.1 hb' with hb' | hb'
  · exact h.2 b' hb'
  · rw [List.mem_singleton.1 hb']
    exact hopen

end

section
variable [Packaging] {s : PluginHost} {i : PluginInstance}

/-- the scope of an instance is open -/
structure Open (s : PluginHost) (i : PluginInstance) : Prop where
  owns : Owns i.instanceId i.scopeId
  unclosed : i.scopeId ∉ s.closed

theorem Registered.provideCapability (h : s.Registered) (ho : s.Open i)
    (c : CapabilityKey × Option String) :
    Registered { s with harness := s.harness.provideCapability i c } := by
  unfold Harness.provideCapability
  split
  · exact h
  · split
    · exact h
    · exact
        { capabilities := h.capabilities.add rfl ho.owns ho.unclosed
          tools := h.tools.later (Nat.le_succ _)
          hooks := h.hooks.later (Nat.le_succ _) }

theorem Registered.registerTool (h : s.Registered) (ho : s.Open i) (t : ToolDeclaration) :
    Registered { s with harness := s.harness.registerTool i t } := by
  unfold Harness.registerTool
  split
  · exact h
  · exact
      { capabilities := h.capabilities.later (Nat.le_succ _)
        tools := h.tools.add rfl ho.owns ho.unclosed
        hooks := h.hooks.later (Nat.le_succ _) }

theorem Registered.registerHook (h : s.Registered) (ho : s.Open i) (d : HookDeclaration) :
    Registered { s with harness := s.harness.registerHook i d } where
  capabilities := h.capabilities.later (Nat.le_succ _)
  tools := h.tools.later (Nat.le_succ _)
  hooks := h.hooks.add rfl ho.owns ho.unclosed

theorem Registered.closeScope (h : s.Registered) (i : PluginInstance) :
    (s.closeScope i).Registered where
  capabilities := h.capabilities.closeScope i.scopeId
  tools := h.tools.closeScope i.scopeId
  hooks := h.hooks.closeScope i.scopeId

theorem Registered.afterSetup (h : s.Registered) (ho : Owns i.instanceId i.scopeId)
    (a : SetupAnswer) : (s.afterSetup i a).Registered := by
  unfold PluginHost.afterSetup
  split
  · exact { h with }
  · rename_i hopen
    have hcaps : Registered { s with
        harness := a.capabilities.foldl (fun h c => h.provideCapability i c) s.harness } :=
      List.foldlRecOn (motive := fun h' => Registered { s with harness := h' }) _ _ h
        fun h' hr c _ => hr.provideCapability ⟨ho, hopen⟩ c
    have htools : Registered { s with
        harness := a.tools.foldl (fun h t => h.registerTool i t)
          (a.capabilities.foldl (fun h c => h.provideCapability i c) s.harness) } :=
      List.foldlRecOn (motive := fun h' => Registered { s with harness := h' }) _ _ hcaps
        fun h' hr t _ => hr.registerTool ⟨ho, hopen⟩ t
    have hhooks : Registered { s with
        harness := a.hooks.foldl (fun h d => h.registerHook i d)
          (a.tools.foldl (fun h t => h.registerTool i t)
            (a.capabilities.foldl (fun h c => h.provideCapability i c) s.harness)) } :=
      List.foldlRecOn (motive := fun h' => Registered { s with harness := h' }) _ _ htools
        fun h' hr d _ => hr.registerHook ⟨ho, hopen⟩ d
    exact { hhooks with }

theorem unmoved_afterSetup (s : PluginHost) (i : PluginInstance) (a : SetupAnswer) :
    s.Unmoved (s.afterSetup i a) := by
  unfold PluginHost.afterSetup
  split
  · exact s.unmoved_harness rfl rfl (le_refl _)
  · obtain ⟨caps, tools, hooks, n, d, r, hd, heq⟩ := s.harness.afterSetup_eq i a
    refine s.unmoved_harness ?_ ?_ ?_
    · rw [heq]
    · rw [heq]
    · rw [heq]
      exact hd

/-- **What is done besides** keeps what holds of the instances. -/
theorem Lawful.act {busy : Option String} (h : s.Lawful busy) {s' : PluginHost} (ha : HostAct s s') :
    s'.Lawful busy := by
  refine ⟨h.objects.unmoved ha.unmoved, h.annals.unmoved ha.unmoved, ?_⟩
  have howns : ∀ {id j}, s.object? id = some j → Owns j.instanceId j.scopeId :=
    fun hj => (h.objects.drew _ _ (core_object hj)).owns
  cases ha with
  | count x refs identity =>
    unfold PluginHost.update
    exact { h.registered with }
  | provide c hi ho => exact h.registered.provideCapability ⟨howns hi, ho⟩ c
  | registerTool t hi ho => exact h.registered.registerTool ⟨howns hi, ho⟩ t
  | registerHook d hi ho => exact h.registered.registerHook ⟨howns hi, ho⟩ d
  | withdraw c t k =>
    exact
      { capabilities := h.registered.capabilities.discard c
        tools := h.registered.tools.discard t
        hooks := h.registered.hooks.discard k }
  | close hi => exact h.registered.closeScope _
  | other _ _ hc ht hk hd =>
    refine ⟨?_, ?_, ?_⟩
    · rw [hc]
      exact h.registered.capabilities.later hd
    · rw [ht]
      exact h.registered.tools.later hd
    · rw [hk]
      exact h.registered.hooks.later hd

end

/-! ### one instance moves on -/

section
variable {s : PluginHost} {x : String} {c : Core}

theorem Registered.same (h : s.Registered) {s' : PluginHost}
    (hc : s'.harness.capabilities = s.harness.capabilities) (ht : s'.harness.tools = s.harness.tools)
    (hk : s'.harness.hooks = s.harness.hooks) (hd : s.harness.drawn ≤ s'.harness.drawn)
    (hclosed : s'.closed = s.closed) : s'.Registered := by
  refine ⟨?_, ?_, ?_⟩
  · rw [hc, hclosed]
    exact h.capabilities.later hd
  · rw [ht, hclosed]
    exact h.tools.later hd
  · rw [hk, hclosed]
    exact h.hooks.later hd

theorem Objects.unpopped {busy : Option String} (h : s.Objects busy) (hc : s.live x = some c) :
    s.gone x = none := by
  cases hgone : s.gone x with
  | none => rfl
  | some d =>
    rw [(h.gone x d hgone).2] at hc
    cases hc

/-- **The state of one instance changes**, to one that its record bears out. -/
theorem Lawful.move (h : s.Lawful (some x)) (hc : s.live x = some c) {st : PluginState}
    (hrec : s.Recorded { c with state := st }) :
    (s.update x fun i => { i with state := st }).Lawful (some x) ∧
      (s.update x fun i => { i with state := st }).live x = some { c with state := st } := by
  obtain ⟨i, hi, -, rfl⟩ := object_of_live hc
  have hlive : ∀ k, (s.update x fun i => { i with state := st }).live k =
      if k = x then some { i.core with state := st } else s.live k := by
    intro k
    rw [live_update, hi]
    rfl
  have hgone : (s.update x fun i => { i with state := st }).gone = s.gone := by
    funext k
    rw [gone_update]
    split
    · rename_i hk
      rw [hk, h.objects.unpopped hc]
      have hnone := h.objects.unpopped hc
      rw [Option.map_eq_none_iff.1 hnone]
      rfl
    · rfl
  have hself := hlive x
  rw [if_pos rfl] at hself
  have hcases : ∀ k d, (s.update x fun i => { i with state := st }).live k = some d →
      (k = x ∧ d = { i.core with state := st }) ∨ s.live k = some d := by
    intro k d hd
    rw [hlive] at hd
    split at hd
    · rename_i hk
      exact Or.inl ⟨hk, (Option.some.inj hd).symm⟩
    · exact Or.inr hd
  have hsome : ∀ k, (∃ d, (s.update x fun i => { i with state := st }).live k = some d) ↔
      ∃ d, s.live k = some d := by
    intro k
    rw [hlive]
    split
    · rename_i hk
      rw [hk, hc]
      exact iff_of_true ⟨_, rfl⟩ ⟨_, rfl⟩
    · rfl
  refine ⟨⟨?_, ?_, h.registered.same rfl rfl rfl (le_refl _) rfl⟩, hself⟩
  · refine
      { nodup := h.objects.nodup
        drew := ?_, created := ?_, gone := ?_, settled := ?_, listed := ?_, proper := ?_ }
    · rw [hgone]
      rintro k d (hd | hd)
      · rcases hcases k d hd with ⟨rfl, rfl⟩ | hd
        · exact h.objects.drew k i.core (Or.inl hc)
        · exact h.objects.drew k d (Or.inl hd)
      · exact h.objects.drew k d (Or.inr hd)
    · intro k
      rw [hgone, hsome]
      exact h.objects.created k
    · rw [hgone]
      intro k d hd
      refine ⟨(h.objects.gone k d hd).1, ?_⟩
      rw [hlive, if_neg]
      · exact (h.objects.gone k d hd).2
      · rintro rfl
        rw [h.objects.unpopped hc] at hd
        cases hd
    · intro k d hd
      rcases hcases k d hd with ⟨rfl, -⟩ | hd
      · exact Or.inl rfl
      · exact h.objects.settled k d hd
    · intro e
      rw [byEntry_update, h.objects.listed]
      refine List.filter_congr fun k _ => ?_
      rw [hlive]
      split
      · rename_i hk
        rw [hk, hc]
        rfl
      · rfl
    · intro e
      rw [byEntry_update]
      exact h.objects.proper e
  · refine
      { legal := h.annals.legal, torn := h.annals.torn, known := h.annals.known, recorded := ?_ }
    rw [hgone]
    rintro k d (hd | hd)
    · rcases hcases k d hd with ⟨rfl, rfl⟩ | hd
      · exact hrec
      · exact h.annals.recorded k d (Or.inl hd)
    · exact h.annals.recorded k d (Or.inr hd)

theorem Lawful.begin (h : s.Lawful none) (x : String) : s.Lawful (some x) where
  objects :=
    { h.objects with
      settled := fun k d hd => Or.inr ((h.objects.settled k d hd).resolve_left nofun) }
  annals := h.annals
  registered := h.registered

theorem Lawful.finish (h : s.Lawful (some x)) (hc : s.live x = some c)
    (hst : c.state = .active ∨ c.state = .failed) : s.Lawful none where
  objects :=
    { h.objects with
      settled := by
        intro k d hd
        refine Or.inr ?_
        rcases h.objects.settled k d hd with hk | hsettled
        · obtain rfl := Option.some.inj hk
          rw [hc] at hd
          exact Option.some.inj hd ▸ hst
        · exact hsettled }
  annals := h.annals
  registered := h.registered

/-! ### one instance comes, one goes -/

theorem Objects.unborn {busy : Option String} (h : s.Objects busy) :
    s.live (freshId "plugin" s.harness.drawn) = none ∧
      s.gone (freshId "plugin" s.harness.drawn) = none := by
  have hnot : ∀ d, ¬ (s.live (freshId "plugin" s.harness.drawn) = some d ∨
      s.gone (freshId "plugin" s.harness.drawn) = some d) := by
    intro d hd
    obtain ⟨-, n, hn, hid, -⟩ := h.drew _ d hd
    have := freshId_injective "plugin" hid
    omega
  exact ⟨Option.eq_none_iff_forall_ne_some.2 fun d hd => hnot d (Or.inl hd),
    Option.eq_none_iff_forall_ne_some.2 fun d hd => hnot d (Or.inr hd)⟩

/-- **A new instance** is pending, and the last of its entry. -/
theorem Lawful.adopt (h : s.Lawful none) {i : PluginInstance}
    (hid : i.instanceId = freshId "plugin" s.harness.drawn)
    (hscope : i.scopeId = freshId "scope" (s.harness.drawn + 1)) (hst : i.state = .pending) :
    (s.adopt i).Lawful (some i.instanceId) ∧ (s.adopt i).live i.instanceId = some i.core := by
  obtain ⟨hunlive, hungone⟩ := h.objects.unborn
  rw [← hid] at hunlive hungone
  have hlive : ∀ k, (s.adopt i).live k = if k = i.instanceId then some i.core else s.live k := by
    intro k
    show ((s.harness.plugins.adopt i).instances.get? k).map PluginInstance.core = _
    rw [PluginRegistry.get?_adopt]
    split <;> rfl
  have hgone : (s.adopt i).gone = s.gone := rfl
  have hself := hlive i.instanceId
  rw [if_pos rfl] at hself
  have hnew : i.instanceId ∉ s.created := by
    rw [h.objects.created, hunlive, hungone]
    rintro (⟨d, hd⟩ | ⟨d, hd⟩)
    · cases hd
    · cases hd
  have hcases : ∀ k d, (s.adopt i).live k = some d →
      (k = i.instanceId ∧ d = i.core) ∨ s.live k = some d := by
    intro k d hd
    rw [hlive] at hd
    split at hd
    · rename_i hk
      exact Or.inl ⟨hk, (Option.some.inj hd).symm⟩
    · exact Or.inr hd
  have hlisted : ∀ e, s.created.filter (fun k => ((s.adopt i).live k).any fun c => c.entryId = e) =
      s.created.filter fun k => (s.live k).any fun c => c.entryId = e := by
    intro e
    refine List.filter_congr fun k hk => ?_
    rw [hlive, if_neg]
    rintro rfl
    exact hnew hk
  refine ⟨⟨?_, ?_, ?_⟩, hself⟩
  · refine { drew := ?_, nodup := ?_, created := ?_, gone := ?_, settled := ?_, listed := ?_
             proper := ?_ }
    · rw [hgone]
      rintro k d (hd | hd)
      · rcases hcases k d hd with ⟨rfl, rfl⟩ | hd
        · exact ⟨rfl, _, Nat.lt_add_of_pos_right (by decide), hid, hscope⟩
        · exact (h.objects.drew k d (Or.inl hd)).later (Nat.le_add_right _ 2)
      · exact (h.objects.drew k d (Or.inr hd)).later (Nat.le_add_right _ 2)
    · refine List.nodup_append.2 ⟨h.objects.nodup, List.nodup_singleton _, ?_⟩
      rintro a ha b hb rfl
      exact hnew (List.mem_singleton.1 hb ▸ ha)
    · intro k
      show k ∈ s.created ++ [i.instanceId] ↔ _
      rw [hgone, hlive, List.mem_append, List.mem_singleton]
      split
      · rename_i hk
        exact iff_of_true (Or.inr hk) (Or.inl ⟨_, rfl⟩)
      · rename_i hk
        rw [or_iff_left hk]
        exact h.objects.created k
    · rw [hgone]
      intro k d hd
      refine ⟨(h.objects.gone k d hd).1, ?_⟩
      rw [hlive, if_neg]
      · exact (h.objects.gone k d hd).2
      · rintro rfl
        rw [hungone] at hd
        cases hd
    · intro k d hd
      rcases hcases k d hd with ⟨rfl, -⟩ | hd
      · exact Or.inl rfl
      · exact Or.inr ((h.objects.settled k d hd).resolve_left (by rintro ⟨⟩))
    · intro e
      show ((s.harness.plugins.byEntry.set i.entryId _).get? e).getD [] =
        (s.created ++ [i.instanceId]).filter _
      rw [List.filter_append, hlisted, Dict.get?_set]
      by_cases he : e = i.entryId
      · rw [if_pos he, he, List.filter_cons_of_pos, ← h.objects.listed]
        · rfl
        · rw [hself]
          exact decide_eq_true rfl
      · rw [if_neg he, List.filter_cons_of_neg, List.filter_nil, List.append_nil]
        · exact h.objects.listed e
        · rw [hself]
          exact fun heq => he (of_decide_eq_true heq).symm
    · intro e
      show (s.harness.plugins.byEntry.set i.entryId _).get? e ≠ some []
      rw [Dict.get?_set]
      split
      · exact fun heq => absurd (Option.some.inj heq) (by simp)
      · exact h.objects.proper e
  · refine { legal := h.annals.legal, torn := h.annals.torn, recorded := ?_, known := ?_ }
    · rw [hgone]
      rintro k d (hd | hd)
      · rcases hcases k d hd with ⟨rfl, rfl⟩ | hd
        · unfold Recorded
          rw [show i.core.state = .pending from hst]
          exact fun hmem => hnew (h.annals.known (h.annals.torn.2 hmem))
        · exact h.annals.recorded k d (Or.inl hd)
      · exact h.annals.recorded k d (Or.inr hd)
    · exact fun k hk => List.mem_append_left _ (h.annals.known hk)
  · exact h.registered.same rfl rfl rfl (Nat.le_add_right _ 2) rfl

theorem byEntry_forget (r : PluginRegistry) (i : PluginInstance) (e : String)
    (hproper : ∀ e, r.byEntry.get? e ≠ some []) :
    ((r.forget i).byEntry.get? e).getD [] = (if e = i.entryId then
        ((r.byEntry.get? e).getD []).erase i.instanceId else (r.byEntry.get? e).getD []) ∧
      (r.forget i).byEntry.get? e ≠ some [] := by
  have hbyEntry := congrArg PluginRegistry.byEntry (PluginRegistry.forget.eq_1 r i)
  simp only at hbyEntry
  have hsame : ∀ {ids : List String}, r.byEntry.get? i.entryId = some ids ∨
      (r.byEntry.get? i.entryId = none ∧ ids = []) → i.instanceId ∉ ids →
      (r.byEntry.get? e).getD [] = if e = i.entryId then
        ((r.byEntry.get? e).getD []).erase i.instanceId else (r.byEntry.get? e).getD [] := by
    intro ids hids hnot
    split
    · rename_i he
      have hget : (r.byEntry.get? e).getD [] = ids := by
        rcases hids with hids | ⟨hids, rfl⟩
        · rw [he, hids]
          rfl
        · rw [he, hids]
          rfl
      rw [hget, List.erase_of_not_mem hnot]
    · rfl
  cases hget : r.byEntry.get? i.entryId with
  | none =>
    rw [hget] at hbyEntry
    simp only at hbyEntry
    rw [hbyEntry]
    exact ⟨hsame (Or.inr ⟨hget, rfl⟩) List.not_mem_nil, hproper e⟩
  | some ids =>
    rw [hget] at hbyEntry
    simp only at hbyEntry
    by_cases hmem : i.instanceId ∈ ids
    · rw [if_pos hmem] at hbyEntry
      cases hleft : ids.erase i.instanceId with
      | nil =>
        rw [hleft] at hbyEntry
        simp only at hbyEntry
        rw [hbyEntry, Dict.get?_erase]
        split
        · rename_i he
          rw [he, hget]
          exact ⟨hleft.symm, fun heq => by cases heq⟩
        · exact ⟨rfl, hproper e⟩
      | cons first rest =>
        rw [hleft] at hbyEntry
        simp only at hbyEntry
        rw [hbyEntry, Dict.get?_set]
        split
        · rename_i he
          rw [he, hget]
          exact ⟨hleft.symm, fun heq => by cases heq⟩
        · exact ⟨rfl, hproper e⟩
    · rw [if_neg hmem] at hbyEntry
      rw [hbyEntry]
      exact ⟨hsame (Or.inl hget) hmem, hproper e⟩

/-- **A disposed instance** is dropped, and nothing of it is left in the indexes. -/
theorem Lawful.forget (h : s.Lawful (some x)) (hc : s.live x = some c) (hst : c.state = .disposed)
    {i : PluginInstance} (hid : i.instanceId = x) (he : i.entryId = c.entryId) :
    (s.forget i).Lawful none := by
  subst hid
  obtain ⟨j, hj, -, rfl⟩ := object_of_live hc
  have hlive : ∀ k, (s.forget i).live k = if k = i.instanceId then none else s.live k := by
    intro k
    show ((s.harness.plugins.forget i).instances.get? k).map PluginInstance.core = _
    rw [PluginRegistry.get?_forget]
    split <;> rfl
  have hgone : ∀ k, (s.forget i).gone k = if k = i.instanceId then some j.core else s.gone k := by
    intro k
    have hpopped : (s.forget i).popped = s.popped.set i.instanceId j := by
      unfold PluginHost.forget
      rw [hj]
    unfold PluginHost.gone
    rw [hpopped, Dict.get?_set]
    split <;> rfl
  have hcases : ∀ k d, (s.forget i).live k = some d ∨ (s.forget i).gone k = some d →
      s.live k = some d ∨ s.gone k = some d := by
    intro k d hd
    rw [hlive, hgone] at hd
    split at hd
    · rename_i hk
      rw [hk, hc]
      exact Or.inl (hd.resolve_left (by rintro ⟨⟩))
    · exact hd
  refine ⟨?_, ?_, h.registered.same rfl rfl rfl (le_refl _) rfl⟩
  · refine
      { nodup := h.objects.nodup
        drew := fun k d hd => h.objects.drew k d (hcases k d hd)
        created := ?_, gone := ?_, settled := ?_, listed := ?_, proper := ?_ }
    · intro k
      rw [hlive, hgone]
      split
      · rename_i hk
        refine iff_of_true ((h.objects.created k).2 (Or.inl ⟨j.core, hk ▸ hc⟩)) (Or.inr ⟨_, rfl⟩)
      · exact h.objects.created k
    · intro k d hd
      rw [hgone] at hd
      rw [hlive]
      split at hd
      · rename_i hk
        rw [if_pos hk]
        exact ⟨Option.some.inj hd ▸ hst, rfl⟩
      · rename_i hk
        rw [if_neg hk]
        exact h.objects.gone k d hd
    · intro k d hd
      rw [hlive] at hd
      split at hd
      · cases hd
      · rename_i hk
        refine Or.inr ((h.objects.settled k d hd).resolve_left fun heq => hk ?_)
        exact (Option.some.inj heq).symm
    · intro e
      show ((s.harness.plugins.forget i).byEntry.get? e).getD [] = s.created.filter _
      rw [(byEntry_forget _ i e h.objects.proper).1, h.objects.listed]
      split
      · rename_i hentry
        rw [(h.objects.nodup.filter _).erase_eq_filter, List.filter_filter]
        refine List.filter_congr fun k _ => ?_
        rw [hlive]
        by_cases hk : k = i.instanceId
        · simp [hk]
        · simp [hk]
      · rename_i hentry
        refine List.filter_congr fun k _ => ?_
        rw [hlive]
        split
        · rename_i hk
          rw [hk, hc]
          refine decide_eq_false fun heq => hentry ?_
          rw [he, ← heq]
        · rfl
    · intro e
      exact (byEntry_forget _ i e h.objects.proper).2
  · exact
      { legal := h.annals.legal, torn := h.annals.torn, known := h.annals.known
        recorded := fun k d hd => h.annals.recorded k d (hcases k d hd) }

end

/-! ## operations -/

/-- while an operation waits, the rest happens -/
def hostRules [Packaging] : Rules PluginHost Operation Answer where
  interferes := Relation.ReflTransGen HostAct
  admits := fun _ _ => True
  holds := Legal

/-- `x` is in the middle of an operation, and known by `c` -/
structure Busy (x : String) (c : Core) (s : PluginHost) : Prop where
  lawful : s.Lawful (some x)
  live : s.live x = some c

section
variable [Packaging] {s : PluginHost} {x : String} {c : Core} {i : PluginInstance}

theorem Busy.later (h : s.Busy x c) {s' : PluginHost} (ha : Relation.ReflTransGen HostAct s s') :
    s'.Busy x c := by
  induction ha with
  | refl => exact h
  | tail _ ha ih => exact ⟨ih.lawful.act ha, ha.unmoved.live ▸ ih.live⟩

theorem Lawful.attempt {busy : Option String} (h : s.Lawful busy) {current requested : PluginState}
    (hl : current.Legal requested) :
    Lawful busy { s with attempts := s.attempts ++ [(current, requested)] } where
  objects := { h.objects with }
  annals :=
    { recorded := h.annals.recorded, torn := h.annals.torn, known := h.annals.known
      legal := by
        intro a ha
        rcases List.mem_append.1 ha with ha | ha
        · exact h.annals.legal a ha
        · rw [List.mem_singleton.1 ha]
          exact hl }
  registered := { h.registered with }

theorem transition_ok {st : PluginState} (hl : i.state.Legal st) :
    ∃ moved, i.transition st = .ok moved ∧ moved.state = st := by
  unfold PluginInstance.transition
  split
  · rename_i heq
    exact ⟨i, rfl, heq.symm⟩
  · rename_i hne
    rw [if_pos (hl.resolve_left hne)]
    exact ⟨_, rfl, rfl⟩

/-- **A transition**, legal and borne out by the record. -/
theorem Busy.transition (h : s.Busy x c) {st : PluginState} (hl : c.state.Legal st)
    (hrec : s.Recorded { c with state := st }) :
    (transition x st).wp hostRules (fun _ r s' => r = .ok () ∧ s'.Busy x { c with state := st } ∧
      s'.closed = s.closed ∧ s'.ready = s.ready ∧ s'.torn = s.torn) s := by
  obtain ⟨i, hi, hobject, rfl⟩ := object_of_live h.live
  obtain ⟨moved, hmoved, hst⟩ := transition_ok hl
  unfold PluginHost.transition
  rw [Prog.wp_gets_bind]
  simp only [id_eq]
  rw [hobject]
  simp only
  rw [Prog.wp_modify_bind, hmoved]
  show _ ∧ _
  rw [hst]
  obtain ⟨hlawful, hlive⟩ := (h.lawful.attempt hl).move h.live hrec
  exact ⟨rfl, ⟨hlawful, hlive⟩, rfl, rfl, rfl⟩

/-- **The closing of a scope** ends with what was registered through it. -/
theorem Busy.aclose (h : s.Busy x c) (hscope : i.scopeId = c.scopeId)
    (recorded : List CleanupFailure) :
    (aclose i recorded).wp hostRules (fun _ _ s' => s'.Busy x c ∧ c.scopeId ∈ s'.closed) s := by
  unfold PluginHost.aclose
  refine Prog.wp_perform_bind.2
    ⟨h.lawful.annals.legal, fun s₁ hint _ answer _ => Prog.wp_modify_bind.2 ?_⟩
  have h₁ := h.later hint
  have hclosed : (s₁.closeScope i).Busy x c ∧ c.scopeId ∈ (s₁.closeScope i).closed := by
    have hu := s₁.unmoved_closeScope i
    refine ⟨⟨⟨h₁.lawful.objects.unmoved hu, h₁.lawful.annals.unmoved hu,
      h₁.lawful.registered.closeScope i⟩, h₁.live⟩, ?_⟩
    rw [← hscope]
    exact List.mem_append_right _ List.mem_cons_self
  split
  · exact hclosed
  · exact hclosed

/-- **A rollback**: the instance has failed, whatever its scope's closing came to. -/
theorem Busy.rollback (h : s.Busy x c) (hst : c.state = .loading) (hid : i.instanceId = x)
    (hscope : i.scopeId = c.scopeId) :
    (rollback i).wp hostRules (fun _ _ s' => s'.Lawful none) s := by
  subst hid
  have hfail : ∀ {s₁ : PluginHost}, s₁.Busy i.instanceId c → c.scopeId ∈ s₁.closed →
      (PluginHost.transition i.instanceId .failed).wp hostRules
        (fun _ r s' => r = .ok () ∧ s'.Lawful none) s₁ := by
    intro s₁ h₁ hclosed
    have hl : c.state.Legal .failed := Or.inr (hst ▸ by decide)
    exact Prog.wp_mono (h₁.transition hl hclosed) fun _ r s' hb =>
      ⟨hb.1, hb.2.1.lawful.finish hb.2.1.live (Or.inr rfl)⟩
  refine Prog.wp_tryCatch.2 (Prog.wp_bind_of (h.aclose hscope []) ?_ ?_)
  · rintro tr failures s₁ ⟨h₁, hclosed⟩
    refine Prog.wp_bind_of (hfail h₁ hclosed) (fun _ _ _ hend => hend.2) fun _ _ _ hend => ?_
    cases hend.1
  · rintro tr e s₁ ⟨h₁, hclosed⟩
    exact Prog.wp_bind_of (hfail h₁ hclosed) (fun _ _ _ hend => hend.2) fun _ _ _ hend => hend.2

theorem Busy.disposed (h : s.Busy x c) (hst : c.state = .unloading ∨ c.state = .failed)
    (hclosed : c.scopeId ∈ s.closed) (hid : i.instanceId = x) (he : i.entryId = c.entryId) :
    (disposed i).wp hostRules (fun _ r s' => r = .ok () ∧ s'.Lawful none) s := by
  subst hid
  obtain ⟨j, hj, hobject, rfl⟩ := object_of_live h.live
  unfold PluginHost.disposed
  rw [Prog.wp_gets_bind]
  simp only [id_eq]
  rw [hobject]
  simp only
  have hl : j.state.Legal .disposed := by
    rcases hst with hst | hst
    · exact Or.inr ((show j.state = .unloading from hst) ▸ by decide)
    · exact Or.inr ((show j.state = .failed from hst) ▸ by decide)
  rw [if_pos (show j.state = .unloading ∨ j.state = .failed from hst)]
  refine Prog.wp_bind_of (h.transition hl hclosed) (fun tr _ s₁ hb => ?_) fun _ _ _ hb => ?_
  · obtain ⟨-, hb, -⟩ := hb
    exact ⟨rfl, hb.lawful.forget hb.live rfl rfl he⟩
  · cases hb.1

/-- **The end of a disposal**, whatever it raises. -/
theorem Busy.closeAndForget (h : s.Busy x c) (hst : c.state = .unloading ∨ c.state = .failed)
    (hid : i.instanceId = x) (hscope : i.scopeId = c.scopeId) (he : i.entryId = c.entryId)
    (recorded : List CleanupFailure) :
    (closeAndForget i recorded).wp hostRules (fun _ _ s' => s'.Lawful none) s := by
  unfold PluginHost.closeAndForget
  refine Prog.wp_bind_of (P := fun _ r s' => match r with
    | .ok _ => s'.Busy x c ∧ c.scopeId ∈ s'.closed
    | .error _ => s'.Lawful none) ?_ ?_ ?_
  · refine Prog.wp_tryCatch.2 (Prog.wp_mono (h.aclose hscope recorded) fun tr r s₁ h₁ => ?_)
    cases r with
    | ok failures => exact h₁
    | error e =>
      exact Prog.wp_bind_of (h₁.1.disposed hst h₁.2 hid he) (fun _ _ _ hend => hend.2)
        fun _ _ _ hend => hend.2
  · rintro tr failures s₁ ⟨h₁, hclosed⟩
    rw [Prog.wp_gets_bind]
    refine Prog.wp_bind_of (h₁.disposed hst hclosed hid he) (fun _ _ _ hend => ?_)
      fun _ _ _ hend => hend.2
    split
    · exact hend.2
    · exact hend.2
  · exact fun tr e s₁ h₁ => h₁

/-- `setup` and `teardown` may do anything that the rest may -/
theorem Busy.afterSetup (h : s.Busy x c) (hid : i.instanceId = x) (hscope : i.scopeId = c.scopeId)
    (a : SetupAnswer) : (s.afterSetup i a).Busy x c := by
  have hu := s.unmoved_afterSetup i a
  have ho : Owns i.instanceId i.scopeId := by
    have hdrew := h.lawful.objects.drew x c (Or.inl h.live)
    rw [hid, hscope, ← hdrew.1]
    exact hdrew.owns
  exact ⟨⟨h.lawful.objects.unmoved hu, h.lawful.annals.unmoved hu, h.lawful.registered.afterSetup ho a⟩,
    hu.live ▸ h.live⟩

theorem Busy.succeed (h : s.Busy x c) (hst : c.state = .loading) :
    Busy x c { s with ready := s.ready ++ [x] } ∧
      Recorded { s with ready := s.ready ++ [x] } { c with state := .active } := by
  have hid := (h.lawful.objects.drew x c (Or.inl h.live)).1
  have hrecorded := h.lawful.annals.recorded x c (Or.inl h.live)
  unfold Recorded at hrecorded
  rw [hst] at hrecorded
  refine ⟨⟨⟨{ h.lawful.objects with }, ?_, { h.lawful.registered with }⟩, h.live⟩, ?_, hrecorded⟩
  · refine
      { legal := h.lawful.annals.legal
        torn := ⟨h.lawful.annals.torn.1, fun k hk => List.mem_append_left _ (h.lawful.annals.torn.2 hk)⟩
        recorded := ?_, known := ?_ }
    · intro k d hd
      have hold := h.lawful.annals.recorded k d hd
      unfold Recorded at hold ⊢
      split at hold
      · exact hold
      · exact hold
      · exact ⟨List.mem_append_left _ hold.1, hold.2⟩
      · exact List.mem_append_left _ hold
      · exact hold
      · exact hold
    · intro k hk
      rcases List.mem_append.1 hk with hk | hk
      · exact h.lawful.annals.known hk
      · rw [List.mem_singleton.1 hk]
        exact (h.lawful.objects.created x).2 (Or.inl ⟨c, h.live⟩)
  · rw [hid]
    exact List.mem_append_right _ List.mem_cons_self

theorem Busy.tearDown (h : s.Busy x c) (hst : c.state = .unloading) (hnot : x ∉ s.torn) :
    Busy x c { s with torn := s.torn ++ [x] } := by
  have hid := (h.lawful.objects.drew x c (Or.inl h.live)).1
  have hready := h.lawful.annals.recorded x c (Or.inl h.live)
  unfold Recorded at hready
  rw [hst] at hready
  have hother : ∀ {k d}, s.live k = some d ∨ s.gone k = some d → d.state ≠ .unloading →
      d.instanceId ∉ s.torn → d.instanceId ∉ s.torn ++ [x] := by
    intro k d hd hne hmem hmem'
    rcases List.mem_append.1 hmem' with hmem' | hmem'
    · exact hmem hmem'
    · have hk : k = x := by
        rw [← (h.lawful.objects.drew k d hd).1]
        exact List.mem_singleton.1 hmem'
      rw [hk, h.live, h.lawful.objects.unpopped h.live] at hd
      obtain rfl := Option.some.inj (hd.resolve_right nofun)
      exact hne hst
  refine ⟨⟨{ h.lawful.objects with }, ?_, { h.lawful.registered with }⟩, h.live⟩
  refine
    { legal := h.lawful.annals.legal, known := h.lawful.annals.known, recorded := ?_, torn := ?_ }
  · intro k d hd
    have hold := h.lawful.annals.recorded k d hd
    have hd' := @hother k d hd
    unfold Recorded at hold ⊢
    split at hold
    · rename_i hs
      exact hd' (hs ▸ by decide) hold
    · rename_i hs
      exact hd' (hs ▸ by decide) hold
    · rename_i hs
      exact ⟨hold.1, hd' (hs ▸ by decide) hold.2⟩
    · exact hold
    · exact hold
    · exact hold
  · refine ⟨List.nodup_append.2 ⟨h.lawful.annals.torn.1, List.nodup_singleton _, ?_⟩, ?_⟩
    · rintro a ha b hb rfl
      exact hnot (List.mem_singleton.1 hb ▸ ha)
    · intro k hk
      rcases List.mem_append.1 hk with hk | hk
      · exact h.lawful.annals.torn.2 hk
      · rw [List.mem_singleton.1 hk, ← hid]
        exact hready

/-- **A mount** leaves an active instance, a failed one or none. -/
theorem mount_lawful (h : s.Lawful none) (entry : PluginEntry)
    (resolved : Dict String CapabilityRegistration) (supersede : Bool) :
    (mount entry resolved supersede).wp hostRules (fun _ _ s' => s'.Lawful none) s := by
  unfold mount
  rw [Prog.wp_gets_bind]
  split
  · exact h
  · unfold runSetup
    rw [Prog.wp_modify_bind]
    set i : PluginInstance := s.harness.newInstance entry resolved with hi
    have hadopted : (s.adopt { i with state := .pending }).Busy i.instanceId
        { i.core with state := .pending } := by
      obtain ⟨hlawful, hlive⟩ := h.adopt (i := { i with state := .pending }) rfl rfl rfl
      exact ⟨hlawful, hlive⟩
    have hunset := hadopted.lawful.annals.recorded _ _ (Or.inl hadopted.live)
    have hload : PluginState.Legal .pending .loading := Or.inr (by decide)
    have hactivate : PluginState.Legal .loading .active := Or.inr (by decide)
    refine Prog.wp_bind_of (hadopted.transition hload hunset) ?_ ?_
    · rintro - - s₁ ⟨-, hb, -⟩
      refine Prog.wp_perform_bind.2
        ⟨hb.lawful.annals.legal, fun s₂ hint _ answer _ => Prog.wp_modify_bind.2 ?_⟩
      have hset := (hb.later hint).afterSetup rfl rfl answer
      split
      · refine Prog.wp_bind_of (hset.rollback rfl rfl rfl) (fun _ _ _ hend => ?_) fun _ _ _ hend => hend
        split
        · exact hend
        · exact hend
      · rw [Prog.wp_modify_bind]
        obtain ⟨hready, hrec⟩ := hset.succeed rfl
        refine Prog.wp_bind_of (hready.transition hactivate hrec) ?_ ?_
        · rintro - - s₃ ⟨-, hb, -⟩
          exact hb.lawful.finish hb.live (Or.inl rfl)
        · rintro - e s₃ ⟨hok, -⟩
          cases hok
    · rintro - e s₁ ⟨hok, -⟩
      cases hok

/-- **A disposal** leaves the instance as it was, or drops it disposed. -/
theorem dispose_lawful (h : s.Lawful none) (x : String) :
    (dispose x).wp hostRules (fun _ _ s' => s'.Lawful none) s := by
  unfold dispose
  rw [Prog.wp_gets_bind]
  simp only [id_eq]
  cases hobject : s.object? x with
  | none => exact h
  | some i =>
    simp only
    split
    · exact h
    · rename_i hnot
      split
      · exact h
      · have hlive : s.live x = some i.core := by
          rcases core_object hobject with hlive | hgone
          · exact hlive
          · exact absurd (h.objects.gone x i.core hgone).1 hnot
        have hb : s.Busy x i.core := ⟨h.begin x, hlive⟩
        have hid : i.instanceId = x := (h.objects.drew x i.core (Or.inl hlive)).1
        have hsettled := (h.objects.settled x i.core hlive).resolve_left (by rintro ⟨⟩)
        split
        · rename_i hst
          have hrec := h.annals.recorded x i.core (Or.inl hlive)
          unfold Recorded at hrec
          rw [show i.core.state = .active from hst] at hrec
          have hl : i.core.state.Legal .unloading := Or.inr ((show i.core.state = _ from hst) ▸ by decide)
          refine Prog.wp_bind_of (hb.transition hl hrec.1) ?_ ?_
          · rintro - - s₁ ⟨-, hb₁, -, hready, htorn⟩
            rw [Prog.wp_modify_bind]
            have hnot : x ∉ s₁.torn := by
              rw [htorn, ← hid]
              exact hrec.2
            have htear := hb₁.tearDown rfl hnot
            refine ⟨htear.lawful.annals.legal, fun s₂ hint _ answer _ => ?_⟩
            have hb₂ := htear.later hint
            have hu := s₂.unmoved_harness (h := s₂.harness.learn (TeardownAnswer.secrets answer))
              rfl rfl (le_refl _)
            have hlearnt : Busy x { i.core with state := .unloading }
                { s₂ with harness := s₂.harness.learn (TeardownAnswer.secrets answer) } :=
              ⟨⟨hb₂.lawful.objects.unmoved hu, hb₂.lawful.annals.unmoved hu,
                { hb₂.lawful.registered with }⟩, hu.live ▸ hb₂.live⟩
            exact hlearnt.closeAndForget (Or.inl rfl) hid rfl rfl _
          · rintro - e s₁ ⟨hok, -⟩
            cases hok
        · rename_i hst
          rcases hsettled with hactive | hfailed
          · cases hst.symm.trans hactive
          · cases hst.symm.trans hfailed
        · exact h
        · rename_i hactive _ _
          exact hb.closeAndForget (Or.inr (hsettled.resolve_left hactive)) hid rfl rfl []

end

/-! ## runs -/

/-- what the registry keeps between its operations -/
structure WellKept (s : PluginHost) : Prop where
  mapped : ∀ id, (∃ i, s.instances.get? id = some i) ↔
    id ∈ s.created ∧ ∃ i, s.object? id = some i ∧ i.state ≠ .disposed
  objects : ∀ id, id ∈ s.created ↔ ∃ i, s.object? id = some i
  /-- in the order the instances were mounted -/
  listed : ∀ e, (s.harness.plugins.byEntry.get? e).getD [] =
    s.created.filter fun id => (s.instances.get? id).any fun i => i.entryId = e
  settled : ∀ id i, s.instances.get? id = some i → i.state = .active ∨ i.state = .failed
  withdrawn : ∀ id i, s.object? id = some i → i.state = .failed ∨ i.state = .disposed →
    (∀ r ∈ s.harness.capabilities.all, r.providerId ≠ id) ∧
      (∀ t ∈ s.harness.tools.all, t.ownerId ≠ id) ∧ ∀ k ∈ s.harness.hooks.all, k.ownerId ≠ id
  torn : s.torn.Nodup ∧ ∀ id ∈ s.torn, id ∈ s.ready

section
variable {s : PluginHost}

theorem Through.unowned {β : Type} [Registration β] {kind : String} {owner : β → String}
    {r : Owned β} {drawn n : Nat} {closed : List String} (h : Through kind owner r drawn closed)
    {id : String} {c : Core} (hc : Drew n id c) (hclosed : c.scopeId ∈ closed) :
    ∀ b ∈ r.all, owner b ≠ id := by
  rintro b hb rfl
  obtain ⟨-, n, -, hid, hscope⟩ := hc
  obtain ⟨m, hm, hscope'⟩ := (h.1 b hb).2
  have hmn := freshId_injective "plugin" (hm.symm.trans hid)
  refine h.2 b hb ?_
  rw [hscope', hmn, ← hscope]
  exact hclosed

theorem object_iff (id : String) : (∃ i, s.object? id = some i) ↔
    (∃ c, s.live id = some c) ∨ ∃ c, s.gone id = some c := by
  unfold object? live gone
  cases s.instances.get? id with
  | some i => exact iff_of_true ⟨i, rfl⟩ (Or.inl ⟨i.core, rfl⟩)
  | none =>
    cases s.popped.get? id with
    | some i => exact iff_of_true ⟨i, rfl⟩ (Or.inr ⟨i.core, rfl⟩)
    | none =>
      refine iff_of_false ?_ ?_
      · rintro ⟨i, hi⟩
        cases hi
      · rintro (⟨c, hc⟩ | ⟨c, hc⟩)
        · cases hc
        · cases hc

theorem Lawful.wellKept (h : s.Lawful none) : s.WellKept where
  mapped := by
    intro id
    constructor
    · rintro ⟨i, hi⟩
      have hlive : s.live id = some i.core := by
        rw [live, hi]
        rfl
      obtain ⟨j, hj, hobject, -⟩ := object_of_live hlive
      obtain rfl := Option.some.inj (hi.symm.trans hj)
      refine ⟨(h.objects.created id).2 (Or.inl ⟨i.core, hlive⟩), i, hobject, fun hst => ?_⟩
      rcases (h.objects.settled id i.core hlive).resolve_left nofun with hactive | hfailed
      · cases hst.symm.trans hactive
      · cases hst.symm.trans hfailed
    · rintro ⟨-, i, hobject, hst⟩
      rcases core_object hobject with hlive | hgone
      · obtain ⟨j, hj, -⟩ := object_of_live hlive
        exact ⟨j, hj⟩
      · exact absurd (h.objects.gone id i.core hgone).1 hst
  objects := fun id => (h.objects.created id).trans (object_iff id).symm
  listed := by
    intro e
    rw [h.objects.listed]
    refine List.filter_congr fun id _ => ?_
    unfold live
    rw [Option.any_map]
    rfl
  settled := by
    intro id i hi
    have hlive : s.live id = some i.core := by
      rw [live, hi]
      rfl
    exact (h.objects.settled id i.core hlive).resolve_left nofun
  withdrawn := by
    intro id i hobject hst
    have hdrew := h.objects.drew id i.core (core_object hobject)
    have hclosed := h.annals.recorded id i.core (core_object hobject)
    unfold Recorded at hclosed
    have hscope : i.core.scopeId ∈ s.closed := by
      rcases hst with hst | hst
      · rw [show i.core.state = .failed from hst] at hclosed
        exact hclosed
      · rw [show i.core.state = .disposed from hst] at hclosed
        exact hclosed
    exact ⟨h.registered.capabilities.unowned hdrew hscope, h.registered.tools.unowned hdrew hscope,
      h.registered.hooks.unowned hdrew hscope⟩
  torn := h.annals.torn

theorem lawful_new : Lawful none {} := by
  have hlive : ∀ id c, ({} : PluginHost).live id ≠ some c := fun _ _ h => nomatch h
  have hgone : ∀ id c, ({} : PluginHost).gone id ≠ some c := fun _ _ h => nomatch h
  have hnone : ∀ id c, ¬ (({} : PluginHost).live id = some c ∨ ({} : PluginHost).gone id = some c) :=
    fun id c h => h.elim (hlive id c) (hgone id c)
  have hobjects : Objects none {} :=
    { drew := fun id c h => absurd h (hnone id c)
      nodup := List.nodup_nil
      created := fun id => iff_of_false List.not_mem_nil fun h =>
        h.elim (fun ⟨c, h⟩ => hlive id c h) fun ⟨c, h⟩ => hgone id c h
      gone := fun id c h => absurd h (hgone id c)
      settled := fun id c h => absurd h (hlive id c)
      listed := fun _ => rfl
      proper := fun _ h => nomatch h }
  have hannals : Annals {} :=
    { recorded := fun id c h => absurd h (hnone id c)
      legal := fun _ h => absurd h List.not_mem_nil
      torn := ⟨List.nodup_nil, List.nil_subset _⟩
      known := List.nil_subset _ }
  exact ⟨hobjects, hannals, ⟨traced_empty, fun _ h => absurd h List.not_mem_nil⟩,
    ⟨traced_empty, fun _ h => absurd h List.not_mem_nil⟩,
    ⟨traced_empty, fun _ h => absurd h List.not_mem_nil⟩⟩

theorem hosted [Packaging] : Monitored hostRules HostAct HostCall.program (Lawful none)
    (fun _ _ s => Lawful none s) where
  refl := fun _ => .refl
  trans := fun _ _ _ h _ ha => h.tail ha
  admits := fun _ _ _ => trivial
  idle := fun _ _ h ha => h.act ha
  held := by
    intro s s' h ha
    show s'.Legal
    unfold Legal
    rw [ha.unmoved.attempts]
    exact h
  job := by
    intro j s h
    cases j with
    | mount entry resolved supersede =>
      refine Prog.wp_bind_of (mount_lawful h entry resolved supersede) ?_ ?_
      · exact fun _ _ _ hend => hend
      · exact fun _ _ _ hend => hend
    | dispose x => exact dispose_lawful h x

end

end PluginHost

/-- **The life of instances.**  In every run of mounts and disposals that do not overlap, whatever
setups, teardowns and disposers do or raise, no transition that is attempted is illegal; and
between the operations, an instance is in the registry's map iff it was created and is not disposed,
the ids of an entry are those of its instances in the order they were mounted, every instance left
is active or has failed, no registration belongs to one that failed or is disposed, and `teardown`
ran at most once for each, and only after its `setup` succeeded. -/
theorem instance_lifecycle [Packaging] [Platform] {history : List (Event HostCall Err × HostConfig)}
    {c : HostConfig} (hrun : HostRun history c) :
    c.state.Legal ∧ (c.running = none → c.state.WellKept) := by
  have hsound := PluginHost.hosted.run PluginHost.lawful_new hrun fun _ _ _ _ h => h
  unfold Config.Sound at hsound
  cases hrunning : c.running with
  | none =>
    rw [hrunning] at hsound
    exact ⟨hsound.annals.legal, fun _ => hsound.wellKept⟩
  | some w =>
    rw [hrunning] at hsound
    exact ⟨hsound.1, nofun⟩

section
open scoped Plain

def raising : (l : Operation) → Answer l
  | .setup _ => show SetupAnswer from { raised := some { kind := .Other, message := "no" } }
  | .teardown _ => show TeardownAnswer from { raised := some { kind := .Base, message := "no" } }
  | .close _ => show CloseAnswer from { failures := [⟨"tool", .Other, "no"⟩] }
  | .handler .. => show HandlerAnswer from {}

def plainEntry (name : String) : PluginEntry :=
  ⟨name, plainPlugin name [] [] [], (plainPlugin name [] [] []).manifest, Dict.empty, 1, rootScope⟩

/-- a call that gets these answers -/
def called (c : Course PluginHost Operation HostCall Answer Err) (j : HostCall)
    (answers : List ((l : Operation) → Answer l)) : Course PluginHost Operation HostCall Answer Err :=
  answers.foldl (fun c answer => c.resume answer) (c.start HostCall.program j)

theorem called_run {c : Course PluginHost Operation HostCall Answer Err}
    (hrun : HostRun c.history c.config) (j : HostCall) (answers : List ((l : Operation) → Answer l)) :
    HostRun (called c j answers).history (called c j answers).config := by
  have hstart : HostRun (c.start HostCall.program j).history (c.start HostCall.program j).config :=
    Course.start_run hrun j
  unfold called
  generalize c.start HostCall.program j = started at hstart ⊢
  induction answers generalizing started with
  | nil => exact hstart
  | cons answer answers ih => exact ih (started.resume answer) (Course.resume_run hstart fun _ => trivial)

/-- One instance is mounted, and disposed while its `teardown` and a disposer raise; another one's
`setup` raises. -/
def lived : Course PluginHost Operation HostCall Answer Err :=
  called (called (called (Course.begin {}) (.mount (plainEntry "a") Dict.empty false) [honest])
    (.dispose (freshId "plugin" 0)) [raising, raising])
    (.mount (plainEntry "b") Dict.empty false) [raising, raising]

theorem instance_lifecycle_two :
    (lived.config.state.created.map fun id =>
      ((lived.config.state.object? id).map PluginInstance.state, lived.config.state.live id != none)) =
        [(some .disposed, false), (some .failed, true)] ∧
      lived.config.state.Legal ∧ lived.config.state.WellKept := by
  have hrun : HostRun lived.history lived.config :=
    called_run (called_run (called_run (c := Course.begin {}) .refl _ _) _ _) _ _
  have hidle : lived.config.running.isNone = true := by decide +kernel
  have hkept := instance_lifecycle hrun
  exact ⟨by decide +kernel, hkept.1, hkept.2 (Option.isNone_iff_eq_none.1 hidle)⟩

end

end Chassis
