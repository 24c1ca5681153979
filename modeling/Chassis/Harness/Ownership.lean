import Chassis.Harness.Guarding
import Chassis.Harness.Snapshots

/-!
# Registrations, their scopes and their owners

* `Owns`               an instance id and the id of its scope, drawn together;
* `Traced`             a registry whose registrations have ids that were drawn, and are made through
                       the scope of their owner;
* `Harness.Traceable`  all registries of the harness are traced, and all instances own their scopes;
* `Beyond h h'`        only what belongs to no instance of a live generation was touched;
* `afterSetup_beyond`, `closeScope_beyond`, `LateAct.beyond`   the effects that touch registries.
-/

set_option linter.unusedSectionVars false

namespace Chassis
open Py Coop

section
variable [Platform]

/-- an instance id and the id of its scope, drawn one after the other -/
def Owns (instanceId scopeId : String) : Prop :=
  ∃ n, instanceId = freshId "plugin" n ∧ scopeId = freshId "scope" (n + 1)

theorem Owns.unique {i i' s : String} (h : Owns i s) (h' : Owns i' s) : i = i' := by
  obtain ⟨n, rfl, rfl⟩ := h
  obtain ⟨n', rfl, hs⟩ := h'
  have hn := freshId_injective "scope" hs
  rw [show n = n' by omega]

/-! ## one registry -/

section
variable {β : Type} [Registration β] {kind : String} {owner : β → String} {r : Owned β} {drawn : Nat}

/-- the registrations have ids that were drawn, and are made through the scope of their owner -/
def Traced (kind : String) (owner : β → String) (r : Owned β) (drawn : Nat) : Prop :=
  ∀ b ∈ r.all, (∃ n < drawn, Registration.id b = freshId kind n) ∧
    Owns (owner b) (Registration.scopeId b)

theorem traced_empty : Traced kind owner Owned.empty drawn := by
  intro b hb
  cases hb

theorem Traced.later (ht : Traced kind owner r drawn) {drawn' : Nat} (h : drawn ≤ drawn') :
    Traced kind owner r drawn' := by
  intro b hb
  obtain ⟨⟨n, hn, hid⟩, ho⟩ := ht b hb
  exact ⟨⟨n, lt_of_lt_of_le hn h, hid⟩, ho⟩

theorem Traced.sub (ht : Traced kind owner r drawn) {r' : Owned β}
    (h : ∀ b ∈ r'.all, b ∈ r.all) : Traced kind owner r' drawn := fun b hb => ht b (h b hb)

theorem Traced.closeScope (ht : Traced kind owner r drawn) (scopeId : String) :
    Traced kind owner (r.closeScope scopeId) drawn := by
  refine ht.sub fun b hb => ?_
  rw [Owned.all_closeScope] at hb
  exact (List.mem_filter.1 hb).1

theorem Traced.discard (ht : Traced kind owner r drawn) (gone : β → Bool) :
    Traced kind owner (r.discard gone) drawn := by
  refine ht.sub fun b hb => ?_
  rw [Owned.all_discard] at hb
  exact (List.mem_filter.1 hb).1

section
variable {b : β} (ht : Traced kind owner r drawn) (hid : Registration.id b = freshId kind drawn)
include ht hid

theorem Traced.new : ∀ b' ∈ r.all, Registration.id b' ≠ Registration.id b := by
  intro b' hb' heq
  obtain ⟨⟨n, hn, hid'⟩, -⟩ := ht b' hb'
  have hn' := freshId_injective kind (hid'.symm.trans (heq.trans hid))
  omega

theorem Traced.add (ho : Owns (owner b) (Registration.scopeId b)) :
    Traced kind owner (r.add b) (drawn + 1) := by
  intro b' hb'
  rw [Owned.all_add (ht.new hid)] at hb'
  rcases List.mem_append.1 hb' with hb' | hb'
  · exact ht.later (Nat.le_succ drawn) b' hb'
  · obtain rfl := List.mem_singleton.1 hb'
    exact ⟨⟨drawn, Nat.lt_succ_self drawn, hid⟩, ho⟩

end

theorem Traced.owner_of_scope (ht : Traced kind owner r drawn) {i s : String} (hi : Owns i s) {b : β}
    (hb : b ∈ r.all) (hs : Registration.scopeId b = s) : owner b = i := by
  subst hs
  exact (ht b hb).2.unique hi

end

/-! ## all of them -/

namespace Harness

structure Traceable (h : Harness) : Prop where
  instances : ∀ k i, h.plugins.instances.get? k = some i → Owns i.instanceId i.scopeId
  capabilities : Traced "cap" CapabilityRegistration.providerId h.capabilities h.drawn
  tools : Traced "tool" RegisteredTool.ownerId h.tools h.drawn
  hooks : Traced "hook" HookRegistration.ownerId h.hooks h.drawn

/-- the tools and hooks of some instances, in the order they were registered -/
def toolsOf (h : Harness) (ids : List String) : List RegisteredTool :=
  h.tools.all.filter fun t => t.ownerId ∈ ids

def hooksOf (h : Harness) (ids : List String) : List HookRegistration :=
  h.hooks.all.filter fun r => r.ownerId ∈ ids

end Harness

/-- of the registries, only what belongs to no instance of a live generation was touched -/
structure Beyond (h h' : Harness) : Prop where
  traceable : h'.Traceable
  generations : h'.generations = h.generations
  instances : h'.plugins.instances = h.plugins.instances
  tools : ∀ ids : List String, (∀ id ∈ ids, id ∈ h.generations.reachableInstanceIds) →
    h'.toolsOf ids = h.toolsOf ids
  hooks : ∀ ids : List String, (∀ id ∈ ids, id ∈ h.generations.reachableInstanceIds) →
    h'.hooksOf ids = h.hooksOf ids

theorem Beyond.refl {h : Harness} (ht : h.Traceable) : Beyond h h :=
  ⟨ht, rfl, rfl, fun _ _ => rfl, fun _ _ => rfl⟩

theorem Beyond.trans {h h' h'' : Harness} (a : Beyond h h') (b : Beyond h' h'') : Beyond h h'' where
  traceable := b.traceable
  generations := b.generations.trans a.generations
  instances := b.instances.trans a.instances
  tools := fun ids hids => (b.tools ids (a.generations ▸ hids)).trans (a.tools ids hids)
  hooks := fun ids hids => (b.hooks ids (a.generations ▸ hids)).trans (a.hooks ids hids)

theorem Beyond.foldl {α : Type} {h : Harness} {f : Harness → α → Harness} (l : List α)
    (ht : h.Traceable) (hf : ∀ h' a, Beyond h h' → Beyond h' (f h' a)) : Beyond h (l.foldl f h) :=
  List.foldlRecOn l f (Beyond.refl ht) fun h' b a _ => b.trans (hf h' a b)

section
variable [Packaging] {h : Harness} {i : PluginInstance}

theorem closeScope_beyond (ht : h.Traceable) (hi : Owns i.instanceId i.scopeId)
    (hfree : i.instanceId ∉ h.generations.reachableInstanceIds) : Beyond h (h.closeScope i) where
  traceable :=
    { ht with
      capabilities := ht.capabilities.closeScope i.scopeId
      tools := ht.tools.closeScope i.scopeId
      hooks := ht.hooks.closeScope i.scopeId }
  generations := rfl
  instances := rfl
  tools := by
    intro ids hids
    refine Owned.kept_closeScope fun t ht' hs => decide_eq_false fun hmem => ?_
    rw [ht.tools.owner_of_scope hi ht' hs] at hmem
    exact hfree (hids _ hmem)
  hooks := by
    intro ids hids
    refine Owned.kept_closeScope fun r hr hs => decide_eq_false fun hmem => ?_
    rw [ht.hooks.owner_of_scope hi hr hs] at hmem
    exact hfree (hids _ hmem)

theorem provideCapability_beyond (ht : h.Traceable) (hi : Owns i.instanceId i.scopeId)
    (c : CapabilityKey × Option String) : Beyond h (h.provideCapability i c) := by
  unfold Harness.provideCapability
  split
  · exact Beyond.refl ht
  · split
    · exact Beyond.refl ht
    · refine ⟨?_, rfl, rfl, fun _ _ => rfl, fun _ _ => rfl⟩
      exact
        { ht with
          capabilities := ht.capabilities.add rfl hi
          tools := ht.tools.later (Nat.le_succ _)
          hooks := ht.hooks.later (Nat.le_succ _) }

theorem registerTool_beyond (ht : h.Traceable) (hi : Owns i.instanceId i.scopeId)
    (hfree : i.instanceId ∉ h.generations.reachableInstanceIds) (t : ToolDeclaration) :
    Beyond h (h.registerTool i t) := by
  unfold Harness.registerTool
  split
  · exact Beyond.refl ht
  · refine ⟨?_, rfl, rfl, fun ids hids => ?_, fun _ _ => rfl⟩
    · exact
        { ht with
          capabilities := ht.capabilities.later (Nat.le_succ _)
          tools := ht.tools.add rfl hi
          hooks := ht.hooks.later (Nat.le_succ _) }
    · refine Owned.kept_add (ht.tools.new rfl) (decide_eq_false fun hmem => ?_)
      exact hfree (hids _ hmem)

theorem registerHook_beyond (ht : h.Traceable) (hi : Owns i.instanceId i.scopeId)
    (hfree : i.instanceId ∉ h.generations.reachableInstanceIds) (d : HookDeclaration) :
    Beyond h (h.registerHook i d) := by
  refine ⟨?_, rfl, rfl, fun _ _ => rfl, fun ids hids => ?_⟩
  · exact
      { ht with
        capabilities := ht.capabilities.later (Nat.le_succ _)
        tools := ht.tools.later (Nat.le_succ _)
        hooks := ht.hooks.add rfl hi }
  · refine Owned.kept_add (ht.hooks.new rfl) (decide_eq_false fun hmem => ?_)
    exact hfree (hids _ hmem)

/-- **A `setup` touches no live generation**, if its instance is in none. -/
theorem afterSetup_beyond (ht : h.Traceable) (hi : Owns i.instanceId i.scopeId)
    (hfree : i.instanceId ∉ h.generations.reachableInstanceIds) (a : SetupAnswer) :
    Beyond h (h.afterSetup i a) := by
  have hcaps : Beyond h (a.capabilities.foldl (fun h c => h.provideCapability i c) h) :=
    Beyond.foldl _ ht fun h' c b => provideCapability_beyond b.traceable hi c
  have htools := hcaps.trans (Beyond.foldl a.tools hcaps.traceable fun h' t b =>
    registerTool_beyond b.traceable hi ((hcaps.trans b).generations ▸ hfree) t)
  have hhooks := htools.trans (Beyond.foldl a.hooks htools.traceable fun h' d b =>
    registerHook_beyond b.traceable hi ((htools.trans b).generations ▸ hfree) d)
  exact hhooks.trans ⟨{ hhooks.traceable with }, rfl, rfl, fun _ _ => rfl, fun _ _ => rfl⟩

end

end

variable [Packaging] [Platform]

/-- **A late act touches no live generation**, if the owner of what it touches is in none. -/
theorem LateAct.beyond {owner : String} {h h' : Harness} (ha : LateAct owner h h')
    (ht : h.Traceable) (hfree : owner ∉ h.generations.reachableInstanceIds) : Beyond h h' := by
  cases ha with
  | registerTool i t ho hi _ _ =>
    exact registerTool_beyond ht (ht.instances _ i ho.1) (hi ▸ hfree) t
  | registerHook i d ho hi =>
    exact registerHook_beyond ht (ht.instances _ i ho.1) (hi ▸ hfree) d
  | unregisterTool name _ =>
    refine ⟨{ ht with tools := ht.tools.discard _ }, rfl, rfl, fun ids hids => ?_, fun _ _ => rfl⟩
    refine Owned.kept_discard fun t _ hgone => decide_eq_false fun hmem => ?_
    rw [Bool.and_eq_true, decide_eq_true_eq, decide_eq_true_eq] at hgone
    exact hfree (hgone.2 ▸ hids _ hmem)
  | @unregisterHook registration hget ho =>
    refine ⟨{ ht with hooks := ht.hooks.discard _ }, rfl, rfl, fun _ _ => rfl, fun ids hids => ?_⟩
    refine Owned.kept_discard fun r hr hgone => decide_eq_false fun hmem => ?_
    have hsame : r = registration := by
      obtain ⟨p, hp, rfl⟩ := List.mem_map.1 hr
      have hid := h.hooks.id_eq p hp
      rw [decide_eq_true_eq] at hgone
      rw [← hgone, show HookRegistration.registrationId p.2 = p.1 from hid] at hget
      exact Option.some.inj ((Dict.mem_items.1 hp).symm.trans hget)
    rw [hsame, ho] at hmem
    exact hfree (hids _ hmem)

end Chassis
