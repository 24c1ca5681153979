import Chassis.Capabilities.Plain
import Chassis.Harness.Effects
import Chassis.Harness.Leases
import Chassis.Lib.Kahn

/-!
# Consumers go before their providers

* `PluginRegistry.Mounts ids r`   `r` is reached by mounts and disposals; `ids` is everything that
                       was ever mounted, in order;
* `PluginRegistry.Layered`        a binding points to an instance that was mounted earlier;
* `readyToTearDown`, `TeardownRound`   the rounds of a teardown;
* `teardown_order`     the order is complete, respects every binding, and no round falls back;
* `HarnessRun.mounts`  every run of the harness leads to such a registry.
-/

set_option linter.unusedSectionVars false

namespace Chassis
open Py Coop Kahn

/-! ## registries that are reached by mounts and disposals -/

namespace PluginRegistry

/-- The registries that mounts and disposals lead to.  A mount draws an id that no instance ever
had, and binds requirements to registrations of instances that are there.  Whatever else happens to
an instance leaves its bindings alone. -/
inductive Mounts : List String → PluginRegistry → Prop
  | empty : Mounts [] {}
  | mount {ids : List String} {r : PluginRegistry} (i : PluginInstance) : Mounts ids r →
    i.instanceId ∉ ids →
    (∀ c ∈ i.resolved.values, (r.instances.get? c.providerId).isSome) →
    Mounts (ids ++ [i.instanceId]) (r.adopt i)
  | dispose {ids : List String} {r : PluginRegistry} (i : PluginInstance) : Mounts ids r →
    Mounts ids (r.forget i)
  | change {ids : List String} {r : PluginRegistry} (instanceId : String)
    (f : PluginInstance → PluginInstance) : Mounts ids r →
    (∀ x, (f x).instanceId = x.instanceId ∧ (f x).resolved = x.resolved) →
    Mounts ids (r.update instanceId f)
  /-- the references are counted anew -/
  | refresh {ids : List String} {r : PluginRegistry} (count : PluginInstance → Nat) :
    Mounts ids r → Mounts ids { r with
      instances := r.instances.mapValues fun i => { i with generationRefs := count i } }
  /-- entries are installed and uninstalled -/
  | desire {ids : List String} {r r' : PluginRegistry} : Mounts ids r →
    r'.instances = r.instances → Mounts ids r'

/-- every instance is known, and bound to earlier ones -/
structure Layered (ids : List String) (r : PluginRegistry) : Prop where
  nodup : ids.Nodup
  keyed : r.Keyed
  known : ∀ k i, r.instances.get? k = some i → k ∈ ids
  earlier : ∀ k i, r.instances.get? k = some i → ∀ c ∈ i.resolved.values,
    Before ids c.providerId k

section
variable {ids : List String} {r : PluginRegistry}

/-- what is left of the instances is bound as before -/
theorem Layered.of_bound (hl : Layered ids r) {r' : PluginRegistry} (hkeyed : r'.Keyed)
    (hbound : ∀ k i, r'.instances.get? k = some i →
      ∃ j, r.instances.get? k = some j ∧ i.resolved = j.resolved) : Layered ids r' where
  nodup := hl.nodup
  keyed := hkeyed
  known := by
    intro k i hi
    obtain ⟨j, hj, -⟩ := hbound k i hi
    exact hl.known k j hj
  earlier := by
    intro k i hi c hc
    obtain ⟨j, hj, hres⟩ := hbound k i hi
    exact hl.earlier k j hj c (hres ▸ hc)

theorem Layered.adopt (hl : Layered ids r) (i : PluginInstance) (hnew : i.instanceId ∉ ids)
    (hbound : ∀ c ∈ i.resolved.values, (r.instances.get? c.providerId).isSome) :
    Layered (ids ++ [i.instanceId]) (r.adopt i) where
  nodup := by
    refine List.nodup_append.2 ⟨hl.nodup, List.nodup_singleton _, ?_⟩
    rintro a ha b hb rfl
    exact hnew (List.mem_singleton.1 hb ▸ ha)
  keyed := hl.keyed.adopt i
  known := by
    intro k j hj
    rw [get?_adopt] at hj
    split at hj
    · rename_i hk
      rw [hk]
      exact List.mem_append_right _ List.mem_cons_self
    · exact List.mem_append_left _ (hl.known k j hj)
  earlier := by
    intro k j hj c hc
    rw [get?_adopt] at hj
    split at hj
    · rename_i hk
      obtain rfl := Option.some.inj hj
      obtain ⟨p, hp⟩ := Option.isSome_iff_exists.1 (hbound c hc)
      rw [hk]
      exact before_append (hl.known _ p hp) List.mem_cons_self
    · exact (hl.earlier k j hj c hc).append_right _

/-- **Bindings point to earlier instances**, whatever was mounted, replaced and disposed since. -/
theorem Mounts.layered (hm : Mounts ids r) : Layered ids r := by
  induction hm with
  | empty =>
    refine ⟨List.nodup_nil, ?_, ?_, ?_⟩
    · intro k i hi
      cases hi
    · intro k i hi
      cases hi
    · intro k i hi
      cases hi
  | mount i _ hnew hbound ih => exact ih.adopt i hnew hbound
  | dispose i _ ih =>
    refine ih.of_bound (ih.keyed.forget i) fun k j hj => ?_
    rw [get?_forget] at hj
    split at hj
    · cases hj
    · exact ⟨j, hj, rfl⟩
  | change instanceId f _ hf ih =>
    refine ih.of_bound (ih.keyed.update fun x => (hf x).1) fun k j hj => ?_
    rw [get?_update] at hj
    split at hj
    · rename_i hk
      obtain ⟨x, hx, rfl⟩ := Option.map_eq_some_iff.1 hj
      exact ⟨x, hk ▸ hx, (hf x).2⟩
    · exact ⟨j, hj, rfl⟩
  | @refresh ids r count _ ih =>
    have hget := fun k => Dict.get?_mapValues (fun i : PluginInstance =>
      { i with generationRefs := count i }) r.instances k
    refine ih.of_bound (fun k j hj => ?_) fun k j hj => ?_
    · rw [hget] at hj
      obtain ⟨x, hx, rfl⟩ := Option.map_eq_some_iff.1 hj
      exact ih.keyed k x hx
    · rw [hget] at hj
      obtain ⟨x, hx, rfl⟩ := Option.map_eq_some_iff.1 hj
      exact ⟨x, hx, rfl⟩
  | desire _ hinst ih =>
    refine ih.of_bound ?_ fun k j hj => ?_
    · intro k j hj
      exact ih.keyed k j (hinst ▸ hj)
    · exact ⟨j, hinst ▸ hj, rfl⟩

end

end PluginRegistry

/-! ## the rounds -/

section
variable [Packaging] [Platform]

/-- those that nobody who remains consumes -/
def readyToTearDown (edges : List (String × String)) (remaining : List String) : List String :=
  sorted (remaining.filter fun id => !edges.any fun e => e.1 = id && decide (e.2 ∈ remaining))

/-- what one round takes: where none is ready, everything -/
def teardownRound (edges : List (String × String)) (remaining : List String) : List String :=
  if readyToTearDown edges remaining = [] then sorted remaining else readyToTearDown edges remaining

inductive TeardownRound (edges : List (String × String)) (target : List String) :
    List String → Prop
  | first : TeardownRound edges target target
  | next {remaining : List String} : TeardownRound edges target remaining → remaining ≠ [] →
    TeardownRound edges target
      (remaining.filter fun id => decide (id ∉ teardownRound edges remaining))

section
variable {edges : List (String × String)}

theorem teardownRounds_succ (n : Nat) (remaining : List String) :
    teardownRounds edges (n + 1) remaining = teardownRound edges remaining ++
      teardownRounds edges n
        (remaining.filter fun id => decide (id ∉ teardownRound edges remaining)) := rfl

theorem mem_readyToTearDown {remaining : List String} {id : String} :
    id ∈ readyToTearDown edges remaining ↔
      id ∈ remaining ∧ ∀ consumer, (id, consumer) ∈ edges → consumer ∉ remaining := by
  rw [readyToTearDown, sorted, mem_sortedBy, List.mem_filter]
  refine and_congr_right fun _ => ?_
  rw [Bool.not_eq_true', List.any_eq_false]
  constructor
  · intro h consumer he hin
    exact h (id, consumer) he (by simp [hin])
  · rintro h ⟨p, c⟩ he hpc
    rw [Bool.and_eq_true, decide_eq_true_eq, decide_eq_true_eq] at hpc
    obtain ⟨rfl, hin⟩ := hpc
    exact h c he hin

theorem TeardownRound.sub {target remaining : List String} (h : TeardownRound edges target remaining)
    {id : String} (hid : id ∈ remaining) : id ∈ target := by
  induction h with
  | first => exact hid
  | next _ _ ih => exact ih (List.mem_filter.1 hid).1

variable {ids : List String} (hids : ids.Nodup) (hedges : ∀ e ∈ edges, Before ids e.1 e.2)
include hids hedges

theorem readyToTearDown_ne_nil {remaining : List String} (hsub : ∀ id ∈ remaining, id ∈ ids)
    (hne : remaining ≠ []) : readyToTearDown edges remaining ≠ [] := by
  obtain ⟨x, hx⟩ := List.exists_mem_of_ne_nil _ hne
  obtain ⟨last, -, hin, hlast⟩ := exists_last hids (s := (· ∈ remaining)) ⟨x, hsub x hx, hx⟩
  refine List.ne_nil_of_mem (a := last) (mem_readyToTearDown.2 ⟨hin, fun consumer he hc => ?_⟩)
  exact hlast consumer hc (hedges _ he)

/-- a provider waits until its consumer is gone -/
theorem teardownRounds_before {n : Nat} {remaining : List String}
    (hsub : ∀ id ∈ remaining, id ∈ ids) (hn : remaining.length ≤ n) {p c : String}
    (he : (p, c) ∈ edges) (hp : p ∈ remaining) (hc : c ∈ remaining) :
    Before (teardownRounds edges n remaining) c p := by
  induction n generalizing remaining with
  | zero =>
    rw [List.eq_nil_of_length_eq_zero (Nat.le_zero.1 hn)] at hp
    cases hp
  | succ n ih =>
    have hready : teardownRound edges remaining = readyToTearDown edges remaining :=
      if_neg (readyToTearDown_ne_nil hids hedges hsub (List.ne_nil_of_mem hp))
    have hwaits : p ∉ teardownRound edges remaining := by
      rw [hready]
      exact fun hin => (mem_readyToTearDown.1 hin).2 c he hc
    have hrest : p ∈ remaining.filter fun id => decide (id ∉ teardownRound edges remaining) :=
      List.mem_filter.2 ⟨hp, decide_eq_true hwaits⟩
    have hlen : (remaining.filter fun id =>
        decide (id ∉ teardownRound edges remaining)).length ≤ n := by
      obtain ⟨x, hx⟩ := List.exists_mem_of_ne_nil _
        (readyToTearDown_ne_nil hids hedges hsub (List.ne_nil_of_mem hp))
      have hlt := List.length_filter_lt_length_iff_exists
        (p := fun id => decide (id ∉ teardownRound edges remaining)).2
        ⟨x, (mem_readyToTearDown.1 hx).1, by simpa [hready] using hx⟩
      omega
    rw [teardownRounds_succ]
    by_cases hgone : c ∈ teardownRound edges remaining
    · exact before_append hgone (mem_teardownRounds hlen hrest)
    · refine (ih (fun id hid => hsub id (List.mem_filter.1 hid).1) hlen hrest ?_).append_left _
      exact List.mem_filter.2 ⟨hc, decide_eq_true hgone⟩

end

/-! ## the order of a teardown -/

theorem Harness.mem_liveEdges {h : Harness} {provider consumer : String} :
    (provider, consumer) ∈ h.liveEdges ↔ ∃ i ∈ h.plugins.sortedInstances,
      i.instanceId = consumer ∧ (h.plugins.instances.get? provider).isSome ∧
        ∃ c ∈ i.resolved.values, c.providerId = provider := by
  rw [Harness.liveEdges, List.mem_flatMap]
  refine exists_congr fun i => and_congr_right fun _ => ?_
  rw [List.mem_map]
  constructor
  · rintro ⟨c, hc, heq⟩
    obtain ⟨rfl, rfl⟩ := Prod.mk.inj heq
    obtain ⟨hin, hlive⟩ := List.mem_filter.1 hc
    exact ⟨rfl, hlive, c, hin, rfl⟩
  · rintro ⟨rfl, hlive, c, hc, rfl⟩
    exact ⟨c, List.mem_filter.2 ⟨hc, hlive⟩, rfl⟩

section
variable {h : Harness} {ids : List String} (hl : PluginRegistry.Layered ids h.plugins)
include hl

theorem liveEdges_before : ∀ e ∈ h.liveEdges, Before ids e.1 e.2 := by
  rintro ⟨provider, consumer⟩ he
  obtain ⟨i, hi, rfl, -, c, hc, rfl⟩ := Harness.mem_liveEdges.1 he
  obtain ⟨k, hk⟩ := Dict.mem_values.1 (mem_sortedBy.1 hi)
  have hbefore := hl.earlier k i hk c hc
  rwa [← hl.keyed k i hk] at hbefore

end

/-- **Teardown order.**  In every registry that mounts and disposals lead to, and for every set of
its instances: each comes out once, before whatever it resolved a registration of, and every round
finds an instance that is ready. -/
theorem teardown_order {h : Harness} {ids : List String}
    (hm : PluginRegistry.Mounts ids h.plugins) {target : List PluginInstance}
    (hnodup : (target.map PluginInstance.instanceId).Nodup)
    (hlive : ∀ i ∈ target, h.plugins.instances.get? i.instanceId = some i) :
    (h.teardownOrder target).Perm target ∧
      (∀ consumer ∈ target, ∀ provider ∈ target,
        (∃ c ∈ consumer.resolved.values, c.providerId = provider.instanceId) →
          Before (h.teardownOrder target) consumer provider) ∧
      ∀ remaining, TeardownRound h.liveEdges (target.map PluginInstance.instanceId) remaining →
        remaining ≠ [] → readyToTearDown h.liveEdges remaining ≠ [] := by
  have hl := hm.layered
  have hknown : ∀ id ∈ target.map PluginInstance.instanceId, id ∈ ids := by
    intro id hid
    obtain ⟨i, hi, rfl⟩ := List.mem_map.1 hid
    exact hl.known _ i (hlive i hi)
  have hids := teardownOrder_ids (h := h) hnodup
  have hnodup' := teardownOrder_nodup (h := h) hnodup
  refine ⟨?_, ?_, ?_⟩
  · refine (List.perm_ext_iff_of_nodup hnodup'.of_map hnodup.of_map).2 fun i => ⟨fun hi => ?_, ?_⟩
    · obtain ⟨id, -, hfind⟩ := List.mem_filterMap.1 hi
      exact List.mem_of_find?_eq_some hfind
    · exact fun hi => teardownOrder_complete hnodup hi
  · rintro consumer hc provider hp ⟨c, hres, hprov⟩
    refine before_of_map PluginInstance.instanceId hnodup'
      (teardownOrder_complete hnodup hc) (teardownOrder_complete hnodup hp) ?_
    rw [hids]
    refine teardownRounds_before hl.nodup (liveEdges_before hl) hknown ?_ ?_
      (List.mem_map_of_mem hp) (List.mem_map_of_mem hc)
    · rw [List.length_map]
    · refine Harness.mem_liveEdges.2 ⟨consumer, ?_, rfl, ?_, c, hres, hprov⟩
      · exact mem_sortedBy.2 (Dict.mem_values.2 ⟨_, hlive consumer hc⟩)
      · rw [hlive provider hp]
        rfl
  · intro remaining hround hne
    exact readyToTearDown_ne_nil hl.nodup (liveEdges_before hl)
      (fun id hid => hknown id (hround.sub hid)) hne

/-! ## the registry of a run -/

theorem Harness.resolutionsFor_live {h : Harness} (hk : h.plugins.Keyed) (plan : ResolutionPlan)
    (entryId : String) : ∀ c ∈ (h.resolutionsFor plan entryId).values,
      (h.plugins.instances.get? c.providerId).isSome := by
  unfold Harness.resolutionsFor
  refine List.foldlRecOn (motive := fun (d : Dict String CapabilityRegistration) =>
    ∀ c ∈ d.values, (h.plugins.instances.get? c.providerId).isSome) _ _ ?_ ?_
  · intro c hc
    rw [Dict.values_empty] at hc
    cases hc
  · intro d hd r _
    split
    · exact hd
    · split
      · exact hd
      · rename_i provider hp
        obtain ⟨e, -, hinst⟩ := Option.bind_eq_some_iff.1 hp
        intro c hc
        simp only at hc
        split at hc
        · exact hd c hc
        · rename_i c' rest hchosen
          obtain ⟨k, hget⟩ := Dict.mem_values.1 hc
          rw [Dict.get?_set] at hget
          split at hget
          · obtain rfl := Option.some.inj hget
            have hmem : c' ∈ _ := List.mem_cons_self (l := rest)
            rw [← hchosen, List.mem_append] at hmem
            have hmatch := hmem.elim (fun hin => (List.mem_filter.1 hin).1) id
            have hprov := (List.mem_filter.1 hmatch).2
            rw [Bool.and_eq_true, decide_eq_true_eq] at hprov
            rw [hprov.1, hk.instance? hinst]
            rfl
          · exact hd c (Dict.mem_values.2 ⟨k, hget⟩)

/-- mounts and disposals led here, and the ids that were drawn for it are behind -/
def Harness.Mounts (h : Harness) : Prop := ∃ ids, PluginRegistry.Mounts ids h.plugins ∧
  ∀ id ∈ ids, ∃ n < h.drawn, id = freshId "plugin" n

section
variable {h h' : Harness}

theorem Harness.Mounts.later (hm : h.Mounts) (hinst : h'.plugins.instances = h.plugins.instances)
    (hdrawn : h.drawn ≤ h'.drawn) : h'.Mounts := by
  obtain ⟨ids, hm, hids⟩ := hm
  refine ⟨ids, hm.desire hinst, fun id hid => ?_⟩
  obtain ⟨n, hn, rfl⟩ := hids id hid
  exact ⟨n, lt_of_lt_of_le hn hdrawn, rfl⟩

theorem Harness.Mounts.adopt (hm : h.Mounts) (hk : h.plugins.Keyed) (entry : PluginEntry)
    (plan : ResolutionPlan) :
    (h.adopt (h.newInstance entry (h.resolutionsFor plan entry.entryId))).Mounts := by
  obtain ⟨ids, hm, hids⟩ := hm
  have hlater : h.drawn < h.drawn + 2 := by omega
  refine ⟨ids ++ [freshId "plugin" h.drawn],
    hm.mount (h.newInstance entry (h.resolutionsFor plan entry.entryId)) ?_ ?_, fun id hid => ?_⟩
  · intro hid
    obtain ⟨n, hn, heq⟩ := hids _ hid
    have hn' := freshId_injective "plugin" heq
    omega
  · exact Harness.resolutionsFor_live hk plan entry.entryId
  · rcases List.mem_append.1 hid with hid | hid
    · obtain ⟨n, hn, rfl⟩ := hids id hid
      exact ⟨n, hn.trans hlater, rfl⟩
    · exact ⟨h.drawn, hlater, List.mem_singleton.1 hid⟩

theorem mounts_extra : Extra (fun _ => True) Harness.Mounts where
  aside := fun _ _ _ _ _ _ hm => hm.later rfl (le_refl _)
  fresh := fun _ _ _ => trivial
  renamed := fun _ _ => trivial
  known := fun _ _ => trivial
  update := fun i f hf hm => hm.elim fun ids hm =>
    ⟨ids, hm.1.change i.instanceId f fun x => ⟨(hf x).instanceId, (hf x).resolved⟩, hm.2⟩
  adopt := fun entry plan hs hm => hm.adopt hs.keyed entry plan
  forget := fun i hm => hm.elim fun ids hm => ⟨ids, hm.1.dispose i, hm.2⟩
  refresh := fun {h} hm => hm.elim fun ids hm => ⟨ids, hm.1.refresh h.references, hm.2⟩
  retire := fun _ hm => hm.later rfl (le_refl _)
  setup := fun {h} i answer _ _ _ hm => hm.later (h.afterSetup_sameHoldings i answer).instances
    (h.afterSetup_sameHoldings i answer).drawn
  close := fun _ _ _ _ hm => hm.later rfl (le_refl _)

end

/-- **Every run of the harness mounts and disposes as said above**: so the order of a teardown is
what it should be at every moment of a run. -/
theorem HarnessRun.mounts {h : Harness} {history : List (Event Job Err × HarnessConfig)}
    {c : HarnessConfig} (hrun : HarnessRun h history c) :
    ∃ ids, PluginRegistry.Mounts ids c.state.plugins := by
  have hstart : h.Mounts := ⟨[], hrun.1.plugins ▸ .empty, fun id hid => by cases hid⟩
  obtain ⟨-, ids, hm, -⟩ := upheld_run mounts_extra (fun g _ => g.2.later rfl (le_refl _))
    (fun h h' ha hs => ⟨⟨(ha.safe hs.1).1, hs.2.later (ha.safe hs.1).2.instances
      (ha.safe hs.1).2.drawn⟩, (ha.safe hs.1).2⟩) ⟨hrun.1.safe, hstart⟩ hrun.2
  exact ⟨ids, hm⟩

end

section
open scoped Plain

/-- `a`, and `b` that requires what `a` provides -/
def wired : HarnessCourse :=
  play [.install (plainPlugin "a" [("db", "1.0.0")] [] []),
    .install (plainPlugin "b" [] [("db", "1.0.0")] []), .start .reconcile, .resume honest,
    .resume honest]

/-- its instances, and the order they are torn down in -/
def wiredInstances : List PluginInstance := wired.config.state.plugins.sortedInstances

def wiredOrder : List PluginInstance := wired.config.state.teardownOrder wiredInstances

theorem wired_mounts : ∃ ids, PluginRegistry.Mounts ids wired.config.state.plugins :=
  HarnessRun.mounts (c := wired.config) (play_run _)

theorem teardown_order_wired : ∃ ids, PluginRegistry.Mounts ids wired.config.state.plugins ∧
    wiredInstances.map PluginInstance.entryId = ["a", "b"] ∧
    wiredOrder.map PluginInstance.entryId = ["b", "a"] ∧ wiredOrder.Perm wiredInstances ∧
    (∀ consumer ∈ wiredInstances, ∀ provider ∈ wiredInstances,
      (∃ c ∈ consumer.resolved.values, c.providerId = provider.instanceId) →
        Before wiredOrder consumer provider) ∧
    ∀ remaining, TeardownRound wired.config.state.liveEdges
      (wiredInstances.map PluginInstance.instanceId) remaining → remaining ≠ [] →
      readyToTearDown wired.config.state.liveEdges remaining ≠ [] := by
  obtain ⟨ids, hm⟩ := wired_mounts
  have hkeyed := hm.layered.keyed
  exact ⟨ids, hm, by decide +kernel, by decide +kernel,
    teardown_order hm hkeyed.nodup fun _ hi => hkeyed.of_mem hi⟩

end

end Chassis
