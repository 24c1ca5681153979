import Chassis.Core.GenerationHistory

/-!
# The manager of values refines the manager of objects

* `GenerationStore.manager`   the store with every generation read, as the harness holds it;
* `build_manager`, `publish_manager`, `retire_manager`, `acquireLease_manager`,
  `releaseLease_manager`      before the shutdown, what the store does the manager of values does.
-/

namespace Chassis
open Py

namespace GenerationStore

/-- a generation together with its accounting -/
def value (s : GenerationStore) (g : Generation) : RuntimeGeneration :=
  { generationId := g.generationId, sequence := g.sequence, snapshot := g.snapshot,
    instances := g.instances, metadata := g.metadata, scopes := g.scopes
    state := s.stateOf g, leases := s.leaseCount g
    starts := (s.accounting g.sequence).starts
    nextLease := (s.accounting g.sequence).nextLease }

def manager (s : GenerationStore) : GenerationManager :=
  { current := s.current.map s.value, draining := s.draining.values.map s.value
    retired := s.retired.map s.value, historyLimit := s.historyLimit, evicted := s.evicted
    counter := s.counter }

theorem value_congr {s s' : GenerationStore} {g : Generation}
    (h : s'.accounting g.sequence = s.accounting g.sequence) : s'.value g = s.value g := by
  unfold value stateOf leaseCount
  rw [h]

theorem value_account (s : GenerationStore) (g : Generation) (a : GenerationAccounting) :
    (s.account g a).value g = { s.value g with
      state := a.state, leases := a.leases, starts := a.starts, nextLease := a.nextLease } := by
  unfold value stateOf leaseCount
  rw [accounting_account]

section
variable {limit : Nat} {s s' : GenerationStore} {history : List Event}

theorem Kept.value_account_ne (h : Kept limit s history) {g g' : Generation}
    (hg : .built g ∈ history) (hg' : .built g' ∈ history) (hne : g' ≠ g)
    (a : GenerationAccounting) : (s.account g a).value g' = s.value g' :=
  value_congr (accounting_account_ne s a (h.named_apart hg hg' hne).1)

theorem Kept.of_draining (h : Kept limit s history) {g : Generation} (hg : g ∈ s.draining.values) :
    .built g ∈ history ∧ s.stateOf g = .draining := by
  obtain ⟨id, hget⟩ := Dict.mem_values.1 hg
  obtain ⟨rfl, hin⟩ := h.draining_built id g hget
  exact ⟨hin, (h.placed g hin).draining.2 hget⟩

theorem Kept.of_retained (h : Kept limit s history) {g : Generation} (hg : g ∈ s.retired) :
    .built g ∈ history ∧ s.stateOf g = .retired := by
  rw [h.retained] at hg
  have hret := mem_retirements.1 (List.mem_of_mem_drop hg)
  have hin := h.retired_built g hret
  exact ⟨hin, (h.placed g hin).retired.2 hret⟩

/-- whoever is in another state than `g` is read as before when the books of `g` change -/
theorem Kept.map_value (h : Kept limit s history) {g : Generation} (hg : .built g ∈ history)
    (a : GenerationAccounting) {l : List Generation}
    (hl : ∀ x ∈ l, .built x ∈ history ∧ s.stateOf x ≠ s.stateOf g) :
    l.map (s.account g a).value = l.map s.value := by
  refine List.map_congr_left fun x hx => h.value_account_ne hg (hl x hx).1 ?_ a
  exact fun he => (hl x hx).2 (he ▸ rfl)

/-- **A candidate is built in both alike.** -/
theorem build_manager (h : Kept limit s history)
    (snapshotFactory : String → CapabilitySnapshot) (instances : List PluginInstance)
    (metadata : GenerationMetadata) (scopes : ScopeTree) : ∃ g s',
      s.build (fun id => .ok (snapshotFactory id)) instances metadata scopes = (.ok g, s') ∧
      s.manager.build snapshotFactory instances metadata scopes = (s'.value g, s'.manager) := by
  refine ⟨_, _, rfl, ?_⟩
  unfold GenerationManager.build value stateOf leaseCount
  have hfresh := (h.unborn s.counter (Nat.le_refl _)).1
  simp only [hfresh]
  rfl

theorem Kept.vacate_manager (h : Kept limit s history) : s.vacate.manager =
    { s.manager with
      current := none
      draining := s.manager.draining ++
        (s.manager.current.map fun p => { p with state := .draining }).toList } := by
  rcases hc : s.current with _ | p
  · have hv : s.vacate = s := by
      rw [GenerationStore.vacate, hc]
      exact congrArg (fun c => { s with current := c }) hc.symm
    rw [hv]
    simp [manager, hc]
  · have hp := h.current_built p hc
    have hstate := h.state_active hc
    have hother : ∀ l : List Generation, (∀ x ∈ l, .built x ∈ history ∧ s.stateOf x ≠ .active) →
        l.map (s.setState p .draining).value = l.map s.value := fun l hl =>
      h.map_value hp _ (hstate ▸ hl)
    have hnew : s.draining.get? p.generationId = none := by
      rcases hget : s.draining.get? p.generationId with _ | x
      · rfl
      · obtain ⟨hid, hx⟩ := h.draining_built _ x hget
        have hsame : x = p := by
          by_contra hne
          exact (h.named_apart hp hx hne).2 hid.symm
        rw [hsame, ← (h.placed p hp).draining, hstate] at hget
        cases hget
    have hv : s.vacate = { s.drain p with current := none } := by
      rw [GenerationStore.vacate, hc]
      rfl
    have hread : (s.setState p .draining).value p = { s.value p with state := .draining } :=
      value_account s p _
    have hdrain : (s.drain p).draining.values.map (s.setState p .draining).value =
        s.draining.values.map s.value ++ [{ s.value p with state := .draining }] := by
      show (s.draining.set p.generationId p).values.map _ = _
      rw [Dict.values_set_new p hnew, List.map_append, List.map_singleton, hread, hother]
      intro x hx
      obtain ⟨hin, hs⟩ := h.of_draining hx
      exact ⟨hin, by rw [hs]; exact fun hx => (by cases hx)⟩
    have hretired : s.retired.map (s.setState p .draining).value = s.retired.map s.value := by
      refine hother _ fun x hx => ?_
      obtain ⟨hin, hs⟩ := h.of_retained hx
      exact ⟨hin, by rw [hs]; exact fun hx => (by cases hx)⟩
    have hman : s.vacate.manager = { s.manager with
        current := none
        draining := (s.drain p).draining.values.map (s.setState p .draining).value
        retired := s.retired.map (s.setState p .draining).value } := by
      rw [hv]
      rfl
    rw [hman, hdrain, hretired]
    simp [manager, hc]

theorem Kept.activate_manager (h : Kept limit s history) {g : Generation}
    (hg : .built g ∈ history) (hstate : s.stateOf g = .building) : (s.activate g).manager =
      { s.manager with current := some { s.value g with state := .active } } := by
  have hread : (s.setState g .active).value g = { s.value g with state := .active } :=
    value_account s g _
  have hdrain : s.draining.values.map (s.setState g .active).value =
      s.draining.values.map s.value := by
    refine h.map_value hg _ fun x hx => ?_
    obtain ⟨hin, hs⟩ := h.of_draining hx
    exact ⟨hin, by rw [hs, hstate]; exact fun hx => (nomatch hx)⟩
  have hretired : s.retired.map (s.setState g .active).value = s.retired.map s.value := by
    refine h.map_value hg _ fun x hx => ?_
    obtain ⟨hin, hs⟩ := h.of_retained hx
    exact ⟨hin, by rw [hs, hstate]; exact fun hx => (nomatch hx)⟩
  show ({ s.manager with
    current := some ((s.setState g .active).value g)
    draining := s.draining.values.map (s.setState g .active).value
    retired := s.retired.map (s.setState g .active).value } : GenerationManager) = _
  rw [hread, hdrain, hretired]
  rfl

/-- **What is published in one is published in the other**, and the same generation drains. -/
theorem publish_manager (h : Kept limit s history) {g : Generation} {previous : Option Generation}
    (hg : .built g ∈ history) (hok : s.publish g = .ok (previous, s')) :
    s.manager.publish (s.value g) =
      .ok (previous.map fun p => { s.value p with state := .draining }, s'.manager) := by
  obtain ⟨hstate, rfl, rfl⟩ := publish_ok h hg hok
  have hcan : ¬ (s.value g).state ≠ .building := not_not.2 hstate
  have hread : s.vacate.value g = s.value g := by
    rcases hc : s.current with _ | p
    · rw [GenerationStore.vacate, hc]
      rfl
    · have hne : g ≠ p := fun hx => by
        have hactive := h.state_active hc
        rw [← hx, hstate] at hactive
        cases hactive
      rw [GenerationStore.vacate, hc]
      exact value_congr (accounting_account_ne s _
        (h.named_apart (h.current_built p hc) hg hne).1)
  unfold GenerationManager.publish
  rw [if_neg hcan, h.vacate.activate_manager hg (vacate_building h hg hstate), h.vacate_manager,
    hread]
  rcases hc : s.current with _ | p <;> simp [manager, hc]

theorem Kept.withdraw_manager (h : Kept limit s history) {g : Generation}
    (hg : .built g ∈ history) (hretired : s.stateOf g ≠ .retired) : (s.withdraw g).manager =
      let retired := s.manager.retired ++ [{ s.value g with state := .retired }]
      let overflow := retired.length - s.manager.historyLimit
      { s.manager with
        current := s.current.map (s.setState g .retired).value
        draining := s.manager.draining.filter fun d => d.generationId ≠ g.generationId
        retired := retired.drop overflow
        evicted := s.manager.evicted + overflow } := by
  have hread : (s.setState g .retired).value g = { s.value g with state := .retired } :=
    value_account s g _
  have hdrain : (s.draining.erase g.generationId).values.map (s.setState g .retired).value =
      (s.draining.values.map s.value).filter fun d => d.generationId ≠ g.generationId := by
    have hkeys : ∀ p ∈ s.draining.items, p.1 = p.2.generationId ∧ .built p.2 ∈ history :=
      fun p hp => h.draining_built p.1 p.2 (Dict.mem_items.1 hp)
    show ((s.draining.items.filter fun p => decide (p.1 ≠ g.generationId)).map Prod.snd).map _ =
      ((s.draining.items.map Prod.snd).map s.value).filter _
    rw [List.map_map, List.map_map, List.filter_map]
    have hsame : s.draining.items.filter (fun p => decide (p.1 ≠ g.generationId)) =
        s.draining.items.filter ((fun d : RuntimeGeneration =>
          decide (d.generationId ≠ g.generationId)) ∘ (s.value ∘ Prod.snd)) :=
      List.filter_congr fun p hp => by rw [(hkeys p hp).1]; rfl
    rw [hsame]
    refine List.map_congr_left fun p hp => ?_
    obtain ⟨hin, hne⟩ := List.mem_filter.1 hp
    refine h.value_account_ne hg (hkeys p hin).2 ?_ _
    exact fun hx => of_decide_eq_true hne (congrArg Generation.generationId hx)
  have hold : s.retired.map (s.setState g .retired).value = s.retired.map s.value := by
    refine h.map_value hg _ fun x hx => ?_
    obtain ⟨hin, hs⟩ := h.of_retained hx
    exact ⟨hin, hs ▸ hretired.symm⟩
  show ({ s.manager with
    current := s.current.map (s.setState g .retired).value
    draining := (s.draining.erase g.generationId).values.map (s.setState g .retired).value
    retired := ((s.retired ++ [g]).drop _).map (s.setState g .retired).value
    evicted := s.evicted + ((s.retired ++ [g]).length - s.historyLimit) } : GenerationManager) = _
  rw [hdrain, List.map_drop, List.map_append, hold, List.map_singleton, hread]
  simp only [manager, List.length_append, List.length_map, List.length_singleton]
  rfl

/-- **What retires in one retires in the other.** -/
theorem retire_manager (h : Kept limit s history) {g : Generation} {changed : Bool}
    (hg : .built g ∈ history) (hup : s.shuttingDown = false)
    (hok : s.retire g = .ok (changed, s')) :
    s.manager.retire (s.value g) = .ok s'.manager := by
  have hstate : (s.value g).state = s.stateOf g := rfl
  unfold GenerationManager.retire
  rcases retire_ok h hg hok with ⟨-, hretired, rfl⟩ | ⟨-, hactive, hretired, hidle, rfl⟩
  · rw [hstate, hretired]
  · have hfree : ¬ 0 < (s.value g).leases := by
      have hzero := hidle.resolve_right (by rw [hup]; exact Bool.false_ne_true)
      show ¬ 0 < s.leaseCount g
      omega
    have hcur : s.current.map (s.setState g .retired).value = s.current.map s.value := by
      rcases hc : s.current with _ | c
      · rfl
      · refine congrArg some (h.value_account_ne hg (h.current_built c hc) ?_ _)
        exact fun hx => hactive (hx ▸ h.state_active hc)
    rw [h.withdraw_manager hg hretired, hcur]
    split
    · rename_i hs
      exact absurd hs hretired
    · rename_i hs
      exact absurd hs hactive
    · rw [if_neg hfree]
      rfl

/-- **A lease of one is a lease of the other.** -/
theorem acquireLease_manager (h : Kept limit s history) {l : Lease}
    (hok : s.acquireLease = .ok (l, s')) :
    s.manager.acquireLease = .ok (⟨s.value l.generation, l.leaseId⟩, s'.manager) := by
  obtain ⟨g, hc, rfl, rfl⟩ := acquireLease_ok h hok
  have hg := h.current_built g hc
  have hstate := h.state_active hc
  have hother : ∀ l : List Generation, (∀ x ∈ l, .built x ∈ history ∧ s.stateOf x ≠ .active) →
      l.map (s.account g (s.accounting g.sequence).acquire.2).value = l.map s.value := fun l hl =>
    h.map_value hg _ (hstate ▸ hl)
  have hdrain := hother s.draining.values fun x hx => by
    obtain ⟨hin, hs⟩ := h.of_draining hx
    exact ⟨hin, by rw [hs]; exact fun hx => (nomatch hx)⟩
  have hretired := hother s.retired fun x hx => by
    obtain ⟨hin, hs⟩ := h.of_retained hx
    exact ⟨hin, by rw [hs]; exact fun hx => (nomatch hx)⟩
  have hman : (s.account g (s.accounting g.sequence).acquire.2).manager =
      { s.manager with current := some (s.value g).acquire.2 } := by
    show ({ s.manager with
      current := s.current.map (s.account g (s.accounting g.sequence).acquire.2).value
      draining := s.draining.values.map (s.account g (s.accounting g.sequence).acquire.2).value
      retired := s.retired.map (s.account g (s.accounting g.sequence).acquire.2).value } :
        GenerationManager) = _
    rw [hdrain, hretired, hc, Option.map_some, value_account]
    rfl
  have hcur : s.manager.current = some (s.value g) := congrArg (Option.map s.value) hc
  have hactive : ¬ (s.value g).state ≠ .active := not_not.2 hstate
  unfold GenerationManager.acquireLease
  rw [hman, hcur]
  simp only [hactive, if_false]
  rfl

/-- reading by number finds the generation, as long as the manager retains it -/
theorem Kept.find? (h : Kept limit s history) {g : Generation} (hg : .built g ∈ history)
    (hlive : g ∈ s.live) : s.manager.find? g.sequence = some (s.value g) := by
  have hall : s.manager.live ++ s.manager.retired = (s.live ++ s.retired).map s.value := by
    rw [List.map_append, live, List.map_append]
    rcases hc : s.current with _ | c <;> simp [GenerationManager.live, manager, hc]
  have hbuilt : ∀ x ∈ s.live ++ s.retired, .built x ∈ history := by
    intro x hx
    rcases List.mem_append.1 hx with hl | hr
    · exact (h.of_live hl).1
    · exact (h.of_retained hr).1
  unfold GenerationManager.find?
  rw [hall, List.find?_map]
  obtain ⟨x, hx⟩ : ∃ x, (s.live ++ s.retired).find?
      ((fun v : RuntimeGeneration => decide (v.sequence = g.sequence)) ∘ s.value) = some x := by
    rw [← Option.isSome_iff_exists, List.find?_isSome]
    exact ⟨g, List.mem_append_left _ hlive, decide_eq_true rfl⟩
  have hs : x.sequence = g.sequence := by
    have htrue := List.find?_some hx
    exact of_decide_eq_true htrue
  have hxg : x = g := h.apart x g (hbuilt x (List.mem_of_find?_eq_some hx)) hg hs
  rw [hx, hxg]
  rfl

theorem Kept.account_manager (h : Kept limit s history) {g : Generation}
    (hg : .built g ∈ history) (a : GenerationAccounting) : (s.account g a).manager =
      s.manager.mapGeneration g.sequence fun _ => (s.account g a).value g := by
  have hread : ∀ x, .built x ∈ history → (s.account g a).value x =
      if (s.value x).sequence = g.sequence then (s.account g a).value g else s.value x := by
    intro x hx
    by_cases hs : (s.value x).sequence = g.sequence
    · rw [if_pos hs, h.apart x g hx hg hs]
    · rw [if_neg hs]
      exact value_congr (accounting_account_ne s a hs)
  have hlist : ∀ l : List Generation, (∀ x ∈ l, .built x ∈ history) →
      l.map (s.account g a).value = (l.map s.value).map fun v =>
        if v.sequence = g.sequence then (s.account g a).value g else v := by
    intro l hl
    rw [List.map_map]
    exact List.map_congr_left fun x hx => hread x (hl x hx)
  have hcur : s.current.map (s.account g a).value = (s.current.map s.value).map fun v =>
      if v.sequence = g.sequence then (s.account g a).value g else v := by
    rcases hc : s.current with _ | c
    · rfl
    · exact congrArg some (hread c (h.current_built c hc))
  show ({ s.manager with
    current := s.current.map (s.account g a).value
    draining := s.draining.values.map (s.account g a).value
    retired := s.retired.map (s.account g a).value } : GenerationManager) = _
  rw [hcur, hlist _ fun x hx => (h.of_draining hx).1, hlist _ fun x hx => (h.of_retained hx).1]
  rfl

/-- **A lease is returned in both alike**, and the same release finds the generation idle. -/
theorem releaseLease_manager (h : Kept limit s history) {l : Lease} {idle : Bool}
    (hl : .built l.generation ∈ history) (hup : s.shuttingDown = false)
    (hok : s.releaseLease l = .ok (idle, s')) :
    s.manager.releaseLease ⟨s.value l.generation, l.leaseId⟩ = .ok (idle, s'.manager) := by
  obtain ⟨became, a, hrel, rfl, rfl⟩ := releaseLease_ok hok
  have hpl := h.placed _ hl
  unfold GenerationAccounting.release at hrel
  split at hrel
  · rename_i hin
    cases hrel
    have hheld : s.leaseCount l.generation ≠ 0 := by
      show (s.accounting l.generation.sequence).leases ≠ 0
      rw [hpl.booked.leases]
      exact (List.length_pos_of_mem hin).ne'
    have hno : .shutdown ∉ history := fun hx => by
      rw [h.shutdown.2 hx] at hup
      cases hup
    have hlive := (h.coherent).leased_live hno _ hl hheld
    have hfind := h.find? hl hlive
    have hret : (s.value l.generation).release l.leaseId =
        .ok (decide (s.leaseCount l.generation - 1 = 0), { s.value l.generation with
          leases := s.leaseCount l.generation - 1
          starts := (s.accounting l.generation.sequence).starts.erase l.leaseId }) := if_pos hin
    unfold GenerationManager.releaseLease
    rw [show (s.value l.generation).sequence = l.generation.sequence from rfl, hfind]
    have hread : (s.account l.generation { s.accounting l.generation.sequence with
        starts := (s.accounting l.generation.sequence).starts.erase l.leaseId
        leases := (s.accounting l.generation.sequence).leases - 1 }).value l.generation =
          { s.value l.generation with
            leases := s.leaseCount l.generation - 1
            starts := (s.accounting l.generation.sequence).starts.erase l.leaseId } :=
      value_account s l.generation _
    rw [h.account_manager hl, hread]
    exact bind_ok.2 ⟨_, hret, rfl⟩
  · cases hrel

end

end GenerationStore
end Chassis
