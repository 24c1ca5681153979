import Chassis.Core.Generations

/-!
# Lease accounting

* `Accounted`   generations are numbered apart, their lease counts are right, and every lease that
                is held belongs to a live generation;
* `acquireLease_accounted`, `releaseLease_accounted`, `publish_accounted`, `retire_accounted`
                every operation of the manager keeps this;
* `footprint`   which instances the live generations have; leases do not change it.
-/

namespace Chassis
open Py

namespace GenerationManager

structure Accounted (m : GenerationManager) (runs : List GenerationLease) : Prop where
  nodup : (m.live.map RuntimeGeneration.sequence).Nodup
  numbered : ∀ g ∈ m.live, g.generationId = Chassis.generationId g.sequence
  below : ∀ g ∈ m.live, g.sequence < m.counter
  current_state : ∀ g ∈ m.current, g.state = .active
  draining_state : ∀ g ∈ m.draining, g.state = .draining
  counted : ∀ g ∈ m.live, g.leases = g.starts.length
  starts_nodup : ∀ g ∈ m.live, g.starts.Nodup
  starts_below : ∀ g ∈ m.live, ∀ id ∈ g.starts, id < g.nextLease
  held : ∀ l ∈ runs, ∃ g ∈ m.live, g.sequence = l.generation.sequence ∧
    g.instances = l.generation.instances ∧ l.leaseId ∈ g.starts
  distinct : (runs.map fun l => (l.generation.sequence, l.leaseId)).Nodup

/-- sequence and instances of the live generations -/
def footprint (m : GenerationManager) : List (Nat × List PluginInstance) :=
  m.live.map fun g => (g.sequence, g.instances)

theorem mem_live {m : GenerationManager} {g : RuntimeGeneration} :
    g ∈ m.live ↔ g ∈ m.current ∨ g ∈ m.draining := by
  rw [live, List.mem_append, Option.mem_toList, Option.mem_def]

theorem mem_reachable {m : GenerationManager} {id : String} :
    id ∈ m.reachableInstanceIds ↔ ∃ g ∈ m.live, id ∈ g.instanceIds := List.mem_flatMap

theorem mem_reachable_footprint {m : GenerationManager} {id : String} :
    id ∈ m.reachableInstanceIds ↔
      ∃ p ∈ m.footprint, ∃ i ∈ p.2, i.instanceId = id := by
  rw [mem_reachable]
  constructor
  · rintro ⟨g, hg, hid⟩
    obtain ⟨i, hi, rfl⟩ := List.mem_map.1 hid
    exact ⟨_, List.mem_map_of_mem hg, i, hi, rfl⟩
  · rintro ⟨p, hp, i, hi, rfl⟩
    obtain ⟨g, hg, rfl⟩ := List.mem_map.1 hp
    exact ⟨g, hg, List.mem_map_of_mem hi⟩

theorem Accounted.eq_of_sequence {m : GenerationManager} {runs : List GenerationLease}
    (h : m.Accounted runs) {g g' : RuntimeGeneration} (hg : g ∈ m.live) (hg' : g' ∈ m.live)
    (hs : g.sequence = g'.sequence) : g = g' := List.inj_on_of_nodup_map h.nodup hg hg' hs

theorem Accounted.leases_pos {m : GenerationManager} {runs : List GenerationLease}
    (h : m.Accounted runs) {l : GenerationLease} (hl : l ∈ runs) {g : RuntimeGeneration}
    (hg : g ∈ m.live) (hs : g.sequence = l.generation.sequence) : 0 < g.leases := by
  obtain ⟨g', hg', hs', -, hid⟩ := h.held l hl
  obtain rfl := h.eq_of_sequence hg hg' (hs.trans hs'.symm)
  rw [h.counted g hg]
  exact List.length_pos_of_mem hid

theorem empty_accounted (limit : Nat) : Accounted { historyLimit := limit } [] := by
  constructor <;> simp [live]

/-! ## acquisition -/

theorem acquireLease_ok {m m' : GenerationManager} {l : GenerationLease}
    (h : m.acquireLease = .ok (l, m')) : ∃ g, m.current = some g ∧ l = ⟨g, g.nextLease⟩ ∧
      m' = { m with current := some g.acquire.2 } := by
  simp only [acquireLease] at h
  split at h
  · cases h
  · rename_i g hg
    split at h
    · cases h
    · cases h
      exact ⟨g, hg, rfl, rfl⟩

theorem acquireLease_footprint {m m' : GenerationManager} {l : GenerationLease}
    (h : m.acquireLease = .ok (l, m')) : m'.footprint = m.footprint := by
  obtain ⟨g, hg, -, rfl⟩ := acquireLease_ok h
  simp [footprint, live, hg, RuntimeGeneration.acquire]

theorem acquireLease_accounted {m m' : GenerationManager} {runs : List GenerationLease}
    {l : GenerationLease} (ha : m.Accounted runs) (h : m.acquireLease = .ok (l, m')) :
    m'.Accounted (runs ++ [l]) := by
  obtain ⟨g, hg, rfl, rfl⟩ := acquireLease_ok h
  have hgl : g ∈ m.live := mem_live.2 (Or.inl hg)
  have hlive : ∀ g', g' ∈ ({ m with current := some g.acquire.2 } : GenerationManager).live →
      g' = g.acquire.2 ∨ g' ∈ m.draining := fun g' hg' => by
    rcases mem_live.1 hg' with hc | hd
    · exact Or.inl (Option.some.inj hc).symm
    · exact Or.inr hd
  have hold : ∀ g' ∈ m.draining, g' ∈ m.live := fun g' hg' => mem_live.2 (Or.inr hg')
  refine
    { nodup := ?_, numbered := ?_, below := ?_, current_state := ?_, draining_state := ?_,
      counted := ?_, starts_nodup := ?_, starts_below := ?_, held := ?_, distinct := ?_ }
  · have hsame := ha.nodup
    simpa [live, hg, RuntimeGeneration.acquire] using hsame
  · intro g' hg'
    rcases hlive g' hg' with rfl | hd
    · exact ha.numbered g hgl
    · exact ha.numbered g' (hold g' hd)
  · intro g' hg'
    rcases hlive g' hg' with rfl | hd
    · exact ha.below g hgl
    · exact ha.below g' (hold g' hd)
  · intro g' hg'
    obtain rfl := Option.some.inj hg'
    exact ha.current_state g hg
  · exact ha.draining_state
  · intro g' hg'
    rcases hlive g' hg' with rfl | hd
    · simp [RuntimeGeneration.acquire, ha.counted g hgl]
    · exact ha.counted g' (hold g' hd)
  · intro g' hg'
    rcases hlive g' hg' with rfl | hd
    · refine List.nodup_append.2 ⟨ha.starts_nodup g hgl, List.nodup_singleton _, ?_⟩
      intro a hin b hb hab
      rw [List.mem_singleton] at hb
      have hlt := ha.starts_below g hgl a hin
      omega
    · exact ha.starts_nodup g' (hold g' hd)
  · intro g' hg' id hid
    rcases hlive g' hg' with rfl | hd
    · rcases List.mem_append.1 hid with hin | hnew
      · have hlt := ha.starts_below g hgl id hin
        simp only [RuntimeGeneration.acquire]
        omega
      · rw [List.mem_singleton] at hnew
        simp only [RuntimeGeneration.acquire]
        omega
    · exact ha.starts_below g' (hold g' hd) id hid
  · intro l' hl'
    rcases List.mem_append.1 hl' with hin | hnew
    · obtain ⟨g', hg', hs, hi, hid⟩ := ha.held l' hin
      rcases mem_live.1 hg' with hc | hd
      · obtain rfl : g = g' := Option.some.inj (hg.symm.trans hc)
        exact ⟨g.acquire.2, mem_live.2 (Or.inl rfl), hs, hi, List.mem_append_left _ hid⟩
      · exact ⟨g', mem_live.2 (Or.inr hd), hs, hi, hid⟩
    · rw [List.mem_singleton] at hnew
      subst hnew
      exact ⟨g.acquire.2, mem_live.2 (Or.inl rfl), rfl, rfl,
        List.mem_append_right _ (List.mem_singleton.2 rfl)⟩
  · rw [List.map_append]
    refine List.nodup_append.2 ⟨ha.distinct, List.nodup_singleton _, ?_⟩
    intro a hin b hb hab
    obtain rfl : b = (g.sequence, g.nextLease) := List.mem_singleton.1 hb
    obtain ⟨l', hl', rfl⟩ := List.mem_map.1 hin
    obtain ⟨g', hg', hs, -, hid⟩ := ha.held l' hl'
    obtain ⟨hseq, hlease⟩ := Prod.mk.inj hab
    obtain rfl := ha.eq_of_sequence hg' hgl (hs.trans hseq)
    have hlt := ha.starts_below g' hgl _ hid
    omega

/-! ## release -/

theorem live_mapGeneration (m : GenerationManager) (n : Nat)
    (f : RuntimeGeneration → RuntimeGeneration) : (m.mapGeneration n f).live =
      m.live.map (fun g => if g.sequence = n then f g else g) := by
  rcases hc : m.current with _ | g <;> simp [live, mapGeneration, hc]

theorem Accounted.find? {m : GenerationManager} {runs : List GenerationLease}
    (h : m.Accounted runs) {g : RuntimeGeneration} (hg : g ∈ m.live) :
    m.find? g.sequence = some g := by
  rw [GenerationManager.find?, List.find?_append]
  obtain ⟨g', hg'⟩ : ∃ g', m.live.find? (fun x => x.sequence = g.sequence) = some g' := by
    rw [← Option.isSome_iff_exists, List.find?_isSome]
    exact ⟨g, hg, by simp⟩
  have hs : g'.sequence = g.sequence := by simpa using List.find?_some hg'
  rw [hg', h.eq_of_sequence (List.mem_of_find?_eq_some hg') hg hs]
  rfl

/-- what a release does to the accounting of the generation it returns a lease of -/
def returned (g : RuntimeGeneration) (leaseId : Nat) : RuntimeGeneration :=
  { g with leases := g.leases - 1, starts := g.starts.erase leaseId }

/-- **A lease that is held can be returned**, and what is left of the accounting is that of its
generation without it. -/
theorem releaseLease_ok {m : GenerationManager} {runs : List GenerationLease}
    (ha : m.Accounted runs) {l : GenerationLease} (hl : l ∈ runs) : ∃ g ∈ m.live,
      g.sequence = l.generation.sequence ∧ m.releaseLease l =
        .ok (decide (g.leases - 1 = 0) && g.state = .draining,
          m.mapGeneration l.generation.sequence fun _ => returned g l.leaseId) := by
  obtain ⟨g, hg, hs, -, hid⟩ := ha.held l hl
  refine ⟨g, hg, hs, ?_⟩
  have hfind := ha.find? hg
  rw [hs] at hfind
  simp only [releaseLease, hfind, RuntimeGeneration.release, hid, if_true]
  rfl

section
variable {m : GenerationManager} {runs : List GenerationLease} (ha : m.Accounted runs)
  {g : RuntimeGeneration} (hg : g ∈ m.live) (leaseId : Nat)

theorem mem_released {g' : RuntimeGeneration} (h : g' ∈ (m.mapGeneration g.sequence
      fun _ => returned g leaseId).live) : g' = returned g leaseId ∨
        (g' ∈ m.live ∧ g'.sequence ≠ g.sequence) := by
  rw [live_mapGeneration] at h
  obtain ⟨x, hx, rfl⟩ := List.mem_map.1 h
  by_cases hs : x.sequence = g.sequence
  · rw [if_pos hs]
    exact Or.inl rfl
  · rw [if_neg hs]
    exact Or.inr ⟨hx, hs⟩

include ha hg in
theorem released_footprint : (m.mapGeneration g.sequence
    fun _ => returned g leaseId).footprint = m.footprint := by
  rw [footprint, live_mapGeneration, List.map_map, footprint]
  refine List.map_congr_left fun x hx => ?_
  by_cases hs : x.sequence = g.sequence
  · obtain rfl := ha.eq_of_sequence hx hg hs
    simp [returned]
  · simp [hs]

end

/-- a lease that is returned changes the accounting of the current generation only -/
theorem releaseLease_scopes {m m' : GenerationManager} {l : GenerationLease} {idle : Bool}
    (h : m.releaseLease l = .ok (idle, m')) :
    m'.current.map RuntimeGeneration.scopes = m.current.map RuntimeGeneration.scopes := by
  unfold releaseLease at h
  split at h
  · cases h
  · rename_i g hfind
    obtain ⟨⟨became, g'⟩, hrel, h⟩ := bind_ok.1 h
    cases h
    have hscopes : g'.scopes = g.scopes := by
      unfold RuntimeGeneration.release at hrel
      split at hrel
      · cases hrel
        rfl
      · cases hrel
    rcases hcur : m.current with _ | current
    · simp only [mapGeneration, hcur, Option.map_none]
    · simp only [mapGeneration, hcur, Option.map_some]
      split
      · rename_i hseq
        have hfirst : m.find? l.generation.sequence = some current := by
          unfold find? live
          rw [hcur]
          exact List.find?_cons_of_pos (decide_eq_true hseq)
        rw [hfirst] at hfind
        cases hfind
        rw [hscopes]
      · rfl

theorem releaseLease_current {m m' : GenerationManager} {l : GenerationLease} {idle : Bool}
    (h : m.releaseLease l = .ok (idle, m')) : m'.current.isSome = m.current.isSome := by
  unfold releaseLease at h
  split at h
  · cases h
  · obtain ⟨⟨became, g'⟩, -, h⟩ := bind_ok.1 h
    cases h
    exact Option.isSome_map

theorem releaseLease_accounted {m : GenerationManager} {runs : List GenerationLease}
    (ha : m.Accounted runs) {n : Nat} {l : GenerationLease} (hl : runs[n]? = some l)
    {idle : Bool} {m' : GenerationManager} (h : m.releaseLease l = .ok (idle, m')) :
    m'.Accounted (runs.eraseIdx n) ∧ m'.footprint = m.footprint := by
  have hmem : l ∈ runs := List.mem_of_getElem? hl
  obtain ⟨g, hg, hs, hok⟩ := releaseLease_ok ha hmem
  rw [hok] at h
  obtain ⟨-, rfl⟩ := Prod.mk.inj (Except.ok.inj h)
  rw [← hs]
  refine ⟨?_, released_footprint ha hg _⟩
  have hseq := congrArg (List.map Prod.fst) (released_footprint ha hg l.leaseId)
  simp only [footprint, List.map_map] at hseq
  have hother : ∀ l' ∈ runs.eraseIdx n,
      ¬(l'.generation.sequence = l.generation.sequence ∧ l'.leaseId = l.leaseId) := by
    rintro l' hl' ⟨hs', hid⟩
    obtain ⟨k, hk, hget⟩ := List.mem_eraseIdx_iff_getElem?.1 hl'
    refine hk ?_
    have hpair : (runs.map fun l => (l.generation.sequence, l.leaseId))[k]? =
        (runs.map fun l => (l.generation.sequence, l.leaseId))[n]? := by
      simp only [List.getElem?_map, hget, hl, Option.map_some, hs', hid]
    have hlt : k < (runs.map fun l => (l.generation.sequence, l.leaseId)).length := by
      rw [List.length_map]
      exact (List.getElem?_eq_some_iff.1 hget).1
    exact (List.getElem?_inj hlt ha.distinct).1 hpair
  refine
    { nodup := ?_, numbered := ?_, below := ?_, current_state := ?_, draining_state := ?_,
      counted := ?_, starts_nodup := ?_, starts_below := ?_, held := ?_, distinct := ?_ }
  · exact hseq ▸ ha.nodup
  · intro g' hg'
    rcases mem_released l.leaseId hg' with rfl | ⟨hin, -⟩
    · exact ha.numbered g hg
    · exact ha.numbered g' hin
  · intro g' hg'
    rcases mem_released l.leaseId hg' with rfl | ⟨hin, -⟩
    · exact ha.below g hg
    · exact ha.below g' hin
  · intro g' hg'
    obtain ⟨x, hx, rfl⟩ := Option.map_eq_some_iff.1 hg'
    split
    · rename_i hxs
      obtain rfl := ha.eq_of_sequence (mem_live.2 (Or.inl hx)) hg hxs
      exact ha.current_state x hx
    · exact ha.current_state x hx
  · intro g' hg'
    obtain ⟨x, hx, rfl⟩ := List.mem_map.1 hg'
    split
    · rename_i hxs
      obtain rfl := ha.eq_of_sequence (mem_live.2 (Or.inr hx)) hg hxs
      exact ha.draining_state x hx
    · exact ha.draining_state x hx
  · intro g' hg'
    rcases mem_released l.leaseId hg' with rfl | ⟨hin, -⟩
    · obtain ⟨g₀, hg₀, hs₀, -, hid⟩ := ha.held l hmem
      obtain rfl := ha.eq_of_sequence hg hg₀ (hs.trans hs₀.symm)
      simp [returned, ha.counted g hg, List.length_erase_of_mem hid]
    · exact ha.counted g' hin
  · intro g' hg'
    rcases mem_released l.leaseId hg' with rfl | ⟨hin, -⟩
    · exact (ha.starts_nodup g hg).erase _
    · exact ha.starts_nodup g' hin
  · intro g' hg' id hid
    rcases mem_released l.leaseId hg' with rfl | ⟨hin, -⟩
    · exact ha.starts_below g hg id (List.mem_of_mem_erase hid)
    · exact ha.starts_below g' hin id hid
  · intro l' hl'
    obtain ⟨g', hg', hs', hi, hid⟩ := ha.held l' (List.mem_of_mem_eraseIdx hl')
    by_cases hsame : g'.sequence = g.sequence
    · obtain rfl := ha.eq_of_sequence hg' hg hsame
      refine ⟨returned g' l.leaseId, ?_, hs', hi, ?_⟩
      · rw [live_mapGeneration]
        exact List.mem_map.2 ⟨g', hg', if_pos rfl⟩
      · have hne : l'.leaseId ≠ l.leaseId := fun he =>
          hother l' hl' ⟨hs'.symm.trans hs, he⟩
        exact (List.mem_erase_of_ne hne).2 hid
    · refine ⟨g', ?_, hs', hi, hid⟩
      rw [live_mapGeneration]
      exact List.mem_map.2 ⟨g', hg', if_neg hsame⟩
  · exact ha.distinct.sublist ((List.eraseIdx_sublist runs n).map _)

/-! ## publication -/

theorem publish_accounted {m : GenerationManager} {runs : List GenerationLease}
    (ha : m.Accounted runs) (snapshotFactory : String → CapabilitySnapshot)
    (instances : List PluginInstance) (metadata : GenerationMetadata) (scopes : ScopeTree) :
    ∃ previous m', (m.build snapshotFactory instances metadata scopes).2.publish
        (m.build snapshotFactory instances metadata scopes).1 = .ok (previous, m') ∧
      m'.Accounted runs ∧
      m'.current = some { (m.build snapshotFactory instances metadata scopes).1 with
        state := .active } ∧
      previous = m.current.map (fun p => { p with state := .draining }) ∧
      m'.draining = m.draining ++ previous.toList := by
  let g := (m.build snapshotFactory instances metadata scopes).1
  let previous : Option RuntimeGeneration := m.current.map fun p => { p with state := .draining }
  let m' : GenerationManager := { (m.build snapshotFactory instances metadata scopes).2 with
    draining := m.draining ++ previous.toList, current := some { g with state := .active } }
  refine ⟨previous, m', rfl, ?_, rfl, rfl, rfl⟩
  have hlive : ∀ x ∈ m'.live, x = { g with state := .active } ∨
      ∃ x₀ ∈ m.live, x = { x₀ with state := x.state } := by
    intro x hx
    rcases mem_live.1 hx with hc | hd
    · exact Or.inl (Option.some.inj hc).symm
    · rcases List.mem_append.1 hd with hd | hp
      · exact Or.inr ⟨x, mem_live.2 (Or.inr hd), rfl⟩
      · obtain ⟨p, hc, rfl⟩ := Option.map_eq_some_iff.1 (Option.mem_toList.1 hp)
        exact Or.inr ⟨p, mem_live.2 (Or.inl hc), rfl⟩
  have hkeep : ∀ x₀ ∈ m.live, ∃ x ∈ m'.live, x = { x₀ with state := x.state } := by
    intro x₀ hx₀
    rcases mem_live.1 hx₀ with hc | hd
    · refine ⟨{ x₀ with state := .draining }, mem_live.2 (Or.inr ?_), rfl⟩
      refine List.mem_append_right _ (Option.mem_toList.2 ?_)
      exact Option.map_eq_some_iff.2 ⟨x₀, hc, rfl⟩
    · exact ⟨x₀, mem_live.2 (Or.inr (List.mem_append_left _ hd)), rfl⟩
  refine
    { nodup := ?_, numbered := ?_, below := ?_, current_state := ?_, draining_state := ?_,
      counted := ?_, starts_nodup := ?_, starts_below := ?_, held := ?_, distinct := ha.distinct }
  · have hold : ((m.draining ++ previous.toList).map RuntimeGeneration.sequence).Perm
        (m.live.map RuntimeGeneration.sequence) := by
      have hprev : previous.toList.map RuntimeGeneration.sequence =
          m.current.toList.map RuntimeGeneration.sequence := by
        rcases hc : m.current with _ | p <;> simp [previous, hc]
      rw [List.map_append, hprev, live, List.map_append]
      exact List.perm_append_comm
    refine List.nodup_cons.2 ⟨?_, hold.nodup_iff.2 ha.nodup⟩
    intro hin
    obtain ⟨x, hx, hs⟩ := List.mem_map.1 (hold.mem_iff.1 hin)
    have hlt := ha.below x hx
    rw [hs] at hlt
    exact absurd hlt (Nat.lt_irrefl _)
  · intro x hx
    rcases hlive x hx with rfl | ⟨x₀, hx₀, he⟩
    · rfl
    · rw [he]
      exact ha.numbered x₀ hx₀
  · intro x hx
    rcases hlive x hx with rfl | ⟨x₀, hx₀, he⟩
    · exact Nat.lt_succ_self _
    · rw [he]
      exact Nat.lt_succ_of_lt (ha.below x₀ hx₀)
  · intro x hx
    obtain rfl := Option.some.inj hx
    rfl
  · intro x hx
    rcases List.mem_append.1 hx with hd | hp
    · exact ha.draining_state x hd
    · obtain ⟨p, -, rfl⟩ := Option.map_eq_some_iff.1 (Option.mem_toList.1 hp)
      rfl
  · intro x hx
    rcases hlive x hx with rfl | ⟨x₀, hx₀, he⟩
    · rfl
    · rw [he]
      exact ha.counted x₀ hx₀
  · intro x hx
    rcases hlive x hx with rfl | ⟨x₀, hx₀, he⟩
    · exact List.nodup_nil
    · rw [he]
      exact ha.starts_nodup x₀ hx₀
  · intro x hx
    rcases hlive x hx with rfl | ⟨x₀, hx₀, he⟩
    · intro id hid
      cases hid
    · rw [he]
      exact ha.starts_below x₀ hx₀
  · intro l hl
    obtain ⟨x₀, hx₀, hs, hi, hid⟩ := ha.held l hl
    obtain ⟨x, hx, he⟩ := hkeep x₀ hx₀
    refine ⟨x, hx, ?_⟩
    rw [he]
    exact ⟨hs, hi, hid⟩

/-! ## retirement -/

theorem retire_current {m m' : GenerationManager} {g : RuntimeGeneration}
    (h : m.retire g = .ok m') : m'.current = m.current := by
  unfold retire at h
  split at h
  · cases h
    rfl
  · cases h
  · split at h
    · cases h
    · cases h
      rfl

/-- **A draining generation without leases can retire**, alone. -/
theorem retire_accounted {m : GenerationManager} {runs : List GenerationLease}
    (ha : m.Accounted runs) {g : RuntimeGeneration} (hg : g ∈ m.draining) (hidle : g.leases = 0) :
    ∃ m', m.retire g = .ok m' ∧ m'.Accounted runs ∧ m'.current = m.current ∧
      m'.counter = m.counter ∧
      m'.draining = m.draining.filter (fun d => d.sequence ≠ g.sequence) := by
  have hgl : g ∈ m.live := mem_live.2 (Or.inr hg)
  have hpop : m.draining.filter (fun d => decide (d.generationId ≠ g.generationId)) =
      m.draining.filter (fun d => decide (d.sequence ≠ g.sequence)) := by
    refine List.filter_congr fun d hd => ?_
    have hdl : d ∈ m.live := mem_live.2 (Or.inr hd)
    rw [ha.numbered d hdl, ha.numbered g hgl]
    refine decide_eq_decide.2 (not_congr ⟨generationId_injective, fun h => by rw [h]⟩)
  let m' : GenerationManager := { m with
    draining := m.draining.filter (fun d => d.sequence ≠ g.sequence)
    retired := (m.retired ++ [{ g with state := .retired }]).drop
      ((m.retired ++ [{ g with state := .retired }]).length - m.historyLimit)
    evicted := m.evicted +
      ((m.retired ++ [{ g with state := .retired }]).length - m.historyLimit) }
  refine ⟨m', ?_, ?_, rfl, rfl, rfl⟩
  · have hnone : ¬ 0 < g.leases := by omega
    simp only [retire, ha.draining_state g hg, hnone, if_false, hpop]
    rfl
  · have hsub : ∀ x, x ∈ m.current ∨ x ∈ m.draining.filter
        (fun d => decide (d.sequence ≠ g.sequence)) → x ∈ m.live := fun x hx =>
      mem_live.2 (hx.imp_right fun hd => (List.mem_filter.1 hd).1)
    refine
      { nodup := ?_, numbered := fun x hx => ha.numbered x (hsub x (mem_live.1 hx)),
        below := fun x hx => ha.below x (hsub x (mem_live.1 hx)),
        current_state := ha.current_state,
        draining_state := fun x hx => ha.draining_state x (List.mem_filter.1 hx).1,
        counted := fun x hx => ha.counted x (hsub x (mem_live.1 hx)),
        starts_nodup := fun x hx => ha.starts_nodup x (hsub x (mem_live.1 hx)),
        starts_below := fun x hx => ha.starts_below x (hsub x (mem_live.1 hx)),
        held := ?_, distinct := ha.distinct }
    · refine ha.nodup.sublist (List.Sublist.map _ ?_)
      exact List.Sublist.append (List.Sublist.refl _) List.filter_sublist
    · intro l hl
      obtain ⟨x, hx, hs, hi, hid⟩ := ha.held l hl
      refine ⟨x, mem_live.2 ?_, hs, hi, hid⟩
      refine (mem_live.1 hx).imp_right fun hd => List.mem_filter.2 ⟨hd, ?_⟩
      have hpos := ha.leases_pos hl hx hs
      refine decide_eq_true fun he => ?_
      obtain rfl := ha.eq_of_sequence hx hgl he
      omega

end GenerationManager
end Chassis
