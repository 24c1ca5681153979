import Chassis.Core.GenerationStore

/-!
# What the generation manager keeps

* `outstanding`   the leases of a generation that were acquired and not released yet;
* `retirements`   the generations that retired, in that order;
* `Kept`          the invariant: where a generation is retained follows its state, and its
                  accounting follows its leases;
* `manager_coherent`   **every reachable manager is coherent.**

Every operation is made of five moves: a generation is built, the current one makes room, one
becomes current, one retires, and the leases of one change.
-/

namespace Chassis
open Py

namespace GenerationStore

def Event.leaseOf (n : Nat) : Event → Option Nat
  | .leased l => if l.generation.sequence = n then some l.leaseId else none
  | _ => none

def Event.returnOf (n : Nat) : Event → Option Nat
  | .released l => if l.generation.sequence = n then some l.leaseId else none
  | _ => none

def Event.retirement : Event → Option Generation
  | .retired g => some g
  | _ => none

/-- the leases that were acquired on the generation with this number -/
def acquired (history : List Event) (n : Nat) : List Nat := history.filterMap (Event.leaseOf n)

def returned (history : List Event) (n : Nat) : List Nat := history.filterMap (Event.returnOf n)

def outstanding (history : List Event) (n : Nat) : List Nat :=
  (acquired history n).filter fun id => id ∉ returned history n

def retirements (history : List Event) : List Generation :=
  history.filterMap Event.retirement

theorem mem_retirements {history : List Event} {g : Generation} :
    g ∈ retirements history ↔ .retired g ∈ history := by
  unfold retirements
  rw [List.mem_filterMap]
  constructor
  · rintro ⟨e, he, hg⟩
    cases e with
    | retired g' =>
      cases hg
      exact he
    | _ => cases hg
  · exact fun h => ⟨_, h, rfl⟩

/-- the accounting of a generation is that of its leases -/
structure Booked (a : GenerationAccounting) (history : List Event) (n : Nat) : Prop where
  starts : a.starts = outstanding history n
  leases : a.leases = a.starts.length
  nodup : (acquired history n).Nodup
  below : ∀ id ∈ acquired history n, id < a.nextLease
  returns : ∀ id ∈ returned history n, id ∈ acquired history n

theorem Booked.silent {a a' : GenerationAccounting} {history : List Event} {n : Nat}
    (h : Booked a history n) {events : List Event}
    (hl : events.filterMap (Event.leaseOf n) = []) (hr : events.filterMap (Event.returnOf n) = [])
    (hs : a'.starts = a.starts) (hc : a'.leases = a.leases) (hn : a'.nextLease = a.nextLease) :
    Booked a' (history ++ events) n := by
  have hacq : acquired (history ++ events) n = acquired history n := by
    rw [acquired, List.filterMap_append, hl, List.append_nil]
    rfl
  have hret : returned (history ++ events) n = returned history n := by
    rw [returned, List.filterMap_append, hr, List.append_nil]
    rfl
  have hout : outstanding (history ++ events) n = outstanding history n := by
    rw [outstanding, hacq, hret]
    rfl
  refine ⟨?_, ?_, ?_, ?_, ?_⟩
  · rw [hs, hout]
    exact h.starts
  · rw [hc, hs]
    exact h.leases
  · rw [hacq]
    exact h.nodup
  · rw [hacq, hn]
    exact h.below
  · rw [hacq, hret]
    exact h.returns

theorem Booked.acquire {a : GenerationAccounting} {history : List Event} {g : Generation}
    (h : Booked a history g.sequence) :
    Booked a.acquire.2 (history ++ [.leased ⟨g, a.nextLease⟩]) g.sequence := by
  have hacq : acquired (history ++ [.leased ⟨g, a.nextLease⟩]) g.sequence =
      acquired history g.sequence ++ [a.nextLease] := by
    simp [acquired, Event.leaseOf]
  have hret : returned (history ++ [.leased ⟨g, a.nextLease⟩]) g.sequence =
      returned history g.sequence := by
    simp [returned, Event.returnOf]
  have hnew : a.nextLease ∉ acquired history g.sequence := fun hin =>
    absurd (h.below _ hin) (Nat.lt_irrefl _)
  have hkept : a.nextLease ∉ returned history g.sequence := fun hin => hnew (h.returns _ hin)
  refine ⟨?_, ?_, ?_, ?_, ?_⟩
  · rw [outstanding, hacq, hret, List.filter_append, List.filter_singleton, decide_eq_true hkept]
    show a.starts ++ [a.nextLease] = _
    rw [h.starts]
    rfl
  · show a.leases + 1 = (a.starts ++ [a.nextLease]).length
    rw [h.leases, List.length_append, List.length_singleton]
  · rw [hacq]
    exact List.nodup_append.2 ⟨h.nodup, List.nodup_singleton _, fun x hx y hy hxy =>
      hnew (List.mem_singleton.1 hy ▸ hxy ▸ hx)⟩
  · rw [hacq]
    intro id hid
    show id < a.nextLease + 1
    rcases List.mem_append.1 hid with hin | hin
    · have hlt := h.below id hin
      omega
    · rw [List.mem_singleton] at hin
      omega
  · rw [hacq, hret]
    exact fun id hid => List.mem_append_left _ (h.returns id hid)

theorem Booked.release {a a' : GenerationAccounting} {history : List Event} {l : Lease}
    (h : Booked a history l.generation.sequence) {idle : Bool}
    (hok : a.release l.leaseId = .ok (idle, a')) :
    Booked a' (history ++ [.released l]) l.generation.sequence := by
  unfold GenerationAccounting.release at hok
  split at hok
  · rename_i hin
    cases hok
    have hacq : acquired (history ++ [.released l]) l.generation.sequence =
        acquired history l.generation.sequence := by
      simp [acquired, Event.leaseOf]
    have hret : returned (history ++ [.released l]) l.generation.sequence =
        returned history l.generation.sequence ++ [l.leaseId] := by
      simp [returned, Event.returnOf]
    have hstarts : a.starts.Nodup := h.starts ▸ h.nodup.filter _
    refine ⟨?_, ?_, ?_, ?_, ?_⟩
    · show a.starts.erase l.leaseId = _
      rw [hstarts.erase_eq_filter, h.starts, outstanding, outstanding, hacq, hret,
        List.filter_filter]
      refine List.filter_congr fun id _ => ?_
      simp [and_comm, bne, beq_eq_decide]
    · show a.leases - 1 = (a.starts.erase l.leaseId).length
      rw [List.length_erase_of_mem hin, h.leases]
    · rw [hacq]
      exact h.nodup
    · rw [hacq]
      exact h.below
    · rw [hacq, hret]
      intro id hid
      rcases List.mem_append.1 hid with hr | hr
      · exact h.returns id hr
      · rw [List.mem_singleton.1 hr]
        exact (List.mem_filter.1 (h.starts ▸ hin)).1
  · cases hok

/-- where a generation that was built is retained, and what its accounting says -/
structure Placed (s : GenerationStore) (history : List Event) (g : Generation) : Prop where
  named : g.generationId = generationId g.sequence
  below : g.sequence < s.counter
  active : s.stateOf g = .active ↔ s.current = some g
  draining : s.stateOf g = .draining ↔ s.draining.get? g.generationId = some g
  retired : s.stateOf g = .retired ↔ .retired g ∈ history
  published : s.stateOf g = .active ∨ s.stateOf g = .draining → .published g ∈ history
  unpublished : s.stateOf g = .building → s.leaseCount g = 0
  idle : .shutdown ∉ history → s.stateOf g = .retired → s.leaseCount g = 0
  booked : Booked (s.accounting g.sequence) history g.sequence

structure Kept (limit : Nat) (s : GenerationStore) (history : List Event) : Prop where
  limited : s.historyLimit = limit
  placed : ∀ g, .built g ∈ history → Placed s history g
  apart : ∀ g g', .built g ∈ history → .built g' ∈ history → g.sequence = g'.sequence → g = g'
  current_built : ∀ g, s.current = some g → .built g ∈ history
  draining_built : ∀ id g, s.draining.get? id = some g →
    id = g.generationId ∧ .built g ∈ history
  retired_built : ∀ g, .retired g ∈ history → .built g ∈ history
  unborn : ∀ n, s.counter ≤ n → s.accounting n = {} ∧ acquired history n = [] ∧
    returned history n = []
  shutdown : s.shuttingDown = true ↔ .shutdown ∈ history
  retained : s.retired = (retirements history).drop s.evicted
  evicted : s.evicted ≤ (retirements history).length
  bounded : s.retired.length ≤ s.historyLimit
  once : (retirements history).Nodup

/-! ## the moves -/

section
variable {s s' : GenerationStore} {history events : List Event} {g : Generation}

/-- What happens to other generations leaves a generation where it is. -/
theorem Placed.frame (h : Placed s history g)
    (ha : s'.accounting g.sequence = s.accounting g.sequence) (hn : s.counter ≤ s'.counter)
    (hc : s'.current = some g ↔ s.current = some g)
    (hd : s'.draining.get? g.generationId = s.draining.get? g.generationId)
    (hr : .retired g ∉ events) (hl : events.filterMap (Event.leaseOf g.sequence) = [])
    (hb : events.filterMap (Event.returnOf g.sequence) = []) : Placed s' (history ++ events) g := by
  have hstate : s'.stateOf g = s.stateOf g := congrArg GenerationAccounting.state ha
  have hcount : s'.leaseCount g = s.leaseCount g := congrArg GenerationAccounting.leases ha
  refine
    { named := h.named, below := lt_of_lt_of_le h.below hn, active := ?_, draining := ?_,
      retired := ?_, published := ?_, unpublished := ?_, idle := ?_, booked := ?_ }
  · rw [hstate, hc]
    exact h.active
  · rw [hstate, hd]
    exact h.draining
  · rw [hstate, List.mem_append]
    exact h.retired.trans (or_iff_left hr).symm
  · rw [hstate]
    exact fun hs => List.mem_append_left _ (h.published hs)
  · rw [hstate, hcount]
    exact h.unpublished
  · rw [hstate, hcount]
    exact fun hno => h.idle fun hin => hno (List.mem_append_left _ hin)
  · rw [ha]
    exact h.booked.silent hl hb rfl rfl rfl

end

theorem stateOf_account (s : GenerationStore) (g : Generation) (a : GenerationAccounting) :
    (s.account g a).stateOf g = a.state :=
  congrArg GenerationAccounting.state (Function.update_self ..)

theorem accounting_account (s : GenerationStore) (g : Generation) (a : GenerationAccounting) :
    (s.account g a).accounting g.sequence = a := Function.update_self ..

theorem accounting_account_ne (s : GenerationStore) {g : Generation} (a : GenerationAccounting)
    {n : Nat} (h : n ≠ g.sequence) : (s.account g a).accounting n = s.accounting n :=
  Function.update_of_ne h _ _

/-- the current generation, if there is one, drains -/
def vacate (s : GenerationStore) : GenerationStore :=
  { s.current.elim s s.drain with current := none }

def activate (s : GenerationStore) (g : Generation) : GenerationStore :=
  { s.setState g .active with current := some g }

def withdraw (s : GenerationStore) (g : Generation) : GenerationStore :=
  ({ s.setState g .retired with draining := s.draining.erase g.generationId }).record g

section
variable {limit : Nat} {s : GenerationStore} {history : List Event}

theorem fresh_kept : Kept limit { historyLimit := limit } [] :=
  { limited := rfl, placed := fun _ h => (nomatch h), apart := fun _ _ h => (nomatch h),
    current_built := fun _ h => (nomatch h), draining_built := fun _ _ h => (nomatch h),
    retired_built := fun _ h => (nomatch h), unborn := fun _ _ => ⟨rfl, rfl, rfl⟩,
    shutdown := ⟨fun h => (nomatch h), fun h => (nomatch h)⟩,
    retained := rfl, evicted := Nat.le_refl _, bounded := Nat.zero_le _, once := List.nodup_nil }

theorem Kept.state_active (h : Kept limit s history) {g : Generation}
    (hc : s.current = some g) : s.stateOf g = .active :=
  (h.placed g (h.current_built g hc)).active.2 hc

theorem Kept.named_apart (h : Kept limit s history) {g g' : Generation}
    (hg : .built g ∈ history) (hg' : .built g' ∈ history) (hne : g' ≠ g) :
    g'.sequence ≠ g.sequence ∧ g'.generationId ≠ g.generationId := by
  have hseq : g'.sequence ≠ g.sequence := fun hs => hne (h.apart g' g hg' hg hs)
  refine ⟨hseq, fun hid => hseq ?_⟩
  rw [(h.placed g hg).named, (h.placed g' hg').named] at hid
  exact generationId_injective hid

/-- the numbers from the counter on are untouched when the books of an older generation change -/
theorem Kept.unborn_account (h : Kept limit s history) {g : Generation} (hg : .built g ∈ history)
    (a : GenerationAccounting) {n : Nat} (hn : s.counter ≤ n) :
    (s.account g a).accounting n = {} := by
  have hlt := (h.placed g hg).below
  rw [accounting_account_ne s a (by omega)]
  exact (h.unborn n hn).1

theorem Kept.vacate (h : Kept limit s history) : Kept limit s.vacate history := by
  rcases hc : s.current with _ | p
  · have he : s.vacate = s := by
      rw [GenerationStore.vacate, hc]
      exact congrArg (fun c => { s with current := c }) hc.symm
    rw [he]
    exact h
  have hp := h.current_built p hc
  have hstate := h.state_active hc
  have hpl := h.placed p hp
  have hv : s.vacate = { s.drain p with current := none } := by
    rw [GenerationStore.vacate, hc]
    rfl
  rw [hv]
  have hset : ({ s.drain p with current := none } : GenerationStore).stateOf p = .draining :=
    stateOf_account s p _
  have hother : ∀ g, .built g ∈ history → g ≠ p →
      Placed { s.drain p with current := none } history g := by
    intro g hg hne
    obtain ⟨hseq, hid⟩ := h.named_apart hp hg hne
    have hcur : (none : Option Generation) = some g ↔ s.current = some g := by
      rw [hc]
      exact ⟨fun hx => (nomatch hx), fun hx => absurd (Option.some.inj hx).symm hne⟩
    have hframe : Placed { s.drain p with current := none } (history ++ []) g :=
      (h.placed g hg).frame (accounting_account_ne s _ hseq) (Nat.le_refl _) hcur
        (Dict.get?_set_ne _ _ hid) (fun hx => (nomatch hx)) rfl rfl
    rwa [List.append_nil] at hframe
  have hself : Placed { s.drain p with current := none } history p := by
    refine
      { named := hpl.named, below := hpl.below, active := ?_, draining := ?_, retired := ?_,
        published := fun _ => hpl.published (Or.inl hstate), unpublished := ?_, idle := ?_,
        booked := ?_ }
    · rw [hset]
      exact ⟨fun hx => (nomatch hx), fun hx => (nomatch hx)⟩
    · exact ⟨fun _ => Dict.get?_set_self _ _ _, fun _ => hset⟩
    · rw [hset, ← hpl.retired, hstate]
      exact ⟨fun hx => (nomatch hx), fun hx => (nomatch hx)⟩
    · rw [hset]
      exact fun hx => (nomatch hx)
    · rw [hset]
      exact fun _ hx => (nomatch hx)
    · have hb : Booked { s.accounting p.sequence with state := .draining } (history ++ [])
          p.sequence := hpl.booked.silent rfl rfl rfl rfl rfl
      rw [List.append_nil] at hb
      show Booked ((s.setState p .draining).accounting p.sequence) history p.sequence
      rw [setState, accounting_account]
      exact hb
  refine
    { limited := h.limited, placed := ?_, apart := h.apart
      current_built := fun _ hx => (nomatch hx), draining_built := ?_
      retired_built := h.retired_built
      unborn := fun n hn => ⟨h.unborn_account hp _ hn, (h.unborn n hn).2⟩
      shutdown := h.shutdown, retained := h.retained, evicted := h.evicted
      bounded := h.bounded, once := h.once }
  · intro g hg
    by_cases hne : g = p
    · rw [hne]
      exact hself
    · exact hother g hg hne
  · intro id g hget
    rcases eq_or_ne id p.generationId with rfl | hid
    · rw [show ({ s.drain p with current := none } : GenerationStore).draining =
        s.draining.set p.generationId p from rfl, Dict.get?_set_self] at hget
      cases hget
      exact ⟨rfl, hp⟩
    · rw [show ({ s.drain p with current := none } : GenerationStore).draining =
        s.draining.set p.generationId p from rfl, Dict.get?_set_ne _ _ hid] at hget
      exact h.draining_built id g hget

theorem Kept.activate (h : Kept limit s history) (hc : s.current = none) {g : Generation}
    (hg : .built g ∈ history) (hstate : s.stateOf g = .building) :
    Kept limit (s.activate g) (history ++ [.published g]) := by
  have hgl := h.placed g hg
  have hset : (s.activate g).stateOf g = .active := stateOf_account s g _
  have hold : ∀ g', Event.built g' ∈ history ++ [.published g] → .built g' ∈ history := by
    intro g' hg'
    simpa using hg'
  have hother : ∀ g', .built g' ∈ history → g' ≠ g →
      Placed (s.activate g) (history ++ [.published g]) g' := by
    intro g' hg' hne
    obtain ⟨hseq, -⟩ := h.named_apart hg hg' hne
    refine (h.placed g' hg').frame (accounting_account_ne s _ hseq) (Nat.le_refl _) ?_ rfl
      (by simp) rfl rfl
    rw [hc]
    exact ⟨fun hx => absurd (Option.some.inj hx).symm hne, fun hx => (nomatch hx)⟩
  have hself : Placed (s.activate g) (history ++ [.published g]) g := by
    refine
      { named := hgl.named, below := hgl.below, active := ⟨fun _ => rfl, fun _ => hset⟩,
        draining := ?_, retired := ?_, published := fun _ => by simp, unpublished := ?_,
        idle := ?_, booked := ?_ }
    · rw [hset]
      show _ ↔ s.draining.get? g.generationId = some g
      rw [← hgl.draining, hstate]
      exact ⟨fun hx => (nomatch hx), fun hx => (nomatch hx)⟩
    · have hno : .retired g ∉ history := by
        rw [← hgl.retired, hstate]
        exact fun hx => (nomatch hx)
      rw [hset]
      simp [hno]
    · rw [hset]
      exact fun hx => (nomatch hx)
    · rw [hset]
      exact fun _ hx => (nomatch hx)
    · show Booked ((s.setState g .active).accounting g.sequence) _ g.sequence
      rw [setState, accounting_account]
      exact hgl.booked.silent rfl rfl rfl rfl rfl
  have hret : retirements (history ++ [.published g]) = retirements history := by
    simp [retirements, Event.retirement]
  refine
    { limited := h.limited, placed := ?_
      apart := fun a b ha hb => h.apart a b (hold a ha) (hold b hb)
      current_built := ?_
      draining_built := fun id a hget =>
        ⟨(h.draining_built id a hget).1, List.mem_append_left _ (h.draining_built id a hget).2⟩
      retired_built := ?_, unborn := ?_, shutdown := ?_
      retained := hret ▸ h.retained, evicted := hret ▸ h.evicted, bounded := h.bounded
      once := hret ▸ h.once }
  · intro g' hg'
    by_cases hne : g' = g
    · rw [hne]
      exact hself
    · exact hother g' (hold g' hg') hne
  · intro c hcur
    cases hcur
    exact List.mem_append_left _ hg
  · intro a ha
    refine List.mem_append_left _ (h.retired_built a ?_)
    simpa using ha
  · intro n hn
    refine ⟨h.unborn_account hg _ hn, ?_⟩
    have hacq := (h.unborn n hn).2
    simpa [acquired, returned, Event.leaseOf, Event.returnOf] using hacq
  · show s.shuttingDown = true ↔ _
    rw [h.shutdown]
    simp

theorem Kept.withdraw (h : Kept limit s history) {g : Generation} (hg : .built g ∈ history)
    (hactive : s.stateOf g ≠ .active) (hretired : s.stateOf g ≠ .retired)
    (hidle : s.leaseCount g = 0 ∨ s.shuttingDown = true) :
    Kept limit (s.withdraw g) (history ++ [.retired g]) := by
  have hgl := h.placed g hg
  have hset : (s.withdraw g).stateOf g = .retired := stateOf_account s g _
  have hold : ∀ g', Event.built g' ∈ history ++ [.retired g] → .built g' ∈ history := by
    intro g' hg'
    simpa using hg'
  have hnew : .retired g ∉ history := fun hin => hretired (hgl.retired.2 hin)
  have hother : ∀ g', .built g' ∈ history → g' ≠ g →
      Placed (s.withdraw g) (history ++ [.retired g]) g' := by
    intro g' hg' hne
    obtain ⟨hseq, hid⟩ := h.named_apart hg hg' hne
    refine (h.placed g' hg').frame (accounting_account_ne s _ hseq) (Nat.le_refl _) Iff.rfl
      (Dict.get?_erase_ne _ hid) ?_ rfl rfl
    simpa using hne
  have hself : Placed (s.withdraw g) (history ++ [.retired g]) g := by
    refine
      { named := hgl.named, below := hgl.below, active := ?_, draining := ?_,
        retired := ⟨fun _ => by simp, fun _ => hset⟩, published := ?_, unpublished := ?_,
        idle := ?_, booked := ?_ }
    · rw [hset]
      show _ ↔ s.current = some g
      rw [← hgl.active]
      exact ⟨fun hx => (nomatch hx), fun hx => absurd hx hactive⟩
    · rw [hset]
      show _ ↔ (s.draining.erase g.generationId).get? g.generationId = some g
      rw [Dict.get?_erase_self]
      exact ⟨fun hx => (nomatch hx), fun hx => (nomatch hx)⟩
    · rw [hset]
      exact fun hx => hx.elim (fun hx => (nomatch hx)) (fun hx => (nomatch hx))
    · rw [hset]
      exact fun hx => (nomatch hx)
    · intro hno _
      have hcount : (s.withdraw g).leaseCount g = s.leaseCount g := by
        show ((s.setState g .retired).accounting g.sequence).leases = _
        rw [setState, accounting_account]
        rfl
      rw [hcount]
      refine hidle.resolve_right fun hdown => hno ?_
      exact List.mem_append_left _ (h.shutdown.1 hdown)
    · show Booked ((s.setState g .retired).accounting g.sequence) _ g.sequence
      rw [setState, accounting_account]
      exact hgl.booked.silent rfl rfl rfl rfl rfl
  have hret : retirements (history ++ [.retired g]) = retirements history ++ [g] := by
    simp [retirements, Event.retirement]
  have hlen : s.retired.length = (retirements history).length - s.evicted := by
    rw [h.retained, List.length_drop]
  have hevicted := h.evicted
  refine
    { limited := h.limited, placed := ?_
      apart := fun a b ha hb => h.apart a b (hold a ha) (hold b hb)
      current_built := fun c hcur => List.mem_append_left _ (h.current_built c hcur)
      draining_built := ?_
      retired_built := ?_, unborn := ?_, shutdown := ?_, retained := ?_, evicted := ?_
      bounded := ?_, once := ?_ }
  · intro g' hg'
    by_cases hne : g' = g
    · rw [hne]
      exact hself
    · exact hother g' (hold g' hg') hne
  · intro id a hget
    rw [show (s.withdraw g).draining = s.draining.erase g.generationId from rfl,
      Dict.get?_erase] at hget
    split at hget
    · cases hget
    · obtain ⟨hid, hin⟩ := h.draining_built id a hget
      exact ⟨hid, List.mem_append_left _ hin⟩
  · intro a ha
    rcases List.mem_append.1 ha with hin | hin
    · exact List.mem_append_left _ (h.retired_built a hin)
    · cases List.mem_singleton.1 hin
      exact List.mem_append_left _ hg
  · intro n hn
    refine ⟨h.unborn_account hg _ hn, ?_⟩
    have hacq := (h.unborn n hn).2
    simpa [acquired, returned, Event.leaseOf, Event.returnOf] using hacq
  · show s.shuttingDown = true ↔ _
    rw [h.shutdown]
    simp
  · show (s.retired ++ [g]).drop _ = (retirements (history ++ [.retired g])).drop (s.evicted + _)
    rw [hret, ← List.drop_drop, List.drop_append_of_le_length hevicted, ← h.retained]
  · show s.evicted + ((s.retired ++ [g]).length - s.historyLimit) ≤ _
    rw [hret, List.length_append, List.length_append, hlen, List.length_singleton]
    omega
  · show ((s.retired ++ [g]).drop ((s.retired ++ [g]).length - s.historyLimit)).length
      ≤ s.historyLimit
    rw [List.length_drop]
    omega
  · rw [hret]
    refine List.nodup_append.2 ⟨h.once, List.nodup_singleton _, fun a ha b hb hab => hnew ?_⟩
    rw [← List.mem_singleton.1 hb, ← hab]
    exact mem_retirements.1 ha

theorem Kept.count (h : Kept limit s history) : Kept limit { s with counter := s.counter + 1 }
    history := by
  refine
    { limited := h.limited, placed := ?_, apart := h.apart, current_built := h.current_built
      draining_built := h.draining_built, retired_built := h.retired_built
      unborn := fun n hn => h.unborn n (Nat.le_of_succ_le hn), shutdown := h.shutdown
      retained := h.retained, evicted := h.evicted, bounded := h.bounded, once := h.once }
  intro g hg
  have hframe : Placed { s with counter := s.counter + 1 } (history ++ []) g :=
    (h.placed g hg).frame rfl (Nat.le_succ _) Iff.rfl rfl (fun hx => (nomatch hx)) rfl rfl
  rwa [List.append_nil] at hframe

theorem Kept.build (h : Kept limit s history) {g : Generation}
    (hid : g.generationId = generationId s.counter) (hseq : g.sequence = s.counter) :
    Kept limit { s with counter := s.counter + 1 } (history ++ [.built g]) := by
  have hfresh := h.unborn g.sequence (hseq ▸ Nat.le_refl _)
  have hnew : ∀ a, .built a ∈ history → a.sequence ≠ g.sequence := by
    intro a ha hs
    have hlt := (h.placed a ha).below
    omega
  have hstate : s.stateOf g = .building := congrArg GenerationAccounting.state hfresh.1
  have hcount : s.leaseCount g = 0 := congrArg GenerationAccounting.leases hfresh.1
  have hold : ∀ a, Event.built a ∈ history ++ [.built g] → .built a ∈ history ∨ a = g := by
    intro a ha
    simpa using ha
  have hself : Placed { s with counter := s.counter + 1 } (history ++ [.built g]) g := by
    refine
      { named := by rw [hid, hseq], below := hseq ▸ Nat.lt_succ_self _, active := ?_,
        draining := ?_, retired := ?_, published := ?_, unpublished := fun _ => hcount,
        idle := fun _ _ => hcount, booked := ?_ }
    · show s.stateOf g = .active ↔ s.current = some g
      rw [hstate]
      exact ⟨fun hx => (nomatch hx), fun hx => absurd rfl (hnew g (h.current_built g hx))⟩
    · show s.stateOf g = .draining ↔ s.draining.get? g.generationId = some g
      rw [hstate]
      exact ⟨fun hx => (nomatch hx), fun hx => absurd rfl (hnew g (h.draining_built _ g hx).2)⟩
    · show s.stateOf g = .retired ↔ _
      rw [hstate]
      refine ⟨fun hx => (nomatch hx), fun hx => absurd rfl (hnew g (h.retired_built g ?_))⟩
      simpa using hx
    · show s.stateOf g = .active ∨ s.stateOf g = .draining → _
      rw [hstate]
      exact fun hx => hx.elim (fun hx => (nomatch hx)) (fun hx => (nomatch hx))
    · show Booked (s.accounting g.sequence) _ g.sequence
      obtain ⟨hacc, hacq, hret⟩ := hfresh
      have hbook : Booked (s.accounting g.sequence) history g.sequence := by
        rw [hacc]
        refine ⟨?_, rfl, ?_, ?_, ?_⟩
        · rw [outstanding, hacq]
          rfl
        · rw [hacq]
          exact List.nodup_nil
        · rw [hacq]
          exact fun _ hx => (nomatch hx)
        · rw [hret]
          exact fun _ hx => (nomatch hx)
      exact hbook.silent rfl rfl rfl rfl rfl
  have hret : retirements (history ++ [.built g]) = retirements history := by
    simp [retirements, Event.retirement]
  refine
    { limited := h.limited, placed := ?_, apart := ?_
      current_built := fun c hcur => List.mem_append_left _ (h.current_built c hcur)
      draining_built := fun id a hget =>
        ⟨(h.draining_built id a hget).1, List.mem_append_left _ (h.draining_built id a hget).2⟩
      retired_built := ?_, unborn := ?_, shutdown := ?_
      retained := hret ▸ h.retained, evicted := hret ▸ h.evicted, bounded := h.bounded
      once := hret ▸ h.once }
  · intro a ha
    rcases hold a ha with hin | rfl
    · refine (h.placed a hin).frame rfl (Nat.le_succ _) Iff.rfl rfl (by simp) rfl rfl
    · exact hself
  · intro a b ha hb hs
    rcases hold a ha with hin | rfl
    · rcases hold b hb with hin' | rfl
      · exact h.apart a b hin hin' hs
      · exact absurd hs (hnew a hin)
    · rcases hold b hb with hin' | rfl
      · exact absurd hs.symm (hnew b hin')
      · rfl
  · intro a ha
    refine List.mem_append_left _ (h.retired_built a ?_)
    simpa using ha
  · intro n hn
    have hfree := h.unborn n (Nat.le_of_succ_le hn)
    refine ⟨hfree.1, ?_⟩
    simpa [acquired, returned, Event.leaseOf, Event.returnOf] using hfree.2
  · show s.shuttingDown = true ↔ _
    rw [h.shutdown]
    simp

theorem Kept.book (h : Kept limit s history) {g : Generation} (hg : .built g ∈ history)
    {a : GenerationAccounting} {e : Event} (he : ∃ l : Lease,
      l.generation.sequence = g.sequence ∧ (e = .leased l ∨ e = .released l))
    (hstate : a.state = s.stateOf g) (hbook : Booked a (history ++ [e]) g.sequence)
    (hless : s.stateOf g ≠ .active → a.leases ≤ s.leaseCount g) :
    Kept limit (s.account g a) (history ++ [e]) := by
  obtain ⟨l, hl, he⟩ := he
  have hgl := h.placed g hg
  have hset : (s.account g a).stateOf g = s.stateOf g := (stateOf_account s g a).trans hstate
  have hcount : (s.account g a).leaseCount g = a.leases :=
    congrArg GenerationAccounting.leases (accounting_account s g a)
  have hold : ∀ e', e' ∈ history ++ [e] → e' ∈ history ∨ e' = e := by
    intro e' he'
    simpa using he'
  have hsilent : ∀ n, n ≠ g.sequence →
      [e].filterMap (Event.leaseOf n) = [] ∧ [e].filterMap (Event.returnOf n) = [] := by
    intro n hn
    have hne : ¬ l.generation.sequence = n := fun hx => hn (hx.symm.trans hl)
    rcases he with rfl | rfl
    · simp [Event.leaseOf, Event.returnOf, hne]
    · simp [Event.leaseOf, Event.returnOf, hne]
  have hbuilt : ∀ a, Event.built a ∈ history ++ [e] → .built a ∈ history := by
    intro a ha
    rcases hold _ ha with hin | rfl
    · exact hin
    · rcases he with he | he <;> cases he
  have hretired : ∀ a, Event.retired a ∈ history ++ [e] ↔ .retired a ∈ history := by
    intro a
    rcases he with rfl | rfl <;> simp
  have hret : retirements (history ++ [e]) = retirements history := by
    rcases he with rfl | rfl <;> simp [retirements, Event.retirement]
  refine
    { limited := h.limited, placed := ?_
      apart := fun a b ha hb => h.apart a b (hbuilt a ha) (hbuilt b hb)
      current_built := fun c hcur => List.mem_append_left _ (h.current_built c hcur)
      draining_built := fun id a hget =>
        ⟨(h.draining_built id a hget).1, List.mem_append_left _ (h.draining_built id a hget).2⟩
      retired_built := fun a ha =>
        List.mem_append_left _ (h.retired_built a ((hretired a).1 ha))
      unborn := ?_, shutdown := ?_
      retained := hret ▸ h.retained, evicted := hret ▸ h.evicted, bounded := h.bounded
      once := hret ▸ h.once }
  · intro g' hg'
    by_cases hne : g' = g
    · rw [hne]
      refine
        { named := hgl.named, below := hgl.below, active := ?_, draining := ?_, retired := ?_,
          published := ?_, unpublished := ?_, idle := ?_, booked := ?_ }
      · rw [hset]
        exact hgl.active
      · rw [hset]
        exact hgl.draining
      · rw [hset, hretired]
        exact hgl.retired
      · rw [hset]
        exact fun hs => List.mem_append_left _ (hgl.published hs)
      · rw [hset, hcount]
        intro hs
        have hle := hless (by rw [hs]; exact fun hx => (nomatch hx))
        rw [hgl.unpublished hs] at hle
        exact Nat.le_zero.1 hle
      · rw [hset, hcount]
        intro hno hs
        have hle := hless (by rw [hs]; exact fun hx => (nomatch hx))
        rw [hgl.idle (fun hin => hno (List.mem_append_left _ hin)) hs] at hle
        exact Nat.le_zero.1 hle
      · rw [accounting_account]
        exact hbook
    · obtain ⟨hseq, -⟩ := h.named_apart hg (hbuilt g' hg') hne
      refine (h.placed g' (hbuilt g' hg')).frame (accounting_account_ne s a hseq) (Nat.le_refl _)
        Iff.rfl rfl ?_ (hsilent _ hseq).1 (hsilent _ hseq).2
      rcases he with rfl | rfl <;> simp
  · intro n hn
    have hlt := hgl.below
    obtain ⟨hnl, hnr⟩ := hsilent n (by change s.counter ≤ n at hn; omega)
    obtain ⟨-, hacq, hreturned⟩ := h.unborn n hn
    refine ⟨h.unborn_account hg a hn, ?_, ?_⟩
    · rw [acquired, List.filterMap_append, hnl, List.append_nil]
      exact hacq
    · rw [returned, List.filterMap_append, hnr, List.append_nil]
      exact hreturned
  · show s.shuttingDown = true ↔ _
    rw [h.shutdown]
    rcases he with rfl | rfl <;> simp

/-! ## the operations -/

theorem publish_ok {g : Generation} {previous : Option Generation} {s' : GenerationStore}
    (h : Kept limit s history) (hg : .built g ∈ history) (hok : s.publish g = .ok (previous, s')) :
    s.stateOf g = .building ∧ previous = s.current ∧ s' = s.vacate.activate g := by
  unfold publish at hok
  split at hok
  · cases hok
  · rename_i hstate
    replace hstate : s.stateOf g = .building := not_not.1 hstate
    cases hok
    refine ⟨hstate, rfl, ?_⟩
    rcases hc : s.current with _ | p
    · rw [vacate, hc]
      rfl
    · have hne : p.sequence ≠ g.sequence := by
        intro hs
        have hp := h.apart p g (h.current_built p hc) hg hs
        have hactive := h.state_active hc
        rw [hp, hstate] at hactive
        cases hactive
      rw [vacate, hc, Option.filter_some, if_pos (decide_eq_true hne)]
      rfl

theorem retire_ok {g : Generation} {changed : Bool} {s' : GenerationStore}
    (h : Kept limit s history) (hg : .built g ∈ history) (hok : s.retire g = .ok (changed, s')) :
    (changed = false ∧ s.stateOf g = .retired ∧ s' = s) ∨ (changed = true ∧ s.stateOf g ≠ .active ∧
      s.stateOf g ≠ .retired ∧ (s.leaseCount g = 0 ∨ s.shuttingDown = true) ∧
      s' = s.withdraw g) := by
  unfold retire at hok
  split at hok
  · rename_i hretired
    cases hok
    exact Or.inl ⟨rfl, hretired, rfl⟩
  · cases hok
  · rename_i hretired hactive
    split at hok
    · cases hok
    · rename_i hfree
      cases hok
      refine Or.inr ⟨rfl, hactive, hretired, ?_, ?_⟩
      · rcases Nat.eq_zero_or_pos (s.leaseCount g) with hz | hpos
        · exact Or.inl hz
        · exact Or.inr (Bool.not_eq_false _ ▸ fun hf => hfree ⟨hpos, hf⟩)
      · have hcur : s.current.filter (fun c => decide (c.sequence ≠ g.sequence)) = s.current := by
          rcases hc : s.current with _ | c
          · rfl
          · have hne : c.sequence ≠ g.sequence := fun hs => hactive
              (h.apart c g (h.current_built c hc) hg hs ▸ h.state_active hc)
            rw [Option.filter_some, if_pos (decide_eq_true hne)]
        show ({ s.withdraw g with current := s.current.filter _ } : GenerationStore) = _
        rw [hcur]
        rfl

theorem Kept.beginShutdown (h : Kept limit s history) :
    Kept limit s.beginShutdown.2 (history ++ [.shutdown]) := by
  have hv := h.vacate
  have hsame : s.beginShutdown.2 = { s.vacate with shuttingDown := true } := rfl
  have hold : ∀ a, Event.built a ∈ history ++ [.shutdown] → .built a ∈ history := by
    intro a ha
    simpa using ha
  have hret : retirements (history ++ [.shutdown]) = retirements history := by
    simp [retirements, Event.retirement]
  rw [hsame]
  refine
    { limited := hv.limited, placed := ?_
      apart := fun a b ha hb => hv.apart a b (hold a ha) (hold b hb)
      current_built := fun c hcur => List.mem_append_left _ (hv.current_built c hcur)
      draining_built := fun id a hget =>
        ⟨(hv.draining_built id a hget).1, List.mem_append_left _ (hv.draining_built id a hget).2⟩
      retired_built := ?_, unborn := ?_, shutdown := ⟨fun _ => by simp, fun _ => rfl⟩
      retained := hret ▸ hv.retained, evicted := hret ▸ hv.evicted, bounded := hv.bounded
      once := hret ▸ hv.once }
  · intro g hg
    exact (hv.placed g (hold g hg)).frame rfl (Nat.le_refl _) Iff.rfl rfl (by simp) rfl rfl
  · intro a ha
    refine List.mem_append_left _ (hv.retired_built a ?_)
    simpa using ha
  · intro n hn
    have hfree := hv.unborn n hn
    refine ⟨hfree.1, ?_⟩
    simpa [acquired, returned, Event.leaseOf, Event.returnOf] using hfree.2

theorem vacate_building (h : Kept limit s history) {g : Generation} (hg : .built g ∈ history)
    (hstate : s.stateOf g = .building) : s.vacate.stateOf g = .building := by
  rcases hc : s.current with _ | p
  · rw [vacate, hc]
    exact hstate
  · have hne : g ≠ p := fun hx => by
      have hactive := h.state_active hc
      rw [← hx, hstate] at hactive
      cases hactive
    obtain ⟨hseq, -⟩ := h.named_apart (h.current_built p hc) hg hne
    rw [vacate, hc]
    exact (congrArg GenerationAccounting.state (accounting_account_ne s _ hseq)).trans hstate

theorem acquireLease_ok (h : Kept limit s history) {l : Lease} {s' : GenerationStore}
    (hok : s.acquireLease = .ok (l, s')) : ∃ g, s.current = some g ∧
      l = ⟨g, (s.accounting g.sequence).nextLease⟩ ∧
      s' = s.account g (s.accounting g.sequence).acquire.2 := by
  unfold acquireLease at hok
  rcases hc : s.current with _ | g
  · rw [hc] at hok
    cases hok
  · have hactive : ¬ s.stateOf g ≠ .active := not_not.2 (h.state_active hc)
    simp only [hc, hactive, if_false] at hok
    cases hok
    exact ⟨g, rfl, rfl, rfl⟩

theorem releaseLease_ok {l : Lease} {idle : Bool} {s' : GenerationStore}
    (hok : s.releaseLease l = .ok (idle, s')) : ∃ became a,
      (s.accounting l.generation.sequence).release l.leaseId = .ok (became, a) ∧
      idle = (became && s.stateOf l.generation = .draining) ∧ s' = s.account l.generation a := by
  unfold releaseLease at hok
  obtain ⟨⟨became, a⟩, hrel, hok⟩ := bind_ok.1 hok
  cases hok
  exact ⟨became, a, hrel, rfl, rfl⟩

theorem release_less {a a' : GenerationAccounting} {id : Nat} {idle : Bool}
    (hok : a.release id = .ok (idle, a')) : a'.state = a.state ∧ a'.leases ≤ a.leases := by
  unfold GenerationAccounting.release at hok
  split at hok
  · cases hok
    exact ⟨rfl, Nat.sub_le _ _⟩
  · cases hok

theorem Kept.perform (h : Kept limit s history) {op : Operation} (hk : op.Known history) :
    Kept limit (s.perform op).1 (history ++ (s.perform op).2) := by
  cases op with
  | build snapshotFactory instances metadata scopes =>
    rcases hsnap : snapshotFactory (generationId s.counter) with err | snapshot
    · simp only [GenerationStore.perform, GenerationStore.build, hsnap, Except.map, List.append_nil]
      exact h.count
    · simp only [GenerationStore.perform, GenerationStore.build, hsnap, Except.map]
      exact h.build rfl rfl
  | publish g =>
    rcases hp : s.publish g with err | ⟨previous, s'⟩
    · simp only [GenerationStore.perform, hp, List.append_nil]
      exact h
    · obtain ⟨hstate, -, rfl⟩ := publish_ok h hk hp
      simp only [GenerationStore.perform, hp]
      exact h.vacate.activate rfl hk (vacate_building h hk hstate)
  | retire g =>
    rcases hr : s.retire g with err | ⟨changed, s'⟩
    · simp only [GenerationStore.perform, hr, List.append_nil]
      exact h
    · rcases retire_ok h hk hr with ⟨rfl, -, rfl⟩ | ⟨rfl, hactive, hretired, hidle, rfl⟩
      · simp only [GenerationStore.perform, hr, List.append_nil]
        exact h
      · simp only [GenerationStore.perform, hr]
        exact h.withdraw hk hactive hretired hidle
  | acquireLease =>
    rcases ha : s.acquireLease with err | ⟨l, s'⟩
    · simp only [GenerationStore.perform, ha, List.append_nil]
      exact h
    · obtain ⟨g, hc, rfl, rfl⟩ := acquireLease_ok h ha
      simp only [GenerationStore.perform, ha]
      have hg := h.current_built g hc
      refine h.book hg ⟨_, rfl, Or.inl rfl⟩ rfl (h.placed g hg).booked.acquire ?_
      exact fun hx => absurd (h.state_active hc) hx
  | releaseLease l =>
    rcases hr : s.releaseLease l with err | ⟨idle, s'⟩
    · simp only [GenerationStore.perform, hr, List.append_nil]
      exact h
    · obtain ⟨became, a, hrel, -, rfl⟩ := releaseLease_ok hr
      simp only [GenerationStore.perform, hr]
      obtain ⟨hstate, hless⟩ := release_less hrel
      exact h.book hk ⟨l, rfl, Or.inr rfl⟩ hstate ((h.placed _ hk).booked.release hrel)
        fun _ => hless
  | beginShutdown => exact h.beginShutdown

theorem Reach.kept {limit : Nat} {s : GenerationStore} {history : List Event}
    (h : Reach limit s history) : Kept limit s history := by
  induction h with
  | fresh => exact fresh_kept
  | step _ hk ih => exact ih.perform hk

/-! ## coherence -/

/-- what a manager with this history promises -/
structure Coherent (limit : Nat) (s : GenerationStore) (history : List Event) : Prop where
  /-- the objects are told apart by their numbers -/
  apart : ∀ g g', .built g ∈ history → .built g' ∈ history → g.sequence = g'.sequence → g = g'
  /-- every generation counts the leases that were acquired on it and not released -/
  counted : ∀ g, .built g ∈ history → s.leaseCount g = (outstanding history g.sequence).length
  /-- any other release is refused and changes nothing -/
  refused : ∀ l, .built l.generation ∈ history →
    l.leaseId ∉ outstanding history l.generation.sequence →
      (∃ e, s.releaseLease l = .error e ∧ e.kind = .UnknownLeaseError) ∧
      s.perform (.releaseLease l) = (s, [])
  /-- no generation but the current one is active -/
  active : ∀ g, .built g ∈ history → s.stateOf g = .active → s.current = some g
  draining : ∀ id g, s.draining.get? id = some g ↔
    id = g.generationId ∧ .published g ∈ history ∧ .built g ∈ history ∧ s.stateOf g = .draining
  live : ∀ g ∈ s.live, .built g ∈ history ∧ s.stateOf g ≠ .retired
  leased_live : .shutdown ∉ history → ∀ g, .built g ∈ history → s.leaseCount g ≠ 0 → g ∈ s.live
  bounded : s.retired.length ≤ limit
  /-- every retired generation retired once -/
  retired_once : (retirements history).Nodup
  retired_state : ∀ g, g ∈ retirements history ↔ .built g ∈ history ∧ s.stateOf g = .retired
  /-- what the history lost are its oldest generations, and nothing else -/
  retained : s.retired = (retirements history).drop s.evicted
  total : s.retired.length + s.evicted = (retirements history).length

theorem Kept.release_refused (h : Kept limit s history) {l : Lease}
    (hl : .built l.generation ∈ history)
    (hno : l.leaseId ∉ outstanding history l.generation.sequence) :
    (∃ e, s.releaseLease l = .error e ∧ e.kind = .UnknownLeaseError) ∧
      s.perform (.releaseLease l) = (s, []) := by
  have hstarts : l.leaseId ∉ (s.accounting l.generation.sequence).starts := by
    rw [(h.placed _ hl).booked.starts]
    exact hno
  obtain ⟨e, herr, hkind⟩ : ∃ e, s.releaseLease l = .error e ∧ e.kind = .UnknownLeaseError := by
    unfold releaseLease GenerationAccounting.release
    rw [if_neg hstarts]
    exact ⟨_, rfl, rfl⟩
  refine ⟨⟨e, herr, hkind⟩, ?_⟩
  rw [GenerationStore.perform, herr]

theorem Kept.mem_live (h : Kept limit s history) {g : Generation} (hg : .built g ∈ history)
    (hstate : s.stateOf g = .active ∨ s.stateOf g = .draining) : g ∈ s.live := by
  rcases hstate with ha | hd
  · exact List.mem_append_left _ (Option.mem_toList.2 ((h.placed g hg).active.1 ha))
  · exact List.mem_append_right _ (Dict.mem_values.2 ⟨_, (h.placed g hg).draining.1 hd⟩)

theorem Kept.of_live (h : Kept limit s history) {g : Generation} (hg : g ∈ s.live) :
    .built g ∈ history ∧ (s.stateOf g = .active ∨ s.stateOf g = .draining) := by
  rcases List.mem_append.1 hg with hc | hd
  · have hcur := Option.mem_toList.1 hc
    exact ⟨h.current_built g hcur, Or.inl (h.state_active hcur)⟩
  · obtain ⟨id, hget⟩ := Dict.mem_values.1 hd
    obtain ⟨rfl, hin⟩ := h.draining_built id g hget
    exact ⟨hin, Or.inr ((h.placed g hin).draining.2 hget)⟩

theorem Kept.coherent (h : Kept limit s history) : Coherent limit s history := by
  have hevicted := h.evicted
  refine
    { apart := h.apart, counted := ?_, refused := fun l hl hno => h.release_refused hl hno
      active := fun g hg => (h.placed g hg).active.1, draining := ?_, live := ?_
      leased_live := ?_, bounded := h.limited ▸ h.bounded, retired_once := h.once
      retired_state := ?_, retained := h.retained, total := ?_ }
  · intro g hg
    have hbook := (h.placed g hg).booked
    rw [← hbook.starts, ← hbook.leases]
    rfl
  · intro id g
    constructor
    · intro hget
      obtain ⟨rfl, hg⟩ := h.draining_built id g hget
      have hstate := (h.placed g hg).draining.2 hget
      exact ⟨rfl, (h.placed g hg).published (Or.inr hstate), hg, hstate⟩
    · rintro ⟨rfl, -, hg, hstate⟩
      exact (h.placed g hg).draining.1 hstate
  · intro g hg
    obtain ⟨hin, hstate⟩ := h.of_live hg
    refine ⟨hin, ?_⟩
    rcases hstate with hs | hs <;> rw [hs] <;> exact fun hx => (nomatch hx)
  · intro hno g hg hcount
    have hpl := h.placed g hg
    rcases hs : s.stateOf g with _ | _ | _ | _
    · exact absurd (hpl.unpublished hs) hcount
    · exact h.mem_live hg (Or.inl hs)
    · exact h.mem_live hg (Or.inr hs)
    · exact absurd (hpl.idle hno hs) hcount
  · intro g
    rw [mem_retirements]
    constructor
    · exact fun hr => ⟨h.retired_built g hr, (h.placed g (h.retired_built g hr)).retired.2 hr⟩
    · exact fun ⟨hg, hs⟩ => (h.placed g hg).retired.1 hs
  · have hlen := congrArg List.length h.retained
    rw [List.length_drop] at hlen
    omega
end

/-- **Every reachable manager is coherent**, whatever was built, published, retired, leased,
returned or shut down, and whatever of it was refused. -/
theorem manager_coherent {limit : Nat} {s : GenerationStore} {history : List Event}
    (h : Reach limit s history) : Coherent limit s history := h.kept.coherent

/-! ## a run -/

/-- the operations one after the other, each on generations that were built by then -/
def AllKnown : GenerationStore → List Event → List Operation → Prop
  | _, _, [] => True
  | s, history, op :: ops =>
    op.Known history ∧ AllKnown (s.perform op).1 (history ++ (s.perform op).2) ops

def run : GenerationStore → List Event → List Operation → GenerationStore × List Event
  | s, history, [] => (s, history)
  | s, history, op :: ops => run (s.perform op).1 (history ++ (s.perform op).2) ops

theorem Reach.run {limit : Nat} {s : GenerationStore} {history : List Event} {ops : List Operation}
    (h : Reach limit s history) (hk : AllKnown s history ops) :
    Reach limit (run s history ops).1 (run s history ops).2 := by
  induction ops generalizing s history with
  | nil => exact h
  | cons op ops ih => exact ih (h.step hk.1) hk.2

/-- the `n`-th generation, when it is empty -/
def blank (n : Nat) : Generation :=
  { generationId := generationId n, sequence := n, snapshot := ⟨generationId n, []⟩,
    instances := [], metadata := ⟨0, 1, Dict.empty⟩, scopes := ScopeTree.rootOnly }

def buildBlank : Operation :=
  .build (fun id => .ok ⟨id, []⟩) [] ⟨0, 1, Dict.empty⟩ ScopeTree.rootOnly

/-- A generation is replaced while a run holds it, retires when the run ends, and is forgotten
when the next one does. -/
def replacements : List Operation :=
  [buildBlank, .publish (blank 1), .acquireLease, buildBlank, .publish (blank 2),
    .retire (blank 1), .releaseLease ⟨blank 1, 0⟩, .releaseLease ⟨blank 1, 0⟩, .retire (blank 1),
    .beginShutdown, .retire (blank 2)]

def replaced : GenerationStore × List Event := run { historyLimit := 1 } [] replacements

theorem replaced_reach : Reach 1 replaced.1 replaced.2 := by
  refine Reach.fresh.run ?_
  have first : ∀ l, Event.built (blank 1) ∈ Event.built (blank 1) :: l := fun _ =>
    List.mem_cons_self
  have second : ∀ a b c l, Event.built (blank 2) ∈ a :: b :: c :: Event.built (blank 2) :: l :=
    fun _ _ _ _ => List.mem_cons_of_mem _ (List.mem_cons_of_mem _ (List.mem_cons_of_mem _
      List.mem_cons_self))
  exact ⟨trivial, first _, trivial, trivial, second _ _ _ _, first _, first _, first _, first _,
    trivial, second _ _ _ _, trivial⟩

theorem manager_coherent_replaced : Coherent 1 replaced.1 replaced.2 :=
  manager_coherent replaced_reach

example : replaced.1.evicted = 1 := by decide

end GenerationStore
end Chassis
