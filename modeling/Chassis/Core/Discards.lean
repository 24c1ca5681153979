import Chassis.Core.GenerationHistory

/-!
# Candidates that are discarded

`discard` drops a candidate that will never be published.  Only the active generation is protected
from it, so it can also hit one that was published and drains.

* `discard`           the operation of the source;
* `Managed ok`        the runs of a manager whose discards all meet `ok`;
* `overlay`           a manager some of whose candidates were discarded;
* `discards_spare_iff`   **what a discard leaves alone.**

A discarded candidate is refused by every later operation, so a run that discards candidates only
is a run without discards, seen through `overlay`.
-/

namespace Chassis
open Py

namespace GenerationStore
variable (s : GenerationStore)

def discard (g : Generation) : Except Err (Bool × GenerationStore) :=
  if s.stateOf g = .active then
    .error (GenerationConflictError "cannot discard the active generation"
      [("generation_id", g.generationId)])
  else .ok (true, s.setState g .retired)

def afterDiscard (g : Generation) : GenerationStore :=
  match s.discard g with
  | .ok (_, s') => s'
  | .error _ => s

/-- what becomes of a fresh manager whose discards all meet `ok` -/
inductive Managed (ok : GenerationStore → List Event → Generation → Prop) (limit : Nat) :
    GenerationStore → List Event → Prop
  | fresh : Managed ok limit { historyLimit := limit } []
  | step {s : GenerationStore} {history : List Event} {op : Operation} :
      Managed ok limit s history → op.Known history →
      Managed ok limit (s.perform op).1 (history ++ (s.perform op).2)
  | discard {s : GenerationStore} {history : List Event} {g : Generation} :
      Managed ok limit s history → .built g ∈ history → ok s history g →
      Managed ok limit (s.afterDiscard g) history

/-- no generation that drains has retired -/
def Drained (s : GenerationStore) : Prop := ∀ d ∈ s.draining.values, s.stateOf d ≠ .retired

/-- a discard of `g` that succeeds is one of a candidate, and nothing else notices -/
structure Spares (s : GenerationStore) (history : List Event) (g : Generation) : Prop where
  unpublished : ∀ changed s', s.discard g = .ok (changed, s') → .published g ∉ history
  states : ∀ changed s', s.discard g = .ok (changed, s') →
    ∀ p, .published p ∈ history → s'.stateOf p = s.stateOf p
  leased : ∀ changed s', s.discard g = .ok (changed, s') →
    ∀ p, .built p ∈ history → 0 < s.leaseCount p → s'.stateOf p = s.stateOf p
  draining : ∀ changed s', s.discard g = .ok (changed, s') → s'.draining = s.draining
  retired : ∀ changed s', s.discard g = .ok (changed, s') → s'.retired = s.retired
  drained : ∀ changed s', s.discard g = .ok (changed, s') → Drained s'

/-! ## a manager with discarded candidates -/

/-- the generations with these numbers were discarded -/
def overlay (D : List Nat) : GenerationStore :=
  { s with accounting := fun n =>
      if n ∈ D then { s.accounting n with state := .retired } else s.accounting n }

section
variable {s} {D : List Nat}

theorem overlay_accounting {n : Nat} (hn : n ∉ D) :
    (s.overlay D).accounting n = s.accounting n := if_neg hn

theorem overlay_stateOf {g : Generation} (hg : g.sequence ∉ D) :
    (s.overlay D).stateOf g = s.stateOf g :=
  congrArg GenerationAccounting.state (overlay_accounting hg)

theorem overlay_retired {g : Generation} (hg : g.sequence ∈ D) :
    (s.overlay D).stateOf g = .retired := by
  show (if g.sequence ∈ D then _ else s.accounting g.sequence).state = _
  rw [if_pos hg]

theorem overlay_leaseCount (g : Generation) : (s.overlay D).leaseCount g = s.leaseCount g := by
  show (if g.sequence ∈ D then _ else s.accounting g.sequence).leases = _
  split <;> rfl

theorem overlay_account {g : Generation} (hg : g.sequence ∉ D) (a : GenerationAccounting) :
    (s.overlay D).account g a = (s.account g a).overlay D := by
  unfold account overlay
  congr 1
  funext n
  by_cases hn : n = g.sequence
  · subst hn
    simp [hg]
  · simp [Function.update_of_ne hn]

theorem overlay_setState {g : Generation} (hg : g.sequence ∉ D) (state : GenerationState) :
    (s.overlay D).setState g state = (s.setState g state).overlay D := by
  unfold setState
  rw [overlay_accounting hg]
  exact overlay_account hg _

theorem overlay_drain {g : Generation} (hg : g.sequence ∉ D) :
    (s.overlay D).drain g = (s.drain g).overlay D := by
  unfold drain
  rw [overlay_setState hg]
  rfl

theorem overlay_cons (g : Generation) :
    (s.overlay D).setState g .retired = s.overlay (g.sequence :: D) := by
  unfold setState account overlay
  congr 1
  funext n
  by_cases hn : n = g.sequence
  · subst hn
    by_cases hD : g.sequence ∈ D <;> simp [hD]
  · simp [hn]

end

/-! ### its operations -/

section
variable {s : GenerationStore} {D : List Nat}

theorem overlay_elim (o : Option Generation) (ho : ∀ p, o = some p → p.sequence ∉ D) :
    o.elim (s.overlay D) (s.overlay D).drain = (o.elim s s.drain).overlay D := by
  cases o with
  | none => rfl
  | some p => exact overlay_drain (ho p rfl)

theorem overlay_publish {g : Generation} (hg : g.sequence ∉ D)
    (hc : ∀ p, s.current = some p → p.sequence ∉ D) :
    (s.overlay D).publish g = (s.publish g).map fun r => (r.1, r.2.overlay D) := by
  unfold publish
  rw [overlay_stateOf hg]
  split
  · rfl
  · have hdrain := overlay_elim (s := s) (D := D)
      (s.current.filter fun p => decide (p.sequence ≠ g.sequence))
      fun p hp => hc p (Option.filter_eq_some_iff.1 hp).1
    show Except.ok (s.current, ({ GenerationStore.setState _ g .active with
      current := some g } : GenerationStore)) = _
    rw [show Option.elim ((s.overlay D).current.filter fun p => decide (p.sequence ≠ g.sequence))
      (s.overlay D) (s.overlay D).drain = _ from hdrain, overlay_setState hg]
    rfl

theorem overlay_retire {g : Generation} (hg : g.sequence ∉ D) :
    (s.overlay D).retire g = (s.retire g).map fun r => (r.1, r.2.overlay D) := by
  unfold retire
  rw [overlay_stateOf hg, overlay_leaseCount, overlay_setState hg]
  split
  · rfl
  · rfl
  · show (if 0 < s.leaseCount g ∧ s.shuttingDown = false then _ else _) = _
    split <;> rfl

theorem overlay_acquireLease (hc : ∀ p, s.current = some p → p.sequence ∉ D) :
    (s.overlay D).acquireLease = s.acquireLease.map fun r => (r.1, r.2.overlay D) := by
  unfold acquireLease
  rw [show (s.overlay D).current = s.current from rfl]
  rcases hp : s.current with _ | p
  · rfl
  · simp only [overlay_stateOf (hc p hp), overlay_accounting (hc p hp), overlay_account (hc p hp)]
    split <;> rfl

theorem overlay_releaseLease {l : Lease} (hl : l.generation.sequence ∉ D) :
    (s.overlay D).releaseLease l = (s.releaseLease l).map fun r => (r.1, r.2.overlay D) := by
  unfold releaseLease
  rw [overlay_accounting hl, overlay_stateOf hl]
  rcases (s.accounting l.generation.sequence).release l.leaseId with err | ⟨became, a⟩
  · rfl
  · show Except.ok (_, (s.overlay D).account l.generation a) = _
    rw [overlay_account hl]
    rfl

theorem overlay_beginShutdown (hc : ∀ p, s.current = some p → p.sequence ∉ D) :
    (s.overlay D).beginShutdown.2 = s.beginShutdown.2.overlay D := by
  show { s.current.elim (s.overlay D) (s.overlay D).drain with
    shuttingDown := true, current := none } = _
  rw [overlay_elim s.current hc]
  rfl

/-- an operation is about none of the generations with these numbers -/
def Operation.Avoids (D : List Nat) : Operation → Prop
  | .publish g => g.sequence ∉ D
  | .retire g => g.sequence ∉ D
  | .releaseLease l => l.generation.sequence ∉ D
  | _ => True

/-- what is about no discarded candidate does what it would do without the discards -/
theorem overlay_perform {op : Operation} (hop : op.Avoids D)
    (hc : ∀ p, s.current = some p → p.sequence ∉ D) :
    (s.overlay D).perform op = ((s.perform op).1.overlay D, (s.perform op).2) := by
  cases op with
  | build snapshotFactory instances metadata scopes =>
    rcases hsnap : snapshotFactory (generationId s.counter) with err | snapshot
    · have hsnap' : snapshotFactory (generationId (s.overlay D).counter) = .error err := hsnap
      simp only [GenerationStore.perform, GenerationStore.build, hsnap, hsnap', Except.map]
      rfl
    · have hsnap' : snapshotFactory (generationId (s.overlay D).counter) = .ok snapshot := hsnap
      simp only [GenerationStore.perform, GenerationStore.build, hsnap, hsnap', Except.map]
      rfl
  | publish g =>
    simp only [GenerationStore.perform, overlay_publish hop hc]
    rcases s.publish g <;> rfl
  | retire g =>
    simp only [GenerationStore.perform, overlay_retire hop]
    rcases s.retire g with err | ⟨_ | _, s'⟩ <;> rfl
  | acquireLease =>
    simp only [GenerationStore.perform, overlay_acquireLease hc]
    rcases s.acquireLease <;> rfl
  | releaseLease l =>
    simp only [GenerationStore.perform, overlay_releaseLease hop]
    rcases s.releaseLease l <;> rfl
  | beginShutdown => simp only [GenerationStore.perform, overlay_beginShutdown hc]

theorem overlay_refused {op : Operation} (hop : ¬ op.Avoids D)
    (hidle : ∀ n ∈ D, (s.accounting n).starts = []) :
    (s.overlay D).perform op = (s.overlay D, []) := by
  cases op with
  | publish g =>
    have hg : g.sequence ∈ D := not_not.1 hop
    have hrefused : (s.overlay D).stateOf g ≠ .building := by
      rw [overlay_retired hg]
      exact fun h => (nomatch h)
    simp only [GenerationStore.perform, GenerationStore.publish, if_pos hrefused]
  | retire g =>
    have hg : g.sequence ∈ D := not_not.1 hop
    simp only [GenerationStore.perform, GenerationStore.retire, overlay_retired hg]
  | releaseLease l =>
    have hl : l.generation.sequence ∈ D := not_not.1 hop
    have hstarts : ((s.overlay D).accounting l.generation.sequence).starts = [] := by
      show (if l.generation.sequence ∈ D then _ else s.accounting _).starts = _
      rw [if_pos hl]
      exact hidle _ hl
    simp only [GenerationStore.perform, GenerationStore.releaseLease,
      GenerationAccounting.release, hstarts, if_neg List.not_mem_nil]
    rfl
  | build => exact absurd trivial hop
  | acquireLease => exact absurd trivial hop
  | beginShutdown => exact absurd trivial hop

end

/-! ## what the states of the generations come to -/

section
variable {limit : Nat} {s : GenerationStore} {history : List Event}

/-- what was published was built, and is no candidate again -/
def Launched (s : GenerationStore) (history : List Event) : Prop :=
  ∀ g, .published g ∈ history → .built g ∈ history ∧ s.stateOf g ≠ .building

theorem account_building {p g : Generation} {a : GenerationAccounting}
    (ha : a.state = .building → s.stateOf p = .building)
    (h : (s.account p a).stateOf g = .building) : s.stateOf g = .building := by
  by_cases hp : g.sequence = p.sequence
  · have hstate : (s.account p a).stateOf g = a.state := by
      unfold stateOf
      rw [hp, accounting_account]
    have hsame : s.stateOf g = s.stateOf p := by
      unfold stateOf
      rw [hp]
    rw [hsame]
    exact ha (hstate ▸ h)
  · unfold stateOf at h ⊢
    rwa [accounting_account_ne s a hp] at h

theorem setState_building {p g : Generation} {state : GenerationState} (hst : state ≠ .building)
    (h : (s.setState p state).stateOf g = .building) : s.stateOf g = .building :=
  account_building (fun hx => absurd hx hst) h

theorem vacate_was_building {g : Generation} (h : s.vacate.stateOf g = .building) :
    s.stateOf g = .building := by
  unfold vacate at h
  rcases hc : s.current with _ | p
  · rw [hc] at h
    exact h
  · rw [hc] at h
    refine setState_building ?_ h
    decide

/-- no operation makes a candidate of a generation -/
theorem perform_was_building (h : Kept limit s history) {op : Operation} (hk : op.Known history)
    {g : Generation} (hg : (s.perform op).1.stateOf g = .building) : s.stateOf g = .building := by
  cases op with
  | build snapshotFactory instances metadata scopes =>
    rcases hsnap : snapshotFactory (generationId s.counter) with err | snapshot
    all_goals
      simp only [GenerationStore.perform, GenerationStore.build, hsnap, Except.map] at hg
      exact hg
  | publish p =>
    rcases hp : s.publish p with err | ⟨previous, s'⟩
    · simp only [GenerationStore.perform, hp] at hg
      exact hg
    · obtain ⟨-, -, rfl⟩ := publish_ok h hk hp
      simp only [GenerationStore.perform, hp] at hg
      exact vacate_was_building (setState_building (by decide) hg)
  | retire p =>
    rcases hr : s.retire p with err | ⟨changed, s'⟩
    · simp only [GenerationStore.perform, hr] at hg
      exact hg
    · rcases retire_ok h hk hr with ⟨rfl, -, rfl⟩ | ⟨rfl, -, -, -, rfl⟩
      · simp only [GenerationStore.perform, hr] at hg
        exact hg
      · simp only [GenerationStore.perform, hr] at hg
        exact setState_building (by decide) hg
  | acquireLease =>
    rcases ha : s.acquireLease with err | ⟨l, s'⟩
    · simp only [GenerationStore.perform, ha] at hg
      exact hg
    · obtain ⟨p, hc, rfl, rfl⟩ := acquireLease_ok h ha
      simp only [GenerationStore.perform, ha] at hg
      refine account_building (fun hx => ?_) hg
      exact hx
  | releaseLease l =>
    rcases hr : s.releaseLease l with err | ⟨idle, s'⟩
    · simp only [GenerationStore.perform, hr] at hg
      exact hg
    · obtain ⟨became, a, hrel, -, rfl⟩ := releaseLease_ok hr
      simp only [GenerationStore.perform, hr] at hg
      refine account_building (fun hx => ?_) hg
      rwa [(release_less hrel).1] at hx
  | beginShutdown => exact vacate_was_building hg

theorem Launched.perform (hl : Launched s history) (h : Kept limit s history) {op : Operation}
    (hk : op.Known history) :
    Launched (s.perform op).1 (history ++ (s.perform op).2) := by
  intro g hg
  rcases List.mem_append.1 hg with hold | hnew
  · obtain ⟨hbuilt, hstate⟩ := hl g hold
    exact ⟨List.mem_append_left _ hbuilt, fun hx => hstate (perform_was_building h hk hx)⟩
  · cases op with
    | publish p =>
      rcases hp : s.publish p with err | ⟨previous, s'⟩
      · simp only [GenerationStore.perform, hp] at hnew
        cases hnew
      · obtain ⟨-, -, rfl⟩ := publish_ok h hk hp
        simp only [GenerationStore.perform, hp] at hnew ⊢
        cases List.mem_singleton.1 hnew
        refine ⟨List.mem_append_left _ hk, ?_⟩
        rw [show (s.vacate.activate g).stateOf g = .active from stateOf_account _ g _]
        exact fun hx => by cases hx
    | build snapshotFactory instances metadata scopes =>
      rcases hsnap : snapshotFactory (generationId s.counter) with err | snapshot
      all_goals simp [GenerationStore.perform, GenerationStore.build, hsnap, Except.map] at hnew
    | retire p =>
      rcases hr : s.retire p with err | ⟨_ | _, s'⟩
      all_goals simp [GenerationStore.perform, hr] at hnew
    | acquireLease =>
      rcases ha : s.acquireLease with err | ⟨l, s'⟩
      all_goals simp [GenerationStore.perform, ha] at hnew
    | releaseLease l =>
      rcases hr : s.releaseLease l with err | ⟨idle, s'⟩
      all_goals simp [GenerationStore.perform, hr] at hnew
    | beginShutdown => simp [GenerationStore.perform] at hnew

theorem stateOf_account_ne {p g : Generation} (a : GenerationAccounting)
    (h : g.sequence ≠ p.sequence) : (s.account p a).stateOf g = s.stateOf g :=
  congrArg GenerationAccounting.state (accounting_account_ne s a h)

theorem perform_building (h : Kept limit s history) {op : Operation} (hk : op.Known history)
    {d : Generation} (hd : .built d ∈ history) (hstate : s.stateOf d = .building)
    (hop : op.Avoids [d.sequence]) : (s.perform op).1.stateOf d = .building := by
  cases op with
  | build snapshotFactory instances metadata scopes =>
    rcases hsnap : snapshotFactory (generationId s.counter) with err | snapshot
    all_goals
      simp only [GenerationStore.perform, GenerationStore.build, hsnap, Except.map]
      exact hstate
  | publish p =>
    have hne : d.sequence ≠ p.sequence := fun hs => hop (List.mem_singleton.2 hs.symm)
    rcases hp : s.publish p with err | ⟨previous, s'⟩
    · simp only [GenerationStore.perform, hp]
      exact hstate
    · obtain ⟨-, -, rfl⟩ := publish_ok h hk hp
      simp only [GenerationStore.perform, hp]
      exact (stateOf_account_ne _ hne).trans (vacate_building h hd hstate)
  | retire p =>
    have hne : d.sequence ≠ p.sequence := fun hs => hop (List.mem_singleton.2 hs.symm)
    rcases hr : s.retire p with err | ⟨changed, s'⟩
    · simp only [GenerationStore.perform, hr]
      exact hstate
    · rcases retire_ok h hk hr with ⟨rfl, -, rfl⟩ | ⟨rfl, -, -, -, rfl⟩
      · simp only [GenerationStore.perform, hr]
        exact hstate
      · simp only [GenerationStore.perform, hr]
        exact (stateOf_account_ne _ hne).trans hstate
  | acquireLease =>
    rcases ha : s.acquireLease with err | ⟨l, s'⟩
    · simp only [GenerationStore.perform, ha]
      exact hstate
    · obtain ⟨p, hc, rfl, rfl⟩ := acquireLease_ok h ha
      have hne : d.sequence ≠ p.sequence := fun hs => by
        have hactive := h.state_active hc
        rw [stateOf, ← hs] at hactive
        cases hstate.symm.trans hactive
      simp only [GenerationStore.perform, ha]
      exact (stateOf_account_ne _ hne).trans hstate
  | releaseLease l =>
    have hne : d.sequence ≠ l.generation.sequence := fun hs => hop (List.mem_singleton.2 hs.symm)
    rcases hr : s.releaseLease l with err | ⟨idle, s'⟩
    · simp only [GenerationStore.perform, hr]
      exact hstate
    · obtain ⟨became, a, -, -, rfl⟩ := releaseLease_ok hr
      simp only [GenerationStore.perform, hr]
      exact (stateOf_account_ne _ hne).trans hstate
  | beginShutdown => exact vacate_building h hd hstate

/-- a candidate, or the active generation, which is protected -/
def Discardable (s : GenerationStore) (history : List Event) (g : Generation) : Prop :=
  .published g ∉ history ∨ s.stateOf g = .active

/-- the manager is one without discards, but for the candidates that were discarded -/
def Overlaid (limit : Nat) (s : GenerationStore) (history : List Event) : Prop :=
  ∃ s₀ D, s = overlay s₀ D ∧ Kept limit s₀ history ∧ Launched s₀ history ∧
    ∀ n ∈ D, ∃ g, .built g ∈ history ∧ g.sequence = n ∧ s₀.stateOf g = .building

theorem setState_self {g : Generation} {state : GenerationState} (h : s.stateOf g = state) :
    s.setState g state = s := by
  have hsame : { s.accounting g.sequence with state := state } = s.accounting g.sequence := by
    rw [← h]
    rfl
  unfold setState account
  rw [hsame, Function.update_eq_self]

/-- the generation with the number of a discarded candidate is that candidate -/
theorem building_of_mem (h : Kept limit s history) {D : List Nat} {g : Generation}
    (hD : ∀ n ∈ D, ∃ g, .built g ∈ history ∧ g.sequence = n ∧ s.stateOf g = .building)
    (hg : .built g ∈ history) (hin : g.sequence ∈ D) : s.stateOf g = .building := by
  obtain ⟨d, hd, hseq, hstate⟩ := hD _ hin
  cases h.apart d g hd hg hseq
  exact hstate

theorem not_mem_of_current (h : Kept limit s history) {D : List Nat}
    (hD : ∀ n ∈ D, ∃ g, .built g ∈ history ∧ g.sequence = n ∧ s.stateOf g = .building)
    {p : Generation} (hc : s.current = some p) : p.sequence ∉ D := fun hin =>
  nomatch (building_of_mem h hD (h.current_built p hc) hin).symm.trans (h.state_active hc)

theorem Overlaid.perform (h : Overlaid limit s history) {op : Operation} (hk : op.Known history) :
    Overlaid limit (s.perform op).1 (history ++ (s.perform op).2) := by
  obtain ⟨s₀, D, rfl, hkept, hlaunched, hD⟩ := h
  by_cases hop : op.Avoids D
  · rw [overlay_perform hop fun p hc => not_mem_of_current hkept hD hc]
    refine ⟨_, D, rfl, hkept.perform hk, hlaunched.perform hkept hk, fun n hn => ?_⟩
    obtain ⟨g, hg, rfl, hstate⟩ := hD n hn
    refine ⟨g, List.mem_append_left _ hg, rfl, perform_building hkept hk hg hstate ?_⟩
    cases op with
    | publish p => exact fun hp => hop (List.mem_singleton.1 hp ▸ hn)
    | retire p => exact fun hp => hop (List.mem_singleton.1 hp ▸ hn)
    | releaseLease l => exact fun hp => hop (List.mem_singleton.1 hp ▸ hn)
    | build => trivial
    | acquireLease => trivial
    | beginShutdown => trivial
  · have hidle : ∀ n ∈ D, (s₀.accounting n).starts = [] := by
      intro n hn
      obtain ⟨g, hg, rfl, hstate⟩ := hD n hn
      have hbook := (hkept.placed g hg).booked
      have hzero : (s₀.accounting g.sequence).leases = 0 := (hkept.placed g hg).unpublished hstate
      rw [hbook.leases] at hzero
      exact List.length_eq_zero_iff.1 hzero
    rw [overlay_refused hop hidle, List.append_nil]
    exact ⟨s₀, D, rfl, hkept, hlaunched, hD⟩

theorem Overlaid.discard (h : Overlaid limit s history) {g : Generation}
    (hg : .built g ∈ history) (hok : Discardable s history g) :
    Overlaid limit (s.afterDiscard g) history := by
  unfold afterDiscard GenerationStore.discard
  by_cases hactive : s.stateOf g = .active
  · rw [if_pos hactive]
    exact h
  rw [if_neg hactive]
  obtain ⟨s₀, D, rfl, hkept, hlaunched, hD⟩ := h
  have hunpublished : .published g ∉ history := hok.resolve_right hactive
  by_cases hin : g.sequence ∈ D
  · refine ⟨s₀, g.sequence :: D, overlay_cons g, hkept, hlaunched, fun n hn => ?_⟩
    rcases List.mem_cons.1 hn with rfl | hn
    · exact hD _ hin
    · exact hD n hn
  rw [overlay_stateOf hin] at hactive
  cases hstate : s₀.stateOf g with
  | building =>
    refine ⟨s₀, g.sequence :: D, overlay_cons g, hkept, hlaunched, fun n hn => ?_⟩
    rcases List.mem_cons.1 hn with rfl | hn
    · exact ⟨g, hg, rfl, hstate⟩
    · exact hD n hn
  | active => exact absurd hstate hactive
  | draining => exact absurd ((hkept.placed g hg).published (Or.inr hstate)) hunpublished
  | retired =>
    show Overlaid limit ((s₀.overlay D).setState g .retired) history
    rw [overlay_setState hin, setState_self hstate]
    exact ⟨s₀, D, rfl, hkept, hlaunched, hD⟩

theorem Managed.overlaid (h : Managed Discardable limit s history) : Overlaid limit s history := by
  induction h with
  | fresh => exact ⟨_, [], rfl, fresh_kept, fun _ hg => (nomatch hg), fun _ hn => (nomatch hn)⟩
  | step _ hk ih => exact ih.perform hk
  | discard _ hg hok ih => exact ih.discard hg hok

theorem Overlaid.drained (h : Overlaid limit s history) : Drained s := by
  obtain ⟨s₀, D, rfl, hkept, -, hD⟩ := h
  intro d hd
  obtain ⟨id, hget⟩ := Dict.mem_values.1 hd
  obtain ⟨rfl, hbuilt⟩ := hkept.draining_built id d hget
  have hstate : s₀.stateOf d = .draining := (hkept.placed d hbuilt).draining.2 hget
  have hout : d.sequence ∉ D := fun hin =>
    nomatch (building_of_mem hkept hD hbuilt hin).symm.trans hstate
  rw [overlay_stateOf hout, hstate]
  decide

theorem discard_ok {g : Generation} {changed : Bool} {s' : GenerationStore}
    (hok : s.discard g = .ok (changed, s')) :
    s.stateOf g ≠ .active ∧ s' = s.setState g .retired := by
  unfold GenerationStore.discard at hok
  split at hok
  · cases hok
  · rename_i hactive
    cases hok
    exact ⟨hactive, rfl⟩

theorem Overlaid.spares (h : Overlaid limit s history) {g : Generation} (hg : .built g ∈ history)
    (hok : Discardable s history g) : Spares s history g := by
  have hdrained := h.drained
  obtain ⟨s₀, D, rfl, hkept, hlaunched, hD⟩ := h
  have hsucceeds : ∀ changed s', (s₀.overlay D).discard g = .ok (changed, s') →
      .published g ∉ history ∧ s' = (s₀.overlay D).setState g .retired := by
    intro changed s' hs
    obtain ⟨hactive, rfl⟩ := discard_ok hs
    exact ⟨hok.resolve_right hactive, rfl⟩
  have hpublished : .published g ∉ history → ∀ p, .published p ∈ history →
      ((s₀.overlay D).setState g .retired).stateOf p = (s₀.overlay D).stateOf p := by
    intro hno p hp
    refine stateOf_account_ne _ fun hs => hno ?_
    rwa [hkept.apart g p hg (hlaunched p hp).1 hs.symm]
  refine { unpublished := fun changed s' hs => (hsucceeds changed s' hs).1, states := ?_,
           leased := ?_, draining := ?_, retired := ?_, drained := ?_ }
  · intro changed s' hs p hp
    obtain ⟨hno, rfl⟩ := hsucceeds changed s' hs
    exact hpublished hno p hp
  · intro changed s' hs p hp hlease
    obtain ⟨hno, rfl⟩ := hsucceeds changed s' hs
    by_cases hseq : p.sequence = g.sequence
    · obtain rfl : p = g := hkept.apart p g hp hg hseq
      rw [overlay_leaseCount] at hlease
      have hbuilding : s₀.stateOf p ≠ .building := fun hx =>
        absurd ((hkept.placed p hp).unpublished hx) (by omega)
      have hout : p.sequence ∉ D := fun hin => hbuilding (building_of_mem hkept hD hp hin)
      have hactive := (discard_ok hs).1
      rw [overlay_stateOf hout] at hactive
      rw [overlay_stateOf hout]
      cases hstate : s₀.stateOf p with
      | building => exact absurd hstate hbuilding
      | active => exact absurd hstate hactive
      | draining => exact absurd ((hkept.placed p hp).published (Or.inr hstate)) hno
      | retired => exact stateOf_account _ p _
    · exact stateOf_account_ne _ hseq
  · intro changed s' hs
    obtain ⟨-, rfl⟩ := hsucceeds changed s' hs
    rfl
  · intro changed s' hs
    obtain ⟨-, rfl⟩ := hsucceeds changed s' hs
    rfl
  · intro changed s' hs d hd
    obtain ⟨hno, rfl⟩ := hsucceeds changed s' hs
    obtain ⟨id, hget⟩ := Dict.mem_values.1 hd
    obtain ⟨rfl, hbuilt⟩ := hkept.draining_built id d hget
    have hlive := (hkept.placed d hbuilt).published
      (Or.inr ((hkept.placed d hbuilt).draining.2 hget))
    rw [hpublished hno d hlive]
    exact hdrained d hd

theorem Spares.discardable {g : Generation} (h : Spares s history g) : Discardable s history g := by
  by_cases hactive : s.stateOf g = .active
  · exact Or.inr hactive
  · refine Or.inl (h.unpublished true (s.setState g .retired) ?_)
    unfold GenerationStore.discard
    rw [if_neg hactive]

end

/-- **A discard leaves the published generations alone exactly when it is one of a candidate, or
is refused**; as long as all discards were, no generation that drains has retired. -/
theorem discards_spare_iff {limit : Nat} {s : GenerationStore} {history : List Event}
    (h : Managed Discardable limit s history) :
    Drained s ∧ ∀ g, .built g ∈ history → (Spares s history g ↔ Discardable s history g) :=
  ⟨h.overlaid.drained, fun _ hg => ⟨Spares.discardable, h.overlaid.spares hg⟩⟩

/-! ## two runs -/

theorem Reach.managed {ok : GenerationStore → List Event → Generation → Prop} {limit : Nat}
    {s : GenerationStore} {history : List Event} (h : Reach limit s history) :
    Managed ok limit s history := by
  induction h with
  | fresh => exact .fresh
  | step _ hk ih => exact ih.step hk

/-- the first generation is held by a run when a second one replaces it -/
def held : GenerationStore × List Event :=
  run { historyLimit := 1 } [] [buildBlank, .publish (blank 1), .acquireLease, buildBlank]

def heldDraining : GenerationStore × List Event :=
  run held.1 held.2 [.publish (blank 2)]

theorem held_reach : Reach 1 held.1 held.2 :=
  Reach.fresh.run ⟨trivial, List.mem_cons_self, trivial, trivial, trivial⟩

theorem mem_held : Event.built (blank 1) ∈ held.2 ∧ Event.built (blank 2) ∈ held.2 :=
  ⟨List.mem_cons_self, List.mem_cons_of_mem _ (List.mem_cons_of_mem _ (List.mem_cons_of_mem _
    List.mem_cons_self))⟩

theorem unpublished_blank : Event.published (blank 2) ∉ held.2 := by
  intro h
  have hseq : Event.published (blank 2) ∈ held.2 → (2 : Nat) ∈ held.2.filterMap fun e =>
      match e with
      | .published g => some g.sequence
      | _ => none := fun hin => List.mem_filterMap.2 ⟨_, hin, rfl⟩
  exact absurd (hseq h) (by decide)

theorem discards_spare_candidate :
    Drained (held.1.afterDiscard (blank 2)) ∧ ∀ g, .built g ∈ held.2 →
      (Spares (held.1.afterDiscard (blank 2)) held.2 g ↔
        Discardable (held.1.afterDiscard (blank 2)) held.2 g) :=
  discards_spare_iff (held_reach.managed.discard mem_held.2 (Or.inl unpublished_blank))

/-- A draining generation that a run holds is discarded: it retires under its lease, and stays in
the draining table. -/
theorem draining_discarded : ¬ ∀ limit s history, Managed (fun _ _ _ => True) limit s history →
    Drained s ∧ ∀ g, .built g ∈ history → Spares s history g := by
  intro h
  have hreach : Reach 1 heldDraining.1 heldDraining.2 := held_reach.run ⟨mem_held.2, trivial⟩
  have hbuilt : Event.built (blank 1) ∈ heldDraining.2 := List.mem_append_left _ mem_held.1
  have hafter := (h 1 _ _ (hreach.managed.discard hbuilt trivial)).1 (blank 1)
    (by exact List.mem_cons_self)
  exact hafter rfl

end GenerationStore
end Chassis
