import Chassis.Harness.Enrolment

/-!
# Every lease belongs to a run in progress

* `Tallied`            what a generation counts is what runs hold of it;
* `ControlRun.tallied` so it is in every configuration;
* `Tallied.total`      the leases of all generations are as many as the runs in progress.
-/

set_option linter.unusedSectionVars false

namespace Chassis
open Py Coop

/-- the ids of the leases that are held of a generation -/
def leasesOf (runs : List GenerationLease) (sequence : Nat) : List Nat :=
  (runs.filter fun l => l.generation.sequence = sequence).map GenerationLease.leaseId

namespace GenerationManager

/-- a live generation counts the leases that are held of it, and no others -/
def Tallied (m : GenerationManager) (runs : List GenerationLease) : Prop :=
  ∀ g ∈ m.live, g.starts.Perm (leasesOf runs g.sequence)

section
variable {m m' : GenerationManager} {runs : List GenerationLease}

theorem leasesOf_concat (l : GenerationLease) (sequence : Nat) :
    leasesOf (runs ++ [l]) sequence = leasesOf runs sequence ++
      if l.generation.sequence = sequence then [l.leaseId] else [] := by
  unfold leasesOf
  rw [List.filter_append, List.map_append]
  by_cases h : l.generation.sequence = sequence
  · have hone : [l].filter (fun l => decide (l.generation.sequence = sequence)) = [l] :=
      List.filter_cons_of_pos (decide_eq_true h)
    rw [if_pos h, hone]
    rfl
  · have hnone : [l].filter (fun l => decide (l.generation.sequence = sequence)) = [] :=
      List.filter_cons_of_neg (by simpa using h)
    rw [if_neg h, hnone]
    rfl

theorem Tallied.acquire (ht : m.Tallied runs) (ha : m.Accounted runs) {l : GenerationLease}
    (h : m.acquireLease = .ok (l, m')) : m'.Tallied (runs ++ [l]) := by
  obtain ⟨g, hg, rfl, rfl⟩ := acquireLease_ok h
  intro g' hg'
  rw [leasesOf_concat]
  rcases mem_live.1 hg' with hc | hd
  · obtain rfl : g.acquire.2 = g' := Option.some.inj hc
    rw [if_pos (show g.sequence = g.acquire.2.sequence from rfl)]
    exact (ht g (mem_live.2 (Or.inl hg))).append_right _
  · have hlive : g' ∈ m.live := mem_live.2 (Or.inr hd)
    have hne : g.sequence ≠ g'.sequence := by
      have hnodup := ha.nodup
      unfold live at hnodup
      rw [hg, Option.toList_some, List.singleton_append, List.map_cons, List.nodup_cons] at hnodup
      exact fun heq => hnodup.1 (List.mem_map.2 ⟨g', hd, heq.symm⟩)
    rw [if_neg hne, List.append_nil]
    exact ht g' hlive

theorem leasesOf_eraseIdx {n : Nat} {l : GenerationLease} (hl : runs[n]? = some l) (sequence : Nat) :
    (leasesOf runs sequence).Perm ((if l.generation.sequence = sequence then [l.leaseId] else []) ++
      leasesOf (runs.eraseIdx n) sequence) := by
  obtain ⟨hn, rfl⟩ := List.getElem?_eq_some_iff.1 hl
  have hperm : runs.Perm (runs[n] :: runs.eraseIdx n) := (List.getElem_cons_eraseIdx_perm hn).symm
  have hmap := (hperm.filter fun l => decide (l.generation.sequence = sequence)).map
    GenerationLease.leaseId
  refine hmap.trans (List.Perm.of_eq ?_)
  by_cases h : runs[n].generation.sequence = sequence
  · have hone := List.filter_cons_of_pos
      (p := fun l : GenerationLease => decide (l.generation.sequence = sequence))
      (l := runs.eraseIdx n) (decide_eq_true h)
    rw [if_pos h, hone]
    rfl
  · have hnone := List.filter_cons_of_neg
      (p := fun l : GenerationLease => decide (l.generation.sequence = sequence))
      (l := runs.eraseIdx n) (by simpa using h)
    rw [if_neg h, hnone]
    rfl

theorem Tallied.release (ht : m.Tallied runs) (ha : m.Accounted runs) {n : Nat}
    {l : GenerationLease} (hl : runs[n]? = some l) {idle : Bool}
    (h : m.releaseLease l = .ok (idle, m')) : m'.Tallied (runs.eraseIdx n) := by
  obtain ⟨g, hg, hs, hok⟩ := releaseLease_ok ha (List.mem_of_getElem? hl)
  rw [hok] at h
  obtain ⟨-, rfl⟩ := Prod.mk.inj (Except.ok.inj h)
  rw [← hs]
  intro g' hg'
  rcases mem_released l.leaseId hg' with rfl | ⟨hold, hne⟩
  · have hleft := leasesOf_eraseIdx hl g.sequence
    rw [if_pos hs.symm] at hleft
    have herase := ((ht g hg).trans hleft).erase l.leaseId
    rw [List.singleton_append, List.erase_cons_head] at herase
    exact herase
  · have hleft := leasesOf_eraseIdx hl g'.sequence
    rw [if_neg fun heq => hne (heq.symm.trans hs.symm), List.nil_append] at hleft
    exact (ht g' hold).trans hleft

theorem Tallied.retire (ht : m.Tallied runs) {g : RuntimeGeneration} (h : m.retire g = .ok m') :
    m'.Tallied runs := by
  have hlive : ∀ g' ∈ m'.live, g' ∈ m.live := by
    intro g' hg'
    rcases mem_live.1 hg' with hc | hd
    · rw [retire_current h] at hc
      exact mem_live.2 (Or.inl hc)
    · unfold GenerationManager.retire at h
      split at h
      · cases h
        exact mem_live.2 (Or.inr hd)
      · cases h
      · split at h
        · cases h
        · cases h
          exact mem_live.2 (Or.inr (List.mem_filter.1 hd).1)
  exact fun g' hg' => ht g' (hlive g' hg')

theorem Accounted.leasesOf_eq_nil (ha : m.Accounted runs) {sequence : Nat} (h : m.counter ≤ sequence) :
    leasesOf runs sequence = [] := by
  unfold leasesOf
  rw [List.map_eq_nil_iff, List.filter_eq_nil_iff]
  intro l hl hseq
  obtain ⟨g, hg, hs, -⟩ := ha.held l hl
  have hbelow := ha.below g hg
  have heq : l.generation.sequence = sequence := of_decide_eq_true hseq
  omega

theorem Tallied.publish (ht : m.Tallied runs) (ha : m.Accounted runs)
    (snapshotFactory : String → CapabilitySnapshot) (instances : List PluginInstance)
    (metadata : GenerationMetadata) (scopes : ScopeTree) {previous : Option RuntimeGeneration}
    (h : (m.build snapshotFactory instances metadata scopes).2.publish
      (m.build snapshotFactory instances metadata scopes).1 = .ok (previous, m')) :
    m'.Tallied runs := by
  obtain ⟨previous', m'', hok, -, hcurrent, hprevious, hdraining⟩ :=
    publish_accounted ha snapshotFactory instances metadata scopes
  obtain ⟨rfl, rfl⟩ := Prod.mk.inj (Except.ok.inj (hok.symm.trans h))
  intro g hg
  rcases mem_live.1 hg with hc | hd
  · rw [hcurrent] at hc
    obtain rfl := Option.some.inj hc
    show List.Perm [] (leasesOf runs m.counter)
    rw [ha.leasesOf_eq_nil (le_refl _)]
  · rw [hdraining, hprevious] at hd
    rcases List.mem_append.1 hd with hold | hnew
    · exact ht g (mem_live.2 (Or.inr hold))
    · obtain ⟨p, hp, rfl⟩ := Option.map_eq_some_iff.1 (Option.mem_toList.1 hnew)
      exact ht p (mem_live.2 (Or.inl hp))

end

/-! ## what follows -/

section
variable {m : GenerationManager} {runs : List GenerationLease}

theorem Tallied.leases (ht : m.Tallied runs) (ha : m.Accounted runs) {g : RuntimeGeneration}
    (hg : g ∈ m.live) :
    g.leases = (runs.filter fun l => l.generation.sequence = g.sequence).length := by
  rw [ha.counted g hg, (ht g hg).length_eq]
  exact List.length_map ..

theorem sum_count (keys : List Nat) (hkeys : keys.Nodup) (l : List Nat) (hl : ∀ k ∈ l, k ∈ keys) :
    (keys.map fun k => l.count k).sum = l.length := by
  induction l with
  | nil => simp
  | cons a l ih =>
    have hsplit : ∀ k, (a :: l).count k = l.count k + if a = k then 1 else 0 := by
      intro k
      rw [List.count_cons]
      simp
    have hone : ∀ keys : List Nat, (keys.map fun k => if a = k then 1 else 0).sum = keys.count a := by
      intro keys
      induction keys with
      | nil => rfl
      | cons k keys ih =>
        rw [List.map_cons, List.sum_cons, ih, List.count_cons]
        by_cases hk : a = k
        · simp [hk]
          omega
        · simp [hk, Ne.symm hk]
    rw [List.map_congr_left fun k _ => hsplit k, List.sum_map_add, hone,
      ih fun b hb => hl b (List.mem_cons_of_mem _ hb),
      List.count_eq_one_of_mem hkeys (hl a List.mem_cons_self), List.length_cons]

/-- **The leases of all generations are the runs in progress.** -/
theorem Tallied.total (ht : m.Tallied runs) (ha : m.Accounted runs) :
    (m.live.map RuntimeGeneration.leases).sum = runs.length := by
  have hcount : m.live.map RuntimeGeneration.leases =
      (m.live.map RuntimeGeneration.sequence).map fun k =>
        (runs.map fun l => l.generation.sequence).count k := by
    rw [List.map_map]
    refine List.map_congr_left fun g hg => ?_
    rw [ht.leases ha hg, Function.comp_apply, List.count_eq_countP, List.countP_map,
      List.countP_eq_length_filter]
    rfl
  rw [hcount, sum_count _ ha.nodup, List.length_map]
  intro k hk
  obtain ⟨l, hl, rfl⟩ := List.mem_map.1 hk
  obtain ⟨g, hg, hs, -⟩ := ha.held l hl
  exact hs ▸ List.mem_map_of_mem hg

end
end GenerationManager

/-! ## in every run -/

section
variable [Packaging] [Platform] {h h' : Harness}

def Harness.Tallied (h : Harness) : Prop := h.generations.Tallied h.runs

theorem Acts.tallied (ha : Acts h h') (hs : h.Safe) (ht : h.Tallied) : h'.Tallied := by
  cases ha with
  | desired ha =>
    have hsame := ha.sameRuntime
    unfold Harness.Tallied
    rw [hsame.generations, hsame.runs]
    exact ht
  | lease ha =>
    cases ha with
    | acquire ha =>
      obtain ⟨lease, m, hok, rfl⟩ := Harness.acquire_ok ha
      exact GenerationManager.Tallied.acquire ht hs.accounted hok
    | release n hr =>
      rcases Harness.release_ok hr with rfl | ⟨lease, idle, m, hl, hok, rfl⟩
      · exact ht
      · exact GenerationManager.Tallied.release ht hs.accounted hl hok
  | start =>
    unfold Harness.start
    split
    · exact ht
    · exact ht
  | learn secrets => exact ht

theorem ControlAct.tallied (ha : ControlAct h h') (hs : h.Safe) (ht : h.Tallied) : h'.Tallied := by
  rcases ha.sameRuntime with ha | ha
  · exact ha.tallied hs ht
  · unfold Harness.Tallied
    rw [ha.generations, ha.runs]
    exact ht

theorem tallied_extra : Extra (fun _ => True) Harness.Tallied where
  aside := fun _ _ _ _ _ _ ht => ht
  fresh := fun _ _ _ => trivial
  renamed := fun _ _ => trivial
  known := fun _ _ => trivial
  update := fun _ _ _ ht => ht
  adopt := fun _ _ _ ht => ht
  forget := fun _ ht => ht
  refresh := fun ht => ht
  retire := fun hr ht => GenerationManager.Tallied.retire ht hr
  setup := fun {h} i answer _ _ _ ht => by
    have hsame := h.afterSetup_sameHoldings i answer
    unfold Harness.Tallied
    rw [hsame.generations, hsame.runs]
    exact ht
  close := fun _ _ _ _ ht => ht

theorem tallied_publishing : Publishing Harness.Tallied := fun g hok =>
  GenerationManager.Tallied.publish g.2 g.1.accounted _ _ _ _ hok

/-- **In every configuration** the generations count the runs that are in progress. -/
theorem ControlRun.tallied {h₀ : Harness} {history : List (Event Job Err × HarnessConfig)}
    {c : HarnessConfig} (hrun : ControlRun h₀ history c) : c.state.Tallied := by
  have hstart : h₀.Tallied := by
    intro g hg
    rw [hrun.1.toFresh.generations] at hg
    cases hg
  exact (upheld_run tallied_extra tallied_publishing (fun _ _ ha hu =>
    ⟨⟨(ha.safe hu.1).1, ha.tallied hu.1 hu.2⟩, (ha.safe hu.1).2⟩)
    ⟨hrun.1.toFresh.safe, hstart⟩ hrun.2).2

end

end Chassis
