import Chassis.Capabilities.Plain
import Chassis.Harness.Effects
import Chassis.Harness.Leases

/-!
# The steps after publication

* `Harness.Reclaimed`   nothing is left that a reclamation would retire or dispose;
* `AllOrNothing`        a reconcile that raises leaves the current generation and the pending mark as
                        they were, and one that publishes finishes its work;
* `reclaim_complete`, `commit_publish`   what the steps after the candidate come to, and when they
                        raise;
* `all_or_nothing_iff`  a reconcile is all or nothing iff nothing fails in it once a new generation is
                        current;
* `half_done`           one that is not: the recording of the new generation fails.
-/

set_option linter.unusedSectionVars false

namespace Chassis
open Py Coop

section
variable [Packaging] [Platform]

/-! ## the recording -/

def Harness.records (h : Harness) (g : RuntimeGeneration) : Bool := (h.recordSnapshot g).isOk

theorem snapshotHashes_isOk {h h' : Harness} {g g' : RuntimeGeneration} (ht : h'.tools = h.tools)
    (hg : g'.instances = g.instances) :
    (h'.snapshotHashes g').isOk = (h.snapshotHashes g).isOk := by
  have hconfig : ∀ l : List PluginInstance,
      objectTypeItems? (l.map fun i =>
        (i.entryId, redactConfig h'.redactor (.dict i.config.items))) =
      objectTypeItems? (l.map fun i =>
        (i.entryId, redactConfig h.redactor (.dict i.config.items))) := by
    intro l
    induction l with
    | nil => rfl
    | cons i l ih =>
      simp only [List.map_cons, objectTypeItems?, ih,
        objectType?_redactConfig h'.redactor h.redactor]
  have hok := hconfig g.instances
  have hids : g'.instanceIds = g.instanceIds := by rw [RuntimeGeneration.instanceIds, hg]; rfl
  unfold Harness.snapshotHashes stableHash
  rw [ht, hg, hids]
  simp only [Value.objectType?, hok]
  cases objectTypeItems? (g.instances.map fun i =>
    (i.entryId, redactConfig h.redactor (.dict i.config.items))) with
  | some typeName => rfl
  | none =>
    simp only [bind, Except.bind]
    split
    · rfl
    · split <;> rfl

theorem Harness.records_eq (h : Harness) (g : RuntimeGeneration) :
    h.records g = (!h.replay || (h.snapshotHashes g).isOk) := by
  unfold Harness.records Harness.recordSnapshot
  cases h.replay with
  | false => rfl
  | true => cases h.snapshotHashes g <;> rfl

theorem Observed.records {h h' : Harness} (ho : Observed h h') (g : RuntimeGeneration) :
    h'.records g = h.records g := by
  obtain ⟨r, f, rfl⟩ := ho
  have hhash : ((h.seen r f).snapshotHashes g).isOk = (h.snapshotHashes g).isOk :=
    snapshotHashes_isOk rfl rfl
  rw [Harness.records_eq, Harness.records_eq, hhash]
  rfl

/-- **The announcement** of a generation fails where a handler aborts it, or its recording does. -/
theorem announce_outcome (g : RuntimeGeneration) (previous : Option RuntimeGeneration)
    {h h₀ : Harness} (ho : Observed h₀ h) : (announce g previous).wp .alone (fun tr r h' =>
      Observed h₀ h' ∧ match r with
        | .ok _ => aborts tr = [] ∧ h₀.records g = true
        | .error _ => aborts tr ≠ [] ∨ h₀.records g = false) h := by
  have htail : ∀ h₁, Observed h₀ h₁ → (do
      let h ← Prog.gets id
      Prog.ofExcept (h.recordSnapshot g)
      observed ⟨.generationPublished, publishedPayload g previous⟩ : Task Unit).wp .alone
      (fun tr r h' => Observed h₀ h' ∧ match r with
        | .ok _ => aborts tr = [] ∧ h₀.records g = true
        | .error _ => aborts tr ≠ [] ∨ h₀.records g = false) h₁ := by
    intro h₁ ho₁
    have hrec := ho₁.records g
    rw [Prog.wp_gets_bind]
    refine Prog.wp_ofExcept_bind (fun _ hok => ?_) fun e he => ⟨ho₁, Or.inr ?_⟩
    · refine Prog.wp_mono (observed_effect _ ho₁) ?_
      rintro tr r h₂ ⟨htr, ho₂⟩
      refine ⟨ho₂, ?_⟩
      cases r with
      | ok _ =>
        refine ⟨htr, ?_⟩
        rw [← hrec, Harness.records, show h₁.recordSnapshot g = .ok _ from hok]
        rfl
      | error e =>
        obtain ⟨d, -, htr⟩ := htr
        refine Or.inl ?_
        rw [htr]
        exact List.cons_ne_nil d []
    · rw [← hrec, Harness.records, show h₁.recordSnapshot g = .error e from he]
      rfl
  cases previous with
  | none => exact htail h ho
  | some p =>
    refine Prog.wp_bind_of (observed_effect _ ho) ?_ ?_
    · rintro tr _ h₁ ⟨htr, ho₁⟩
      refine Prog.wp_mono (htail h₁ ho₁) ?_
      rintro tr' r h₂ ⟨ho₂, hr⟩
      refine ⟨ho₂, ?_⟩
      rw [aborts_append_of_nil htr]
      exact hr
    · rintro tr e h₁ ⟨⟨d, -, htr⟩, ho₁⟩
      refine ⟨ho₁, Or.inl ?_⟩
      rw [htr]
      exact List.cons_ne_nil d []

/-! ## reclamation -/

/-- nothing is left that a reclamation would retire or dispose -/
structure Harness.Reclaimed (h : Harness) : Prop where
  retired : ∀ g ∈ h.generations.draining, g.leases ≠ 0
  disposed : h.doomed = []

section
variable {h : Harness}

/-- why an instance is doomed -/
def Harness.Dooms (h : Harness) (i : PluginInstance) : Prop :=
  (i.state = .active ∧ i.instanceId ∉ h.generations.reachableInstanceIds) ∨
    (i.state = .failed ∧ i.entryId ∉ h.plugins.sortedEntries.map PluginEntry.entryId)

theorem mem_doomed {i : PluginInstance} : i ∈ h.doomed ↔
    (∃ k, h.plugins.instances.get? k = some i) ∧ h.Dooms i := by
  unfold Harness.doomed Harness.Dooms
  rw [List.mem_filter, PluginRegistry.sortedInstances, mem_sortedBy, Dict.mem_values]
  simp only [Bool.or_eq_true, Bool.and_eq_true, decide_eq_true_eq]

theorem doomed_disposes (hs : h.Safe) {i : PluginInstance} (hi : i ∈ h.refreshReferences.doomed) :
    Disposes h.refreshReferences i := by
  have hs' := refreshReferences_safe hs
  have hfree := (doomed_free hs').free _ (List.mem_map_of_mem hi)
  obtain ⟨⟨k, hk⟩, hdoom⟩ := mem_doomed.1 hi
  refine ⟨i, ?_, ?_, ?_⟩
  · rw [hs'.keyed k i hk]
    exact hk
  · rw [h.get?_refreshReferences] at hk
    obtain ⟨j, -, rfl⟩ := Option.map_eq_some_iff.1 hk
    show h.references j = 0
    refine List.length_eq_zero_iff.2 (List.filter_eq_nil_iff.2 fun g hg hin => hfree ?_)
    exact GenerationManager.mem_reachable.2 ⟨g, hg, of_decide_eq_true hin⟩
  · rcases hdoom with ⟨hact, -⟩ | ⟨hfail, -⟩
    · rw [hact]
      decide
    · rw [hfail]
      decide

theorem doomed_nodup (hs : h.Safe) : (h.doomed.map PluginInstance.instanceId).Nodup :=
  hs.keyed.nodup.sublist (List.filter_sublist.map _)

theorem doomed_after {h' : Harness} (hs : h.Safe)
    (ho : Observed ((h.teardownOrder h.doomed).foldl Harness.disposed h) h') :
    h'.refreshReferences.doomed = [] := by
  refine List.eq_nil_iff_forall_not_mem.2 fun i hi => ?_
  obtain ⟨r, f, rfl⟩ := ho
  obtain ⟨⟨k, hk⟩, hdoom⟩ := mem_doomed.1 hi
  rw [Harness.get?_refreshReferences] at hk
  obtain ⟨j, hj, rfl⟩ := Option.map_eq_some_iff.1 hk
  replace hj := (disposed_foldl_get? (h.teardownOrder h.doomed) h k).symm.trans hj
  split at hj
  · cases hj
  · rename_i hout
    refine hout ?_
    have hsame : h.Dooms j := by
      unfold Harness.Dooms at hdoom ⊢
      have hgen := disposed_foldl_generations (h.teardownOrder h.doomed) h
      have hent := disposed_foldl_entries (h.teardownOrder h.doomed) h
      have hsort : ∀ r r' : PluginRegistry, r.entries = r'.entries →
          r.sortedEntries = r'.sortedEntries := by
        intro r r' he
        rw [PluginRegistry.sortedEntries, he]
        rfl
      rw [← hgen, ← hsort _ _ hent]
      exact hdoom
    have hdoomed := mem_doomed.2 ⟨⟨k, hj⟩, hsame⟩
    rw [← hs.keyed k j hj]
    exact List.mem_map_of_mem (teardownOrder_complete (doomed_nodup hs) hdoomed)

/-- **Reclamation** is complete unless a handler aborts one of its dispatches. -/
theorem reclaim_complete (hs : h.Safe) : reclaim.wp .alone (fun tr r h' => match r with
    | .ok _ => aborts tr = [] ∧ h'.Reclaimed
    | .error _ => aborts tr ≠ []) h := by
  refine Prog.wp_bind_of (retireIdle_effect hs.accounted) ?_ ?_
  · rintro tr _ h₁ ⟨rfl, -, m, rfl, hacc, hcur, hdrain⟩
    rw [Prog.wp_modify_bind, Prog.wp_gets_bind]
    have hs₁ := hs.retired hacc hcur hdrain
    have hs₂ := refreshReferences_safe hs₁
    generalize hg : ({ h with generations := m } : Harness) = h₁ at hs₁ hs₂
    have hdis : ∀ i ∈ h₁.refreshReferences.teardownOrder h₁.refreshReferences.doomed,
        Disposes h₁.refreshReferences i := fun i hi => doomed_disposes hs₁ (mem_teardownOrder hi)
    refine Prog.wp_bind_of (disposeAll_effect _ (Observed.refl _) hdis
      (teardownOrder_nodup (doomed_nodup hs₂))) ?_ ?_
    · rintro tr _ h₂ ⟨htr, ho⟩
      refine ⟨by rw [List.nil_append, List.append_nil]; exact htr, ?_, doomed_after hs₂ ho⟩
      intro g hg'
      have hdrain' : h₂.generations.draining = m.draining := by
        obtain ⟨r, f, rfl⟩ := ho
        refine (congrArg GenerationManager.draining (disposed_foldl_generations _ _)).trans ?_
        rw [← hg]
        rfl
      have hin : g ∈ m.draining := hdrain' ▸ hg'
      rw [hdrain] at hin
      exact of_decide_eq_true (List.mem_filter.1 hin).2
    · rintro tr e h₂ ⟨done, i, rest, -, ⟨htr, -⟩ | ⟨htr, -⟩⟩
      · rw [List.nil_append, htr]
        exact List.cons_ne_nil _ _
      · rw [List.nil_append, htr]
        exact List.cons_ne_nil _ _
  · rintro tr e h₁ ⟨-, he, -⟩
    cases he

end

/-! ## the steps of a reconcile -/

def Harness.currentId (h : Harness) : Option String :=
  h.generations.current.map RuntimeGeneration.generationId

section
variable {h : Harness}

theorem Harness.records_congr {h' : Harness} {g g' : RuntimeGeneration}
    (hr : h'.replay = h.replay) (ht : h'.tools = h.tools) (hg : g'.instances = g.instances) :
    h'.records g' = h.records g := by
  rw [Harness.records_eq, Harness.records_eq, hr, snapshotHashes_isOk ht hg]

theorem built_new (hs : h.Safe) (c : Candidate) :
    h.currentId ≠ some (h.buildGeneration c).1.generationId := by
  intro he
  obtain ⟨p, hp, hid⟩ := Option.map_eq_some_iff.1 he
  have hlive : p ∈ h.generations.live := GenerationManager.mem_live.2 (Or.inl hp)
  have hlt := hs.accounted.below p hlive
  have hseq := generationId_injective ((hs.accounted.numbered p hlive).symm.trans hid)
  omega

/-- nothing before and after publication changes the current generation, or takes back the mark -/
theorem unpublished_reclaimable (h : Harness) : Reclaimable .alone fun h' =>
    h'.currentId = h.currentId ∧ h'.hasPendingChanges = h.hasPendingChanges where
  holds := fun _ => trivial
  interferes := fun hj he _ => he ▸ hj
  learn := fun _ hj => hj
  note := fun _ hj => hj
  update := fun _ _ hj => hj
  adopt := fun _ hj => hj
  forget := fun _ hj => hj
  setup := by
    intro h' i a hj
    obtain ⟨caps, tools, hooks, n, d, r, -, heq⟩ := h'.afterSetup_eq i a
    rw [heq]
    exact hj
  close := fun _ hj => hj
  mounted := fun _ hj => hj
  reused := fun _ hj => hj
  report := fun _ hj => hj
  retire := by
    intro h' g m hm hj
    refine ⟨?_, hj.2⟩
    rw [← hj.1]
    exact congrArg (Option.map _) (GenerationManager.retire_current hm)
  refresh := fun hj => hj

/-- nothing is published before the candidate is there, and no change is taken for applied -/
theorem stage_publishes_nothing (h : Harness) : stage.wp .alone (fun _ _ h' =>
    h'.currentId = h.currentId ∧ h'.hasPendingChanges = h.hasPendingChanges) h := by
  refine Prog.wp_bind_of (P := fun _ _ h' => h' = h) ?_ ?_ ?_
  · unfold requireComposable
    rw [Prog.wp_gets_bind]
    split <;> exact rfl
  · rintro tr _ h₁ rfl
    refine Prog.wp_ofExcept_bind (s := h₁) (fun plan _ => ?_) (fun _ _ => ⟨rfl, rfl⟩)
    refine Prog.wp_ofExcept_bind (s := h₁) (fun _ _ => ?_) (fun _ _ => ⟨rfl, rfl⟩)
    refine Prog.wp_tryCatch.2 (Prog.wp_mono
      (assemble_inv (unpublished_reclaimable h₁).toRobust plan ⟨rfl, rfl⟩) fun _ r h₂ hr => ?_)
    cases r with
    | ok c => exact hr.1
    | error e =>
      exact Prog.wp_mono (rollback_inv (unpublished_reclaimable h₁).toRobust e hr)
        fun _ _ _ hr' => hr'.2
  · rintro tr e h₁ rfl
    exact ⟨rfl, rfl⟩

/-- **After a generation that stays**: the current generation does not change, and only success
takes back the mark. -/
theorem commit_reuse (c : Candidate) {g : RuntimeGeneration} (hc : c.reuse = some g) :
    (commit c).wp .alone (fun _ r h' => h'.currentId = h.currentId ∧
      ∀ e, r = .error e → h'.hasPendingChanges = h.hasPendingChanges) h := by
  show (enact c >>= conclude c).wp .alone _ h
  unfold enact
  rw [hc]
  show (conclude c g).wp .alone _ _
  refine Prog.wp_bind_of (reclaim_inv (unpublished_reclaimable h).clearing ⟨rfl, rfl⟩) ?_ ?_
  · rintro tr disposed h₁ ⟨hcur, -⟩
    exact ⟨hcur, fun e he => nomatch he⟩
  · rintro tr e h₁ ⟨hcur, hdirty⟩
    exact ⟨hcur, fun _ _ => hdirty⟩

/-- **After a generation that is published**: it is current, and the rest is carried out unless a
handler aborts a dispatch or the recording fails. -/
theorem commit_publish (c : Candidate) (hc : c.reuse = none)
    (hg : Guarded (c.instances.map PluginInstance.instanceId) [] h) :
    (commit c).wp .alone (fun tr r h' => match r with
      | .ok _ => (aborts tr = [] ∧ h.records (h.buildGeneration c).1 = true) ∧ h'.Reclaimed ∧
          h'.hasPendingChanges = false
      | .error _ => (aborts tr ≠ [] ∨ h.records (h.buildGeneration c).1 = false) ∧
          h'.currentId = some (h.buildGeneration c).1.generationId) h := by
  obtain ⟨previous, m, hok, hcur, hsafe⟩ := publish_safe c hg
  have hid : Harness.currentId { h with generations := m, origin := h.work.planned } =
      some (h.buildGeneration c).1.generationId := by
    show m.current.map _ = _
    rw [hcur]
    rfl
  have hrec : Harness.records { h with generations := m, origin := h.work.planned }
      (h.buildGeneration c).1 = h.records (h.buildGeneration c).1 :=
    Harness.records_congr rfl rfl rfl
  show (enact c >>= conclude c).wp .alone _ h
  unfold enact
  rw [hc]
  show (publishCandidate c >>= conclude c).wp .alone _ h
  have hpublish : (publishCandidate c).wp .alone (fun tr r h' =>
      Observed { h with generations := m, origin := h.work.planned } h' ∧ match r with
        | .ok _ => aborts tr = [] ∧ h.records (h.buildGeneration c).1 = true
        | .error _ => aborts tr ≠ [] ∨ h.records (h.buildGeneration c).1 = false) h := by
    unfold publishCandidate
    rw [Prog.wp_gets_bind]
    refine Prog.wp_ofExcept_bind (fun p hp => ?_) fun e he => nomatch hok.symm.trans he
    obtain rfl := Except.ok.inj (hok.symm.trans hp)
    rw [Prog.wp_modify_bind, ← hrec]
    refine Prog.wp_bind_of (announce_outcome _ previous (Observed.refl _)) ?_ ?_
    · rintro tr _ h₁ ⟨ho, htr, hok'⟩
      refine ⟨ho, ?_, hok'⟩
      rw [List.append_nil]
      exact htr
    · rintro tr e h₁ ⟨ho, htr⟩
      exact ⟨ho, htr⟩
  refine Prog.wp_bind_of hpublish ?_ ?_
  · rintro tr g h₁ ⟨ho, htr, hok'⟩
    have hid₁ : h₁.currentId = some (h.buildGeneration c).1.generationId := by
      rw [← hid]
      obtain ⟨r, f, rfl⟩ := ho
      rfl
    have hs₁ := hsafe.of_same ho.sameHoldings
    refine Prog.wp_bind_of (Prog.wp_and (reclaim_complete hs₁)
      (reclaim_inv (unpublished_reclaimable h₁).clearing ⟨rfl, rfl⟩)) ?_ ?_
    · rintro tr' disposed h₂ ⟨⟨htr', hrecl⟩, -⟩
      refine ⟨⟨?_, hok'⟩, ⟨hrecl.retired, hrecl.disposed⟩, rfl⟩
      rw [aborts_append_of_nil htr, aborts_append_of_nil htr']
      rfl
    · rintro tr' e h₂ ⟨htr', hcur', -⟩
      refine ⟨Or.inl ?_, hcur'.trans hid₁⟩
      rw [aborts_append_of_nil htr]
      exact htr'
  · rintro tr e h₁ ⟨ho, htr⟩
    refine ⟨htr, ?_⟩
    rw [← hid]
    obtain ⟨r, f, rfl⟩ := ho
    rfl

end

/-! ## the result -/

/-- A reconcile that raises leaves the current generation and the pending mark as they were; one
that publishes a new generation carries out the reclamation and takes back the mark. -/
structure AllOrNothing (h : Harness) (r : Except Err ReconcileResult) (h' : Harness) : Prop where
  raised : ∀ e, r = .error e →
    h'.currentId = h.currentId ∧ h'.hasPendingChanges = h.hasPendingChanges
  published : h'.currentId ≠ h.currentId → h'.Reclaimed ∧ h'.hasPendingChanges = false

/-- **When a reconcile is all or nothing.**  Of any reachable harness and any run of `reconcile`:
it is, if and only if, in case it has a new generation to publish, none of the handlers called from
then on aborts its dispatch, and the new generation can be recorded. -/
theorem all_or_nothing_iff {h₀ h h' : Harness} {history : List (Event Job Err × HarnessConfig)}
    (hreach : HarnessRun h₀ history ⟨h, none⟩) {tr : Trace Operation Answer}
    {r : Except Err ReconcileResult} (hrun : reconcile.Outcome h tr r h') :
    AllOrNothing h r h' ↔ ∀ tr₁ tr₂ c h₁, tr = tr₁ ++ tr₂ → stage.Outcome h tr₁ (.ok c) h₁ →
      c.reuse = none → aborts tr₂ = [] ∧ h₁.records (h₁.buildGeneration c).1 = true := by
  have hs : h.Safe := hreach.safe
  rcases Prog.outcome_bind hrun with ⟨tr₁, c, h₁, tr₂, rfl, hstage, hcommit⟩ | ⟨e, rfl, hstage⟩
  · have hkeep := Prog.wp_alone (stage_publishes_nothing h) hstage
    have hguard : Guarded (c.instances.map PluginInstance.instanceId) [] h₁ :=
      Prog.wp_outcome (stage_safe hs) hstage
        (fun h => (SameRuntime.refl h).sameHoldings.undisturbed) fun _ _ => trivial
    -- the candidate is the same however the run is cut
    have hcut : (∀ tr₁' tr₂' c' h₁', tr₁ ++ tr₂ = tr₁' ++ tr₂' →
        stage.Outcome h tr₁' (.ok c') h₁' → c'.reuse = none →
        aborts tr₂' = [] ∧ h₁'.records (h₁'.buildGeneration c').1 = true) ↔
        (c.reuse = none → aborts tr₂ = [] ∧ h₁.records (h₁.buildGeneration c).1 = true) := by
      constructor
      · intro hall
        exact hall tr₁ tr₂ c h₁ rfl hstage
      · intro hone tr₁' tr₂' c' h₁' hcut' hstage'
        obtain ⟨rfl, hc, rfl⟩ := hstage.unique hstage' hcut'
        obtain rfl := List.append_cancel_left hcut'
        cases hc
        exact hone
    rw [hcut]
    cases hc : c.reuse with
    | some g =>
      obtain ⟨hcur, hdirty⟩ := Prog.wp_alone (commit_reuse c hc) hcommit
      refine ⟨fun _ hnone => (by cases hnone), fun _ => ⟨fun e he => ?_, fun hne => ?_⟩⟩
      · exact ⟨hcur.trans hkeep.1, (hdirty e he).trans hkeep.2⟩
      · exact absurd (hcur.trans hkeep.1) hne
    | none =>
      have hout := Prog.wp_alone (commit_publish c hc hguard) hcommit
      cases r with
      | ok result =>
        obtain ⟨hgood, hrecl, hclean⟩ := hout
        exact ⟨fun _ _ => hgood, fun _ => ⟨fun e he => (nomatch he), fun _ => ⟨hrecl, hclean⟩⟩⟩
      | error e =>
        obtain ⟨hbad, hcur⟩ := hout
        constructor
        · intro hall
          have hsame := (hall.raised e rfl).1
          rw [hcur, ← hkeep.1] at hsame
          exact absurd hsame.symm (built_new hguard.toSafe c)
        · intro hgood
          obtain ⟨htr, hrec⟩ := hgood rfl
          rcases hbad with hbad | hbad
          · exact absurd htr hbad
          · rw [hrec] at hbad
            cases hbad
  · have hkeep := Prog.wp_alone (stage_publishes_nothing h) hstage
    constructor
    · intro _ tr₁ tr₂ c h₁ hcut hstage'
      rw [← List.append_nil tr] at hcut
      obtain ⟨-, hr, -⟩ := hstage.unique hstage' hcut
      cases hr
    · intro _
      exact ⟨fun _ _ => hkeep, fun hne => absurd hkeep.1 hne⟩

end

section
open scoped Plain

/-- every `setup` registers a tool whose schema is no data -/
def careless : (l : Operation) → Answer l
  | .setup _ => show SetupAnswer from
    { tools := [⟨"search", "searches", .schema (.object "Schema" 0), {}⟩] }
  | l => honest l

/-- a harness with a recording, and one plugin installed -/
def recorded : Harness :=
  (playFrom { replay := true } [.install (plainPlugin "a" [] [] [])]).config.state

theorem recorded_run : HarnessRun { replay := true }
    (playFrom { replay := true } [.install (plainPlugin "a" [] [] [])]).history ⟨recorded, none⟩ :=
  playFrom_run ⟨rfl, rfl, ⟨rfl, rfl, rfl⟩, rfl, ⟨rfl, rfl⟩, rfl⟩ _

theorem all_or_nothing_iff_recorded :
    (reconcile.execute honest recorded).2.1.isOk = true ∧
      (AllOrNothing recorded (reconcile.execute honest recorded).2.1
          (reconcile.execute honest recorded).2.2 ↔
        ∀ tr₁ tr₂ c h₁, (reconcile.execute honest recorded).1 = tr₁ ++ tr₂ →
          stage.Outcome recorded tr₁ (.ok c) h₁ → c.reuse = none →
          aborts tr₂ = [] ∧ h₁.records (h₁.buildGeneration c).1 = true) :=
  ⟨by decide +kernel, all_or_nothing_iff recorded_run (Prog.execute_outcome honest _ _)⟩

/-- The recording of the new generation fails when it is current already: the reconcile raises, and
the change stays pending. -/
theorem half_done : ∃ h₀ history h tr e h', HarnessRun h₀ history ⟨h, none⟩ ∧
    reconcile.Outcome h tr (.error e) h' ∧ e.kind = .ConfigurationError ∧
    h.currentId = none ∧ h'.currentId = some "gen_0001" ∧ h'.hasPendingChanges = true ∧
    ¬ AllOrNothing h (.error e) h' := by
  have hrun := Prog.execute_outcome careless reconcile recorded
  have hkind : (match (reconcile.execute careless recorded).2.1 with
    | .error e => some e.kind
    | .ok _ => none) = some ErrorKind.ConfigurationError := by decide +kernel
  cases hr : (reconcile.execute careless recorded).2.1 with
  | ok result =>
    rw [hr] at hkind
    cases hkind
  | error e =>
    rw [hr] at hkind hrun
    have hbefore : recorded.currentId = none := by decide +kernel
    have hafter : (reconcile.execute careless recorded).2.2.currentId = some "gen_0001" := by
      decide +kernel
    refine ⟨_, _, recorded, _, e, _, recorded_run, hrun, Option.some.inj hkind, hbefore, hafter,
      by decide +kernel, fun hall => ?_⟩
    have hsame := (hall.raised e rfl).1
    rw [hbefore, hafter] at hsame
    cases hsame

end

end Chassis
