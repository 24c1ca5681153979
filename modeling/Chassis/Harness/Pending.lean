import Chassis.Capabilities.Plain
import Chassis.Core.Accounting
import Chassis.Harness.Frame
import Chassis.Harness.Invariance

/-!
# Changes made while a reconcile runs

* `Harness.Applied`      the current generation was planned from the present desired state;
* `DesiredAct.marks`     every operation that changes the desired state marks it as changed;
* `Planned h`            what holds from the planning of a reconcile on, until it publishes;
* `nothing_lost_iff`     a run loses no change iff each reconcile that succeeds in it ends with the
                         desired state it was planned from;
* `change_lost`          a run that loses one: a successful reconcile takes back every mark.
-/

set_option linter.unusedSectionVars false

namespace Chassis
open Py Coop

section
variable [Packaging] [Platform]

/-- the current generation, if there is one, was planned from the present desired state -/
def Harness.Applied (h : Harness) : Prop :=
  h.generations.current.isSome → h.origin = some h.desired

/-- what is not applied is pending -/
def Harness.NothingLost (h : Harness) : Prop := h.hasPendingChanges = false → h.Applied

/-! ## what marks the desired state -/

/-- the desired state is marked, or neither it nor its mark changes -/
def Marks (h h' : Harness) : Prop :=
  h'.dirty = true ∨ (h'.dirty = h.dirty ∧ h'.desired = h.desired)

theorem Harness.uninstall_marks (h : Harness) (entryId : String) :
    Marks h (h.uninstall entryId).2 := by
  cases hg : h.plugins.entries.get? entryId with
  | some e =>
    refine Or.inl ?_
    simp [Harness.uninstall, PluginRegistry.uninstall, hg]
  | none =>
    refine Or.inr ⟨?_, ?_⟩
    · simp [Harness.uninstall, PluginRegistry.uninstall, hg]
    · simp [Harness.uninstall, PluginRegistry.uninstall, Harness.desired,
        Harness.effectivePreferences, Dict.erase_missing hg]

theorem Harness.withProvisions_marks (h : Harness)
    (provisions : Dict CapabilityKey (Option String)) :
    Marks h (h.withProvisions provisions).2 := by
  simp only [Harness.withProvisions]
  split
  · exact Or.inr ⟨rfl, rfl⟩
  · exact Or.inl rfl

/-- **Every change of the desired state is marked.** -/
theorem DesiredAct.marks {h h' : Harness} (ha : DesiredAct h h') : Marks h h' := by
  cases ha with
  | install plugin entryId replace scope hi =>
    obtain ⟨path, -, hi⟩ := bind_ok.1 hi
    obtain ⟨p, -, hi⟩ := bind_ok.1 hi
    cases hi
    exact Or.inl rfl
  | uninstall entryId => exact h.uninstall_marks entryId
  | provide capability version => exact h.withProvisions_marks _
  | withdraw matching =>
    simp only [Harness.withdraw]
    split
    · exact Or.inr ⟨rfl, rfl⟩
    · exact h.withProvisions_marks _
  | preferProvider capability provider consumer scope hp =>
    obtain ⟨key, rfl⟩ := Harness.preferProvider_ok hp
    exact Or.inl rfl
  | addScope parent name capabilities tools metadata hs =>
    obtain ⟨tree, -, hs⟩ := bind_ok.1 hs
    cases hs
    exact Or.inl rfl
  | removeScope path hs =>
    rw [Harness.removeScope] at hs
    split at hs
    · cases hs
    · obtain ⟨path', -, hs⟩ := bind_ok.1 hs
      simp only at hs
      split at hs
      · cases hs
        exact Or.inr ⟨rfl, rfl⟩
      · cases hs
        exact Or.inl rfl
  | changeScope path change => exact Or.inl rfl
  | dropRequirement path capability =>
    simp only [Harness.dropRequirement]
    split
    · exact Or.inl rfl
    · exact Or.inr ⟨rfl, rfl⟩

/-! ## what happens at the awaits -/

/-- What others do meanwhile: they mark what they change, and publish nothing. -/
structure Noted (h h' : Harness) : Prop where
  marks : Marks h h'
  origin : h'.origin = h.origin
  planned : h'.work.planned = h.work.planned
  published : h'.generations.current.isSome = h.generations.current.isSome

theorem Noted.refl (h : Harness) : Noted h h := ⟨Or.inr ⟨rfl, rfl⟩, rfl, rfl, rfl⟩

theorem Noted.trans {h h' h'' : Harness} (a : Noted h h') (b : Noted h' h'') : Noted h h'' where
  marks := by
    rcases b.marks with hb | ⟨hb, hb'⟩
    · exact Or.inl hb
    · rcases a.marks with ha | ⟨ha, ha'⟩
      · exact Or.inl (hb.trans ha)
      · exact Or.inr ⟨hb.trans ha, hb'.trans ha'⟩
  origin := b.origin.trans a.origin
  planned := b.planned.trans a.planned
  published := b.published.trans a.published

def pendingRules : Rules Harness Operation Answer where
  interferes := Noted
  admits := fun _ _ => True
  holds := fun _ => True

theorem Harness.afterSetup_noted (h : Harness) (i : PluginInstance) (a : SetupAnswer) :
    Noted h (h.afterSetup i a) := by
  obtain ⟨caps, tools, hooks, n, d, r, -, heq⟩ := h.afterSetup_eq i a
  rw [heq]
  exact ⟨Or.inr ⟨rfl, rfl⟩, rfl, rfl, rfl⟩

/-- whatever is left unchanged by what others do is left unchanged by all the effects of a
reconcile, publication and the end apart -/
theorem noted_reclaimable {J : Harness → Prop} (hJ : ∀ h h', J h → Noted h h' → J h') :
    Reclaimable pendingRules J where
  holds := fun _ => trivial
  interferes := fun hj hn _ => hJ _ _ hj hn
  learn := fun _ hj => hJ _ _ hj ⟨Or.inr ⟨rfl, rfl⟩, rfl, rfl, rfl⟩
  note := fun _ hj => hJ _ _ hj ⟨Or.inr ⟨rfl, rfl⟩, rfl, rfl, rfl⟩
  update := fun i f hj => hJ _ _ hj ⟨Or.inr ⟨rfl, by
    simp only [Harness.desired, Harness.updateInstance, PluginRegistry.entries_update]
    rfl⟩, rfl, rfl, rfl⟩
  adopt := fun _ hj => hJ _ _ hj ⟨Or.inr ⟨rfl, rfl⟩, rfl, rfl, rfl⟩
  forget := fun _ hj => hJ _ _ hj ⟨Or.inr ⟨rfl, rfl⟩, rfl, rfl, rfl⟩
  setup := fun i a hj => hJ _ _ hj (Harness.afterSetup_noted _ i a)
  close := fun _ hj => hJ _ _ hj ⟨Or.inr ⟨rfl, rfl⟩, rfl, rfl, rfl⟩
  mounted := fun _ hj => hJ _ _ hj ⟨Or.inr ⟨rfl, rfl⟩, rfl, rfl, rfl⟩
  reused := fun _ hj => hJ _ _ hj ⟨Or.inr ⟨rfl, rfl⟩, rfl, rfl, rfl⟩
  report := fun _ hj => hJ _ _ hj ⟨Or.inr ⟨rfl, rfl⟩, rfl, rfl, rfl⟩
  retire := fun hm hj => hJ _ _ hj ⟨Or.inr ⟨rfl, rfl⟩, rfl, rfl, by
    rw [GenerationManager.retire_current hm]⟩
  refresh := fun hj => hJ _ _ hj ⟨Or.inr ⟨rfl, rfl⟩, rfl, rfl, rfl⟩

/-! ## the jobs -/

/-- from the planning on, and before publication -/
def Planned (h : Harness) : Prop :=
  h.dirty = false → h.Applied ∧ h.work.planned = some h.desired

/-- from publication on -/
structure Enacted (h : Harness) : Prop where
  published : h.generations.current.isSome
  origin : h.origin = h.work.planned
  planned : h.dirty = false → h.work.planned = some h.desired

/-- a reconcile succeeded: nothing is pending, whatever happened since it was planned -/
structure Landed (h : Harness) : Prop where
  clean : h.hasPendingChanges = false
  published : h.generations.current.isSome
  origin : h.origin = h.work.planned

section
variable {h h' : Harness}

theorem Harness.NothingLost.noted (hs : h.NothingLost) (n : Noted h h') : h'.NothingLost := by
  intro hclean hpub
  rcases n.marks with hd | ⟨hd, hdes⟩
  · rw [Harness.hasPendingChanges, hd] at hclean
    cases hclean
  · rw [n.published] at hpub
    rw [n.origin, hdes]
    refine hs ?_ hpub
    rw [Harness.hasPendingChanges, ← hd]
    exact hclean

theorem Planned.noted (hs : Planned h) (n : Noted h h') : Planned h' := by
  intro hclean
  rcases n.marks with hd | ⟨hd, hdes⟩
  · rw [hd] at hclean
    cases hclean
  · obtain ⟨happ, hpl⟩ := hs (hd ▸ hclean)
    refine ⟨fun hpub => ?_, ?_⟩
    · rw [n.origin, hdes]
      exact happ (n.published ▸ hpub)
    · rw [n.planned, hdes]
      exact hpl

theorem Enacted.noted (hs : Enacted h) (n : Noted h h') : Enacted h' where
  published := by
    rw [n.published]
    exact hs.published
  origin := by
    rw [n.origin, n.planned]
    exact hs.origin
  planned := by
    intro hclean
    rcases n.marks with hd | ⟨hd, hdes⟩
    · rw [hd] at hclean
      cases hclean
    · rw [n.planned, hdes]
      exact hs.planned (hd ▸ hclean)

theorem Planned.nothingLost (hs : Planned h) : h.NothingLost := fun hclean => (hs hclean).1

theorem Enacted.nothingLost (hs : Enacted h) : h.NothingLost :=
  fun hclean _ => hs.origin.trans (hs.planned hclean)

theorem planned_reclaimable : Reclaimable pendingRules Planned :=
  noted_reclaimable fun _ _ hs n => hs.noted n

theorem enacted_reclaimable : Reclaimable pendingRules Enacted :=
  noted_reclaimable fun _ _ hs n => hs.noted n

theorem nothingLost_reclaimable : Reclaimable pendingRules Harness.NothingLost :=
  noted_reclaimable fun _ _ hs n => hs.noted n

/-- the candidate is planned from the state that is the desired one then -/
theorem stage_pending (hs : h.NothingLost) : stage.wp pendingRules (Prog.ends (fun c h' =>
    Planned h' ∧ ∀ g ∈ c.reuse, g ∈ h'.generations.current) Harness.NothingLost) h := by
  refine Prog.wp_bind_of (P := fun _ _ h' => h' = h) ?_ ?_ ?_
  · unfold requireComposable
    rw [Prog.wp_gets_bind]
    split <;> exact rfl
  · rintro tr _ h₁ rfl
    refine Prog.wp_ofExcept_bind (s := h₁) (fun plan _ => ?_) (fun _ _ => hs)
    refine Prog.wp_ofExcept_bind (s := h₁) (fun _ _ => ?_) (fun _ _ => hs)
    have hplanned : Planned { h₁ with work := { planned := some h₁.desired } } :=
      fun hclean => ⟨hs hclean, rfl⟩
    refine Prog.wp_tryCatch.2 (Prog.wp_mono
      (assemble_inv planned_reclaimable.toRobust plan hplanned) fun _ r h₂ hr => ?_)
    cases r with
    | ok c => exact ⟨hr.1, hr.2.current⟩
    | error e =>
      refine Prog.wp_mono (rollback_inv planned_reclaimable.toRobust e hr) fun _ r' h₃ hr' => ?_
      obtain ⟨⟨e', rfl⟩, hp⟩ := hr'
      exact hp.nothingLost
  · rintro tr e h₁ rfl
    exact hs

theorem enact_pending (c : Candidate) (hs : Planned h)
    (hreuse : ∀ g ∈ c.reuse, g ∈ h.generations.current) :
    (enact c).wp pendingRules (Prog.ends (fun _ => Enacted) Harness.NothingLost) h := by
  unfold enact
  cases hc : c.reuse with
  | some g =>
    refine ⟨?_, rfl, fun hclean => (hs hclean).2⟩
    exact Option.isSome_iff_exists.2 ⟨g, hreuse g hc⟩
  | none =>
    show (publishCandidate c).wp pendingRules _ h
    unfold publishCandidate
    rw [Prog.wp_gets_bind]
    refine Prog.wp_ofExcept_bind (fun p hp => ?_) fun _ _ => hs.nothingLost
    rw [Prog.wp_modify_bind]
    have hen : Enacted { h with generations := p.2, origin := h.work.planned } := by
      refine ⟨?_, rfl, fun hclean => (hs hclean).2⟩
      simp only [Harness.buildGeneration, GenerationManager.publish, GenerationManager.build,
        ne_eq, not_true_eq_false, if_false, Except.ok.injEq] at hp
      rw [← hp]
      rfl
    refine Prog.wp_bind_of (announce_inv enacted_reclaimable.toStable _ _ hen) ?_ ?_
    · intro tr _ h₁ hen₁
      exact hen₁
    · intro tr e h₁ hen₁
      exact hen₁.nothingLost

theorem conclude_pending (c : Candidate) (g : RuntimeGeneration) (hs : Enacted h) :
    (conclude c g).wp pendingRules (Prog.ends (fun _ => Landed) Harness.NothingLost) h := by
  refine Prog.wp_bind_of (reclaim_inv enacted_reclaimable.clearing hs) ?_ ?_
  · intro tr disposed h₁ hen
    exact ⟨rfl, hen.published, hen.origin⟩
  · intro tr e h₁ hen
    exact hen.nothingLost

theorem reconcile_pending (hs : h.NothingLost) : reconcile.wp pendingRules
    (Prog.ends (fun _ => Landed) Harness.NothingLost) h := by
  refine Prog.wp_bind_of (stage_pending hs) (fun _ c h₁ hc => ?_) (fun _ _ _ hs' => hs')
  exact Prog.wp_bind_of (enact_pending c hc.1 hc.2) (fun _ g _ hen => conclude_pending c g hen)
    (fun _ _ _ hs' => hs')

/-- what the end of a job leaves behind -/
def Ended : Job → Except Err Unit → Harness → Prop
  | .reconcile, .ok _ => Landed
  | _, _ => Harness.NothingLost

theorem pending_monitored :
    Monitored pendingRules Acts Job.program Harness.NothingLost Ended := by
  have hacts : ∀ h h', Acts h h' → Noted h h' := by
    intro h h' ha
    cases ha with
    | desired ha =>
      have hs := ha.sameRuntime
      exact ⟨ha.marks, hs.origin, by rw [hs.work], by rw [hs.generations]⟩
    | lease ha =>
      cases ha with
      | acquire ha =>
        obtain ⟨lease, m, hok, rfl⟩ := Harness.acquire_ok ha
        obtain ⟨g, hg, -, rfl⟩ := GenerationManager.acquireLease_ok hok
        exact ⟨Or.inr ⟨rfl, rfl⟩, rfl, rfl, by rw [hg]; rfl⟩
      | release n hr =>
        rcases Harness.release_ok hr with rfl | ⟨lease, _, m, -, hok, rfl⟩
        · exact Noted.refl _
        · exact ⟨Or.inr ⟨rfl, rfl⟩, rfl, rfl, GenerationManager.releaseLease_current hok⟩
    | start =>
      unfold Harness.start
      split
      · exact ⟨Or.inr ⟨rfl, rfl⟩, rfl, rfl, rfl⟩
      · exact Noted.refl h
    | learn secrets => exact ⟨Or.inr ⟨rfl, rfl⟩, rfl, rfl, rfl⟩
  exact
    { refl := Noted.refl
      trans := fun _ _ _ n _ ha => Noted.trans n (hacts _ _ ha)
      admits := fun _ _ _ => trivial
      idle := fun _ _ hs ha => hs.noted (hacts _ _ ha)
      held := fun _ _ _ _ => trivial
      job := by
        intro j h hs
        cases j with
        | reconcile =>
          exact Prog.wp_bind_of (reconcile_pending hs) (fun _ _ _ hl => hl) (fun _ _ _ hl => hl)
        | reclaimAfterDrain =>
          show reclaimAfterDrain.wp pendingRules _ h
          unfold reclaimAfterDrain
          rw [Prog.wp_gets_bind]
          split
          · exact hs
          · rw [Prog.wp_modify_bind]
            have hstarted : Harness.NothingLost { h with work := {} } := hs
            refine Prog.wp_bind_of (reclaim_inv nothingLost_reclaimable.clearing hstarted) ?_ ?_
            · intro tr _ h₁ hs₁
              exact hs₁
            · intro tr e h₁ hs₁
              exact hs₁ }

/-- **When no change is lost.**  In every idle configuration of a run, what is not pending is
applied, if and only if every reconcile that succeeds in the run ends with the desired state that
it was planned from. -/
theorem nothing_lost_iff {h : Harness} {history : List (Event Job Err × HarnessConfig)}
    {c : HarnessConfig} (hrun : HarnessRun h history c) :
    (∀ ev c', (ev, c') ∈ history → c'.running = none → c'.state.hasPendingChanges = false →
        c'.state.Applied) ↔
      ∀ c', (.ended .reconcile (.ok ()), c') ∈ history →
        c'.state.work.planned = some c'.state.desired := by
  have hfresh : h.NothingLost := by
    intro _ hpub
    rw [hrun.1.generations] at hpub
    cases hpub
  constructor
  · intro hall c' hin
    -- nothing is lost where a job ends, so the ends are what the monitor says of them
    have hidle : ∀ j r c', (.ended j r, c') ∈ history → c'.running = none := by
      intro j r c' hin
      obtain ⟨before, c'', -, hstep, -⟩ := hrun.2.mem hin
      exact hstep.ended_idle
    have hland : Landed c'.state := pending_monitored.ended hfresh hrun.2
      (fun j r c' hin _ hclean => hall _ c' hin (hidle j r c' hin) hclean) hin
    have happ := hall _ c' hin (hidle _ _ c' hin) hland.clean hland.published
    rw [← hland.origin]
    exact happ
  · intro hall ev c' hin hidle
    obtain ⟨before, c'', hrun', hstep, hsub⟩ := hrun.2.mem hin
    have hsound := pending_monitored.run hfresh (hrun'.tail hstep) ?_
    · unfold Config.Sound at hsound
      rw [hidle] at hsound
      exact hsound
    · intro j r d hd hend
      cases j with
      | reconcile =>
        cases r with
        | ok u => exact fun _ _ => hend.origin.trans (hall d (hsub hd))
        | error e => exact hend
      | reclaimAfterDrain => exact hend

end

end

section
open scoped Plain

/-- a plugin is installed before the reconcile that mounts it and another one -/
def punctual : HarnessCourse :=
  play [.install (plainPlugin "a" [] [] []), .install (plainPlugin "b" [] [] []),
    .start .reconcile, .resume honest, .resume honest]

theorem nothing_lost_iff_punctual :
    punctual.history.any (fun x => match x.1 with
      | .ended .reconcile (.ok _) => true
      | _ => false) = true ∧
    ∀ ev c', (ev, c') ∈ punctual.history → c'.running = none →
      c'.state.hasPendingChanges = false → c'.state.Applied := by
  refine ⟨by decide +kernel, (nothing_lost_iff (play_run _)).2 fun c' hin => ?_⟩
  have hall : punctual.history.all (fun x => match x.1 with
      | .ended .reconcile (.ok _) => decide (x.2.state.work.planned = some x.2.state.desired)
      | _ => true) = true := by decide +kernel
  exact of_decide_eq_true (List.all_eq_true.1 hall _ hin)

/-- the second plugin is installed while the reconcile waits for the `setup` of the first -/
def overtaken : HarnessCourse :=
  play [.install (plainPlugin "a" [] [] []), .start .reconcile,
    .install (plainPlugin "b" [] [] []), .resume honest]

theorem change_lost : ∃ h history c, HarnessRun h history c ∧ c.running.isNone ∧
    c.state.hasPendingChanges = false ∧ c.state.plugins.entries.keys = ["a", "b"] ∧
    c.state.generations.current.map (fun g => g.instances.map PluginInstance.entryId) =
      some ["a"] ∧ ¬ c.state.Applied := by
  refine ⟨{}, overtaken.history, overtaken.config, play_run _, by decide +kernel,
    by decide +kernel, by decide +kernel, by decide +kernel, fun happ => ?_⟩
  have hpub : overtaken.config.state.generations.current.isSome = true := by decide +kernel
  have hstale : overtaken.config.state.origin ≠ some overtaken.config.state.desired := by
    decide +kernel
  exact hstale (happ hpub)

end

end Chassis
