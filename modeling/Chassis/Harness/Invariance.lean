import Chassis.Harness.System

/-!
# What survives the steps of the control plane

Invariance rules: whatever survives the single effects of hooks, mounting and disposal survives
the programs, wherever they end.

* `Stable R J`         `J` survives what happens at an await, and the recording of failures;
* `Disposable R i J`   it also survives the effects of the disposal of `i`;
* `Mountable R J K L`  `J` before an instance exists, `K` while it loads, `L` from when it is
                       active;
* `Turning R J`        it survives the turns of a pass;
* `Robust R J`, `Reclaimable R J`   it survives everything before, and after, publication;
* `observed_inv`, `disposeInstance_inv`, `mountEntry_inv`, `assemble_inv`, `reclaim_inv`   the rules.
-/

set_option linter.unusedSectionVars false

namespace Chassis
open Py Coop

variable {R : Rules Harness Operation Answer}

structure Stable (R : Rules Harness Operation Answer) (J : Harness → Prop) : Prop where
  holds : ∀ {h}, J h → R.holds h
  interferes : ∀ {h h'}, J h → R.interferes h h' → R.holds h' → J h'
  learn : ∀ {h} secrets, J h → J (h.learn secrets)
  note : ∀ {h} failures, J h → J (h.note failures)

/-! ## hooks -/

section
variable {J : Harness → Prop} (st : Stable R J)
include st

theorem runHandlers_inv (d : Dispatch) (handlers : List HookRegistration)
    (payload : List (String × Value)) (failures : List CleanupFailure) {h : Harness} (hJ : J h) :
    (runHandlers d handlers payload failures).wp R (fun _ _ h' => J h') h := by
  induction handlers generalizing payload failures h with
  | nil => exact hJ
  | cons registration rest ih =>
    rw [runHandlers]
    refine Prog.wp_perform_bind.2
      ⟨st.holds hJ, fun h' hint hh answer _ => Prog.wp_modify_bind.2 ?_⟩
    have hJ' : J (h'.learn answer.secrets) := st.learn _ (st.interferes hJ hint hh)
    rcases judge d registration payload answer.outcome with ⟨payload', new⟩ | _ | e
    · exact ih payload' _ hJ'
    · exact hJ'
    · exact hJ'

theorem dispatch_inv (d : Dispatch) {h : Harness} (hJ : J h) :
    (dispatch d).wp R (fun _ _ h' => J h') h := runHandlers_inv st d _ d.payload [] hJ

theorem observe_inv (d : Dispatch) {h : Harness} (hJ : J h) :
    (observe d).wp R (fun _ _ h' => J h') h := by
  refine Prog.wp_tryCatch.2 (Prog.wp_bind_of (dispatch_inv st d hJ) ?_ ?_)
  · intro tr result h' hJ'
    exact hJ'
  · intro tr e h' hJ'
    show (if e.kind = .HookExecutionError then return [e.recorded ("hook " ++ d.event.value)]
      else .raise e : Task (List CleanupFailure)).wp R _ h'
    split
    · exact hJ'
    · exact hJ'

theorem observed_inv (d : Dispatch) {h : Harness} (hJ : J h) :
    (observed d).wp R (fun _ _ h' => J h') h := by
  refine Prog.wp_bind_of (observe_inv st d hJ) ?_ ?_
  · intro tr failures h' hJ'
    exact st.note failures hJ'
  · intro tr e h' hJ'
    exact hJ'

end

/-! ## disposal -/

variable [Packaging] [Platform]

structure Disposable (R : Rules Harness Operation Answer) (i : PluginInstance)
    (J : Harness → Prop) : Prop extends Stable R J where
  unload : ∀ {h}, J h → J (h.updateInstance i fun x => { x with state := .unloading })
  close : ∀ {h}, J h → J (h.closeScope i)
  forget : ∀ {h}, J h → J { h with plugins := h.plugins.forget i }

section
variable {J : Harness → Prop} {i : PluginInstance} (ds : Disposable R i J)
include ds

theorem closeScope_inv (recorded : List CleanupFailure) {h : Harness} (hJ : J h) :
    (closeScope i recorded).wp R (fun _ _ h' => J h') h := by
  refine ⟨ds.holds hJ, fun h' hint hh answer _ => ?_⟩
  have hJ' : J (h'.closeScope i) := ds.close (ds.interferes hJ hint hh)
  rcases answer with ⟨failures, _ | e⟩
  · exact hJ'
  · exact hJ'

theorem closeAndForget_inv (failed : Bool) (recorded : List CleanupFailure) {h : Harness}
    (hJ : J h) : (closeAndForget i failed recorded).wp R (fun _ _ h' => J h') h := by
  have htry : (Prog.tryCatch (closeScope i recorded) fun e => do
      forget i
      .raise e).wp R (fun _ _ h' => J h') h := by
    refine Prog.wp_tryCatch.2 (Prog.wp_mono (closeScope_inv ds recorded hJ) ?_)
    intro tr r h' hJ'
    cases r with
    | ok failures => exact hJ'
    | error e => exact ds.forget hJ'
  refine Prog.wp_bind_of htry (fun tr failures h' hJ' => ?_) (fun tr e h' hJ' => hJ')
  show (if failures ≠ [] ∧ !failed then .raise (EffectCleanupError i.scopeName failures)
    else return () : Task Unit).wp R _ { h' with plugins := h'.plugins.forget i }
  split
  · exact ds.forget hJ'
  · exact ds.forget hJ'

theorem dispose_inv {h : Harness} (hJ : J h) : (dispose i).wp R (fun _ _ h' => J h') h := by
  rw [dispose]
  refine Prog.wp_gets_bind.2 ?_
  simp only [id_eq]
  cases h.plugins.instances.get? i.instanceId with
  | none => exact hJ
  | some live =>
    show (if 0 < live.generationRefs then _ else _ : Task Unit).wp R _ h
    split
    · exact hJ
    · rcases hs : live.state with _ | _ | _ | _ | _ | _
      · exact closeAndForget_inv ds false [] hJ
      · exact hJ
      · have hJ₁ := ds.unload hJ
        refine ⟨ds.holds hJ₁, fun h' hint hh answer _ => ?_⟩
        exact closeAndForget_inv ds false _ (ds.learn _ (ds.interferes hJ₁ hint hh))
      · exact closeAndForget_inv ds false [] hJ
      · exact closeAndForget_inv ds false [] hJ
      · exact closeAndForget_inv ds true [] hJ

theorem disposeInstance_inv {h : Harness} (hJ : J h) :
    (disposeInstance i).wp R (fun _ _ h' => J h') h := by
  refine Prog.wp_bind_of (observed_inv ds.toStable _ hJ) (fun tr _ h₁ hJ₁ => ?_)
    (fun tr e h' hJ' => hJ')
  have htry : (Prog.tryCatch (dispose i) fun e =>
      Prog.modify fun h => h.note (disposalFailures i e)).wp R (fun _ _ h' => J h') h₁ := by
    refine Prog.wp_tryCatch.2 (Prog.wp_mono (dispose_inv ds hJ₁) ?_)
    intro tr r h' hJ'
    cases r with
    | ok _ => exact hJ'
    | error e => exact ds.note _ hJ'
  refine Prog.wp_bind_of htry (fun tr _ h₂ hJ₂ => ?_) (fun tr e h' hJ' => hJ')
  exact observed_inv ds.toStable _ hJ₂

end

theorem disposeAll_inv {J : Harness → Prop} (hd : ∀ i, Disposable R i J) (l : List PluginInstance)
    {h : Harness} (hJ : J h) : (l.forM disposeInstance).wp R (fun _ _ h' => J h') h := by
  have hloop : (l.forM disposeInstance).wp R (Prog.ends (fun _ => J) J) h := by
    refine Prog.wp_forM_ends (A := fun _ => J) (fun i l h hJ => ?_) hJ
    refine Prog.wp_mono (disposeInstance_inv (hd i) hJ) fun tr r h' hJ' => ?_
    cases r <;> exact hJ'
  refine Prog.wp_mono hloop fun tr r h' hr => ?_
  cases r <;> exact hr

/-! ## mounting -/

structure Mountable (R : Rules Harness Operation Answer) (entry : PluginEntry)
    (J : Harness → Prop) (K L : PluginInstance → Harness → Prop) : Prop extends Stable R J where
  adopt : ∀ {h} plan, J h → K (h.newInstance entry (h.resolutionsFor plan entry.entryId))
    (h.adopt (h.newInstance entry (h.resolutionsFor plan entry.entryId)))
  loading : ∀ i, Stable R (K i)
  setup : ∀ {i h} answer, K i h → K i (h.afterSetup i answer)
  close : ∀ {i h}, K i h → K i (h.closeScope i)
  fail : ∀ {i h}, K i h → K i (h.updateInstance i fun x => { x with state := .failed })
  activate : ∀ {i h} identity, K i h → L { i with state := .active, semanticIdentity := some identity }
    ((h.updateInstance i fun x => { x with state := .active }).updateInstance i
      fun x => { x with semanticIdentity := some identity })
  mounted : ∀ i, Stable R (L i)
  record : ∀ {i h}, L i h →
    L i { h with work := { h.work with mounted := h.work.mounted ++ [i] } }

section
variable {entry : PluginEntry} {J : Harness → Prop} {K L : PluginInstance → Harness → Prop}
  (mt : Mountable R entry J K L)
include mt

theorem rollbackMount_inv {i : PluginInstance} {h : Harness} (hK : K i h) :
    (rollbackMount i).wp R (fun _ _ h' => K i h') h := by
  have hclose : (closeScope i []).wp R (fun _ _ h' => K i h') h := by
    refine ⟨(mt.loading i).holds hK, fun h' hint hh answer _ => ?_⟩
    have hK' := mt.close ((mt.loading i).interferes hK hint hh)
    rcases answer with ⟨failures, _ | e⟩
    · exact hK'
    · exact hK'
  refine Prog.wp_tryCatch.2 (Prog.wp_bind_of hclose ?_ ?_)
  · intro tr failures h' hK'
    exact mt.fail hK'
  · intro tr e h' hK'
    exact mt.fail hK'

theorem runSetup_inv {i : PluginInstance} {h : Harness} (hK : K i (h.adopt i)) :
    (runSetup entry i).wp R (fun _ r h' => match r with
      | .ok i' => i' = { i with state := .active } ∧ ∃ h₁, K i h₁ ∧
          h' = h₁.updateInstance i fun x => { x with state := .active }
      | .error _ => K i h') h := by
  unfold runSetup
  refine Prog.wp_modify_bind.2 (Prog.wp_perform_bind.2
    ⟨(mt.loading i).holds hK, fun h' hint hh answer _ => Prog.wp_modify_bind.2 ?_⟩)
  have hK' := mt.setup answer ((mt.loading i).interferes hK hint hh)
  cases answer.raised with
  | some error =>
    refine Prog.wp_bind_of (rollbackMount_inv mt hK') (fun tr failures h'' hK'' => ?_)
      (fun tr e h'' hK'' => hK'')
    show (if error.kind.isException then _ else _ : Task PluginInstance).wp R _ h''
    split
    · exact hK''
    · exact hK''
  | none => exact ⟨rfl, _, hK', rfl⟩

/-- a mount raises before the instance exists, or leaves it failed, or ends with it active -/
theorem mount_inv (plan : ResolutionPlan) (supersede : Bool) {h : Harness} (hJ : J h) :
    (mount entry (h.resolutionsFor plan entry.entryId) supersede).wp R (fun _ r h' => match r with
      | .ok i' => ∃ i h₁, K i h₁ ∧ i' = { i with state := .active } ∧
          h' = h₁.updateInstance i fun x => { x with state := .active }
      | .error _ => J h' ∨ ∃ i, K i h') h := by
  show (if !supersede && h.isMounted entry then _ else _ : Task PluginInstance).wp R _ h
  split
  · exact Or.inl hJ
  · refine Prog.wp_mono (runSetup_inv mt (mt.adopt plan hJ)) fun tr r h' hr => ?_
    cases r with
    | ok i' =>
      obtain ⟨rfl, h₁, hK, rfl⟩ := hr
      exact ⟨_, h₁, hK, rfl, rfl⟩
    | error e => exact Or.inr ⟨_, hr⟩

theorem mountEntry_inv (plan : ResolutionPlan) (identity : SemanticIdentity)
    (existing : Option PluginInstance) {h : Harness} (hJ : J h) :
    (mountEntry plan entry identity existing).wp R (fun _ r h' => match r with
      | .ok i => L i h'
      | .error _ => J h' ∨ ∃ i, K i h' ∨ L i h') h := by
  refine Prog.wp_bind_of (observed_inv mt.toStable _ hJ) (fun tr _ h₁ hJ₁ => ?_)
    (fun tr e h' hJ' => Or.inl hJ')
  show (mount entry _ _ >>= _ : Task PluginInstance).wp R _ h₁
  refine Prog.wp_bind_of (mount_inv mt plan _ hJ₁) (fun tr' i' h₂ hi => ?_) (fun tr' e h' he => ?_)
  · obtain ⟨i, h₃, hK, rfl, rfl⟩ := hi
    have hL := mt.activate identity hK
    show (observed _ >>= _ : Task PluginInstance).wp R _
      ((h₃.updateInstance i fun x => { x with state := .active }).updateInstance i
        fun x => { x with semanticIdentity := some identity })
    refine Prog.wp_bind_of (observed_inv (mt.mounted _) _ hL) ?_ ?_
    · intro tr'' _ h₄ hL'
      exact mt.record hL'
    · intro tr'' e h' hL'
      exact Or.inr ⟨_, Or.inr hL'⟩
  · rcases he with hJ' | ⟨i, hK⟩
    · exact Or.inl hJ'
    · exact Or.inr ⟨i, Or.inl hK⟩

end

/-! ## whole programs -/

/-- `J` survives the effects of mounting and disposal, and what a pass notes of its turns -/
structure Turning (R : Rules Harness Operation Answer) (J : Harness → Prop) : Prop
    extends Stable R J where
  update : ∀ {h} i f, J h → J (h.updateInstance i f)
  adopt : ∀ {h} i, J h → J (h.adopt i)
  forget : ∀ {h} i, J h → J { h with plugins := h.plugins.forget i }
  setup : ∀ {h} i answer, J h → J (h.afterSetup i answer)
  close : ∀ {h} i, J h → J (h.closeScope i)
  record : ∀ {h} i, J h → J { h with work := { h.work with mounted := h.work.mounted ++ [i] } }
  reused : ∀ {h} l, J h → J { h with work := { h.work with reused := l } }

section
variable {J : Harness → Prop} (tn : Turning R J)
include tn

theorem Turning.disposable (i : PluginInstance) : Disposable R i J where
  toStable := tn.toStable
  unload := tn.update i _
  close := tn.close i
  forget := tn.forget i

theorem Turning.mountable (entry : PluginEntry) :
    Mountable R entry J (fun _ => J) (fun _ => J) where
  toStable := tn.toStable
  adopt := fun _ hJ => tn.adopt _ hJ
  loading := fun _ => tn.toStable
  setup := fun answer hJ => tn.setup _ answer hJ
  close := fun hJ => tn.close _ hJ
  fail := fun hJ => tn.update _ _ hJ
  activate := fun _ hJ => tn.update _ _ (tn.update _ _ hJ)
  mounted := fun _ => tn.toStable
  record := fun hJ => tn.record _ hJ

theorem materializeEntry_inv (plan : ResolutionPlan) (p : Progress) (entryId : String)
    {h : Harness} (hJ : J h) :
    (materializeEntry plan p entryId).wp R (fun _ _ h' => J h') h := by
  have hmount : ∀ entry identity existing h₁, J h₁ → (do
      let i ← mountEntry plan entry identity existing
      return ⟨p.ordered ++ [i], p.identities.set entryId identity⟩ : Task Progress).wp R
      (fun _ _ h' => J h') h₁ := by
    intro entry identity existing h₁ hJ₁
    refine Prog.wp_bind_of (mountEntry_inv (tn.mountable entry) plan identity existing hJ₁) ?_ ?_
    · intro tr i h' hJ'
      exact hJ'
    · rintro tr e h' (hJ' | ⟨i, hJ' | hJ'⟩)
      · exact hJ'
      · exact hJ'
      · exact hJ'
  unfold materializeEntry
  rw [Prog.wp_gets_bind]
  split
  · exact hJ
  · refine Prog.wp_ofExcept_bind (fun identity _ => ?_) fun _ _ => hJ
    split
    · exact tn.reused _ hJ
    · simp only
      split
      · exact Prog.wp_bind_of (disposeInstance_inv (tn.disposable _) hJ)
          (fun _ _ h' hJ' => hmount _ _ _ h' hJ') (fun _ _ _ hJ' => hJ')
      · exact hmount _ _ _ h hJ

end

/-- `J` survives every effect before publication -/
structure Robust (R : Rules Harness Operation Answer) (J : Harness → Prop) : Prop
    extends Stable R J where
  update : ∀ {h} i f, J h → J (h.updateInstance i f)
  adopt : ∀ {h} i, J h → J (h.adopt i)
  forget : ∀ {h} i, J h → J { h with plugins := h.plugins.forget i }
  setup : ∀ {h} i answer, J h → J (h.afterSetup i answer)
  close : ∀ {h} i, J h → J (h.closeScope i)
  mounted : ∀ {h} l, J h → J { h with work := { h.work with mounted := l } }
  reused : ∀ {h} l, J h → J { h with work := { h.work with reused := l } }
  report : ∀ {h} l, J h → J { h with lastFailures := l }

section
variable {J : Harness → Prop} (rb : Robust R J)
include rb

theorem Robust.turning : Turning R J where
  toStable := rb.toStable
  update := rb.update
  adopt := rb.adopt
  forget := rb.forget
  setup := rb.setup
  close := rb.close
  record := fun _ hJ => rb.mounted _ hJ
  reused := rb.reused

theorem materialize_inv (plan : ResolutionPlan) {h : Harness} (hJ : J h) :
    (materialize plan).wp R (fun _ _ h' => J h') h := by
  have hloop : (plan.activationOrder.foldlM (materializeEntry plan) {}).wp R
      (Prog.ends (fun _ => J) J) h := by
    refine Prog.wp_foldlM_ends (A := fun _ => J) (fun p entryId h hJ => ?_) hJ
    refine Prog.wp_mono (materializeEntry_inv rb.turning plan p entryId hJ) fun tr r h' hJ' => ?_
    cases r <;> exact hJ'
  exact Prog.wp_bind_of hloop (fun _ _ _ hJ' => hJ') (fun _ _ _ hJ' => hJ')

/-- A candidate has the scopes of its plan, and reuses the current generation, if any. -/
structure Candidate.Assembled (plan : ResolutionPlan) (c : Candidate) (h : Harness) : Prop where
  planned : c.plan = plan
  tree : ∃ registrations tools,
    buildScopeTree c.instances plan registrations tools = .ok c.scopeTree
  current : ∀ g ∈ c.reuse, g ∈ h.generations.current
  observable : ∀ g ∈ c.reuse, c.scopeTree.sameObservable g.scopes = true

theorem assemble_inv (plan : ResolutionPlan) {h : Harness} (hJ : J h) :
    (assemble plan).wp R (Prog.ends (fun c h' => J h' ∧ c.Assembled plan h') J) h := by
  refine Prog.wp_bind_of (materialize_inv rb plan hJ) (fun _ instances h₁ hJ₁ => ?_)
    (fun _ _ _ hJ₁ => hJ₁)
  refine Prog.wp_ofExcept_bind (s := h₁) (fun _ _ => ?_) (fun _ _ => hJ₁)
  refine Prog.wp_ofExcept_bind (s := h₁) (fun tree htree => ?_) (fun _ _ => hJ₁)
  refine ⟨hJ₁, rfl, ⟨_, _, htree⟩, fun g hg => ?_, fun g hg => ?_⟩
  · exact (Option.filter_eq_some_iff.1 hg).1
  · have hsame := (Option.filter_eq_some_iff.1 hg).2
    unfold sameComposition at hsame
    simp only [Bool.and_eq_true] at hsame
    exact hsame.1.1.2

/-- a rollback ends with the error, or with one of its own -/
theorem rollback_inv (e : Err) {h : Harness} (hJ : J h) :
    (rollback e).wp R (fun _ r h' => (∃ e', r = .error e') ∧ J h') h := by
  show (h.work.mounted.reverse.forM disposeInstance >>= _ : Task Candidate).wp R _ h
  refine Prog.wp_bind_of (P := fun _ _ h' => J h')
    (disposeAll_inv rb.turning.disposable _ hJ) (fun tr _ h' hJ' => ?_)
    (fun tr e' h' hJ' => ⟨⟨e', rfl⟩, hJ'⟩)
  show (if e.kind = .PluginSetupError then _ else _ : Task Candidate).wp R _ h'
  split
  · exact ⟨⟨_, rfl⟩, rb.report _ (rb.note _ hJ')⟩
  · exact ⟨⟨_, rfl⟩, rb.report _ hJ'⟩

end

/-- `J` survives the effects of reclamation -/
structure Clearing (R : Rules Harness Operation Answer) (J : Harness → Prop) : Prop
    extends Stable R J where
  disposable : ∀ i, Disposable R i J
  retire : ∀ {h g m}, h.generations.retire g = .ok m → J h → J { h with generations := m }
  refresh : ∀ {h}, J h → J h.refreshReferences

theorem retireIdle_inv {J : Harness → Prop}
    (hretire : ∀ {h g m}, h.generations.retire g = .ok m → J h → J { h with generations := m })
    {h : Harness} (hJ : J h) : retireIdle.wp R (fun _ _ h' => J h') h := by
  unfold retireIdle
  rw [Prog.wp_gets_bind]
  refine Prog.wp_mono (Prog.wp_forM_ends (A := fun _ => J) (E := J) (fun g l h hJ => ?_) hJ) ?_
  · rw [Prog.wp_gets_bind]
    exact Prog.wp_ofExcept_bind (fun m hm => hretire hm hJ) fun _ _ => hJ
  · intro tr r h' hr
    cases r <;> exact hr

section
variable {J : Harness → Prop} (cl : Clearing R J)
include cl

theorem reclaim_inv {h : Harness} (hJ : J h) : reclaim.wp R (fun _ _ h' => J h') h := by
  refine Prog.wp_bind_of (retireIdle_inv cl.retire hJ) (fun _ _ h₁ hJ₁ => ?_) (fun _ _ _ hJ' => hJ')
  rw [Prog.wp_modify_bind, Prog.wp_gets_bind]
  exact Prog.wp_bind_of (disposeAll_inv cl.disposable _ (cl.refresh hJ₁))
    (fun _ _ _ hJ' => cl.refresh hJ') (fun _ _ _ hJ' => hJ')

end

/-- `J` survives what precedes publication, and reclamation -/
structure Reclaimable (R : Rules Harness Operation Answer) (J : Harness → Prop) : Prop
    extends Robust R J where
  retire : ∀ {h g m}, h.generations.retire g = .ok m → J h → J { h with generations := m }
  refresh : ∀ {h}, J h → J h.refreshReferences

theorem Reclaimable.clearing {J : Harness → Prop} (rc : Reclaimable R J) : Clearing R J where
  toStable := rc.toStable
  disposable := rc.turning.disposable
  retire := rc.retire
  refresh := rc.refresh

/-! ## publication -/

theorem announce_inv {J : Harness → Prop} (st : Stable R J) (g : RuntimeGeneration)
    (previous : Option RuntimeGeneration) {h : Harness} (hJ : J h) :
    (announce g previous).wp R (fun _ _ h' => J h') h := by
  have htail : ∀ h₁, J h₁ → (do
      let h ← Prog.gets id
      Prog.ofExcept (h.recordSnapshot g)
      observed ⟨.generationPublished, publishedPayload g previous⟩ : Task Unit).wp R
      (fun _ _ h' => J h') h₁ := by
    intro h₁ hJ₁
    rw [Prog.wp_gets_bind]
    exact Prog.wp_ofExcept_bind (fun _ _ => observed_inv st _ hJ₁) fun _ _ => hJ₁
  cases previous with
  | none => exact htail h hJ
  | some p =>
    exact Prog.wp_bind_of (observed_inv st _ hJ) (fun _ _ h' hJ' => htail h' hJ')
      (fun _ _ _ hJ' => hJ')

/-! ## the jobs -/

/-- `J` survives everything a job does -/
structure Enduring (R : Rules Harness Operation Answer) (J : Harness → Prop) : Prop
    extends Reclaimable R J where
  work : ∀ {h} w, J h → J { h with work := w }
  publish : ∀ {h} m o, J h → J { h with generations := m, origin := o }
  conclude : ∀ {h} plan failures, J h →
    J { h with plan := plan, dirty := false, lastFailures := failures }

section
variable {J : Harness → Prop} (en : Enduring R J)
include en

theorem stage_inv {h : Harness} (hJ : J h) : stage.wp R (fun _ _ h' => J h') h := by
  refine Prog.wp_bind_of (P := fun _ _ h' => h' = h) ?_ ?_ ?_
  · unfold requireComposable
    rw [Prog.wp_gets_bind]
    split <;> exact rfl
  · rintro tr _ h₁ rfl
    refine Prog.wp_ofExcept_bind (s := h₁) (fun plan _ => ?_) (fun _ _ => hJ)
    refine Prog.wp_ofExcept_bind (s := h₁) (fun _ _ => ?_) (fun _ _ => hJ)
    refine Prog.wp_tryCatch.2 (Prog.wp_mono
      (assemble_inv en.toRobust plan (en.work _ hJ)) fun _ r h₂ hr => ?_)
    cases r with
    | ok c => exact hr.1
    | error e =>
      exact Prog.wp_mono (rollback_inv en.toRobust e hr) fun _ _ _ hr' => hr'.2
  · rintro tr e h₁ rfl
    exact hJ

theorem enact_inv (c : Candidate) {h : Harness} (hJ : J h) :
    (enact c).wp R (fun _ _ h' => J h') h := by
  unfold enact
  cases c.reuse with
  | some g =>
    exact en.publish h.generations h.work.planned
      (en.work { h.work with reused := c.instances.map PluginInstance.entryId } hJ)
  | none =>
    show (publishCandidate c).wp R _ h
    unfold publishCandidate
    rw [Prog.wp_gets_bind]
    refine Prog.wp_ofExcept_bind (fun p _ => ?_) fun _ _ => hJ
    rw [Prog.wp_modify_bind]
    exact Prog.wp_bind_of (announce_inv en.toStable _ _ (en.publish _ _ hJ))
      (fun _ _ _ hJ' => hJ') (fun _ _ _ hJ' => hJ')

theorem reconcile_inv {h : Harness} (hJ : J h) : reconcile.wp R (fun _ _ h' => J h') h := by
  refine Prog.wp_bind_of (stage_inv en hJ) (fun _ c h₁ hJ₁ => ?_) (fun _ _ _ hJ' => hJ')
  refine Prog.wp_bind_of (enact_inv en c hJ₁) (fun _ g h₂ hJ₂ => ?_) (fun _ _ _ hJ' => hJ')
  exact Prog.wp_bind_of (reclaim_inv en.toReclaimable.clearing hJ₂)
    (fun _ _ _ hJ' => en.conclude _ _ hJ') (fun _ _ _ hJ' => hJ')

/-- **What survives every effect survives every job**, whether it succeeds or raises. -/
theorem job_inv (j : Job) {h : Harness} (hJ : J h) : j.program.wp R (fun _ _ h' => J h') h := by
  cases j with
  | reconcile =>
    exact Prog.wp_bind_of (reconcile_inv en hJ) (fun _ _ _ hJ' => hJ') (fun _ _ _ hJ' => hJ')
  | reclaimAfterDrain =>
    show reclaimAfterDrain.wp R _ h
    unfold reclaimAfterDrain
    rw [Prog.wp_gets_bind]
    split
    · exact hJ
    · rw [Prog.wp_modify_bind]
      exact Prog.wp_bind_of (reclaim_inv en.toReclaimable.clearing (en.work _ hJ))
        (fun _ _ _ hJ' => en.report _ hJ') (fun _ _ _ hJ' => hJ')

end

end Chassis
