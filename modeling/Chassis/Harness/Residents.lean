import Chassis.Harness.Commit
import Chassis.Harness.Enrolment

/-!
# No instance is left behind

* `Harmless`            an answer that aborts no dispatch;
* `Harness.Resident due h`   every instance has failed, or is active and reached by a live
                        generation, or is due for disposal, which nothing will refuse;
* `disposeInstance_resident`   a disposal takes its instance off the list;
* `materialize_resident`   what a pass mounts is on the list, until it is published or undone;
* `job_resident`        so at the end of a job the list is empty;
* `UnabortedRun.resident`   **in every run in which no handler aborts a dispatch, whoever does what
                        at its awaits.**
-/

set_option linter.unusedSectionVars false

namespace Chassis
open Py Coop

/-- an answer that aborts no dispatch -/
def Harmless (l : Operation) (answer : Answer l) : Prop := aborted ⟨l, answer⟩ = none

/-- Others leave the instances alone, of the generations they change leases only, and no handler
aborts a dispatch. -/
def quietRules : Rules Harness Operation Answer where
  interferes := Undisturbed
  admits := Harmless
  holds := fun _ => True

/-! ## hooks raise nothing -/

theorem runHandlers_raises (d : Dispatch) (handlers : List HookRegistration)
    (payload : List (String × Value)) (failures : List CleanupFailure) (h : Harness) :
    (runHandlers d handlers payload failures).wp quietRules (fun _ r _ => ∀ e, r = .error e →
      e.kind = .HookExecutionError) h := by
  induction handlers generalizing payload failures h with
  | nil =>
    intro e he
    cases he
  | cons registration rest ih =>
    rw [runHandlers]
    refine Prog.wp_perform_bind.2 ⟨trivial, fun h' _ _ answer ha => Prog.wp_modify_bind.2 ?_⟩
    have hjudge := judge_aborted d registration payload answer
    rcases hv : judge d registration payload answer.outcome with ⟨payload', new⟩ | _ | e
    · exact ih payload' _ _
    · intro e he
      cases he
    · rw [hv] at hjudge
      intro e' he
      cases he
      rcases hjudge with ⟨hk, -⟩ | ⟨-, habort⟩
      · exact hk
      · cases habort.symm.trans (show aborted ⟨_, answer⟩ = none from ha)

/-- **A dispatch that is observed** does not raise. -/
theorem observed_raises (d : Dispatch) (h : Harness) :
    (observed d).wp quietRules (fun _ r _ => r = .ok ()) h := by
  refine Prog.wp_bind_of (P := fun _ r _ => ∃ failures, r = .ok failures) ?_ ?_ ?_
  · refine Prog.wp_tryCatch.2 (Prog.wp_bind_of (runHandlers_raises d _ d.payload [] h) ?_ ?_)
    · intro tr result h' _
      exact ⟨_, rfl⟩
    · intro tr e h' he
      show (if e.kind = .HookExecutionError then return [e.recorded ("hook " ++ d.event.value)]
        else .raise e : Task (List CleanupFailure)).wp quietRules _ h'
      rw [if_pos (he e rfl)]
      exact ⟨_, rfl⟩
  · intro tr failures h' _
    exact rfl
  · rintro tr e h' ⟨failures, he⟩
    cases he

section
variable [Packaging] [Platform]

theorem undisturbed_framed : Framed quietRules Undisturbed where
  free := fun _ => trivial
  refl := Undisturbed.refl
  trans := fun a b => a.trans b
  interferes := fun a => a
  learn := fun h secrets => (h.learn_sameHoldings secrets).undisturbed
  note := fun h failures => (h.note_sameHoldings failures).undisturbed
  instances := fun a => a.instances
  disposed := fun {h h'} i a => by
    refine ⟨?_, a.drawn, a.footprint, a.mounted⟩
    show (h'.plugins.forget i).instances = (h.plugins.forget i).instances
    unfold PluginRegistry.forget
    simp only
    rw [a.instances]

/-! ## residents -/

/-- why an instance is there: it has failed, or is active and reached, or is due for disposal -/
def Harness.Resides (h : Harness) (due : List String) (i : PluginInstance) : Prop :=
  i.state = .failed ∨ (i.state = .active ∧
    (i.instanceId ∈ h.generations.reachableInstanceIds ∨
      (i.instanceId ∈ due ∧ i.generationRefs = 0)))

def Harness.Resident (due : List String) (h : Harness) : Prop :=
  ∀ k i, h.plugins.instances.get? k = some i → k = i.instanceId ∧ h.Resides due i

section
variable {h h' : Harness} {due due' : List String}

theorem Harness.Resides.mono {i : PluginInstance} (hr : h.Resides due i)
    (hdue : ∀ id ∈ due, id ∈ due') : h.Resides due' i :=
  hr.imp_right fun ha => ⟨ha.1, ha.2.imp_right fun hd => ⟨hdue _ hd.1, hd.2⟩⟩

theorem Harness.Resident.mono (hr : h.Resident due) (hdue : ∀ id ∈ due, id ∈ due') :
    h.Resident due' := fun k i hi => ⟨(hr k i hi).1, (hr k i hi).2.mono hdue⟩

theorem Harness.Resident.undisturbed (hr : h.Resident due) (u : Undisturbed h h') :
    h'.Resident due := by
  intro k i hi
  rw [u.instances] at hi
  obtain ⟨hk, hr⟩ := hr k i hi
  refine ⟨hk, hr.imp_right fun ha => ⟨ha.1, ha.2.imp_left fun hreach => ?_⟩⟩
  exact (u.reachable _).2 hreach

theorem Harness.Resident.disposed {i : PluginInstance} (hr : h.Resident (i.instanceId :: due)) :
    (h.disposed i).Resident due := by
  intro k x hx
  rw [h.disposed_get?] at hx
  split at hx
  · cases hx
  · rename_i hk
    obtain ⟨hkey, hr⟩ := hr k x hx
    refine ⟨hkey, hr.imp_right fun ha => ⟨ha.1, ha.2.imp_right fun hd => ⟨?_, hd.2⟩⟩⟩
    exact (List.mem_cons.1 hd.1).resolve_left fun he => hk (hkey.trans he)

theorem Harness.Resident.drop {id : String} (hr : h.Resident (id :: due))
    (hnot : ∀ i, h.plugins.instances.get? id = some i → i.generationRefs ≠ 0) :
    h.Resident due := by
  intro k i hi
  obtain ⟨hkey, hr⟩ := hr k i hi
  refine ⟨hkey, hr.imp_right fun ha => ⟨ha.1, ha.2.imp_right fun hd => ⟨?_, hd.2⟩⟩⟩
  rcases List.mem_cons.1 hd.1 with he | hin
  · rw [hkey, he] at hi
    exact absurd hd.2 (hnot i hi)
  · exact hin

theorem resident_stable (M : List PluginInstance) (due : List String) :
    Stable quietRules fun h => h.Resident due ∧ h.work.mounted = M where
  holds := fun _ => trivial
  interferes := fun hr u _ => ⟨hr.1.undisturbed u, u.mounted.trans hr.2⟩
  learn := fun secrets hr => ⟨hr.1.undisturbed (Harness.learn_sameHoldings _ secrets).undisturbed, hr.2⟩
  note := fun failures hr => ⟨hr.1.undisturbed (Harness.note_sameHoldings _ failures).undisturbed, hr.2⟩

/-! ## disposal -/

theorem dispose_resident {M : List PluginInstance} {i : PluginInstance}
    (hr : h.Resident (i.instanceId :: due)) (hm : h.work.mounted = M) :
    (dispose i).wp quietRules (fun _ _ h' => h'.Resident due ∧ h'.work.mounted = M) h := by
  rcases hget : h.plugins.instances.get? i.instanceId with _ | live
  · unfold dispose
    rw [Prog.wp_gets_bind]
    simp only [id_eq]
    rw [hget]
    refine ⟨hr.drop fun x hx => ?_, hm⟩
    rw [hget] at hx
    cases hx
  · by_cases hrefs : live.generationRefs = 0
    · have hstate : live.state ≠ .loading := by
        rcases (hr _ live hget).2 with hf | ⟨ha, -⟩
        · rw [hf]
          decide
        · rw [ha]
          decide
      refine Prog.wp_mono (dispose_effect undisturbed_framed i hget hrefs hstate) ?_
      intro tr r h' u
      exact ⟨hr.disposed.undisturbed u, u.mounted.trans hm⟩
    · have hpos : 0 < live.generationRefs := Nat.pos_of_ne_zero hrefs
      unfold dispose
      rw [Prog.wp_gets_bind]
      simp only [id_eq]
      rw [hget]
      show (if 0 < live.generationRefs then _ else _ : Task Unit).wp quietRules _ h
      rw [if_pos hpos]
      refine ⟨hr.drop fun x hx => ?_, hm⟩
      obtain rfl := Option.some.inj (hget.symm.trans hx)
      exact hrefs

theorem observed_resident {J : Harness → Prop} (st : Stable quietRules J) (d : Dispatch)
    (hJ : J h) : (observed d).wp quietRules (fun _ r h' => r = .ok () ∧ J h') h :=
  Prog.wp_and (observed_raises d h) (observed_inv st d hJ)

theorem disposeInstance_resident {M : List PluginInstance} {i : PluginInstance}
    (hr : h.Resident (i.instanceId :: due)) (hm : h.work.mounted = M) :
    (disposeInstance i).wp quietRules (fun _ r h' => r = .ok () ∧
      h'.Resident due ∧ h'.work.mounted = M) h := by
  refine Prog.wp_bind_of (observed_resident (resident_stable M _) _ ⟨hr, hm⟩) ?_
    fun _ _ _ hend => nomatch hend.1
  rintro _ _ h₁ ⟨-, hr₁, hm₁⟩
  have htry : (Prog.tryCatch (dispose i) fun e =>
      Prog.modify fun h => h.note (disposalFailures i e)).wp quietRules
      (fun _ r h' => r = .ok () ∧ h'.Resident due ∧ h'.work.mounted = M) h₁ := by
    refine Prog.wp_tryCatch.2 (Prog.wp_mono (dispose_resident hr₁ hm₁) fun tr r h₂ hr₂ => ?_)
    cases r with
    | ok _ => exact ⟨rfl, hr₂⟩
    | error e => exact ⟨rfl, (resident_stable M due).note _ hr₂⟩
  refine Prog.wp_bind_of htry ?_ fun _ _ _ hend => nomatch hend.1
  rintro _ _ h₂ ⟨-, hr₂⟩
  exact observed_resident (resident_stable M due) _ hr₂

theorem disposeAll_resident (l : List PluginInstance)
    (hr : h.Resident (l.map PluginInstance.instanceId)) :
    (l.forM disposeInstance).wp quietRules (fun _ r h' => r = .ok () ∧ h'.Resident []) h := by
  induction l generalizing h with
  | nil => exact ⟨rfl, hr⟩
  | cons i l ih =>
    show (disposeInstance i >>= fun _ => l.forM disposeInstance : Task PUnit).wp quietRules _ h
    exact Prog.wp_bind_of (disposeInstance_resident hr rfl) (fun _ _ h₁ hr₁ => ih hr₁.2.1)
      fun _ _ _ hend => nomatch hend.1

/-! ## mounting -/

/-- what a pass has mounted is due, until it is published -/
def Harness.Passing (M : List PluginInstance) (h : Harness) : Prop :=
  h.Resident (M.map PluginInstance.instanceId) ∧ h.work.mounted = M

/-- an instance is there, and nobody counts on it yet -/
def Harness.Raising (M : List PluginInstance) (i : PluginInstance) (h : Harness) : Prop :=
  (∀ k x, h.plugins.instances.get? k = some x → k = x.instanceId ∧
    if k = i.instanceId then x.generationRefs = 0
    else h.Resides (M.map PluginInstance.instanceId) x) ∧ h.work.mounted = M

theorem passing_stable (M : List PluginInstance) : Stable quietRules (Harness.Passing M) :=
  resident_stable M (M.map PluginInstance.instanceId)

theorem Harness.Raising.undisturbed {M : List PluginInstance} {i : PluginInstance}
    (hr : h.Raising M i) (u : Undisturbed h h') : h'.Raising M i := by
  refine ⟨fun k x hx => ?_, u.mounted.trans hr.2⟩
  rw [u.instances] at hx
  obtain ⟨hk, hr⟩ := hr.1 k x hx
  refine ⟨hk, ?_⟩
  split
  · rename_i hi
    rw [if_pos hi] at hr
    exact hr
  · rename_i hi
    rw [if_neg hi] at hr
    refine hr.imp_right fun ha => ⟨ha.1, ha.2.imp_left fun hreach => ?_⟩
    exact (u.reachable _).2 hreach

theorem Harness.Passing.adopt {M : List PluginInstance} (hp : h.Passing M) (entry : PluginEntry)
    (resolved : Dict String CapabilityRegistration) :
    (h.adopt (h.newInstance entry resolved)).Raising M (h.newInstance entry resolved) := by
  refine ⟨fun k x hx => ?_, hp.2⟩
  replace hx := (PluginRegistry.get?_adopt _ _ k).symm.trans hx
  split at hx
  · rename_i hk
    cases hx
    refine ⟨hk, ?_⟩
    rw [if_pos hk]
    rfl
  · rename_i hne
    obtain ⟨hk, hr⟩ := hp.1 k x hx
    refine ⟨hk, ?_⟩
    rw [if_neg hne]
    exact hr

theorem Harness.Raising.settle {M : List PluginInstance} {i : PluginInstance} (hr : h.Raising M i)
    {due : List String} (hdue : ∀ id ∈ M.map PluginInstance.instanceId, id ∈ due)
    {f : PluginInstance → PluginInstance} (hid : ∀ x, (f x).instanceId = x.instanceId)
    (hf : ∀ x, x.instanceId = i.instanceId → x.generationRefs = 0 → h.Resides due (f x)) :
    (h.updateInstance i f).Resident due ∧ (h.updateInstance i f).work.mounted = M := by
  refine ⟨fun k x hx => ?_, hr.2⟩
  replace hx := (PluginRegistry.get?_update _ _ _ k).symm.trans hx
  split at hx
  · rename_i hk
    obtain ⟨y, hy, rfl⟩ := Option.map_eq_some_iff.1 hx
    obtain ⟨hkey, hy⟩ := hr.1 _ y hy
    rw [if_pos rfl] at hy
    exact ⟨hk.trans (hkey.trans (hid y).symm), hf y hkey.symm hy⟩
  · rename_i hk
    obtain ⟨hkey, hx⟩ := hr.1 k x hx
    rw [if_neg hk] at hx
    exact ⟨hkey, hx.mono hdue⟩

theorem rollbackMount_resident {M : List PluginInstance} {i : PluginInstance}
    (hr : h.Raising M i) :
    (rollbackMount i).wp quietRules (fun _ _ h' => h'.Passing M) h := by
  have hfail : ∀ h₁ : Harness, h₁.Raising M i →
      (h₁.updateInstance i fun x => { x with state := .failed }).Passing M := fun h₁ hr₁ =>
    hr₁.settle (fun _ hid => hid) (fun _ => rfl) fun _ _ _ => Or.inl rfl
  refine Prog.wp_tryCatch.2 ⟨trivial, fun h₁ u _ answer _ => ?_⟩
  have hr₁ := (hr.undisturbed u).undisturbed (h₁.closeScope_sameHoldings i).undisturbed
  rcases answer with ⟨failures, _ | e⟩
  · exact hfail _ hr₁
  · exact hfail _ hr₁

/-- a mount ends with an instance that is due, or leaves a failed one, or none -/
theorem mount_resident {M : List PluginInstance} (entry : PluginEntry)
    (resolved : Dict String CapabilityRegistration) (supersede : Bool) (hp : h.Passing M) :
    (mount entry resolved supersede).wp quietRules (fun _ r h' => match r with
      | .ok i => h'.Resident (i.instanceId :: M.map PluginInstance.instanceId) ∧
          h'.work.mounted = M
      | .error _ => h'.Passing M) h := by
  unfold mount
  rw [Prog.wp_gets_bind]
  split
  · exact hp
  · have hadopt := hp.adopt entry resolved
    show (runSetup entry (h.newInstance entry resolved)).wp quietRules _ h
    generalize h.newInstance entry resolved = i at hadopt
    unfold runSetup
    refine Prog.wp_modify_bind.2 (Prog.wp_perform_bind.2
      ⟨trivial, fun h₁ u _ answer _ => Prog.wp_modify_bind.2 ?_⟩)
    have hr₁ := (hadopt.undisturbed u).undisturbed (h₁.afterSetup_sameHoldings i answer).undisturbed
    cases answer.raised with
    | some error =>
      refine Prog.wp_bind_of (rollbackMount_resident hr₁) (fun tr failures h₂ hp₂ => ?_)
        (fun _ _ _ hp₂ => hp₂)
      show (if error.kind.isException then _ else _ : Task PluginInstance).wp quietRules _ h₂
      split
      · exact hp₂
      · exact hp₂
    | none =>
      refine hr₁.settle (fun _ hid => List.mem_cons_of_mem _ hid) (fun _ => rfl) ?_
      intro x hx hrefs
      exact Or.inr ⟨rfl, Or.inr ⟨List.mem_cons.2 (Or.inl hx), hrefs⟩⟩

theorem Harness.Resident.identify (hr : h.Resident due) (i : PluginInstance)
    (identity : SemanticIdentity) :
    (h.updateInstance i fun x => { x with semanticIdentity := some identity }).Resident due := by
  intro k x hx
  replace hx := (PluginRegistry.get?_update _ _ _ k).symm.trans hx
  split at hx
  · rename_i hk
    obtain ⟨y, hy, rfl⟩ := Option.map_eq_some_iff.1 hx
    obtain ⟨hkey, hy⟩ := hr _ y hy
    exact ⟨hk.trans hkey, hy⟩
  · exact hr k x hx

theorem mountEntry_resident {M : List PluginInstance} (plan : ResolutionPlan) (entry : PluginEntry)
    (identity : SemanticIdentity) (existing : Option PluginInstance) (hp : h.Passing M) :
    (mountEntry plan entry identity existing).wp quietRules (fun _ r h' => match r with
      | .ok i => h'.Passing (M ++ [i])
      | .error _ => h'.Passing M) h := by
  have hst := passing_stable M
  refine Prog.wp_bind_of (observed_inv hst _ hp) (fun _ _ h₁ hp₁ => ?_) (fun _ _ _ hp' => hp')
  rw [Prog.wp_gets_bind]
  refine Prog.wp_bind_of (mount_resident entry _ _ hp₁) (fun _ i h₂ hr₂ => ?_)
    (fun _ _ _ hp' => hp')
  rw [Prog.wp_modify_bind]
  have hr₃ := hr₂.1.identify i identity
  refine Prog.wp_bind_of (observed_resident
    (resident_stable M (i.instanceId :: M.map PluginInstance.instanceId)) _ ⟨hr₃, hr₂.2⟩) ?_
    fun _ _ _ hend => nomatch hend.1
  rintro _ _ h₄ ⟨-, hr₄, hm₄⟩
  refine ⟨?_, ?_⟩
  · refine Harness.Resident.mono (h := h₄) hr₄ fun id hid => ?_
    rw [List.map_append, List.mem_append]
    rcases List.mem_cons.1 hid with rfl | hid
    · exact Or.inr List.mem_cons_self
    · exact Or.inl hid
  · show h₄.work.mounted ++ [_] = _
    rw [hm₄]

/-! ## a pass -/

/-- what a pass has mounted is among its instances, and due until it is published -/
def Harness.Progressing (instances : List PluginInstance) (h : Harness) : Prop :=
  h.Passing h.work.mounted ∧ ∀ i ∈ h.work.mounted,
    i.instanceId ∈ instances.map PluginInstance.instanceId

theorem Harness.Progressing.append {instances : List PluginInstance} (hp : h.Progressing instances)
    (i : PluginInstance) : h.Progressing (instances ++ [i]) := by
  refine ⟨hp.1, fun j hj => ?_⟩
  rw [List.map_append]
  exact List.mem_append_left _ (hp.2 j hj)

theorem materializeEntry_resident (plan : ResolutionPlan) (p : Progress) (entryId : String)
    (hp : h.Progressing p.ordered) : (materializeEntry plan p entryId).wp quietRules
      (fun _ r h' => match r with
        | .ok p' => h'.Progressing p'.ordered
        | .error _ => h'.Passing h'.work.mounted) h := by
  have hmount : ∀ entry identity existing h₁, Harness.Progressing p.ordered h₁ → (do
      let i ← mountEntry plan entry identity existing
      return ⟨p.ordered ++ [i], p.identities.set entryId identity⟩ : Task Progress).wp quietRules
      (fun _ r h' => match r with
        | .ok p' => h'.Progressing p'.ordered
        | .error _ => h'.Passing h'.work.mounted) h₁ := by
    intro entry identity existing h₁ hp₁
    refine Prog.wp_bind_of (mountEntry_resident plan entry identity existing hp₁.1) ?_ ?_
    · intro _ i h₂ hp₂
      have hm : h₂.work.mounted = h₁.work.mounted ++ [i] := hp₂.2
      refine ⟨?_, fun j hj => ?_⟩
      · show h₂.Passing h₂.work.mounted
        rw [hm]
        exact hp₂
      · show j.instanceId ∈ (p.ordered ++ [i]).map PluginInstance.instanceId
        rw [hm] at hj
        rw [List.map_append, List.mem_append]
        rcases List.mem_append.1 hj with hj | hj
        · exact Or.inl (hp₁.2 j hj)
        · exact Or.inr (List.mem_map_of_mem hj)
    · intro _ e h₂ hp₂
      show h₂.Passing h₂.work.mounted
      rw [hp₂.2]
      exact hp₂
  unfold materializeEntry
  rw [Prog.wp_gets_bind]
  split
  · exact hp
  · refine Prog.wp_ofExcept_bind (fun identity _ => ?_) fun _ _ => hp.1
    split
    · exact hp.append _
    · simp only
      split
      · rename_i failed _
        have hdue : h.Resident (failed.instanceId :: h.work.mounted.map PluginInstance.instanceId) :=
          hp.1.1.mono fun _ hid => List.mem_cons_of_mem _ hid
        refine Prog.wp_bind_of (disposeInstance_resident hdue rfl) ?_
          fun _ _ _ hend => nomatch hend.1
        rintro _ _ h₁ ⟨-, hr₁⟩
        refine hmount _ _ _ h₁ ⟨?_, ?_⟩
        · rw [hr₁.2]
          exact hr₁
        · rw [hr₁.2]
          exact hp.2
      · exact hmount _ _ _ h hp

theorem materialize_resident (plan : ResolutionPlan) (hp : h.Progressing []) :
    (materialize plan).wp quietRules (fun _ r h' => match r with
      | .ok instances => h'.Progressing instances
      | .error _ => h'.Passing h'.work.mounted) h := by
  have hloop : ∀ (l : List String) (p : Progress) (h : Harness), h.Progressing p.ordered →
      (l.foldlM (materializeEntry plan) p).wp quietRules (fun _ r h' => match r with
        | .ok p' => h'.Progressing p'.ordered
        | .error _ => h'.Passing h'.work.mounted) h := by
    intro l
    induction l with
    | nil =>
      intro p h hp
      exact hp
    | cons entryId l ih =>
      intro p h hp
      rw [List.foldlM_cons]
      exact Prog.wp_bind_of (materializeEntry_resident plan p entryId hp)
        (fun _ p' h' hp' => ih p' h' hp') (fun _ _ _ he => he)
  exact Prog.wp_bind_of (hloop plan.activationOrder {} h hp) (fun _ _ _ hp' => hp')
    (fun _ _ _ he => he)

structure Candidate.Inhabited (c : Candidate) (h : Harness) : Prop where
  progressing : h.Progressing c.instances
  reuse : ∀ g ∈ c.reuse, h.generations.current = some g ∧
    c.instances.map PluginInstance.instanceId = g.instanceIds

theorem assemble_resident (plan : ResolutionPlan) (hp : h.Progressing []) :
    (assemble plan).wp quietRules (fun _ r h' => match r with
      | .ok c => c.Inhabited h'
      | .error _ => h'.Passing h'.work.mounted) h := by
  refine Prog.wp_bind_of (materialize_resident plan hp) (fun _ instances h₁ hp₁ => ?_)
    (fun _ _ _ he => he)
  refine Prog.wp_ofExcept_bind (s := h₁) (fun _ _ => ?_) (fun _ _ => hp₁.1)
  refine Prog.wp_ofExcept_bind (s := h₁) (fun tree htree => ?_) (fun _ _ => hp₁.1)
  refine ⟨hp₁, fun g hg => ?_⟩
  obtain ⟨hcur, hsame⟩ := Option.filter_eq_some_iff.1 hg
  unfold sameComposition at hsame
  simp only [Bool.and_eq_true, decide_eq_true_eq] at hsame
  exact ⟨hcur, hsame.1.1.1⟩

theorem rollback_resident (e : Err) (hp : h.Passing h.work.mounted) :
    (rollback e).wp quietRules (fun _ r h' => (∃ e', r = .error e') ∧ h'.Resident []) h := by
  unfold rollback
  rw [Prog.wp_gets_bind]
  have hdue : h.Resident (h.work.mounted.reverse.map PluginInstance.instanceId) := by
    refine hp.1.mono fun id hid => ?_
    rw [List.map_reverse, List.mem_reverse]
    exact hid
  refine Prog.wp_bind_of (disposeAll_resident _ hdue) ?_ fun _ _ _ hend => nomatch hend.1
  rintro _ _ h₁ ⟨-, hr₁⟩
  split
  · have hr₂ := hr₁.undisturbed (h₁.note_sameHoldings e.failures).undisturbed
    exact ⟨⟨_, rfl⟩, hr₂⟩
  · exact ⟨⟨_, rfl⟩, hr₁⟩

theorem stage_resident (hr : h.Resident []) : stage.wp quietRules (fun _ r h' => match r with
      | .ok c => c.Inhabited h'
      | .error _ => h'.Resident []) h := by
  refine Prog.wp_bind_of (P := fun _ _ h' => h' = h) ?_ ?_ ?_
  · unfold requireComposable
    rw [Prog.wp_gets_bind]
    split <;> exact rfl
  · rintro _ _ h₁ rfl
    refine Prog.wp_ofExcept_bind (s := h₁) (fun plan _ => ?_) (fun _ _ => hr)
    refine Prog.wp_ofExcept_bind (s := h₁) (fun _ _ => ?_) (fun _ _ => hr)
    have hstart : Harness.Progressing [] { h₁ with work := { planned := some h₁.desired } } :=
      ⟨⟨hr, rfl⟩, fun i hi => absurd hi List.not_mem_nil⟩
    refine Prog.wp_tryCatch.2 (Prog.wp_mono (assemble_resident plan hstart) fun _ r h₂ hr₂ => ?_)
    cases r with
    | ok c => exact hr₂
    | error e =>
      refine Prog.wp_mono (rollback_resident e hr₂) ?_
      rintro _ r h₃ ⟨⟨e', rfl⟩, hr₃⟩
      exact hr₃
  · rintro _ e h₁ rfl
    exact hr

/-! ## publication -/

theorem publish_resident {c : Candidate} (hs : h.Safe) (hp : h.Progressing c.instances)
    {previous : Option RuntimeGeneration} {m : GenerationManager}
    (hok : (h.buildGeneration c).2.publish (h.buildGeneration c).1 = .ok (previous, m)) :
    Harness.Resident [] { h with generations := m, origin := h.work.planned } := by
  obtain ⟨previous', m', hok', -, hcur, hprev, hdrain⟩ :=
    GenerationManager.publish_accounted hs.accounted c.snapshotFactory c.instances
      ⟨c.instances.length, c.scopeTree.scopes.length, h.effectivePreferences⟩ c.scopeTree
  obtain ⟨rfl, rfl⟩ := Prod.mk.inj (Except.ok.inj (hok'.symm.trans hok))
  have hnew : ∀ id ∈ c.instances.map PluginInstance.instanceId, id ∈ m'.reachableInstanceIds :=
    fun id hid => GenerationManager.mem_reachable.2
      ⟨_, GenerationManager.mem_live.2 (Or.inl hcur), hid⟩
  have hold : ∀ id ∈ h.generations.reachableInstanceIds, id ∈ m'.reachableInstanceIds := by
    intro id hid
    obtain ⟨g, hg, hin⟩ := GenerationManager.mem_reachable.1 hid
    rcases GenerationManager.mem_live.1 hg with hc | hd
    · refine GenerationManager.mem_reachable.2 ⟨{ g with state := .draining },
        GenerationManager.mem_live.2 (Or.inr ?_), hin⟩
      rw [hdrain, hprev, List.mem_append, Option.mem_toList]
      exact Or.inr (Option.mem_map_of_mem _ hc)
    · refine GenerationManager.mem_reachable.2 ⟨g, GenerationManager.mem_live.2 (Or.inr ?_), hin⟩
      rw [hdrain]
      exact List.mem_append_left _ hd
  intro k i hi
  obtain ⟨hk, hr⟩ := hp.1.1 k i hi
  refine ⟨hk, hr.imp_right fun ha => ⟨ha.1, Or.inl ?_⟩⟩
  rcases ha.2 with hreach | ⟨hdue, -⟩
  · exact hold _ hreach
  · obtain ⟨j, hj, hid⟩ := List.mem_map.1 hdue
    exact hid ▸ hnew _ (hp.2 j hj)

theorem enact_resident (c : Candidate) (hs : h.Safe) (hc : c.Inhabited h) :
    (enact c).wp quietRules (fun _ _ h' => h'.Resident []) h := by
  unfold enact
  cases hreuse : c.reuse with
  | some g =>
    obtain ⟨hcur, hids⟩ := hc.reuse g hreuse
    intro k i hi
    obtain ⟨hk, hr⟩ := hc.progressing.1.1 k i hi
    refine ⟨hk, hr.imp_right fun ha => ⟨ha.1, Or.inl (ha.2.elim id fun hd => ?_)⟩⟩
    obtain ⟨j, hj, hid⟩ := List.mem_map.1 hd.1
    refine GenerationManager.mem_reachable.2 ⟨g, GenerationManager.mem_live.2 (Or.inl hcur), ?_⟩
    rw [← hids, ← hid]
    exact hc.progressing.2 j hj
  | none =>
    obtain ⟨previous, m, hok, -⟩ :=
      GenerationManager.publish_accounted hs.accounted c.snapshotFactory c.instances
        ⟨c.instances.length, c.scopeTree.scopes.length, h.effectivePreferences⟩ c.scopeTree
    show (publishCandidate c).wp quietRules _ h
    unfold publishCandidate
    rw [Prog.wp_gets_bind]
    refine Prog.wp_ofExcept_bind (fun p hp => ?_) fun e he => ?_
    · obtain ⟨previous', m'⟩ := p
      rw [Prog.wp_modify_bind]
      have hr := publish_resident hs hc.progressing hp
      exact Prog.wp_bind_of (announce_inv (resident_stable _ []) _ _ ⟨hr, rfl⟩)
        (fun _ _ _ hr' => hr'.1) (fun _ _ _ hr' => hr'.1)
    · cases hok.symm.trans he

/-! ## reclamation -/

/-- what an instance tells of the generations that reach it is right -/
def Harness.Counted (h : Harness) : Prop :=
  ∀ k i, h.plugins.instances.get? k = some i → i.generationRefs = h.references i

theorem refreshReferences_counted (h : Harness) : h.refreshReferences.Counted := by
  intro k i hi
  rw [h.get?_refreshReferences] at hi
  obtain ⟨j, -, rfl⟩ := Option.map_eq_some_iff.1 hi
  rfl

theorem Harness.Resident.refresh (hr : h.Resident []) : h.refreshReferences.Resident [] := by
  intro k i hi
  rw [h.get?_refreshReferences] at hi
  obtain ⟨j, hj, rfl⟩ := Option.map_eq_some_iff.1 hi
  obtain ⟨hk, hr⟩ := hr k j hj
  refine ⟨hk, hr.imp_right fun ha => ⟨ha.1, Or.inl (ha.2.elim id fun hd => ?_)⟩⟩
  exact absurd hd.1 List.not_mem_nil

/-- what no generation reaches any more is due -/
theorem doomed_resident (hs : h.Safe)
    (hr : ∀ k i, h.plugins.instances.get? k = some i → i.state = .failed ∨ i.state = .active) :
    h.refreshReferences.Resident ((h.refreshReferences.teardownOrder h.refreshReferences.doomed).map
      PluginInstance.instanceId) := by
  have hs' := refreshReferences_safe hs
  intro k i hi
  refine ⟨(hs'.keyed k i hi).symm, ?_⟩
  have hstate : i.state = .failed ∨ i.state = .active := by
    rw [h.get?_refreshReferences] at hi
    obtain ⟨j, hj, rfl⟩ := Option.map_eq_some_iff.1 hi
    exact hr k j hj
  refine hstate.imp_right fun hactive => ⟨hactive, ?_⟩
  by_cases hreach : i.instanceId ∈ h.refreshReferences.generations.reachableInstanceIds
  · exact Or.inl hreach
  · have hdoomed : i ∈ h.refreshReferences.doomed :=
      mem_doomed.2 ⟨⟨k, hi⟩, Or.inl ⟨hactive, hreach⟩⟩
    refine Or.inr ⟨List.mem_map_of_mem (teardownOrder_complete (doomed_nodup hs') hdoomed), ?_⟩
    obtain ⟨live, hlive, hrefs, -⟩ := doomed_disposes hs hdoomed
    have hkey := hs'.keyed k i hi
    rw [hkey] at hlive
    rw [Option.some.inj (hi.symm.trans hlive)]
    exact hrefs

theorem reclaim_resident (hs : h.Safe) (hr : h.Resident []) :
    reclaim.wp quietRules (fun _ r h' => (∃ l, r = .ok l) ∧ h'.Resident []) h := by
  refine Prog.wp_bind_of (retireIdle_effect hs.accounted) ?_ ?_
  · rintro _ _ h₁ ⟨-, -, m, rfl, hacc, hcur, hdrain⟩
    rw [Prog.wp_modify_bind, Prog.wp_gets_bind]
    have hdue := doomed_resident (hs.retired hacc hcur hdrain) fun k i hi =>
      (hr k i hi).2.imp_right fun ha => ha.1
    refine Prog.wp_bind_of (disposeAll_resident _ hdue) ?_ fun _ _ _ hend => nomatch hend.1
    rintro _ _ h₂ ⟨-, hr₂⟩
    exact ⟨⟨_, rfl⟩, hr₂.refresh⟩
  · rintro _ e h₁ ⟨-, he, -⟩
    cases he

/-! ## the jobs -/

theorem conclude_resident (c : Candidate) (g : RuntimeGeneration) (hs : h.Safe)
    (hr : h.Resident []) : (conclude c g).wp quietRules (fun _ _ h' => h'.Resident []) h :=
  Prog.wp_bind_of (reclaim_resident hs hr) (fun _ _ _ hr' => hr'.2) fun _ _ _ hr' => hr'.2

/-- leases come and go, and no handler aborts a dispatch -/
def calmRules : Rules Harness Operation Answer where
  interferes := Undisturbed
  admits := Harmless
  holds := Harness.Safe

theorem wp_calmRules {α : Type} {p : Task α}
    {Q Q' : Trace Operation Answer → Except Err α → Harness → Prop}
    (hp : p.wp leaseRules Q h) (hp' : p.wp quietRules Q' h) :
    p.wp calmRules (fun tr r h' => Q tr r h' ∧ Q' tr r h') h := by
  have hcalm : p.wp calmRules Q h :=
    Prog.wp_stricter hp (fun _ _ u => u) (fun _ _ _ => trivial) fun _ => Iff.rfl
  exact Prog.wp_beside hcalm hp' (fun _ _ u => u) (fun _ _ ha => ha) fun _ => trivial

/-- what holds at the end of a job -/
def Harness.Vacated (h : Harness) : Prop := h.Safe ∧ h.Resident []

theorem reconcile_resident (hv : h.Vacated) :
    reconcile.wp calmRules (fun _ _ h' => h'.Vacated) h := by
  refine Prog.wp_bind_of (wp_calmRules (stage_safe hv.1) (stage_resident hv.2))
    (fun _ c h₁ hc => ?_) (fun _ _ _ he => he)
  have hs₁ : h₁.Safe := hc.1.toSafe
  have henact := wp_leaseRules (enact_keeps extra_nothing (fun _ _ => trivial) c ⟨hc.1, trivial⟩)
  refine Prog.wp_bind_of (wp_calmRules henact (enact_resident c hs₁ hc.2)) (fun _ g h₂ hr₂ => ?_)
    (fun _ _ _ he => ⟨he.1.1, he.2⟩)
  have hconclude := wp_leaseRules (conclude_keeps extra_nothing c g hr₂.1)
  refine Prog.wp_mono (wp_calmRules hconclude (conclude_resident c g hr₂.1.1 hr₂.2)) ?_
  rintro _ r h₃ ⟨hs₃, hr₃⟩
  exact ⟨hs₃.1, hr₃⟩

theorem reclaimAfterDrain_resident (hv : h.Vacated) :
    reclaimAfterDrain.wp calmRules (fun _ _ h' => h'.Vacated) h := by
  have hsafe := wp_leaseRules (reclaimAfterDrain_keeps extra_nothing ⟨hv.1, trivial⟩)
  have hquiet : reclaimAfterDrain.wp quietRules (fun _ _ h' => h'.Resident []) h := by
    unfold reclaimAfterDrain
    rw [Prog.wp_gets_bind]
    split
    · exact hv.2
    · rw [Prog.wp_modify_bind]
      exact Prog.wp_bind_of (reclaim_resident (h := { h with work := {} }) { hv.1 with } hv.2)
        (fun _ _ _ hr' => hr'.2) fun _ _ _ hr' => hr'.2
  refine Prog.wp_mono (wp_calmRules hsafe hquiet) ?_
  rintro _ r h' ⟨hs', hr'⟩
  exact ⟨hs'.1, hr'⟩

/-- **Every job** leaves no instance behind, whether it succeeds or raises. -/
theorem job_resident (j : Job) (hv : h.Vacated) :
    j.program.wp calmRules (fun _ _ h' => h'.Vacated) h := by
  cases j with
  | reconcile =>
    exact Prog.wp_bind_of (reconcile_resident hv) (fun _ _ _ hv' => hv') fun _ _ _ hv' => hv'
  | reclaimAfterDrain => exact reclaimAfterDrain_resident hv

end

/-! ## what instances count -/

section
variable {h : Harness}

/-- the harness is not stopping -/
def Harness.Composable (h : Harness) : Prop := h.state ≠ .stopping ∧ h.state ≠ .stopped

/-- others do not stop the harness -/
def composing : Rules Harness Operation Answer where
  interferes := fun h h' => h.Composable → h'.Composable
  admits := fun _ _ => True
  holds := fun _ => True

/-- a job leaves every instance with the right count, unless it raises or the harness stops -/
def Harness.Recounted (r : Except Err Unit) (h : Harness) : Prop :=
  h.Composable ∧ ∀ u, r = .ok u → h.Counted

theorem composable_enduring : Enduring composing Harness.Composable where
  holds := fun _ => trivial
  interferes := fun hc hint _ => hint hc
  learn := fun _ hc => hc
  note := fun _ hc => hc
  update := fun _ _ hc => hc
  adopt := fun _ hc => hc
  forget := fun _ hc => hc
  setup := by
    intro h i a hc
    obtain ⟨caps, tools, hooks, n, d, r, -, heq⟩ := h.afterSetup_eq i a
    rw [heq]
    exact hc
  close := fun _ hc => hc
  mounted := fun _ hc => hc
  reused := fun _ hc => hc
  work := fun _ hc => hc
  report := fun _ hc => hc
  retire := fun _ hc => hc
  refresh := fun hc => hc
  publish := fun _ _ hc => hc
  conclude := fun _ _ hc => hc

theorem reclaim_counted (h : Harness) :
    reclaim.wp composing (fun _ r h' => ∀ l, r = .ok l → h'.Counted) h := by
  have htrue : ∀ {α : Type} (p : Task α) (h : Harness), p.wp composing (fun _ _ _ => True) h :=
    fun p h => Prog.wp_true (fun _ => trivial) p h
  refine Prog.wp_bind_of (htrue retireIdle h) (fun _ _ h₁ _ => ?_) fun _ e _ _ l hl => by cases hl
  rw [Prog.wp_modify_bind, Prog.wp_gets_bind]
  refine Prog.wp_bind_of (htrue _ _) (fun _ _ h₂ _ => ?_) fun _ e _ _ l hl => by cases hl
  intro l _
  exact refreshReferences_counted h₂

theorem reconcile_counted (h : Harness) :
    reconcile.wp composing (fun _ r h' => ∀ u, r = .ok u → h'.Counted) h := by
  have htrue : ∀ {α : Type} (p : Task α) (h : Harness), p.wp composing (fun _ _ _ => True) h :=
    fun p h => Prog.wp_true (fun _ => trivial) p h
  refine Prog.wp_bind_of (htrue stage h) (fun _ c h₁ _ => ?_) fun _ e _ _ u hu => by cases hu
  refine Prog.wp_bind_of (htrue (enact c) h₁) (fun _ g h₂ _ => ?_) fun _ e _ _ u hu => by cases hu
  exact Prog.wp_bind_of (reclaim_counted h₂) (fun _ l h₃ hr _ _ => hr l rfl)
    fun _ e _ _ u hu => by cases hu

theorem job_counted (j : Job) (hc : h.Composable) :
    j.program.wp composing (fun _ => Harness.Recounted) h := by
  refine Prog.wp_and (job_inv composable_enduring j hc) ?_
  cases j with
  | reconcile =>
    exact Prog.wp_bind_of (reconcile_counted h) (fun _ l h₁ hr _ _ => hr l rfl)
      fun _ e _ _ u hu => by cases hu
  | reclaimAfterDrain =>
    show reclaimAfterDrain.wp composing _ h
    unfold reclaimAfterDrain
    rw [Prog.wp_gets_bind]
    split
    · rename_i hstop
      exact absurd hstop (not_or.2 hc)
    · rw [Prog.wp_modify_bind]
      exact Prog.wp_bind_of (reclaim_counted _) (fun _ l h₁ hr _ _ => hr l rfl)
        fun _ e _ _ u hu => by cases hu

theorem ControlAct.composable {h' : Harness} (ha : ControlAct h h') (hc : h.Composable) :
    h'.Composable := by
  rcases ha.sameRuntime with ha | ha
  · cases ha with
    | desired ha =>
      unfold Harness.Composable
      rw [ha.sameRuntime.state]
      exact hc
    | lease ha =>
      cases ha with
      | acquire ha =>
        obtain ⟨lease, m, -, rfl⟩ := Harness.acquire_ok ha
        exact hc
      | release n hr =>
        rcases Harness.release_ok hr with rfl | ⟨lease, idle, m, -, -, rfl⟩
        · exact hc
        · exact hc
    | start =>
      unfold Harness.start
      split
      · exact ⟨by simp, by simp⟩
      · exact hc
    | learn secrets => exact hc
  · unfold Harness.Composable
    rw [ha.state]
    exact hc

/-- **Counts are right** when a job has succeeded. -/
theorem ControlRun.counted {h : Harness} {history : List (Event Job Err × HarnessConfig)}
    {c : HarnessConfig} (hrun : ControlRun h history c) {j : Job} {c' : HarnessConfig}
    (hend : (.ended j (.ok ()), c') ∈ history) : c'.state.Counted := by
  have hm : Monitored composing ControlAct Job.program Harness.Composable
      (fun _ => Harness.Recounted) :=
    { refl := fun _ hc => hc
      trans := fun _ _ _ u _ ha hc => ha.composable (u hc)
      admits := fun _ _ _ => trivial
      idle := fun _ _ hc ha => ha.composable hc
      held := fun _ _ _ _ => trivial
      job := fun j _ hc => job_counted j hc }
  have hstart : h.Composable := by
    unfold Harness.Composable
    rw [hrun.1.toFresh.created]
    exact ⟨by simp, by simp⟩
  exact (hm.ended hstart hrun.2 (fun _ _ _ _ hr => hr.1) hend).2 () rfl

end

/-! ## every run -/

/-- the runs of the control plane in which no handler aborts a dispatch -/
def UnabortedRun (h : Harness) (history : List (Event Job Err × HarnessConfig))
    (c : HarnessConfig) : Prop :=
  Pristine h ∧ RunGiven Harmless ControlAct Job.program ⟨h, none⟩ history c

/-- Whoever does what at the awaits: when nobody composes, every instance of the registry has failed,
or is active and reached by a live generation, unless a dispatch was aborted. -/
theorem UnabortedRun.resident {h : Harness} {history : List (Event Job Err × HarnessConfig)}
    {c : HarnessConfig} (hrun : UnabortedRun h history c) (hidle : c.running = none) :
    ∀ k i, c.state.plugins.instances.get? k = some i →
      i.state = .failed ∨ (i.state = .active ∧ k ∈ c.state.generations.reachableInstanceIds) := by
  have hm : MonitoredGiven Harmless calmRules ControlAct Job.program Harness.Vacated
      (fun _ _ => Harness.Vacated) :=
    { refl := fun h => (SameRuntime.refl h).sameHoldings.undisturbed
      trans := fun _ _ _ u hs ha => Undisturbed.trans u (ha.safe hs).2
      admits := fun _ _ ha => ha
      idle := fun _ _ hv ha => ⟨(ha.safe hv.1).1, hv.2.undisturbed (ha.safe hv.1).2⟩
      held := fun _ _ hs ha => (ha.safe hs).1
      job := fun j _ hv => job_resident j hv }
  have hstart : h.Vacated := by
    refine ⟨hrun.1.toFresh.safe, fun k i hi => ?_⟩
    rw [hrun.1.toFresh.plugins] at hi
    cases hi
  have hsound := hm.run hstart hrun.2 fun _ _ _ _ hv => hv
  unfold Config.Sound at hsound
  rw [hidle] at hsound
  intro k i hi
  obtain ⟨hk, hr⟩ := hsound.2 k i hi
  refine hr.imp_right fun ha => ⟨ha.1, ?_⟩
  rw [hk]
  exact ha.2.elim id fun hd => absurd hd.1 List.not_mem_nil

/-- **No instance is left behind.**  Whatever is installed, replaced, leased, returned and composed,
in any order and at any await, and whatever a setup, a teardown or the closing of a scope raises: in
a run in which no hook handler aborts a dispatch, whenever nobody composes, every instance of the
registry has failed, or is active and reached by a live generation; and in any run, whenever a job has
succeeded, every instance counts the live generations that reach it. -/
theorem no_instance_left_behind {h : Harness} {history : List (Event Job Err × HarnessConfig)}
    {c : HarnessConfig} (hrun : ControlRun h history c) :
    (UnabortedRun h history c → c.running = none →
      ∀ k i, c.state.plugins.instances.get? k = some i →
        i.state = .failed ∨ (i.state = .active ∧ k ∈ c.state.generations.reachableInstanceIds)) ∧
    (∀ j c', (.ended j (.ok ()), c') ∈ history →
      ∀ k i, c'.state.plugins.instances.get? k = some i → i.generationRefs =
        (c'.state.generations.live.filter fun g => i.instanceId ∈ g.instanceIds).length) :=
  ⟨fun hcalm hidle => hcalm.resident hidle, fun _ _ hend => hrun.counted hend⟩

end

section
open scoped Plain

/-- a generation that a run holds, and its successor with another plugin -/
def superseded : List Move :=
  [.install (plainPlugin "p" [] [] []), .start .reconcile, .resume honest, .acquire,
    .install (plainPlugin "q" [] [] []), .start .reconcile, .resume honest]

theorem honest_harmless (l : Operation) : Harmless l (honest l) := by
  cases l with
  | setup i => exact rfl
  | teardown i => exact rfl
  | close i => exact rfl
  | handler d registration payload => exact rfl

theorem superseded_unaborted : UnabortedRun {} (play superseded).history
    ⟨(play superseded).config.state, none⟩ := by
  have hrun : RunGiven Harmless Acts Job.program ⟨{}, none⟩ (play superseded).history
      (play superseded).config := by
    refine playFrom_given {} fun answer hin => ?_
    obtain rfl : answer = honest := by
      simp only [superseded, List.mem_cons, List.not_mem_nil, or_false, reduceCtorEq, false_or,
        Move.resume.injEq, or_self] at hin
      exact hin
    exact honest_harmless
  have hidle : (play superseded).config.running.isNone = true := by decide +kernel
  have hconfig : (play superseded).config = ⟨(play superseded).config.state, none⟩ := by
    rw [← Option.isNone_iff_eq_none.1 hidle]
  rw [hconfig] at hrun
  exact ⟨pristine_new, RunGiven.mono (fun _ _ ha => .act ha) hrun⟩

theorem no_instance_left_behind_superseded :
    ((play superseded).config.state.plugins.sortedInstances.map fun i =>
      (i.entryId, i.state, i.generationRefs)) = [("p", .active, 2), ("q", .active, 1)] ∧
    ∀ k i, (play superseded).config.state.plugins.instances.get? k = some i →
      i.state = .failed ∨ (i.state = .active ∧
        k ∈ (play superseded).config.state.generations.reachableInstanceIds) :=
  ⟨by decide +kernel,
    (no_instance_left_behind (play_control superseded (by decide +kernel))).1
      superseded_unaborted rfl⟩

end

end Chassis
