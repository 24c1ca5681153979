import Chassis.Harness.Leases

/-!
# No plugin is loading while nobody composes

* `Loaded d`        none of the instances is loading;
* `LoadedBut id d`  none but one, while its `setup` runs;
* `mount_loaded`    a mount ends with its instance active or failed;
* `job_loaded`      so no job leaves a loading one behind;
* `loaded_run`      whatever the tasks do, as long as they leave the instances alone.
-/

set_option linter.unusedSectionVars false

namespace Chassis
open Py Coop

def Loaded (d : Dict String PluginInstance) : Prop :=
  ∀ k i, d.get? k = some i → i.state ≠ .loading

def LoadedBut (id : String) (d : Dict String PluginInstance) : Prop :=
  ∀ k i, d.get? k = some i → k ≠ id → i.state ≠ .loading

/-- others leave the instances alone -/
def seatRules : Rules Harness Operation Answer where
  interferes := fun h h' => h'.plugins.instances = h.plugins.instances
  admits := fun _ _ => True
  holds := fun _ => True

theorem seatRules_stable (P : Dict String PluginInstance → Prop) :
    Stable seatRules fun h => P h.plugins.instances where
  holds := fun _ => trivial
  interferes := by
    intro h h' hP hint _
    show P h'.plugins.instances
    rw [show h'.plugins.instances = h.plugins.instances from hint]
    exact hP
  learn := fun _ hP => hP
  note := fun _ hP => hP

namespace PluginRegistry
variable {r : PluginRegistry}

theorem loaded_update (hl : Loaded r.instances) (id : String) {f : PluginInstance → PluginInstance}
    (hf : ∀ x, x.state ≠ .loading → (f x).state ≠ .loading) : Loaded (r.update id f).instances := by
  intro k i hi
  rw [get?_update] at hi
  split at hi
  · obtain ⟨x, hx, rfl⟩ := Option.map_eq_some_iff.1 hi
    exact hf x (hl id x hx)
  · exact hl k i hi

theorem loaded_settle {id : String} (hl : LoadedBut id r.instances)
    {f : PluginInstance → PluginInstance} (hf : ∀ x, (f x).state ≠ .loading) :
    Loaded (r.update id f).instances := by
  intro k i hi
  rw [get?_update] at hi
  split at hi
  · obtain ⟨x, -, rfl⟩ := Option.map_eq_some_iff.1 hi
    exact hf x
  · rename_i hk
    exact hl k i hi hk

theorem loaded_forget (hl : Loaded r.instances) (i : PluginInstance) :
    Loaded (r.forget i).instances := by
  intro k j hj
  rw [get?_forget] at hj
  split at hj
  · cases hj
  · exact hl k j hj

theorem loadedBut_adopt (hl : Loaded r.instances) (i : PluginInstance) :
    LoadedBut i.instanceId (r.adopt i).instances := by
  intro k j hj hk
  rw [get?_adopt, if_neg hk] at hj
  exact hl k j hj

end PluginRegistry

section
variable [Packaging] [Platform] {h : Harness}

theorem loaded_disposable (i : PluginInstance) :
    Disposable seatRules i fun h => Loaded h.plugins.instances where
  toStable := seatRules_stable Loaded
  unload := fun hl => PluginRegistry.loaded_update hl _ fun _ _ => by simp
  close := fun hl => hl
  forget := fun hl => PluginRegistry.loaded_forget hl i

/-! ## mounting -/

theorem rollbackMount_loaded {i : PluginInstance} (hl : LoadedBut i.instanceId h.plugins.instances) :
    (rollbackMount i).wp seatRules (fun _ _ h' => Loaded h'.plugins.instances) h := by
  have hfail : ∀ h₁ : Harness, LoadedBut i.instanceId h₁.plugins.instances →
      Loaded (h₁.updateInstance i fun x => { x with state := .failed }).plugins.instances :=
    fun h₁ hl₁ => PluginRegistry.loaded_settle hl₁ fun _ => by simp
  refine Prog.wp_tryCatch.2 ⟨trivial, fun h₁ hint _ answer _ => ?_⟩
  have hl₁ := (seatRules_stable (LoadedBut i.instanceId)).interferes hl hint trivial
  rcases answer with ⟨failures, _ | e⟩
  · exact hfail _ hl₁
  · exact hfail _ hl₁

theorem mount_loaded (entry : PluginEntry) (resolved : Dict String CapabilityRegistration)
    (supersede : Bool) (hl : Loaded h.plugins.instances) :
    (mount entry resolved supersede).wp seatRules (fun _ _ h' => Loaded h'.plugins.instances) h := by
  unfold mount
  rw [Prog.wp_gets_bind]
  split
  · exact hl
  · generalize Harness.newInstance (id h) entry resolved = i
    unfold runSetup
    refine Prog.wp_modify_bind.2 (Prog.wp_perform_bind.2
      ⟨trivial, fun h₁ hint _ answer _ => Prog.wp_modify_bind.2 ?_⟩)
    have hl₁ : LoadedBut i.instanceId (h₁.afterSetup i answer).plugins.instances := by
      rw [(h₁.afterSetup_sameHoldings i answer).instances]
      exact (seatRules_stable (LoadedBut i.instanceId)).interferes
        (h := h.adopt i) (PluginRegistry.loadedBut_adopt hl i) hint trivial
    cases answer.raised with
    | some error =>
      refine Prog.wp_bind_of (rollbackMount_loaded hl₁) (fun tr failures h₂ hl₂ => ?_)
        (fun _ _ _ hl₂ => hl₂)
      show (if error.kind.isException then _ else _ : Task PluginInstance).wp seatRules _ h₂
      split
      · exact hl₂
      · exact hl₂
    | none => exact PluginRegistry.loaded_settle hl₁ fun _ => by simp

theorem mountEntry_loaded (plan : ResolutionPlan) (entry : PluginEntry)
    (identity : SemanticIdentity) (existing : Option PluginInstance)
    (hl : Loaded h.plugins.instances) : (mountEntry plan entry identity existing).wp seatRules
      (fun _ _ h' => Loaded h'.plugins.instances) h := by
  have hst := seatRules_stable Loaded
  refine Prog.wp_bind_of (observed_inv hst _ hl) (fun _ _ h₁ hl₁ => ?_) (fun _ _ _ hl' => hl')
  rw [Prog.wp_gets_bind]
  refine Prog.wp_bind_of (mount_loaded entry _ _ hl₁) (fun _ i h₂ hl₂ => ?_) (fun _ _ _ hl' => hl')
  rw [Prog.wp_modify_bind]
  have hl₃ := PluginRegistry.loaded_update (r := h₂.plugins) hl₂ i.instanceId
    (f := fun x => { x with semanticIdentity := some identity }) fun _ hx => hx
  exact Prog.wp_bind_of (observed_inv hst _ hl₃) (fun _ _ _ hl' => hl') (fun _ _ _ hl' => hl')

theorem materializeEntry_loaded (plan : ResolutionPlan) (p : Progress) (entryId : String)
    (hl : Loaded h.plugins.instances) : (materializeEntry plan p entryId).wp seatRules
      (fun _ _ h' => Loaded h'.plugins.instances) h := by
  have hmount : ∀ entry identity existing h₁, Loaded (Harness.plugins h₁).instances → (do
      let i ← mountEntry plan entry identity existing
      return ⟨p.ordered ++ [i], p.identities.set entryId identity⟩ : Task Progress).wp seatRules
      (fun _ _ h' => Loaded h'.plugins.instances) h₁ := by
    intro entry identity existing h₁ hl₁
    exact Prog.wp_bind_of (mountEntry_loaded plan entry identity existing hl₁)
      (fun _ _ _ hl' => hl') (fun _ _ _ hl' => hl')
  unfold materializeEntry
  rw [Prog.wp_gets_bind]
  split
  · exact hl
  · refine Prog.wp_ofExcept_bind (fun identity _ => ?_) fun _ _ => hl
    split
    · exact hl
    · simp only
      split
      · exact Prog.wp_bind_of (disposeInstance_inv (loaded_disposable _) hl)
          (fun _ _ h' hl' => hmount _ _ _ h' hl') (fun _ _ _ hl' => hl')
      · exact hmount _ _ _ h hl

/-! ## the jobs -/

theorem assemble_loaded (plan : ResolutionPlan) (hl : Loaded h.plugins.instances) :
    (assemble plan).wp seatRules (fun _ _ h' => Loaded h'.plugins.instances) h := by
  have hloop : (plan.activationOrder.foldlM (materializeEntry plan) {}).wp seatRules
      (Prog.ends (fun _ h' => Loaded h'.plugins.instances) fun h' => Loaded h'.plugins.instances)
      h := by
    refine Prog.wp_foldlM_ends (A := fun _ h' => Loaded (Harness.plugins h').instances)
      (fun p entryId h hl => ?_) hl
    refine Prog.wp_mono (materializeEntry_loaded plan p entryId hl) fun _ r _ hl' => ?_
    cases r <;> exact hl'
  have hall : (materialize plan).wp seatRules (fun _ _ h' => Loaded h'.plugins.instances) h :=
    Prog.wp_bind_of hloop (fun _ _ _ hl' => hl') (fun _ _ _ hl' => hl')
  refine Prog.wp_bind_of hall (fun _ instances h₁ hl₁ => ?_) (fun _ _ _ hl' => hl')
  refine Prog.wp_ofExcept_bind (s := h₁) (fun _ _ => ?_) (fun _ _ => hl₁)
  exact Prog.wp_ofExcept_bind (s := h₁) (fun _ _ => hl₁) (fun _ _ => hl₁)

theorem rollback_loaded (e : Err) (hl : Loaded h.plugins.instances) :
    (rollback e).wp seatRules (fun _ _ h' => Loaded h'.plugins.instances) h := by
  unfold rollback
  rw [Prog.wp_gets_bind]
  refine Prog.wp_bind_of (P := fun _ _ h' => Loaded h'.plugins.instances)
    (disposeAll_inv loaded_disposable _ hl) (fun _ _ h' hl' => ?_) (fun _ _ _ hl' => hl')
  split
  · exact hl'
  · exact hl'

theorem stage_loaded (hl : Loaded h.plugins.instances) :
    stage.wp seatRules (fun _ _ h' => Loaded h'.plugins.instances) h := by
  refine Prog.wp_bind_of (P := fun _ _ h' => Loaded h'.plugins.instances) ?_
    (fun _ _ h₁ hl₁ => ?_) (fun _ _ _ hl' => hl')
  · unfold requireComposable
    rw [Prog.wp_gets_bind]
    split
    · exact hl
    · exact hl
  · rw [Prog.wp_gets_bind]
    refine Prog.wp_ofExcept_bind (s := h₁) (fun plan _ => ?_) (fun _ _ => hl₁)
    refine Prog.wp_ofExcept_bind (s := h₁) (fun _ _ => ?_) (fun _ _ => hl₁)
    refine Prog.wp_tryCatch.2 (Prog.wp_mono (assemble_loaded plan hl₁) fun _ r h₂ hl₂ => ?_)
    cases r with
    | ok c => exact hl₂
    | error e => exact rollback_loaded e hl₂

theorem reclaim_loaded (hl : Loaded h.plugins.instances) :
    reclaim.wp seatRules (fun _ _ h' => Loaded h'.plugins.instances) h := by
  have hclear : Clearing seatRules fun h => Loaded h.plugins.instances :=
    { seatRules_stable Loaded with
      disposable := loaded_disposable
      retire := fun _ hl => hl
      refresh := by
        intro h hl k i hi
        rw [h.get?_refreshReferences k] at hi
        obtain ⟨x, hx, rfl⟩ := Option.map_eq_some_iff.1 hi
        exact hl k x hx }
  exact reclaim_inv hclear hl

theorem enact_loaded (c : Candidate) (hl : Loaded h.plugins.instances) :
    (enact c).wp seatRules (fun _ _ h' => Loaded h'.plugins.instances) h := by
  unfold enact
  cases c.reuse with
  | some g => exact hl
  | none =>
    show (publishCandidate c).wp seatRules _ h
    unfold publishCandidate
    rw [Prog.wp_gets_bind]
    refine Prog.wp_ofExcept_bind (fun p _ => ?_) fun _ _ => hl
    rw [Prog.wp_modify_bind]
    exact Prog.wp_bind_of (announce_inv (seatRules_stable Loaded) _ _ hl)
      (fun _ _ _ hl' => hl') (fun _ _ _ hl' => hl')

/-- **No job leaves a loading plugin behind**, whether it succeeds or raises. -/
theorem job_loaded (j : Job) (hl : Loaded h.plugins.instances) :
    j.program.wp seatRules (fun _ _ h' => Loaded h'.plugins.instances) h := by
  cases j with
  | reconcile =>
    refine Prog.wp_bind_of (P := fun _ _ h' => Loaded h'.plugins.instances) ?_
      (fun _ _ _ hl' => hl') (fun _ _ _ hl' => hl')
    refine Prog.wp_bind_of (stage_loaded hl) (fun _ c h₁ hl₁ => ?_) (fun _ _ _ hl' => hl')
    refine Prog.wp_bind_of (enact_loaded c hl₁) (fun _ g h₂ hl₂ => ?_) (fun _ _ _ hl' => hl')
    exact Prog.wp_bind_of (reclaim_loaded hl₂) (fun _ _ _ hl' => hl') (fun _ _ _ hl' => hl')
  | reclaimAfterDrain =>
    show reclaimAfterDrain.wp seatRules _ h
    unfold reclaimAfterDrain
    rw [Prog.wp_gets_bind]
    split
    · exact hl
    · rw [Prog.wp_modify_bind]
      exact Prog.wp_bind_of (reclaim_loaded hl) (fun _ _ _ hl' => hl') (fun _ _ _ hl' => hl')

/-- Whenever nobody composes, every plugin that is mounted is through with its `setup`. -/
theorem loaded_run {acts : Harness → Harness → Prop}
    (hacts : ∀ h h', acts h h' → h'.plugins.instances = h.plugins.instances)
    {h₀ : Harness} (h₀l : Loaded h₀.plugins.instances)
    {history : List (Event Job Err × HarnessConfig)} {c : HarnessConfig}
    (hrun : Run acts Job.program ⟨h₀, none⟩ history c) (hidle : c.running = none) :
    Loaded c.state.plugins.instances := by
  have hm : Monitored seatRules acts Job.program (fun h => Loaded h.plugins.instances)
      (fun _ _ h => Loaded h.plugins.instances) :=
    { refl := fun _ => rfl
      trans := fun s s' s'' hint _ hact => (hacts s' s'' hact).trans hint
      admits := fun _ _ _ => trivial
      idle := fun s s' hl hact => (seatRules_stable Loaded).interferes hl (hacts s s' hact) trivial
      held := fun _ _ _ _ => trivial
      job := fun j _ hl => job_loaded j hl }
  have hsound := hm.run h₀l hrun fun _ _ _ _ hl => hl
  unfold Config.Sound at hsound
  rw [hidle] at hsound
  exact hsound

end
end Chassis
