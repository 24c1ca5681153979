import Chassis.Capabilities.Plain
import Chassis.Harness.Guarding

/-!
# No instance is disposed that a run may use

* `leaseRules`         others leave the instances alone, and of the generations change leases only;
* `Acts.safe`          so they do, and keep the leases accounted for;
* `stage_safe`, `job_safe`   every program of the control plane keeps `Safe`;
* `leased_instances_active`   so in every run the instances of the current generation, and of every
                       generation a lease is held of, are active.
-/

set_option linter.unusedSectionVars false

namespace Chassis
open Py Coop

section
variable [Packaging] [Platform]

def leaseRules : Rules Harness Operation Answer where
  interferes := Undisturbed
  admits := fun _ _ => True
  holds := Harness.Safe

theorem wp_leaseRules {α : Type} {p : Task α} {h : Harness}
    {Q : Trace Operation Answer → Except Err α → Harness → Prop}
    (hp : p.wp (upheldRules fun _ => True) Q h) : p.wp leaseRules Q h :=
  Prog.wp_stricter hp (fun _ _ u => u) (fun _ _ ha => ha) fun _ => (and_iff_left trivial).symm

section
variable {h : Harness}

/-- **Staging**: it ends with a candidate all of whose instances are active, or has undone itself;
whatever is published stays as it was. -/
theorem stage_safe (hs : h.Safe) : stage.wp leaseRules (Prog.ends (fun c =>
      Guarded (c.instances.map PluginInstance.instanceId) []) Harness.Safe) h := by
  refine wp_leaseRules (Prog.wp_mono (stage_keeps extra_nothing ⟨hs, trivial⟩) fun tr r h' hr => ?_)
  cases r with
  | ok c => exact hr.1
  | error e => exact hr.1

theorem job_safe (j : Job) (hs : h.Safe) :
    j.program.wp leaseRules (fun _ _ h' => h'.Safe) h :=
  wp_leaseRules (Prog.wp_mono (job_keeps extra_nothing (fun _ _ => trivial) j ⟨hs, trivial⟩)
    fun _ _ _ hs' => hs'.1)

end

/-! ## what the others do -/

section
variable {h h' : Harness}

theorem SameRuntime.acts (a : SameRuntime h h') (hs : h.Safe) : h'.Safe ∧ Undisturbed h h' :=
  ⟨hs.of_same a.sameHoldings, a.sameHoldings.undisturbed⟩

theorem LeaseAct.acts (ha : LeaseAct h h') (hs : h.Safe) : h'.Safe ∧ Undisturbed h h' := by
  have hkeep : ∀ m runs, m.Accounted runs → m.footprint = h.generations.footprint →
      Harness.Safe { h with generations := m, runs := runs } ∧
        Undisturbed h { h with generations := m, runs := runs } := by
    intro m runs hacc hfoot
    refine ⟨{ hs with accounted := hacc, reached := fun id hid => hs.reached id ?_ },
      ⟨rfl, le_refl _, hfoot, rfl⟩⟩
    have hid := GenerationManager.mem_reachable_footprint.1 hid
    rw [hfoot] at hid
    exact GenerationManager.mem_reachable_footprint.2 hid
  cases ha with
  | acquire ha =>
    obtain ⟨lease, m, hok, rfl⟩ := Harness.acquire_ok ha
    exact hkeep _ _ (GenerationManager.acquireLease_accounted hs.accounted hok)
      (GenerationManager.acquireLease_footprint hok)
  | release n hr =>
    rcases Harness.release_ok hr with rfl | ⟨lease, idle, m, hl, hok, rfl⟩
    · exact (SameRuntime.refl h').acts hs
    · obtain ⟨hacc, hfoot⟩ := GenerationManager.releaseLease_accounted hs.accounted hl hok
      exact hkeep _ _ hacc hfoot

/-- **What the others do** keeps the leases accounted for, and disposes nothing. -/
theorem Acts.safe (ha : Acts h h') (hs : h.Safe) : h'.Safe ∧ Undisturbed h h' := by
  cases ha with
  | desired ha => exact ha.sameRuntime.acts hs
  | lease ha => exact ha.acts hs
  | start =>
    unfold Harness.start
    split
    · have hsame : SameHoldings h { h with state := .running } := ⟨rfl, rfl, rfl, rfl, le_refl _⟩
      exact ⟨hs.of_same hsame, hsame.undisturbed⟩
    · exact (SameRuntime.refl h).acts hs
  | learn secrets =>
    have hsame := h.learn_sameHoldings secrets
    exact ⟨hs.of_same hsame, hsame.undisturbed⟩

theorem Fresh.safe (hf : Fresh h) : h.Safe where
  accounted := by
    rw [hf.generations, hf.noRuns]
    exact GenerationManager.empty_accounted _
  keyed := by
    intro k i hi
    rw [hf.plugins] at hi
    cases hi
  drawn := by
    intro k i hi
    rw [hf.plugins] at hi
    cases hi
  reached := by
    intro id hid
    rw [hf.generations] at hid
    cases hid

end

/-! ## the result -/

theorem leases_monitored : Monitored leaseRules Acts Job.program Harness.Safe
    (fun _ _ h => h.Safe) where
  refl := fun h => (SameRuntime.refl h).sameHoldings.undisturbed
  trans := fun _ _ _ u hs ha => Undisturbed.trans u (ha.safe hs).2
  admits := fun _ _ _ => trivial
  idle := fun _ _ hs ha => (ha.safe hs).1
  held := fun _ _ hs ha => (ha.safe hs).1
  job := fun j _ hs => job_safe j hs

theorem HarnessRun.safe {h : Harness} {history : List (Event Job Err × HarnessConfig)}
    {c : HarnessConfig} (hrun : HarnessRun h history c) : c.state.Safe := by
  have hsound := leases_monitored.run hrun.1.safe hrun.2 fun _ _ _ _ hs => hs
  unfold Config.Sound at hsound
  split at hsound
  · exact hsound
  · exact hsound.1

/-- **No disposal under a lease.**  Whatever the interleaving of runs, reconciles, reclamations and
changes of the desired state: the instances of the current generation, of those that drain, and of
every generation a lease is held of, are in the registry and active. -/
theorem leased_instances_active {h : Harness} {history : List (Event Job Err × HarnessConfig)}
    {c : HarnessConfig} (hrun : HarnessRun h history c) :
    (∀ g ∈ c.state.generations.live, ∀ i ∈ g.instances, c.state.Active i.instanceId) ∧
      (∀ l ∈ c.state.runs, ∀ i ∈ l.generation.instances, c.state.Active i.instanceId) := by
  have hs := hrun.safe
  have hlive : ∀ g ∈ c.state.generations.live, ∀ i ∈ g.instances,
      c.state.Active i.instanceId := by
    intro g hg i hi
    exact hs.reached _ (GenerationManager.mem_reachable.2 ⟨g, hg, List.mem_map_of_mem hi⟩)
  refine ⟨hlive, fun l hl i hi => ?_⟩
  obtain ⟨g, hg, -, hinst, -⟩ := hs.accounted.held l hl
  rw [← hinst] at hi
  exact hlive g hg i hi

end

section
open scoped Plain

/-- a plugin is mounted, a run takes a lease, and the plugin is replaced under it -/
def upgraded : HarnessCourse :=
  play [.install (plainPlugin "a" [("db", "1.0.0")] [] []), .start .reconcile, .resume honest,
    .acquire, .install (plainPlugin "a" [("db", "1.1.0")] [] []), .start .reconcile,
    .resume honest]

theorem leased_instances_active_upgraded :
    upgraded.config.state.generations.live.map RuntimeGeneration.instanceIds =
        [["plugin_0003"], ["plugin_0000"]] ∧
      upgraded.config.state.runs.map (fun l => l.generation.instanceIds) = [["plugin_0000"]] ∧
      (∀ g ∈ upgraded.config.state.generations.live, ∀ i ∈ g.instances,
        upgraded.config.state.Active i.instanceId) ∧
      (∀ l ∈ upgraded.config.state.runs, ∀ i ∈ l.generation.instances,
        upgraded.config.state.Active i.instanceId) :=
  ⟨by decide +kernel, by decide +kernel, leased_instances_active (play_run _)⟩

end

end Chassis
