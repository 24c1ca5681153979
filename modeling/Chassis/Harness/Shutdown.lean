import Chassis.Capabilities.Plain
import Chassis.Harness.Effects
import Chassis.Harness.Seating
import Chassis.Harness.Teardown

/-!
# Shutdown

* `Harness.stop`, `shutdown`, `runShutdown`   the synchronous start of a shutdown, and its one run;
* `Spares h h'`       what the others may do while it waits;
* `retireAll_effect`  every live generation retires, whatever leases remain;
* `disposals_effect`  every instance of a list is disposed, but for those whose first dispatch is
                      cut short;
* `ShutDown h h'`     nothing is mounted any more, and whatever was live has retired;
* `shutdown_complete_iff`   **a shutdown is complete** exactly when none of its dispatches before a
                      disposal is cut short.
-/

set_option linter.unusedSectionVars false

namespace Chassis
open Py Coop

/-! ## the generations of a harness that shuts down -/

namespace GenerationManager
variable (m : GenerationManager)

/-- `begin_shutdown`: the current generation drains, and no other becomes current -/
def beginShutdown : GenerationManager :=
  { m with
    current := none
    draining := m.draining ++ (m.current.map fun g => { g with state := .draining }).toList }

/-- `retire`, after `begin_shutdown`: leases do not matter any more -/
def retireAtShutdown (g : RuntimeGeneration) : Except Err GenerationManager :=
  match g.state with
  | .retired => .ok m
  | .active => .error (GenerationConflictError
      "cannot retire the current generation while it is active"
      [("generation_id", g.generationId)])
  | _ =>
    let retired := m.retired ++ [{ g with state := .retired }]
    let overflow := retired.length - m.historyLimit
    .ok { m with
      draining := m.draining.filter (fun d => d.generationId ≠ g.generationId)
      retired := retired.drop overflow
      evicted := m.evicted + overflow }

end GenerationManager

/-! ## the run -/

/-- what a shutdown waits for besides: that the runs in progress end, or the grace period, and that
the harness' own scope closes -/
inductive Wait
  | drain
  | ownScope

def Wait.Answer : Wait → Type
  | .drain => Unit
  | .ownScope => CloseAnswer

abbrev Closing := Prog Harness (Operation ⊕ Wait) (Sum.elim Answer Wait.Answer) Err

def shutdownPayload (g : RuntimeGeneration) : List (String × Value) :=
  generationPayload g ++ [("successor", .none), ("leases", .int g.leases), ("shutdown", .bool true)]

/-- the failure that runs in progress are recorded as -/
def overdue (grace : String) (g : RuntimeGeneration) : CleanupFailure where
  description := "generation " ++ g.generationId
  kind := .TimeoutError
  message := toString g.leases ++ " run(s) still active after " ++ grace ++ "s; retiring anyway"

/-- records some failures, and retires a generation -/
def retireReporting (failures : List CleanupFailure) (g : RuntimeGeneration) : Closing Unit := do
  Prog.modify fun h => h.note failures
  let m ← Prog.gets fun h => h.generations
  let m ← Prog.ofExcept (m.retireAtShutdown g)
  Prog.modify fun h => { h with generations := m }

section
variable [Packaging] [Platform]

/-- the last-resort net: no single instance aborts the loop -/
def disposeCaught (i : PluginInstance) : Closing Unit :=
  Prog.tryCatch (disposeInstance i).embed fun e =>
    Prog.modify fun h => h.note [e.recorded ("dispose of " ++ quoted i.manifest.name)]

/-- the current generation is about to drain -/
def announceShutdown : Closing Unit := do
  let current ← Prog.gets fun h => h.generations.current
  match current with
  | some g => (observed ⟨.generationDraining, shutdownPayload g⟩).embed
  | none => pure ()

/-- every generation retires: those that are idle, and then those that are not -/
def retireAll (grace : String) : Closing Unit := do
  Prog.modify fun h => { h with generations := h.generations.beginShutdown }
  let _ ← Prog.perform (Sum.inr Wait.drain)
  let draining ← Prog.gets fun h => h.generations.draining
  (draining.filter (fun g => g.leases = 0)).forM (retireReporting [])
  (draining.filter (fun g => 0 < g.leases)).forM fun g => retireReporting [overdue grace g] g

/-- `await self._scope.aclose()`, whose cleanup failures are recorded -/
def closeOwnScope : Closing Unit := do
  let answer : CloseAnswer ← Prog.perform (Sum.inr Wait.ownScope)
  match answer.cancelled with
  | some e => .raise e
  | none => Prog.modify fun h => h.note answer.failures

def shutdown (grace : String) : Closing Unit := do
  announceShutdown
  retireAll grace
  Prog.modify Harness.refreshReferences
  let order ← Prog.gets fun h => h.teardownOrder h.plugins.sortedInstances
  order.forM disposeCaught
  closeOwnScope

/-- `_run_shutdown`, under the composition lock: however it ends, the harness is stopped -/
def runShutdown (grace : String) : Closing Unit := do
  Prog.modify fun h => { h with state := .stopping, work := {} }
  Prog.tryCatch (shutdown grace) fun e => do
    Prog.modify fun h => { h with
      lastFailures := h.work.failures ++ [e.recorded "shutdown"], state := .stopped }
    .raise e
  Prog.modify fun h => { h with state := .stopped, lastFailures := h.work.failures }
  let h ← Prog.gets id
  if h.work.failures = [] then return ()
  else .raise (EffectCleanupError h.name h.work.failures)

end

/-- the synchronous part of `stop` -/
def Harness.stop (h : Harness) : Harness := { h with state := .stopping }

/-! ## what the others may do meanwhile -/

def RuntimeGeneration.standing (g : RuntimeGeneration) : Nat × String × GenerationState :=
  (g.sequence, g.generationId, g.state)

/-- the same generations, but for their leases -/
structure SameStanding (m m' : GenerationManager) : Prop where
  current : m'.current.map RuntimeGeneration.standing = m.current.map RuntimeGeneration.standing
  draining : m'.draining.map RuntimeGeneration.standing = m.draining.map RuntimeGeneration.standing
  retired : m'.retired.map RuntimeGeneration.standing = m.retired.map RuntimeGeneration.standing
  evicted : m'.evicted = m.evicted

theorem SameStanding.refl (m : GenerationManager) : SameStanding m m := ⟨rfl, rfl, rfl, rfl⟩

theorem SameStanding.trans {m m' m'' : GenerationManager} (a : SameStanding m m')
    (b : SameStanding m' m'') : SameStanding m m'' :=
  ⟨b.current.trans a.current, b.draining.trans a.draining, b.retired.trans a.retired,
    b.evicted.trans a.evicted⟩

/-- what is mounted and registered is left alone, and of the generations all but the leases -/
structure Spares (h h' : Harness) : Prop where
  instances : h'.plugins.instances = h.plugins.instances
  capabilities : h'.capabilities = h.capabilities
  tools : h'.tools = h.tools
  hooks : h'.hooks = h.hooks
  generations : SameStanding h.generations h'.generations

theorem Spares.refl (h : Harness) : Spares h h := ⟨rfl, rfl, rfl, rfl, .refl _⟩

theorem Spares.trans {h h' h'' : Harness} (a : Spares h h') (b : Spares h' h'') : Spares h h'' :=
  ⟨b.instances.trans a.instances, b.capabilities.trans a.capabilities, b.tools.trans a.tools,
    b.hooks.trans a.hooks, a.generations.trans b.generations⟩

/-! ## the trace of a shutdown -/

abbrev ClosingTrace := Trace (Operation ⊕ Wait) (Sum.elim Answer Wait.Answer)

/-- the dispatch that an answer aborts -/
def cut : ((l : Operation ⊕ Wait) × Sum.elim Answer Wait.Answer l) → Option Dispatch
  | ⟨.inl l, answer⟩ => aborted ⟨l, answer⟩
  | ⟨.inr _, _⟩ => none

/-- the dispatches that are cut short -/
def cuts (tr : ClosingTrace) : List Dispatch := tr.filterMap cut

theorem cuts_append (tr tr' : ClosingTrace) : cuts (tr ++ tr') = cuts tr ++ cuts tr' :=
  List.filterMap_append

theorem cuts_embed (tr : Trace Operation Answer) : cuts tr.embed = aborts tr := by
  show (tr.map _).filterMap cut = tr.filterMap aborted
  rw [List.filterMap_map]
  rfl

/-- others do what `Spares` lets them do -/
def closingRules : Rules Harness (Operation ⊕ Wait) (Sum.elim Answer Wait.Answer) where
  interferes := Spares
  admits := fun _ _ => True
  holds := fun _ => True

/-! ## the generations retire -/

namespace GenerationManager

/-- the generations of `l` retired, in this order -/
structure Retires (m : GenerationManager) (l : List RuntimeGeneration) (m' : GenerationManager) :
    Prop where
  current : m'.current = m.current
  draining : m'.draining =
    m.draining.filter fun d => d.generationId ∉ l.map RuntimeGeneration.generationId
  history : ∃ k ≤ m.retired.length + l.length, m'.evicted = m.evicted + k ∧ m'.retired =
    (m.retired ++ l.map fun g : RuntimeGeneration => { g with state := .retired }).drop k

theorem Retires.nil (m : GenerationManager) : Retires m [] m where
  current := rfl
  draining := by simp
  history := ⟨0, Nat.zero_le _, rfl, by simp⟩

theorem Retires.append {m m' m'' : GenerationManager} {l l' : List RuntimeGeneration}
    (a : Retires m l m') (b : Retires m' l' m'') : Retires m (l ++ l') m'' where
  current := b.current.trans a.current
  draining := by
    rw [b.draining, a.draining, List.filter_filter]
    refine List.filter_congr fun d _ => ?_
    simp only [List.map_append, List.mem_append, not_or, Bool.decide_and, Bool.and_comm]
  history := by
    obtain ⟨k, hk, hev, hret⟩ := a.history
    obtain ⟨k', hk', hev', hret'⟩ := b.history
    have hlen : m'.retired.length = m.retired.length + l.length - k := by
      rw [hret, List.length_drop, List.length_append, List.length_map]
    refine ⟨k + k', ?_, ?_, ?_⟩
    · rw [List.length_append]
      omega
    · omega
    · rw [hret', hret, List.map_append, ← List.append_assoc, ← List.drop_drop]
      refine congrArg (List.drop k') (List.drop_append_of_le_length ?_).symm
      rw [List.length_append, List.length_map]
      exact hk

/-- **A draining generation retires**, whatever leases it has. -/
theorem retireAtShutdown_ok (m : GenerationManager) {g : RuntimeGeneration}
    (hg : g.state = .draining) : ∃ m', m.retireAtShutdown g = .ok m' ∧ Retires m [g] m' := by
  unfold retireAtShutdown
  rw [hg]
  refine ⟨_, rfl, rfl, ?_, _, ?_, rfl, rfl⟩
  · simp
  · simp

end GenerationManager

/-- **A loop of retirements** ends well, without a wait. -/
theorem retirements_effect (failures : RuntimeGeneration → List CleanupFailure)
    (l : List RuntimeGeneration) (hl : ∀ g ∈ l, g.state = .draining) (h : Harness) :
    (l.forM fun g => retireReporting (failures g) g).wp closingRules (fun tr r h' => tr = [] ∧
      r = .ok ⟨⟩ ∧ ∃ recorded m, h' = { h.note recorded with generations := m } ∧
        h.generations.Retires l m) h := by
  induction l generalizing h with
  | nil =>
    refine ⟨rfl, rfl, [], h.generations, ?_, .nil _⟩
    show h = { h with work := { h.work with failures := h.work.failures ++ [] } }
    rw [List.append_nil]
  | cons g l ih =>
    obtain ⟨m, hok, hm⟩ := h.generations.retireAtShutdown_ok (hl g List.mem_cons_self)
    show (retireReporting (failures g) g >>= fun _ => _ : Closing PUnit).wp closingRules _ h
    have hone : (retireReporting (failures g) g).wp closingRules (fun tr r h' => tr = [] ∧
        r = .ok () ∧ h' = { h.note (failures g) with generations := m }) h := by
      unfold retireReporting
      rw [Prog.wp_modify_bind, Prog.wp_gets_bind]
      show (Prog.ofExcept (h.generations.retireAtShutdown g) >>= _ : Closing Unit).wp _ _ _
      rw [hok]
      exact ⟨rfl, rfl, rfl⟩
    refine Prog.wp_bind_of hone ?_ ?_
    · rintro tr _ h₁ ⟨rfl, -, rfl⟩
      refine Prog.wp_mono (ih (fun x hx => hl x (List.mem_cons_of_mem _ hx)) _) ?_
      rintro tr' r h₂ ⟨rfl, rfl, recorded, m', rfl, hm'⟩
      refine ⟨rfl, rfl, failures g ++ recorded, m', ?_, hm.append hm'⟩
      simp only [Harness.note, List.append_assoc]
    · rintro tr e h₁ ⟨-, hr, -⟩
      cases hr

/-! ## the instances are disposed -/

section
variable [Packaging] [Platform]

theorem Spares.disposed {h h' : Harness} (a : Spares h h') (i : PluginInstance) :
    Spares (h.disposed i) (h'.disposed i) where
  instances := by
    show (h'.plugins.forget i).instances = (h.plugins.forget i).instances
    unfold PluginRegistry.forget
    rw [a.instances]
  capabilities := congrArg (fun o => o.closeScope i.scopeId) a.capabilities
  tools := congrArg (fun o => o.closeScope i.scopeId) a.tools
  hooks := congrArg (fun o => o.closeScope i.scopeId) a.hooks
  generations := a.generations

theorem spares_framed : Framed closingRules.part Spares where
  free := fun _ => trivial
  refl := .refl
  trans := .trans
  interferes := fun a => a
  learn := fun _ _ => ⟨rfl, rfl, rfl, rfl, .refl _⟩
  note := fun _ _ => ⟨rfl, rfl, rfl, rfl, .refl _⟩
  instances := Spares.instances
  disposed := fun i a => a.disposed i

/-- What a loop of disposals comes to: `done` are the instances it disposed, and it misses one
exactly when a first dispatch is cut short. -/
structure Disposals (h : Harness) (l : List PluginInstance) (tr : ClosingTrace) (h' : Harness)
    (done : List PluginInstance) : Prop where
  sub : done.Sublist l
  left : Spares (done.foldl Harness.disposed h) h'
  dispatches : ∀ d ∈ cuts tr, d.event ≠ .generationDraining
  all : done = l ↔ ∀ d ∈ cuts tr, d.event ≠ .pluginUnmounting

/-- an instance is disposed, unless its first dispatch is cut short -/
theorem disposeCaught_effect (i : PluginInstance) {h h₀ : Harness} (ho : Spares h₀ h)
    (hi : Disposes h₀ i) : (disposeCaught i).wp closingRules (fun tr r h' => r = .ok () ∧
      ((cuts tr = [unmounting i] ∧ Spares h₀ h') ∨
        ((cuts tr = [] ∨ cuts tr = [unmounted i]) ∧ Spares (h₀.disposed i) h'))) h := by
  obtain ⟨live, hlive, hrefs, hstate⟩ := hi
  refine Prog.wp_tryCatch.2 (Prog.wp_embed.2 (Prog.wp_mono
    (disposeInstance_effect spares_framed i ho hlive hrefs hstate) fun tr r h' hr => ?_))
  cases r with
  | ok _ => exact ⟨rfl, Or.inr ⟨Or.inl ((cuts_embed tr).trans hr.1), hr.2⟩⟩
  | error e =>
    have hnoted : ∀ {h₁}, Spares h₁ h' → Spares h₁ (h'.note
        [e.recorded ("dispose of " ++ quoted i.manifest.name)]) :=
      fun ho => ho.trans ⟨rfl, rfl, rfl, rfl, .refl _⟩
    have hcuts : cuts (tr.embed ++ []) = aborts tr := by
      rw [List.append_nil, cuts_embed]
    show Except.ok () = _ ∧ ((cuts (tr.embed ++ []) = _ ∧ _) ∨ _)
    rw [hcuts]
    rcases hr with ⟨htr, hr⟩ | ⟨htr, hr⟩
    · exact ⟨rfl, Or.inl ⟨htr, hnoted hr⟩⟩
    · exact ⟨rfl, Or.inr ⟨Or.inr htr, hnoted hr⟩⟩

/-- **The loop of disposals** goes through the whole list. -/
theorem disposals_effect (l : List PluginInstance) {h h₀ : Harness} (ho : Spares h₀ h)
    (hl : ∀ i ∈ l, Disposes h₀ i) (hnodup : (l.map PluginInstance.instanceId).Nodup) :
    (l.forM disposeCaught).wp closingRules (fun tr r h' => r = .ok ⟨⟩ ∧
      ∃ done, Disposals h₀ l tr h' done) h := by
  induction l generalizing h h₀ with
  | nil =>
    refine ⟨rfl, [], .slnil, ho, fun d hd => (nomatch hd), ?_⟩
    exact ⟨fun _ d hd => (nomatch hd), fun _ => rfl⟩
  | cons i l ih =>
    obtain ⟨hnew, hnodup⟩ := List.nodup_cons.1 hnodup
    have hother : ∀ j ∈ l, Disposes h₀ j := fun j hj => hl j (List.mem_cons_of_mem _ hj)
    have hrest : ∀ j ∈ l, Disposes (h₀.disposed i) j := by
      intro j hj
      obtain ⟨live, hlive, hok⟩ := hother j hj
      refine ⟨live, ?_, hok⟩
      rw [Harness.disposed_get?, if_neg, hlive]
      intro he
      exact hnew (he ▸ List.mem_map_of_mem hj)
    show (disposeCaught i >>= fun _ => l.forM disposeCaught : Closing PUnit).wp closingRules _ h
    refine Prog.wp_bind_of (disposeCaught_effect i ho (hl i List.mem_cons_self)) ?_ ?_
    · rintro tr _ h₁ ⟨-, ⟨hcut, ho₁⟩ | ⟨hcut, ho₁⟩⟩
      · -- the instance stays, and the loop goes on
        refine Prog.wp_mono (ih ho₁ hother hnodup) ?_
        rintro tr' r h₂ ⟨rfl, done, hd⟩
        have hcuts : cuts (tr ++ tr') = unmounting i :: cuts tr' := by
          rw [cuts_append, hcut]
          rfl
        refine ⟨rfl, done, .cons i hd.sub, hd.left, ?_, ?_⟩
        · rw [hcuts]
          intro d hin
          rcases List.mem_cons.1 hin with rfl | hin
          · exact fun he => (nomatch he)
          · exact hd.dispatches d hin
        · rw [hcuts]
          constructor
          · intro he
            have hlen := hd.sub.length_le
            rw [he, List.length_cons] at hlen
            omega
          · intro hall
            exact absurd rfl (hall _ List.mem_cons_self)
      · refine Prog.wp_mono (ih ho₁ hrest hnodup) ?_
        rintro tr' r h₂ ⟨rfl, done, hd⟩
        have hfirst : ∀ d ∈ cuts tr, d = unmounted i := by
          intro d hin
          rcases hcut with hcut | hcut
          · rw [hcut] at hin
            cases hin
          · rw [hcut] at hin
            exact List.mem_singleton.1 hin
        have hmem : ∀ d, d ∈ cuts (tr ++ tr') ↔ d ∈ cuts tr ∨ d ∈ cuts tr' := by
          intro d
          rw [cuts_append, List.mem_append]
        refine ⟨rfl, i :: done, .cons_cons i hd.sub, hd.left, fun d hin => ?_, ?_⟩
        · rcases (hmem d).1 hin with hin | hin
          · rw [hfirst d hin]
            exact fun he => (nomatch he)
          · exact hd.dispatches d hin
        · rw [List.cons.injEq, and_iff_right rfl, hd.all]
          constructor
          · intro hall d hin
            rcases (hmem d).1 hin with hin | hin
            · rw [hfirst d hin]
              exact fun he => (nomatch he)
            · exact hall d hin
          · exact fun hall d hin => hall d ((hmem d).2 (Or.inr hin))
    · rintro tr e h₁ ⟨hr, -⟩
      cases hr

end

/-! ## all generations retire -/

def RuntimeGeneration.standingRetired (g : RuntimeGeneration) : Nat × String × GenerationState :=
  (g.sequence, g.generationId, .retired)

theorem map_standingRetired (l : List RuntimeGeneration) :
    l.map RuntimeGeneration.standingRetired =
      (l.map RuntimeGeneration.standing).map fun s => (s.1, s.2.1, .retired) := by
  rw [List.map_map]
  rfl

/-- Whatever was live in `m` has retired in `m'`; the history keeps the newest. -/
structure RetiredAll (m m' : GenerationManager) : Prop where
  live : m'.live = []
  history : ∃ order k, order.Perm (m.live.map RuntimeGeneration.standingRetired) ∧
    k ≤ m.retired.length + order.length ∧ m'.evicted = m.evicted + k ∧
    m'.retired.map RuntimeGeneration.standing =
      (m.retired.map RuntimeGeneration.standing ++ order).drop k

theorem SameStanding.live {m m' : GenerationManager} (a : SameStanding m m') :
    m'.live.map RuntimeGeneration.standing = m.live.map RuntimeGeneration.standing := by
  unfold GenerationManager.live
  rw [List.map_append, List.map_append, a.draining, ← Option.toList_map, a.current,
    Option.toList_map]

theorem RetiredAll.later {m m' m'' : GenerationManager} (h : RetiredAll m m')
    (a : SameStanding m' m'') : RetiredAll m m'' where
  live := by
    have hlive := a.live
    rw [h.live] at hlive
    exact List.map_eq_nil_iff.1 hlive
  history := by
    obtain ⟨order, k, hperm, hk, hev, hret⟩ := h.history
    exact ⟨order, k, hperm, hk, a.evicted.trans hev, a.retired.trans hret⟩

theorem RetiredAll.from {m m' m'' : GenerationManager} (h : RetiredAll m' m'')
    (a : SameStanding m m') : RetiredAll m m'' where
  live := h.live
  history := by
    obtain ⟨order, k, hperm, hk, hev, hret⟩ := h.history
    have hlen := congrArg List.length a.retired
    rw [List.length_map, List.length_map] at hlen
    rw [map_standingRetired, a.live, ← map_standingRetired] at hperm
    refine ⟨order, k, hperm, by omega, by rw [hev, a.evicted], ?_⟩
    rw [hret, a.retired]

theorem GenerationManager.beginShutdown_draining (m : GenerationManager) :
    (m.beginShutdown.draining.map RuntimeGeneration.standingRetired).Perm
      (m.live.map RuntimeGeneration.standingRetired) := by
  unfold beginShutdown live
  rw [List.map_append, List.map_append]
  refine List.perm_append_comm.trans (List.Perm.append_right _ ?_)
  cases m.current <;> exact .refl _

/-- **Every live generation retires**, whatever leases remain and are returned meanwhile. -/
theorem retireAll_effect (grace : String) {h : Harness}
    (hdraining : ∀ g ∈ h.generations.draining, g.state = .draining) :
    (retireAll grace).wp closingRules (fun tr r h' => cuts tr = [] ∧ r = .ok () ∧
      (h'.plugins.instances = h.plugins.instances ∧ h'.capabilities = h.capabilities ∧
        h'.tools = h.tools ∧ h'.hooks = h.hooks) ∧
      RetiredAll h.generations h'.generations) h := by
  unfold retireAll
  rw [Prog.wp_modify_bind]
  refine ⟨trivial, fun h₁ hint _ answer _ => ?_⟩
  replace hint : Spares { h with generations := h.generations.beginShutdown } h₁ := hint
  show ((h₁.generations.draining.filter fun g => g.leases = 0).forM (retireReporting []) >>=
    fun _ => (h₁.generations.draining.filter fun g => 0 < g.leases).forM fun g =>
      retireReporting [overdue grace g] g : Closing PUnit).wp closingRules _ h₁
  have hstate : ∀ g ∈ h₁.generations.draining, g.state = .draining := by
    intro g hg
    have hin := List.mem_map_of_mem (f := RuntimeGeneration.standing) hg
    rw [hint.generations.draining] at hin
    obtain ⟨x, hx, hxg⟩ := List.mem_map.1 hin
    have hsame : x.state = g.state := congrArg (fun s => s.2.2) hxg
    rw [← hsame]
    rcases List.mem_append.1 hx with hx | hx
    · exact hdraining x hx
    · obtain ⟨y, -, rfl⟩ := Option.map_eq_some_iff.1 (Option.mem_toList.1 hx)
      rfl
  generalize hdrain : h₁.generations.draining = draining at hstate
  have hidle := retirements_effect (fun _ => []) (draining.filter fun g => g.leases = 0)
    (fun g hg => hstate g (List.mem_filter.1 hg).1) h₁
  refine Prog.wp_bind_of hidle ?_ ?_
  · rintro tr _ h₂ ⟨rfl, -, recorded, m₂, rfl, hm₂⟩
    refine Prog.wp_mono (retirements_effect (fun g => [overdue grace g])
      (draining.filter fun g => 0 < g.leases)
      (fun g hg => hstate g (List.mem_filter.1 hg).1) _) ?_
    rintro tr r h₃ ⟨rfl, rfl, recorded', m₃, rfl, hm₃⟩
    refine ⟨rfl, rfl, ⟨hint.instances, hint.capabilities, hint.tools, hint.hooks⟩, ?_⟩
    have hall := hm₂.append hm₃
    have hsplit : (draining.filter (fun g => g.leases = 0) ++
        draining.filter fun g => 0 < g.leases).Perm draining := by
      have hbusy : (fun g : RuntimeGeneration => decide (0 < g.leases)) =
          fun g => !decide (g.leases = 0) := by
        funext g
        rw [Bool.eq_iff_iff]
        simp only [decide_eq_true_eq, Bool.not_eq_true', decide_eq_false_iff_not]
        omega
      rw [hbusy]
      exact List.filter_append_perm _ draining
    obtain ⟨k, hk, hev, hret⟩ := hall.history
    have hcurrent : h₁.generations.current = none := by
      have hcur := hint.generations.current
      exact Option.map_eq_none_iff.1 hcur
    have hlen := congrArg List.length hint.generations.retired
    rw [List.length_map, List.length_map] at hlen
    refine ⟨?_, (draining.filter (fun g => g.leases = 0) ++
      draining.filter fun g => 0 < g.leases).map RuntimeGeneration.standingRetired, k, ?_, ?_, ?_, ?_⟩
    · show m₃.current.toList ++ m₃.draining = []
      rw [hall.current, hcurrent, hall.draining, Option.toList_none, List.nil_append,
        List.filter_eq_nil_iff]
      intro d hd hin
      refine of_decide_eq_true hin (List.mem_map_of_mem (hsplit.mem_iff.2 ?_))
      exact hdrain ▸ hd
    · refine (hsplit.map _).trans (List.Perm.trans ?_ h.generations.beginShutdown_draining)
      rw [← hdrain]
      rw [map_standingRetired, hint.generations.draining, ← map_standingRetired]
    · rw [List.length_map]
      replace hlen : h₁.generations.retired.length = h.generations.retired.length := hlen
      rw [← hlen]
      exact hk
    · rw [hev, hint.generations.evicted]
      rfl
    · rw [hret, List.map_drop, List.map_append, hint.generations.retired, List.map_map]
      rfl
  · rintro tr e h₂ ⟨-, hr, -⟩
    cases hr

/-! ## what is left of the harness -/

/-- an instance is gone, and nothing of what it registered is left -/
structure Harness.Disposed (h : Harness) (i : PluginInstance) : Prop where
  forgotten : h.plugins.instances.get? i.instanceId = none
  capabilities : ∀ c ∈ h.capabilities.all, c.scopeId ≠ i.scopeId
  tools : ∀ t ∈ h.tools.all, t.scopeId ≠ i.scopeId
  hooks : ∀ r ∈ h.hooks.all, r.scopeId ≠ i.scopeId

/-- whatever was mounted in `h` is disposed in `h'`, and whatever was live has retired -/
structure Cleared (h h' : Harness) : Prop where
  disposed : ∀ i ∈ h.plugins.sortedInstances, h'.Disposed i
  retired : RetiredAll h.generations h'.generations

/-- a complete shutdown -/
structure ShutDown (h h' : Harness) : Prop extends Cleared h h' where
  stopped : h'.state = .stopped

theorem Cleared.later {h h' h'' : Harness} (hc : Cleared h h') (a : Spares h' h'') :
    Cleared h h'' where
  disposed := by
    intro i hi
    have hd := hc.disposed i hi
    refine ⟨?_, ?_, ?_, ?_⟩
    · rw [a.instances]
      exact hd.forgotten
    · rw [a.capabilities]
      exact hd.capabilities
    · rw [a.tools]
      exact hd.tools
    · rw [a.hooks]
      exact hd.hooks
  retired := hc.retired.later a.generations

theorem Spares.symm {h h' : Harness} (a : Spares h h') : Spares h' h where
  instances := a.instances.symm
  capabilities := a.capabilities.symm
  tools := a.tools.symm
  hooks := a.hooks.symm
  generations := ⟨a.generations.current.symm, a.generations.draining.symm,
    a.generations.retired.symm, a.generations.evicted.symm⟩

theorem cleared_iff_of_spares {h h' h'' : Harness} (a : Spares h' h'') :
    Cleared h h'' ↔ Cleared h h' := ⟨fun hc => hc.later a.symm, fun hc => hc.later a⟩

theorem mem_closeScopes {β : Type} [Registration β] (scopes : List String) (r : Owned β) (b : β)
    (h : b ∈ (scopes.foldl Owned.closeScope r).all) : Registration.scopeId b ∉ scopes := by
  induction scopes generalizing r with
  | nil => exact List.not_mem_nil
  | cons s scopes ih =>
    rw [List.mem_cons, not_or]
    refine ⟨?_, ih _ h⟩
    have hsub : ∀ (l : List String) (r : Owned β), ∀ x ∈ (l.foldl Owned.closeScope r).all,
        x ∈ r.all := by
      intro l
      induction l with
      | nil => exact fun _ _ hx => hx
      | cons t l ih' =>
        intro r x hx
        have hin := ih' (r.closeScope t) x hx
        rw [Owned.all_closeScope] at hin
        exact (List.mem_filter.1 hin).1
    have hin := hsub scopes (r.closeScope s) b h
    rw [Owned.all_closeScope] at hin
    exact of_decide_eq_true (List.mem_filter.1 hin).2

section
variable [Packaging] [Platform]

theorem disposed_foldl_registries (l : List PluginInstance) (h : Harness) :
    (l.foldl Harness.disposed h).capabilities =
        (l.map PluginInstance.scopeId).foldl Owned.closeScope h.capabilities ∧
      (l.foldl Harness.disposed h).tools =
        (l.map PluginInstance.scopeId).foldl Owned.closeScope h.tools ∧
      (l.foldl Harness.disposed h).hooks =
        (l.map PluginInstance.scopeId).foldl Owned.closeScope h.hooks := by
  induction l generalizing h with
  | nil => exact ⟨rfl, rfl, rfl⟩
  | cons i l ih => exact ih (h.disposed i)

theorem disposed_foldl_disposed {l : List PluginInstance} {h : Harness} {i : PluginInstance}
    (hi : i ∈ l) : (l.foldl Harness.disposed h).Disposed i := by
  obtain ⟨hc, ht, hk⟩ := disposed_foldl_registries l h
  have hscope : i.scopeId ∈ l.map PluginInstance.scopeId := List.mem_map_of_mem hi
  refine ⟨?_, fun c hin he => ?_, fun t hin he => ?_, fun r hin he => ?_⟩
  · rw [disposed_foldl_get?, if_pos (List.mem_map_of_mem hi)]
  · exact mem_closeScopes _ _ c (hc ▸ hin) (by rwa [← he] at hscope)
  · exact mem_closeScopes _ _ t (ht ▸ hin) (by rwa [← he] at hscope)
  · exact mem_closeScopes _ _ r (hk ▸ hin) (by rwa [← he] at hscope)

section
variable {h h₄ : Harness} (hkeyed : h.plugins.Keyed) (hloaded : Loaded h.plugins.instances)
  (hinst : h₄.plugins.instances = h.plugins.instances)
  (hret : RetiredAll h.generations h₄.generations)
include hinst

theorem get?_atShutdown (k : String) : h₄.refreshReferences.plugins.instances.get? k =
    (h.plugins.instances.get? k).map fun i => { i with generationRefs := h₄.references i } := by
  rw [h₄.get?_refreshReferences k, hinst]

include hkeyed

theorem keyed_atShutdown : h₄.refreshReferences.plugins.Keyed := by
  intro k i hi
  rw [get?_atShutdown hinst] at hi
  obtain ⟨x, hx, rfl⟩ := Option.map_eq_some_iff.1 hi
  exact hkeyed k x hx

include hret

/-- nothing that is live reaches an instance any more, so no disposal is refused -/
theorem disposes_atShutdown (hloaded : Loaded h.plugins.instances) {i : PluginInstance}
    (hi : i ∈ h₄.refreshReferences.plugins.sortedInstances) : Disposes h₄.refreshReferences i := by
  have hget := (keyed_atShutdown hkeyed hinst).of_mem hi
  refine ⟨i, hget, ?_, ?_⟩
  · rw [get?_atShutdown hinst] at hget
    obtain ⟨x, -, rfl⟩ := Option.map_eq_some_iff.1 hget
    show (h₄.generations.live.filter _).length = 0
    rw [hret.live]
    rfl
  · rw [get?_atShutdown hinst] at hget
    obtain ⟨x, hx, rfl⟩ := Option.map_eq_some_iff.1 hget
    exact hloaded _ x hx

/-- **Everything is gone** exactly when no instance was missed. -/
theorem cleared_iff_done {tr : ClosingTrace} {h' : Harness} {done : List PluginInstance}
    (hd : Disposals h₄.refreshReferences
      (h₄.refreshReferences.teardownOrder h₄.refreshReferences.plugins.sortedInstances) tr h' done) :
    Cleared h h' ↔ done =
      h₄.refreshReferences.teardownOrder h₄.refreshReferences.plugins.sortedInstances := by
  have hkeyed₅ := keyed_atShutdown hkeyed hinst
  have hnodup := teardownOrder_nodup (h := h₄.refreshReferences) hkeyed₅.nodup
  have hin : ∀ i ∈ h₄.refreshReferences.plugins.sortedInstances,
      i ∈ h₄.refreshReferences.teardownOrder h₄.refreshReferences.plugins.sortedInstances :=
    fun i hi => teardownOrder_complete hkeyed₅.nodup hi
  have hold : ∀ i ∈ h₄.refreshReferences.plugins.sortedInstances,
      ∃ x ∈ h.plugins.sortedInstances, x.instanceId = i.instanceId := by
    intro i hi
    have hget := hkeyed₅.of_mem hi
    rw [get?_atShutdown hinst] at hget
    obtain ⟨x, hx, rfl⟩ := Option.map_eq_some_iff.1 hget
    exact ⟨x, mem_sortedBy.2 (Dict.mem_values.2 ⟨_, hx⟩), rfl⟩
  have hnew : ∀ x ∈ h.plugins.sortedInstances,
      { x with generationRefs := h₄.references x } ∈ h₄.refreshReferences.plugins.sortedInstances := by
    intro x hx
    refine mem_sortedBy.2 (Dict.mem_values.2 ⟨x.instanceId, ?_⟩)
    rw [get?_atShutdown hinst, hkeyed.of_mem hx]
    rfl
  rw [cleared_iff_of_spares hd.left]
  constructor
  · intro hc
    by_contra hne
    obtain ⟨i, hi, hmissed⟩ : ∃ i ∈
        h₄.refreshReferences.teardownOrder h₄.refreshReferences.plugins.sortedInstances,
        i ∉ done := by
      by_contra hall
      push Not at hall
      refine hne (hd.sub.eq_of_length_le ?_)
      exact (hnodup.of_map.subperm hall).length_le
    obtain ⟨x, hx, hid⟩ := hold i (mem_teardownOrder hi)
    have hgone := (hc.disposed x hx).forgotten
    rw [hid, disposed_foldl_get?, if_neg, hkeyed₅.of_mem (mem_teardownOrder hi)] at hgone
    · cases hgone
    · intro hin'
      obtain ⟨j, hj, hji⟩ := List.mem_map.1 hin'
      rw [List.inj_on_of_nodup_map hnodup (hd.sub.subset hj) hi hji] at hj
      exact hmissed hj
  · intro he
    refine ⟨fun x hx => ?_, ?_⟩
    · rw [he]
      have hdis := disposed_foldl_disposed (h := h₄.refreshReferences) (hin _ (hnew x hx))
      exact ⟨hdis.forgotten, hdis.capabilities, hdis.tools, hdis.hooks⟩
    · rw [disposed_foldl_generations]
      exact hret

end

/-! ## the result -/

/-- what precedes the first change of a shutdown, and what precedes each disposal, is not cut
short -/
def Uninterrupted (tr : ClosingTrace) : Prop :=
  ∀ d ∈ cuts tr, d.event ≠ .generationDraining ∧ d.event ≠ .pluginUnmounting

theorem announceShutdown_effect {h h₁ : Harness} (ho : Spares h h₁) :
    announceShutdown.wp closingRules (fun tr r h' => Spares h h' ∧ match r with
      | .ok _ => cuts tr = []
      | .error _ => h.generations.live ≠ [] ∧ ¬ Uninterrupted tr) h₁ := by
  unfold announceShutdown
  rw [Prog.wp_gets_bind]
  split
  · rename_i g hg
    refine Prog.wp_embed.2 (Prog.wp_mono (spares_framed.observed_effect _ ho) fun tr r h' hr => ?_)
    refine ⟨hr.2, ?_⟩
    cases r with
    | ok _ => exact (cuts_embed tr).trans hr.1
    | error e =>
      obtain ⟨⟨d, hd, htr⟩, -⟩ := hr
      refine ⟨fun hnil => ?_, fun hall => ?_⟩
      · have hlive := ho.generations.live
        rw [hnil, List.map_nil, List.map_eq_nil_iff] at hlive
        have hin : g ∈ h₁.generations.live := GenerationManager.mem_live.2 (Or.inl hg)
        rw [hlive] at hin
        cases hin
      · have hin : d ∈ cuts tr.embed := by
          rw [cuts_embed, htr]
          exact List.mem_singleton_self d
        refine (hall d hin).1 ?_
        rw [List.mem_singleton.1 hd]
  · exact ⟨ho, rfl⟩

theorem closeOwnScope_effect (h : Harness) : closeOwnScope.wp closingRules (fun tr _ h' =>
    cuts tr = [] ∧ Spares h h') h := by
  refine ⟨trivial, fun h₁ hint _ answer _ => ?_⟩
  show (match (answer : CloseAnswer).cancelled with
    | some e => .raise e
    | none => Prog.modify fun h => h.note (answer : CloseAnswer).failures : Closing Unit).wp _ _ h₁
  cases (answer : CloseAnswer).cancelled with
  | some e => exact ⟨rfl, hint⟩
  | none => exact ⟨rfl, Spares.trans hint ⟨rfl, rfl, rfl, rfl, .refl _⟩⟩

theorem shutdown_effect (grace : String) {h h₁ : Harness} (ho : Spares h h₁)
    (hkeyed : h.plugins.Keyed) (hloaded : Loaded h.plugins.instances)
    (hdraining : ∀ g ∈ h.generations.draining, g.state = .draining) :
    (shutdown grace).wp closingRules (fun tr _ h' => Cleared h h' ↔ Uninterrupted tr) h₁ := by
  refine Prog.wp_bind_of (announceShutdown_effect ho) ?_ ?_
  · rintro tr _ h₂ ⟨ho₂, htr⟩
    have hdraining₂ : ∀ g ∈ h₂.generations.draining, g.state = .draining := by
      intro g hg
      have hin := List.mem_map_of_mem (f := RuntimeGeneration.standing) hg
      rw [ho₂.generations.draining] at hin
      obtain ⟨x, hx, hxg⟩ := List.mem_map.1 hin
      have hsame : x.state = g.state := congrArg (fun s => s.2.2) hxg
      rw [← hsame]
      exact hdraining x hx
    refine Prog.wp_bind_of (retireAll_effect grace hdraining₂) ?_ ?_
    · rintro tr₂ _ h₃ ⟨htr₂, -, ⟨hinst, hcap, htools, hhooks⟩, hret⟩
      have hinst₃ := hinst.trans ho₂.instances
      replace hret := hret.from ho₂.generations
      rw [Prog.wp_modify_bind, Prog.wp_gets_bind]
      have hkeyed₃ := keyed_atShutdown hkeyed hinst₃
      refine Prog.wp_bind_of (P := fun tr r h' => r = .ok ⟨⟩ ∧ ∃ done, Disposals h₃.refreshReferences
          (h₃.refreshReferences.teardownOrder h₃.refreshReferences.plugins.sortedInstances) tr h'
          done) ?_ ?_ ?_
      · refine disposals_effect _ (.refl _) (fun i hi => ?_) (teardownOrder_nodup hkeyed₃.nodup)
        exact disposes_atShutdown hkeyed hinst₃ hret hloaded (mem_teardownOrder hi)
      · rintro tr₃ _ h₄ ⟨-, done, hd⟩
        refine Prog.wp_mono (closeOwnScope_effect h₄) fun tr₄ r h₅ hlast => ?_
        obtain ⟨htr₄, ho₅⟩ := hlast
        have hcuts : cuts (tr ++ (tr₂ ++ (tr₃ ++ tr₄))) = cuts tr₃ := by
          rw [cuts_append, cuts_append, cuts_append, htr, htr₂, htr₄, List.nil_append,
            List.nil_append, List.append_nil]
        rw [cleared_iff_of_spares ho₅, cleared_iff_done hkeyed hinst₃ hret hd, hd.all]
        unfold Uninterrupted
        rw [hcuts]
        constructor
        · exact fun hall d hin => ⟨hd.dispatches d hin, hall d hin⟩
        · exact fun hall d hin => (hall d hin).2
      · rintro tr₃ e h₄ ⟨hr, -⟩
        cases hr
    · rintro tr₂ e h₃ ⟨-, hr, -⟩
      cases hr
  · rintro tr e h₂ ⟨ho₂, hlive, hcut⟩
    refine iff_of_false (fun hc => hlive ?_) hcut
    have hnone := ho₂.generations.live
    rw [hc.retired.live, List.map_nil] at hnone
    exact List.map_eq_nil_iff.1 hnone.symm

inductive StopActs : Harness → Harness → Prop
  | act {h h' : Harness} : Acts h h' → StopActs h h'
  | stop (h : Harness) : StopActs h h.stop

theorem StopActs.safe {h h' : Harness} (ha : StopActs h h') (hs : h.Safe) :
    h'.Safe ∧ Undisturbed h h' := by
  cases ha with
  | act ha => exact ha.safe hs
  | stop =>
    have hsame : SameHoldings h h.stop := ⟨rfl, rfl, rfl, rfl, le_refl _⟩
    exact ⟨hs.of_same hsame, hsame.undisturbed⟩

theorem StopActs.instances {h h' : Harness} (ha : StopActs h h') :
    h'.plugins.instances = h.plugins.instances := by
  cases ha with
  | act ha =>
    cases ha with
    | desired ha => exact ha.sameRuntime.instances
    | lease ha =>
      cases ha with
      | acquire ha =>
        obtain ⟨lease, m, -, rfl⟩ := Harness.acquire_ok ha
        rfl
      | release n hr =>
        rcases Harness.release_ok hr with rfl | ⟨lease, idle, m, -, -, rfl⟩
        · rfl
        · rfl
    | start =>
      unfold Harness.start
      split <;> rfl
    | learn secrets => rfl
  | stop => rfl

theorem shutDown_iff {h h' : Harness} (failures : List CleanupFailure) :
    ShutDown h { h' with state := .stopped, lastFailures := failures } ↔ Cleared h h' := by
  have hspares : Spares h' { h' with state := .stopped, lastFailures := failures } :=
    ⟨rfl, rfl, rfl, rfl, .refl _⟩
  exact ⟨fun hs => hs.toCleared.later hspares.symm, fun hc => ⟨hc.later hspares, rfl⟩⟩

/-- **A shutdown is complete** exactly when no handler cuts short the dispatch before the first
change, or the first dispatch of a disposal, whatever else is raised and whatever the others do
meanwhile. -/
theorem shutdown_complete_iff {h : Harness} (hf : Fresh h)
    {history : List (Event Job Err × HarnessConfig)} {c : HarnessConfig}
    (hrun : Run StopActs Job.program ⟨h, none⟩ history c) (hidle : c.running = none)
    (grace : String) : (runShutdown grace).wp closingRules (fun tr _ h' =>
      ShutDown c.state h' ↔ Uninterrupted tr) c.state := by
  have hsafe : c.state.Safe := (upheld_run extra_nothing (fun _ _ => trivial)
    (fun h h' ha hs => ⟨⟨(ha.safe hs.1).1, trivial⟩, (ha.safe hs.1).2⟩) ⟨hf.safe, trivial⟩ hrun).1
  have hloaded : Loaded c.state.plugins.instances := by
    refine loaded_run (fun _ _ ha => ha.instances) (fun k i hi => ?_) hrun hidle
    rw [hf.plugins] at hi
    cases hi
  have hdraining := hsafe.accounted.draining_state
  unfold runShutdown
  rw [Prog.wp_modify_bind]
  refine Prog.wp_bind_of (P := fun tr r h' => match r with
    | .ok _ => Cleared c.state h' ↔ Uninterrupted tr
    | .error _ => ShutDown c.state h' ↔ Uninterrupted tr) ?_ ?_ (fun _ _ _ hr => hr)
  · refine Prog.wp_tryCatch.2 (Prog.wp_mono (shutdown_effect grace (h := c.state)
      ⟨rfl, rfl, rfl, rfl, .refl _⟩ hsafe.keyed hloaded hdraining) fun tr r h' hr => ?_)
    cases r with
    | ok _ => exact hr
    | error e =>
      show ShutDown c.state _ ↔ Uninterrupted (tr ++ [])
      rw [List.append_nil, shutDown_iff]
      exact hr
  · intro tr _ h' hr
    rw [Prog.wp_modify_bind, Prog.wp_gets_bind]
    have hall : ShutDown c.state { h' with state := .stopped, lastFailures := h'.work.failures } ↔
        Uninterrupted (tr ++ []) := by
      rw [List.append_nil, shutDown_iff]
      exact hr
    split
    · exact hall
    · exact hall

end

section
open scoped Plain

/-- every operation of a shutdown succeeds -/
def peaceful : (l : Operation ⊕ Wait) → Sum.elim Answer Wait.Answer l
  | .inl l => honest l
  | .inr .drain => ()
  | .inr .ownScope => show CloseAnswer from {}

theorem wired_stopRun : Run StopActs Job.program ⟨{}, none⟩ wired.history wired.config :=
  RunGiven.mono (fun _ _ ha => .act ha) (show HarnessRun {} wired.history wired.config from play_run _).2

theorem shutdown_complete_iff_wired :
    wired.config.state.plugins.sortedInstances.map PluginInstance.entryId = ["a", "b"] ∧
      cuts ((runShutdown "30.0").execute peaceful wired.config.state).1 = [] ∧
      (ShutDown wired.config.state
          ((runShutdown "30.0").execute peaceful wired.config.state).2.2 ↔
        Uninterrupted ((runShutdown "30.0").execute peaceful wired.config.state).1) := by
  have hany : ∀ {history} {c : HarnessConfig}, Run StopActs Job.program ⟨{}, none⟩ history c →
      c.running = none → ∀ answer,
        (ShutDown c.state ((runShutdown "30.0").execute answer c.state).2.2 ↔
          Uninterrupted ((runShutdown "30.0").execute answer c.state).1) := by
    intro history c hrun hidle answer
    exact Prog.wp_outcome
      (shutdown_complete_iff ⟨rfl, rfl, ⟨rfl, rfl, rfl⟩, rfl, ⟨rfl, rfl⟩, rfl⟩ hrun hidle "30.0")
      (Prog.execute_outcome answer _ _) Spares.refl fun _ _ => trivial
  have hidle : wired.config.running = none := Option.isNone_iff_eq_none.1 (by decide +kernel)
  exact ⟨by decide +kernel, by decide +kernel, hany wired_stopRun hidle peaceful⟩

def watching : (l : Operation) → Answer l
  | .setup _ => show SetupAnswer from
    { hooks := [{ event := .generationDraining, handlerName := "watch" }] }
  | l => honest l

def watched : HarnessCourse :=
  play [.install (plainPlugin "a" [] [] []), .start .reconcile, .resume watching]

def cancelling : (l : Operation ⊕ Wait) → Sum.elim Answer Wait.Answer l
  | .inl (.handler ..) => show HandlerAnswer from
    { outcome := .error { kind := .Base, message := "CancelledError" } }
  | l => peaceful l

theorem watched_stopRun : Run StopActs Job.program ⟨{}, none⟩ watched.history watched.config :=
  RunGiven.mono (fun _ _ ha => .act ha)
    (show HarnessRun {} watched.history watched.config from play_run _).2

/-- A handler of `generation.draining` is cancelled: the harness is stopped, with its plugin mounted
and its generation current. -/
theorem shutdown_abandoned : ∃ history c tr r h', Run StopActs Job.program ⟨{}, none⟩ history c ∧
    c.running = none ∧ (runShutdown "30.0").Outcome c.state tr r h' ∧ r.isOk = false ∧
    h'.state = .stopped ∧ h'.plugins.sortedInstances.map PluginInstance.entryId = ["a"] ∧
    h'.generations.current.map RuntimeGeneration.generationId = some "gen_0001" ∧
    ¬ ShutDown c.state h' := by
  refine ⟨watched.history, watched.config, _, _, _, watched_stopRun,
    Option.isNone_iff_eq_none.1 (by decide +kernel),
    Prog.execute_outcome cancelling (runShutdown "30.0") watched.config.state, by decide +kernel,
    by decide +kernel, by decide +kernel, by decide +kernel, fun hall => ?_⟩
  have hlive := hall.retired.live
  have hcurrent : ((runShutdown "30.0").execute cancelling
      watched.config.state).2.2.generations.live.length = 1 := by decide +kernel
  rw [hlive] at hcurrent
  cases hcurrent

end

end Chassis
