import Chassis.Harness.Failures
import Chassis.Harness.Frame

/-!
# What an undisturbed run does

* `Observed h h'`     `h'` is `h`, but for what hooks leave behind: secrets and recorded failures;
* `Framed R S`        `S` relates the states between which hooks and others move;
* `Harness.disposed`  the harness without an instance and what it registered;
* `disposeInstance_effect`   the effect of a disposal, wherever it ends.
-/

set_option linter.unusedSectionVars false

namespace Chassis
open Py Coop

def Harness.seen (h : Harness) (redactor : Redactor) (failures : List CleanupFailure) : Harness :=
  { h with redactor := redactor, work := { h.work with failures := failures } }

def Observed (h h' : Harness) : Prop := ∃ redactor failures, h' = h.seen redactor failures

theorem Observed.refl (h : Harness) : Observed h h := ⟨h.redactor, h.work.failures, rfl⟩

theorem Observed.trans {h h' h'' : Harness} (a : Observed h h') (b : Observed h' h'') :
    Observed h h'' := by
  obtain ⟨r, f, rfl⟩ := a
  obtain ⟨r', f', rfl⟩ := b
  exact ⟨r', f', rfl⟩

theorem Observed.learn {h h' : Harness} (a : Observed h h') (secrets : List String) :
    Observed h (h'.learn secrets) := by
  obtain ⟨r, f, rfl⟩ := a
  exact ⟨_, f, rfl⟩

theorem Observed.note {h h' : Harness} (a : Observed h h') (failures : List CleanupFailure) :
    Observed h (h'.note failures) := by
  obtain ⟨r, f, rfl⟩ := a
  exact ⟨r, _, rfl⟩

theorem Observed.map {h h' : Harness} (a : Observed h h') {f : Harness → Harness}
    (hf : ∀ h r l, f (Harness.seen h r l) = (f h).seen r l) : Observed (f h) (f h') := by
  obtain ⟨r, l, rfl⟩ := a
  exact ⟨r, l, hf h r l⟩

theorem Observed.sameHoldings {h h' : Harness} (a : Observed h h') : SameHoldings h h' := by
  obtain ⟨r, f, rfl⟩ := a
  exact ⟨rfl, rfl, rfl, rfl, le_refl _⟩

theorem observed_stable (h : Harness) : Stable .alone (Observed h) where
  holds := fun _ => trivial
  interferes := fun ho he _ => he ▸ ho
  learn := fun secrets ho => ho.learn secrets
  note := fun failures ho => ho.note failures

/-- a dispatch that is observed, with what it does and how it ends -/
theorem observed_effect (d : Dispatch) {h h₁ : Harness} (ho : Observed h h₁) :
    (observed d).wp .alone (fun tr r h' => Faithful [d] tr r ∧ Observed h h') h₁ :=
  Prog.wp_and (observed_faithful (fun _ => trivial) d h₁) (observed_inv (observed_stable h) d ho)

variable [Packaging] [Platform]

/-! ## disposal -/

/-- without an instance, and without what it registered -/
def Harness.disposed (h : Harness) (i : PluginInstance) : Harness :=
  { h.closeScope i with plugins := h.plugins.forget i }

theorem PluginRegistry.forget_update (r : PluginRegistry) (i : PluginInstance)
    (f : PluginInstance → PluginInstance) : (r.update i.instanceId f).forget i = r.forget i := by
  unfold PluginRegistry.update
  split
  · simp only [PluginRegistry.forget, Dict.erase_set]
  · rfl

theorem Observed.disposed {h h' : Harness} (ho : Observed h h') (i : PluginInstance) :
    Observed (h.disposed i) (h'.disposed i) := ho.map (f := fun h => h.disposed i) fun _ _ _ => rfl

theorem Harness.disposed_get? (h : Harness) (i : PluginInstance) (k : String) :
    (h.disposed i).plugins.instances.get? k =
      if k = i.instanceId then none else h.plugins.instances.get? k :=
  PluginRegistry.get?_forget _ i k

/-- Hooks, and the others at an await, lead from a state to one that `S` relates to it.  `S` knows
the instances, and is kept by disposals. -/
structure Framed (R : Rules Harness Operation Answer) (S : Harness → Harness → Prop) : Prop where
  free : ∀ h, R.holds h
  refl : ∀ h, S h h
  trans : ∀ {h h' h''}, S h h' → S h' h'' → S h h''
  interferes : ∀ {h h'}, R.interferes h h' → S h h'
  learn : ∀ h secrets, S h (h.learn secrets)
  note : ∀ h failures, S h (h.note failures)
  instances : ∀ {h h'}, S h h' → h'.plugins.instances = h.plugins.instances
  disposed : ∀ {h h'} i, S h h' → S (h.disposed i) (h'.disposed i)

theorem observed_framed : Framed .alone Observed where
  free := fun _ => trivial
  refl := Observed.refl
  trans := Observed.trans
  interferes := by
    intro h h' he
    obtain rfl : h' = h := he
    exact Observed.refl h'
  learn := fun h secrets => (Observed.refl h).learn secrets
  note := fun h failures => (Observed.refl h).note failures
  instances := by
    rintro h h' ⟨r, f, rfl⟩
    rfl
  disposed := fun i ho => ho.disposed i

section
variable {R : Rules Harness Operation Answer} {S : Harness → Harness → Prop} (st : Framed R S)
include st

theorem Framed.stable (h : Harness) : Stable R (S h) where
  holds := fun _ => st.free _
  interferes := fun ho hint _ => st.trans ho (st.interferes hint)
  learn := fun secrets ho => st.trans ho (st.learn _ secrets)
  note := fun failures ho => st.trans ho (st.note _ failures)

theorem Framed.observed_effect (d : Dispatch) {h h₁ : Harness} (ho : S h h₁) :
    (observed d).wp R (fun tr r h' => Faithful [d] tr r ∧ S h h') h₁ :=
  Prog.wp_and (observed_faithful st.free d h₁) (observed_inv (st.stable h) d ho)

theorem closeAndForget_effect (i : PluginInstance) (failed : Bool)
    (recorded : List CleanupFailure) {h h₁ : Harness} (ho : S h (h₁.disposed i)) :
    (closeAndForget i failed recorded).wp R (fun _ _ h' => S h h') h₁ := by
  refine Prog.wp_bind_of (P := Prog.ends (fun _ h' => ∃ h₂, S h₁ h₂ ∧ h' = h₂.closeScope i)
    fun h' => ∃ h₂, S h₁ h₂ ∧ h' = h₂.disposed i) ?_ ?_ ?_
  · refine Prog.wp_tryCatch.2 ⟨st.free _, fun h₂ hint _ answer _ => ?_⟩
    have ho₂ := st.interferes hint
    rcases answer with ⟨failures, _ | e⟩
    · exact ⟨h₂, ho₂, rfl⟩
    · exact ⟨h₂, ho₂, rfl⟩
  · rintro tr failures h' ⟨h₂, ho₂, rfl⟩
    have hall := st.trans ho (st.disposed i ho₂)
    show (if failures ≠ [] ∧ !failed then .raise (EffectCleanupError i.scopeName failures)
      else return () : Task Unit).wp R _ (h₂.disposed i)
    split
    · exact hall
    · exact hall
  · rintro tr e h' ⟨h₂, ho₂, rfl⟩
    exact st.trans ho (st.disposed i ho₂)

/-- **A disposal that is not refused** removes the instance, however it ends. -/
theorem dispose_effect (i : PluginInstance) {h : Harness} {live : PluginInstance}
    (hlive : h.plugins.instances.get? i.instanceId = some live) (hrefs : live.generationRefs = 0)
    (hstate : live.state ≠ .loading) :
    (dispose i).wp R (fun _ _ h' => S (h.disposed i) h') h := by
  have hnone : ¬ 0 < live.generationRefs := by omega
  unfold dispose
  rw [Prog.wp_gets_bind]
  simp only [id_eq]
  rw [hlive]
  show (if 0 < live.generationRefs then _ else _ : Task Unit).wp R _ h
  rw [if_neg hnone]
  split
  · refine ⟨st.free _, fun h₂ hint _ answer _ => ?_⟩
    refine closeAndForget_effect st i false _ ?_
    have hsame : (h.updateInstance i fun x => { x with state := .unloading }).disposed i =
        h.disposed i := by
      simp only [Harness.disposed, Harness.updateInstance, PluginRegistry.forget_update]
      rfl
    have ho := st.disposed i (st.trans (st.interferes hint) (st.learn h₂ answer.secrets))
    change S ((h.updateInstance i fun x => { x with state := .unloading }).disposed i) _ at ho
    rw [hsame] at ho
    exact ho
  · rename_i hl
    exact absurd hl hstate
  · exact closeAndForget_effect st i true [] (st.refl _)
  · exact closeAndForget_effect st i false [] (st.refl _)

/-- **A disposal** is carried out unless its first dispatch is aborted. -/
theorem disposeInstance_effect (i : PluginInstance) {h h₀ : Harness} {live : PluginInstance}
    (ho : S h₀ h) (hlive : h₀.plugins.instances.get? i.instanceId = some live)
    (hrefs : live.generationRefs = 0) (hstate : live.state ≠ .loading) :
    (disposeInstance i).wp R (fun tr r h' => match r with
      | .ok _ => aborts tr = [] ∧ S (h₀.disposed i) h'
      | .error _ => (aborts tr = [unmounting i] ∧ S h₀ h') ∨
          (aborts tr = [unmounted i] ∧ S (h₀.disposed i) h')) h := by
  refine Prog.wp_bind_of (st.observed_effect (unmounting i) ho) ?_ ?_
  · rintro tr _ h₁ ⟨htr, ho₁⟩
    have hlive₁ : h₁.plugins.instances.get? i.instanceId = some live := by
      rw [st.instances ho₁]
      exact hlive
    have htry : (Prog.tryCatch (dispose i) fun e =>
        Prog.modify fun h => h.note (disposalFailures i e)).wp R
        (fun tr r h' => (aborts tr = [] ∧ r = .ok ()) ∧ S (h₀.disposed i) h') h₁ := by
      refine Prog.wp_tryCatch.2 (Prog.wp_mono (Prog.wp_and (dispose_aborts st.free i h₁)
        (dispose_effect st i hlive₁ hrefs hstate)) ?_)
      rintro tr r h₂ ⟨htr, ho₂⟩
      replace ho₂ := st.trans (st.disposed i ho₁) ho₂
      cases r with
      | ok _ => exact ⟨⟨htr, rfl⟩, ho₂⟩
      | error e =>
        show (aborts (tr ++ []) = [] ∧ _) ∧ _
        rw [List.append_nil]
        exact ⟨⟨htr, rfl⟩, st.trans ho₂ (st.note _ _)⟩
    refine Prog.wp_bind_of htry ?_ ?_
    · rintro tr' _ h₂ ⟨⟨htr', -⟩, ho₂⟩
      refine Prog.wp_mono (st.observed_effect (unmounted i) ho₂) fun tr'' r h₃ hr => ?_
      have hall : aborts (tr ++ (tr' ++ tr'')) = aborts tr'' := by
        rw [aborts_append_of_nil htr, aborts_append_of_nil htr']
      cases r with
      | ok _ => exact ⟨hall.trans hr.1, hr.2⟩
      | error e =>
        obtain ⟨⟨d, hd, htr''⟩, ho₃⟩ := hr
        rw [List.mem_singleton.1 hd] at htr''
        exact Or.inr ⟨hall.trans htr'', ho₃⟩
    · rintro tr' e h₂ ⟨⟨-, he⟩, -⟩
      cases he
  · rintro tr e h₁ ⟨⟨d, hd, htr⟩, ho₁⟩
    rw [List.mem_singleton.1 hd] at htr
    exact Or.inl ⟨htr, ho₁⟩

end

/-! ### several disposals -/

/-- an instance that a disposal will not be refused for -/
def Disposes (h : Harness) (i : PluginInstance) : Prop :=
  ∃ live, h.plugins.instances.get? i.instanceId = some live ∧ live.generationRefs = 0 ∧
    live.state ≠ .loading

/-- how the disposal of a list ends: after all of it, or at the dispatch that is aborted -/
def DisposedAll (h : Harness) (l : List PluginInstance) (tr : Trace Operation Answer)
    (r : Except Err PUnit) (h' : Harness) : Prop :=
  match r with
  | .ok _ => aborts tr = [] ∧ Observed (l.foldl Harness.disposed h) h'
  | .error _ => ∃ done i rest, l = done ++ i :: rest ∧
      ((aborts tr = [unmounting i] ∧ Observed (done.foldl Harness.disposed h) h') ∨
        (aborts tr = [unmounted i] ∧ Observed ((done ++ [i]).foldl Harness.disposed h) h'))

/-- **Disposing a list**, whose instances are all there, each once. -/
theorem disposeAll_effect (l : List PluginInstance) {h h₀ : Harness} (ho : Observed h₀ h)
    (hl : ∀ i ∈ l, Disposes h₀ i) (hnodup : (l.map PluginInstance.instanceId).Nodup) :
    (l.forM disposeInstance).wp .alone (DisposedAll h₀ l) h := by
  induction l generalizing h h₀ with
  | nil => exact ⟨rfl, ho⟩
  | cons i l ih =>
    obtain ⟨hnew, hnodup⟩ := List.nodup_cons.1 hnodup
    obtain ⟨live, hlive, hrefs, hstate⟩ := hl i List.mem_cons_self
    show (disposeInstance i >>= fun _ => l.forM disposeInstance : Task PUnit).wp .alone _ h
    refine Prog.wp_bind_of (disposeInstance_effect observed_framed i ho hlive hrefs hstate) ?_ ?_
    · rintro tr _ h₁ ⟨htr, ho₁⟩
      have hrest : ∀ j ∈ l, Disposes (h₀.disposed i) j := by
        intro j hj
        obtain ⟨live', hlive', hok⟩ := hl j (List.mem_cons_of_mem _ hj)
        refine ⟨live', ?_, hok⟩
        rw [Harness.disposed_get?, if_neg, hlive']
        intro he
        exact hnew (he ▸ List.mem_map_of_mem hj)
      refine Prog.wp_mono (ih ho₁ hrest hnodup) fun tr' r h₂ hr => ?_
      have hall := aborts_append_of_nil htr tr'
      cases r with
      | ok _ => exact ⟨hall.trans hr.1, hr.2⟩
      | error e =>
        obtain ⟨done, j, rest, rfl, hr⟩ := hr
        refine ⟨i :: done, j, rest, rfl, ?_⟩
        rw [hall]
        exact hr
    · intro tr e h₁ hr
      exact ⟨[], i, l, rfl, hr⟩

theorem disposed_foldl_get? (l : List PluginInstance) (h : Harness) (k : String) :
    (l.foldl Harness.disposed h).plugins.instances.get? k =
      if k ∈ l.map PluginInstance.instanceId then none else h.plugins.instances.get? k := by
  induction l generalizing h with
  | nil => rfl
  | cons i l ih =>
    rw [List.foldl_cons, ih, Harness.disposed_get?, List.map_cons]
    by_cases hk : k ∈ l.map PluginInstance.instanceId
    · rw [if_pos hk, if_pos (List.mem_cons_of_mem _ hk)]
    · rw [if_neg hk]
      by_cases hi : k = i.instanceId
      · rw [if_pos hi, if_pos (List.mem_cons.2 (Or.inl hi))]
      · rw [if_neg hi, if_neg]
        intro hmem
        exact (List.mem_cons.1 hmem).elim hi hk

theorem disposed_foldl_generations (l : List PluginInstance) (h : Harness) :
    (l.foldl Harness.disposed h).generations = h.generations := by
  induction l generalizing h with
  | nil => rfl
  | cons i l ih => exact ih (h.disposed i)

theorem disposed_foldl_entries (l : List PluginInstance) (h : Harness) :
    (l.foldl Harness.disposed h).plugins.entries = h.plugins.entries := by
  induction l generalizing h with
  | nil => rfl
  | cons i l ih => exact ih (h.disposed i)

/-! ### the order of a teardown -/

section
variable {edges : List (String × String)}

theorem teardownRounds_sub {n : Nat} {remaining : List String} {id : String}
    (h : id ∈ teardownRounds edges n remaining) : id ∈ remaining := by
  induction n generalizing remaining with
  | zero => cases h
  | succ n ih =>
    rcases List.mem_append.1 h with hready | hrest
    · split at hready
      · exact mem_sortedBy.1 hready
      · exact (List.mem_filter.1 (mem_sortedBy.1 hready)).1
    · exact (List.mem_filter.1 (ih hrest)).1

/-- every round makes progress, so nothing is left out -/
theorem mem_teardownRounds {n : Nat} {remaining : List String} (hn : remaining.length ≤ n)
    {id : String} (h : id ∈ remaining) : id ∈ teardownRounds edges n remaining := by
  induction n generalizing remaining with
  | zero =>
    have hnil := List.eq_nil_of_length_eq_zero (Nat.le_zero.1 hn)
    rw [hnil] at h
    cases h
  | succ n ih =>
    simp only [teardownRounds]
    generalize hready : (if sorted (remaining.filter fun id =>
      !edges.any fun e => e.1 = id && decide (e.2 ∈ remaining)) = [] then sorted remaining
      else sorted (remaining.filter fun id =>
        !edges.any fun e => e.1 = id && decide (e.2 ∈ remaining))) = ready
    rw [List.mem_append]
    by_cases hid : id ∈ ready
    · exact Or.inl hid
    · refine Or.inr (ih ?_ (List.mem_filter.2 ⟨h, by simpa using hid⟩))
      obtain ⟨x, hx, hxr⟩ : ∃ x ∈ remaining, x ∈ ready := by
        by_cases hnone : sorted (remaining.filter fun id =>
            !edges.any fun e => e.1 = id && decide (e.2 ∈ remaining)) = []
        · rw [if_pos hnone] at hready
          exact ⟨id, h, hready ▸ mem_sortedBy.2 h⟩
        · rw [if_neg hnone] at hready
          obtain ⟨x, hx⟩ := List.exists_mem_of_ne_nil _ hnone
          exact ⟨x, (List.mem_filter.1 (mem_sortedBy.1 hx)).1, hready ▸ hx⟩
      have hlt : (remaining.filter fun x => decide (x ∉ ready)).length < remaining.length := by
        rw [List.length_filter_lt_length_iff_exists]
        exact ⟨x, hx, by simpa using hxr⟩
      omega

theorem teardownRounds_nodup {n : Nat} {remaining : List String} (h : remaining.Nodup) :
    (teardownRounds edges n remaining).Nodup := by
  induction n generalizing remaining with
  | zero => exact List.nodup_nil
  | succ n ih =>
    refine List.nodup_append.2 ⟨?_, ih (h.filter _), ?_⟩
    · split
      · exact sortedBy_nodup h
      · exact sortedBy_nodup (h.filter _)
    · intro a ha b hb hab
      have hin := (List.mem_filter.1 (teardownRounds_sub hb)).2
      rw [← hab] at hin
      exact (of_decide_eq_true hin) ha

end

section
variable {h : Harness} {target : List PluginInstance}
  (hnodup : (target.map PluginInstance.instanceId).Nodup)
include hnodup

theorem find?_instance {i : PluginInstance} (hi : i ∈ target) :
    target.find? (fun j => j.instanceId = i.instanceId) = some i := by
  obtain ⟨j, hj⟩ : ∃ j, target.find? (fun j => decide (j.instanceId = i.instanceId)) = some j := by
    rw [← Option.isSome_iff_exists, List.find?_isSome]
    exact ⟨i, hi, decide_eq_true rfl⟩
  have hid : j.instanceId = i.instanceId := by simpa using List.find?_some hj
  rw [hj, List.inj_on_of_nodup_map hnodup (List.mem_of_find?_eq_some hj) hi hid]

/-- **The order of a teardown** has each instance of the target, once. -/
theorem teardownOrder_complete {i : PluginInstance} (hi : i ∈ target) :
    i ∈ h.teardownOrder target := by
  refine List.mem_filterMap.2 ⟨i.instanceId, ?_, find?_instance hnodup hi⟩
  refine mem_teardownRounds ?_ (List.mem_map_of_mem hi)
  rw [List.length_map]

theorem teardownOrder_ids : (h.teardownOrder target).map PluginInstance.instanceId =
    teardownRounds h.liveEdges target.length (target.map PluginInstance.instanceId) := by
  rw [Harness.teardownOrder, List.map_filterMap]
  have hsub : ∀ id ∈ teardownRounds h.liveEdges target.length
      (target.map PluginInstance.instanceId), id ∈ target.map PluginInstance.instanceId :=
    fun id hid => teardownRounds_sub hid
  generalize teardownRounds h.liveEdges target.length (target.map PluginInstance.instanceId) = l
    at hsub
  induction l with
  | nil => rfl
  | cons id l ih =>
    obtain ⟨i, hi, rfl⟩ := List.mem_map.1 (hsub id List.mem_cons_self)
    rw [List.filterMap_cons_some (b := i.instanceId), ih]
    · intro id' hid'
      exact hsub id' (List.mem_cons_of_mem _ hid')
    · rw [find?_instance hnodup hi]
      rfl

theorem teardownOrder_nodup : ((h.teardownOrder target).map PluginInstance.instanceId).Nodup := by
  rw [teardownOrder_ids hnodup]
  exact teardownRounds_nodup hnodup

end

end Chassis
