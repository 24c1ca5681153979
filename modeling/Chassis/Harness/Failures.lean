import Chassis.Harness.Invariance

/-!
# Which failures get through

Hooks are observed, and what they raise is recorded.  A handler's error that is no `Exception`
aborts the dispatch, and with it what dispatches; so does an error of reading what it returned.

* `aborts tr`          the dispatches that a handler aborted in a run;
* `Faithful ds tr r`   the run ended well and aborted nothing, or it was aborted in one of `ds`;
* `observed_faithful`  a dispatch fails for no other reason;
* `dispose_aborts`     and a disposal dispatches nothing.
-/

set_option linter.unusedSectionVars false

namespace Chassis
open Py Coop

/-- the error that reading a result raises, in the mode of the handler -/
def Returned.unreadable (result : Returned) : HookMode → Option Err
  | .observe => none
  | .transform => match result.mapping with
    | .error e => some e
    | .ok _ => none
  | .bail => match result.truth with
    | .error e => some e
    | .ok _ => none

/-- what gets through a dispatch that is observed: of a handler what is no `Exception`, of the
reading of its result anything but a `HookExecutionError` -/
def escaping (mode : HookMode) : HandlerResult → Option Err
  | .error e => if e.kind.isException then none else some e
  | .ok none => none
  | .ok (some result) => (result.unreadable mode).filter fun e => e.kind ≠ .HookExecutionError

/-- the dispatch that an answer aborts -/
def aborted : ((l : Operation) × Answer l) → Option Dispatch
  | ⟨.handler d registration _, answer⟩ =>
    match escaping registration.mode (HandlerAnswer.outcome answer) with
    | some _ => some d
    | none => none
  | _ => none

def aborts (tr : Trace Operation Answer) : List Dispatch := tr.filterMap aborted

theorem aborts_append (tr tr' : Trace Operation Answer) :
    aborts (tr ++ tr') = aborts tr ++ aborts tr' := List.filterMap_append

theorem aborts_append_of_nil {tr : Trace Operation Answer} (h : aborts tr = [])
    (tr' : Trace Operation Answer) : aborts (tr ++ tr') = aborts tr' := by
  rw [aborts_append, h, List.nil_append]

/-- the run ended well and aborted nothing, or it ended where a dispatch of `ds` was aborted -/
def Faithful {ε α : Type} (ds : List Dispatch) (tr : Trace Operation Answer) : Except ε α → Prop
  | .ok _ => aborts tr = []
  | .error _ => ∃ d ∈ ds, aborts tr = [d]

theorem Faithful.error {α β : Type} {ds : List Dispatch} {tr : Trace Operation Answer} {e e' : Err}
    (h : Faithful ds tr (.error e : Except Err α)) : Faithful ds tr (.error e' : Except Err β) := h

/-! ## hooks -/

theorem judge_escaping (d : Dispatch) (registration : HookRegistration)
    (payload : List (String × Value)) (result : HandlerResult) :
    match judge d registration payload result with
    | .fail e => (e.kind = .HookExecutionError ∧ escaping registration.mode result = none) ∨
        (e.kind ≠ .HookExecutionError ∧ escaping registration.mode result = some e)
    | _ => escaping registration.mode result = none := by
  have hread : ∀ (returned : Returned) (e : Err), returned.unreadable registration.mode = some e →
      (e.kind = .HookExecutionError ∧ escaping registration.mode (.ok (some returned)) = none) ∨
      (e.kind ≠ .HookExecutionError ∧
        escaping registration.mode (.ok (some returned)) = some e) := by
    intro returned e he
    have hescaping : escaping registration.mode (.ok (some returned)) =
        (some e).filter fun e => e.kind ≠ .HookExecutionError := by
      rw [← he]
      rfl
    rw [hescaping]
    by_cases hk : e.kind = .HookExecutionError
    · exact Or.inl ⟨hk, by simp [hk]⟩
    · exact Or.inr ⟨hk, by simp [hk]⟩
  have hcaught : ∀ returned : Returned, returned.unreadable registration.mode = none →
      escaping registration.mode (.ok (some returned)) = none := by
    intro returned hnone
    show (returned.unreadable registration.mode).filter _ = none
    rw [hnone]
    rfl
  rcases result with e | _ | returned
  · by_cases he : e.kind.isException = true
    · have hnone : escaping registration.mode (.error e) = none := if_pos he
      simp only [judge, he, if_true]
      cases registration.errorPolicy with
      | raise => exact Or.inl ⟨rfl, hnone⟩
      | record => exact hnone
    · have hsome : escaping registration.mode (.error e) = some e := if_neg he
      simp only [judge, he]
      refine Or.inr ⟨fun hk => he ?_, hsome⟩
      rw [hk]
      rfl
  · exact rfl
  · unfold judge
    cases hmode : registration.mode with
    | observe =>
      rw [hmode] at hcaught
      exact hcaught returned rfl
    | transform =>
      rw [hmode] at hcaught hread
      rcases hm : returned.mapping with e | _ | items
      · have he : returned.unreadable .transform = some e := by simp [Returned.unreadable, hm]
        simp only [hm]
        exact hread returned e he
      · have hnone : returned.unreadable .transform = none := by simp [Returned.unreadable, hm]
        simp only [hm]
        cases registration.errorPolicy with
        | raise => exact Or.inl ⟨rfl, hcaught returned hnone⟩
        | record => exact hcaught returned hnone
      · have hnone : returned.unreadable .transform = none := by simp [Returned.unreadable, hm]
        simp only [hm]
        exact hcaught returned hnone
    | bail =>
      rw [hmode] at hcaught hread
      rcases ht : returned.truth with e | b
      · have he : returned.unreadable .bail = some e := by simp [Returned.unreadable, ht]
        simp only [ht]
        exact hread returned e he
      · have hnone : returned.unreadable .bail = none := by simp [Returned.unreadable, ht]
        simp only [ht]
        cases b with
        | true => exact hcaught returned hnone
        | false => exact hcaught returned hnone

theorem judge_aborted (d : Dispatch) (registration : HookRegistration)
    (payload : List (String × Value)) (answer : HandlerAnswer) :
    match judge d registration payload answer.outcome with
    | .fail e =>
      (e.kind = .HookExecutionError ∧ aborted ⟨.handler d registration payload, answer⟩ = none) ∨
        (e.kind ≠ .HookExecutionError ∧
          aborted ⟨.handler d registration payload, answer⟩ = some d)
    | _ => aborted ⟨.handler d registration payload, answer⟩ = none := by
  have hnone : escaping registration.mode answer.outcome = none →
      aborted ⟨.handler d registration payload, answer⟩ = none := by
    intro h
    simp only [aborted, h]
  have hsome : ∀ e, escaping registration.mode answer.outcome = some e →
      aborted ⟨.handler d registration payload, answer⟩ = some d := by
    intro e h
    simp only [aborted, h]
  have hjudge := judge_escaping d registration payload answer.outcome
  cases hv : judge d registration payload answer.outcome with
  | goOn payload' failures =>
    rw [hv] at hjudge
    exact hnone hjudge
  | stop =>
    rw [hv] at hjudge
    exact hnone hjudge
  | fail e =>
    rw [hv] at hjudge
    exact hjudge.imp (fun h => ⟨h.1, hnone h.2⟩) fun h => ⟨h.1, hsome e h.2⟩

section
variable {R : Rules Harness Operation Answer} (hR : ∀ h, R.holds h)
include hR

theorem runHandlers_faithful (d : Dispatch) (handlers : List HookRegistration)
    (payload : List (String × Value)) (failures : List CleanupFailure) (h : Harness) :
    (runHandlers d handlers payload failures).wp R (fun tr r _ => match r with
      | .ok _ => aborts tr = []
      | .error e => (e.kind = .HookExecutionError ∧ aborts tr = []) ∨
          (e.kind ≠ .HookExecutionError ∧ aborts tr = [d])) h := by
  induction handlers generalizing payload failures h with
  | nil => exact rfl
  | cons registration rest ih =>
    rw [runHandlers]
    refine Prog.wp_perform_bind.2 ⟨hR h, fun h' _ _ answer _ => Prog.wp_modify_bind.2 ?_⟩
    have hjudge := judge_aborted d registration payload answer
    rcases hv : judge d registration payload answer.outcome with ⟨payload', new⟩ | _ | e
    · rw [hv] at hjudge
      refine Prog.wp_mono (ih payload' _ _) fun tr r _ hr => ?_
      have hcons : aborts (⟨.handler d registration payload, answer⟩ :: tr) = aborts tr :=
        List.filterMap_cons_none hjudge
      rw [hcons]
      exact hr
    · rw [hv] at hjudge
      show aborts [_] = []
      exact List.filterMap_cons_none hjudge
    · rw [hv] at hjudge
      rcases hjudge with ⟨hk, ha⟩ | ⟨hk, ha⟩
      · exact Or.inl ⟨hk, List.filterMap_cons_none ha⟩
      · exact Or.inr ⟨hk, List.filterMap_cons_some ha⟩

theorem observe_faithful (d : Dispatch) (h : Harness) :
    (observe d).wp R (fun tr r _ => Faithful [d] tr r) h := by
  refine Prog.wp_tryCatch.2 (Prog.wp_bind_of (runHandlers_faithful hR d _ d.payload [] h) ?_ ?_)
  · intro tr result h' htr
    show aborts (tr ++ []) = []
    rw [List.append_nil]
    exact htr
  · intro tr e h' he
    show (if e.kind = .HookExecutionError then return [e.recorded ("hook " ++ d.event.value)]
      else .raise e : Task (List CleanupFailure)).wp R _ h'
    rcases he with ⟨hk, htr⟩ | ⟨hk, htr⟩
    · rw [if_pos hk]
      show aborts (tr ++ []) = []
      rw [List.append_nil]
      exact htr
    · rw [if_neg hk]
      refine ⟨d, List.mem_singleton.2 rfl, ?_⟩
      rw [List.append_nil]
      exact htr

theorem observed_faithful (d : Dispatch) (h : Harness) :
    (observed d).wp R (fun tr r _ => Faithful [d] tr r) h := by
  refine Prog.wp_bind_of (observe_faithful hR d h) ?_ ?_
  · intro tr failures h' htr
    show aborts (tr ++ []) = []
    rw [List.append_nil]
    exact htr
  · intro tr e h' htr
    exact htr.error

end

/-! ## disposal -/

variable [Packaging] [Platform]

def unmounting (i : PluginInstance) : Dispatch :=
  ⟨.pluginUnmounting, instancePayload i ++ [("scope_id", .str i.scopeId)]⟩

def unmounted (i : PluginInstance) : Dispatch := ⟨.pluginUnmounted, instancePayload i⟩

theorem dispose_aborts {R : Rules Harness Operation Answer} (hR : ∀ h, R.holds h)
    (i : PluginInstance) (h : Harness) :
    (dispose i).wp R (fun tr _ _ => aborts tr = []) h := by
  have hclose : ∀ failed recorded h₁,
      (closeAndForget i failed recorded).wp R (fun tr _ _ => aborts tr = []) h₁ := by
    intro failed recorded h₁
    refine Prog.wp_bind_of (P := fun tr _ _ => aborts tr = []) ?_ ?_ (fun _ _ _ htr => htr)
    · refine Prog.wp_tryCatch.2 ⟨hR _, fun h₂ _ _ answer _ => ?_⟩
      rcases answer with ⟨failures, _ | e⟩
      · exact rfl
      · exact rfl
    · intro tr failures h₂ htr
      show (if failures ≠ [] ∧ !failed then .raise (EffectCleanupError i.scopeName failures)
        else return () : Task Unit).wp R _ _
      split
      · show aborts (tr ++ []) = []
        rw [List.append_nil]
        exact htr
      · show aborts (tr ++ []) = []
        rw [List.append_nil]
        exact htr
  unfold dispose
  rw [Prog.wp_gets_bind]
  split
  · exact rfl
  · split
    · exact rfl
    · split
      · refine ⟨hR _, fun h₂ _ _ answer _ => ?_⟩
        exact hclose false _ _
      · exact rfl
      · exact hclose true [] h
      · exact hclose false [] h

end Chassis
