import Chassis.Lib.Lockstep
import Chassis.Tools.Replaying

/-!
# A recording, and its replay

The same calls are made twice: against a session that records, and against one that replays what
the first recorded.  Whoever is asked answers both times alike.

* `theCall`             what is asked in both runs: not the tool, and not the clocks of the call;
* `gate_lockstep`       the gate asks the same, and lets the same calls pass;
* `finishLive_recording`, `finishReplayed_echo`   what comes of a call behind the gate;
* `call_faithful`       one call, twice;
* `replay_faithful`     a sequence of calls.
-/

set_option linter.unusedSectionVars false

namespace Chassis
open Py Coop

/-! ## what is asked twice -/

/-- a payload, but for the duration of the call -/
def timeless (payload : Document) : Document := payload.filter fun p => p.1 ≠ "duration_seconds"

/-- a handler is asked with its payload only -/
def sameQuestion : BoundaryOperation → BoundaryOperation → Prop
  | .handler d registration payload, .handler d' registration' payload' =>
    d.event = d'.event ∧ registration = registration' ∧ timeless payload = timeless payload'
  | l, l' => l = l'

/-- the hooks, the engines, the approval gate and the clock of the governors -/
def theCall : Dialogue BoundaryOperation where
  asks
    | .invoke .. | .timer _ => false
    | .handler .. | .evaluate .. | .approve _ | .clock => true
  same := sameQuestion

/-- the same budgets and the same hooks -/
structure Beside (s s' : Boundary) : Prop where
  budgets : s'.budgets = s.budgets
  hooks : s'.hooks = s.hooks

theorem Beside.join {s s' s'' : Boundary} (h : Beside s s') (h' : Beside s s'') : Beside s' s'' :=
  ⟨h'.budgets.trans h.budgets.symm, h'.hooks.trans h.hooks.symm⟩

/-! ## hooks -/

/-- two verdicts on one answer, for payloads that `P` relates -/
inductive SameVerdict (P : Document → Document → Prop) : Verdict → Verdict → Prop
  | goOn {p p' : Document} (related : P p p') (failures : List CleanupFailure) :
      SameVerdict P (.goOn p failures) (.goOn p' failures)
  | stop : SameVerdict P .stop .stop
  | fail (e : Err) : SameVerdict P (.fail e) (.fail e)

section
variable {P : Document → Document → Prop} (hrefl : ∀ p, P p p)
  (htime : ∀ p p', P p p' → timeless p = timeless p')
include hrefl

theorem judge_same {d d' : Dispatch} (he : d.event = d'.event) (registration : HookRegistration)
    {p p' : Document} (hp : P p p') (answer : HandlerResult) :
    SameVerdict P (judge d registration p answer) (judge d' registration p' answer) := by
  have herror : ∀ message, hookExecutionError d registration message =
      hookExecutionError d' registration message := by
    intro message
    unfold hookExecutionError
    rw [he]
  have hdescription : hookDescription d registration = hookDescription d' registration := by
    unfold hookDescription
    rw [he]
  unfold judge
  rw [herror, herror, hdescription, he]
  cases answer with
  | error e =>
    by_cases hexc : e.kind.isException
    · simp only [hexc, if_true]
      cases registration.errorPolicy with
      | raise => exact .fail _
      | record => exact .goOn hp _
    · simp only [hexc]
      exact .fail e
  | ok result =>
    cases result with
    | none => exact .goOn hp _
    | some returned =>
      cases registration.mode with
      | observe => exact .goOn hp _
      | transform =>
        simp only
        split
        · exact .fail _
        · exact .goOn (hrefl _) _
        · cases registration.errorPolicy with
          | raise => exact .fail _
          | record => exact .goOn hp _
      | bail =>
        simp only
        split
        · exact .fail _
        · exact .stop
        · exact .goOn hp _

include htime

/-- what two chains of handlers have in common -/
structure SameHook (P : Document → Document → Prop) (r r' : HookResult) : Prop where
  payload : P r.payload r'.payload
  stopped : r.stopped = r'.stopped

theorem runHandlers_lockstep {d d' : Dispatch} (he : d.event = d'.event)
    (l : List HookRegistration) {p p' : Document} (hp : P p p')
    (failures failures' : List CleanupFailure) :
    Prog.Lockstep theCall Beside (SameHook P) (ToolExecutor.runHandlers d l p failures)
      (ToolExecutor.runHandlers d' l p' failures') := by
  induction l generalizing p p' failures failures' with
  | nil => exact Prog.lockstep_pure ⟨hp, rfl⟩
  | cons registration rest ih =>
    rw [ToolExecutor.runHandlers, ToolExecutor.runHandlers]
    refine Prog.lockstep_ask rfl rfl ⟨he, rfl, htime p p' hp⟩ fun a b hab => ?_
    obtain rfl : a = b := eq_of_heq hab
    generalize hj : judge d registration p a = v
    generalize hj' : judge d' registration p' a = v'
    have hv := judge_same hrefl he registration hp a
    rw [hj, hj'] at hv
    cases hv with
    | goOn related new => exact ih related _ _
    | stop => exact Prog.lockstep_pure ⟨hp, rfl⟩
    | fail e => exact Prog.lockstep_raise e

theorem dispatch_lockstep (x : ToolExecutor) (hooks : Option HookSnapshot) {d d' : Dispatch}
    (he : d.event = d'.event) (hp : P d.payload d'.payload) :
    Prog.Lockstep theCall Beside (SameHook P) (x.dispatch hooks d) (x.dispatch hooks d') := by
  unfold ToolExecutor.dispatch
  by_cases hx : ¬ x.hooks = true
  · rw [if_pos hx, if_pos hx]
    exact Prog.lockstep_pure ⟨hp, rfl⟩
  · rw [if_neg hx, if_neg hx]
    refine Prog.lockstep_read fun s s' hE => ?_
    have hhandlers : ToolExecutor.handlersFor hooks s' d'.event =
        ToolExecutor.handlersFor hooks s d.event := by
      unfold ToolExecutor.handlersFor
      rw [he, hE.hooks]
    show Prog.Lockstep theCall Beside (SameHook P)
      (ToolExecutor.runHandlers d (ToolExecutor.handlersFor hooks s d.event) d.payload [])
      (ToolExecutor.runHandlers d' (ToolExecutor.handlersFor hooks s' d'.event) d'.payload [])
    rw [hhandlers]
    exact runHandlers_lockstep hrefl htime he _ hp [] []

end

/-! ## the gate -/

namespace ToolExecutor
variable (x : ToolExecutor)

theorem lockstep_hook {α : Type} {hooks : Option HookSnapshot} {d : Dispatch}
    {k : HookResult → Call α} {A : α → α → Prop}
    (hk : ∀ r r', Prog.Lockstep theCall Beside A (k r) (k r')) :
    Prog.Lockstep theCall Beside A (x.dispatch hooks d >>= k) (x.dispatch hooks d >>= k) :=
  Prog.lockstep_bind (dispatch_lockstep (P := Eq) (fun _ => rfl) (fun _ _ h => by rw [h]) x hooks
    rfl rfl) fun r r' _ => hk r r'

theorem authorizePermission_lockstep (entry : RegisteredTool) (request : ToolRequest)
    (hooks : Option HookSnapshot) (engine : Nat) (required : Bool) (permission : Permission) :
    Prog.Lockstep theCall Beside Eq
      (x.authorizePermission entry request hooks engine required permission)
      (x.authorizePermission entry request hooks engine required permission) := by
  refine Prog.lockstep_await rfl rfl rfl fun answer answer' hab => ?_
  obtain rfl : answer = answer' := eq_of_heq hab
  cases answer with
  | error e =>
    show Prog.Lockstep theCall Beside Eq (if e.kind.isException then _ else _)
      (if e.kind.isException then _ else _)
    by_cases hexc : e.kind.isException
    · rw [if_pos hexc]
      exact x.lockstep_hook fun _ _ => Prog.lockstep_raise _
    · rw [if_neg hexc]
      exact Prog.lockstep_raise e
  | ok result =>
    refine x.lockstep_hook fun _ _ => ?_
    by_cases hallowed : ¬ result.allowed = true
    · rw [if_pos hallowed]
      exact Prog.lockstep_raise _
    · rw [if_neg hallowed]
      exact Prog.lockstep_pure rfl

theorem authorize_lockstep (entry : RegisteredTool) (request : ToolRequest) (args : Value)
    (hooks : Option HookSnapshot) (engine : Option Nat) :
    Prog.Lockstep theCall Beside Eq (x.authorize entry request args hooks engine)
      (x.authorize entry request args hooks engine) := by
  refine Prog.lockstep_bind (A := Eq) ?_ fun required required' h => ?_
  · cases engine with
    | none => exact Prog.lockstep_pure rfl
    | some engine =>
      refine Prog.lockstep_bind (Prog.lockstep_ofExcept _) fun permissions permissions' h => ?_
      cases h
      refine Prog.lockstep_bind (A := Eq) (Prog.lockstep_foldlM (fun a b permission h => ?_) _ rfl)
        fun a b h => ?_
      · cases h
        exact x.authorizePermission_lockstep ..
      · cases h
        exact x.lockstep_hook fun _ _ => Prog.lockstep_pure rfl
  · cases h
    by_cases hrequired : required = true
    · rw [if_pos hrequired]
      refine Prog.lockstep_await rfl rfl rfl fun answer answer' hab => ?_
      obtain rfl : answer = answer' := eq_of_heq hab
      match answer with
      | .error e => exact Prog.lockstep_raise e
      | .ok true => exact Prog.lockstep_pure rfl
      | .ok false => exact x.lockstep_hook fun _ _ => Prog.lockstep_raise _
    · rw [if_neg hrequired]
      exact Prog.lockstep_pure rfl

theorem charge_lockstep (budget : Option Nat) :
    Prog.Lockstep theCall Beside Eq (charge budget) (charge budget) := by
  cases budget with
  | none => exact Prog.lockstep_pure rfl
  | some i =>
    unfold ToolExecutor.charge
    refine Prog.lockstep_ask rfl rfl rfl fun now now' hab => ?_
    obtain rfl : now = now' := eq_of_heq hab
    refine Prog.lockstep_look fun s s' hE => ?_
    simp only [id_eq]
    rw [hE.budgets]
    cases s.budgets.chargeTool now (some i) with
    | mk answer budgets =>
      refine Prog.lockstep_bind (Prog.lockstep_modify fun s s' hE => ?_) fun _ _ _ =>
        Prog.lockstep_ofExcept answer
      exact ⟨rfl, hE.hooks⟩

/-- **Both gates ask the same and let the same calls pass.** -/
theorem gate_lockstep [Platform] (c : ToolCall) (entry : RegisteredTool) :
    Prog.Lockstep theCall Beside Eq (x.gate c entry) (x.gate c entry) := by
  refine Prog.lockstep_bind (dispatch_lockstep (P := Eq) (fun _ => rfl) (fun _ _ h => by rw [h]) x
    _ rfl rfl) fun r r' h => ?_
  obtain ⟨hpayload, hstopped⟩ := h
  rw [hpayload, hstopped]
  by_cases hstop : r'.stopped = true
  · rw [if_pos hstop]
    exact Prog.lockstep_raise _
  · rw [if_neg hstop]
    refine Prog.lockstep_bind (x.authorize_lockstep ..) fun _ _ _ => ?_
    refine Prog.lockstep_bind (charge_lockstep c.budget) fun _ _ _ => ?_
    refine Prog.lockstep_bind (Prog.lockstep_ofExcept _) fun key key' h => ?_
    cases h
    exact Prog.lockstep_pure rfl

/-! ## behind the gate -/

/-- How a call ends behind the gate: with a hook, and its result. -/
inductive Ended (c : ToolCall) (entry : RegisteredTool) (s : Boundary)
    (result : ToolExecutionResult) : CallTrace → Except Err ToolExecutionResult → Prop
  | failed {tr tr' : CallTrace} {hook : HookResult} {s' : Boundary} {status text : String}
      (bad : status ≠ "ok") (status_eq : result.status = .str status)
      (error : result.error = .str text)
      (returned : c.raiseOnError = false) (beside : Beside s s')
      (run : (x.dispatch c.hookSnapshot (toolError entry c.request result.error)).Outcome s' tr'
        (.ok hook) s') (heard : theCall.heard tr = theCall.heard tr') :
      Ended c entry s result tr (.ok result)
  | returned {tr tr' : CallTrace} {hook : Except Err HookResult} {s' : Boundary}
      (status : result.status = .str "ok") (error : result.error = .none) (beside : Beside s s')
      (run : (x.dispatch c.hookSnapshot (afterTool entry c.request result)).Outcome s' tr' hook s')
      (heard : theCall.heard tr = theCall.heard tr') :
      Ended c entry s result tr (hook.map fun _ => result)

theorem Ended.after (tr : CallTrace) {c : ToolCall} {entry : RegisteredTool} {s s' : Boundary}
    {result : ToolExecutionResult} {tr' : CallTrace} {r : Except Err ToolExecutionResult}
    (h : x.Ended c entry s' result tr' r) (hs : Beside s s') (htr : theCall.heard tr = []) :
    x.Ended c entry s result (tr ++ tr') r := by
  have hheard : theCall.heard (tr ++ tr') = theCall.heard tr' := by
    rw [Dialogue.heard_append, htr]
    rfl
  cases h with
  | failed bad status error returned beside run heard =>
    exact .failed bad status error returned ⟨beside.budgets.trans hs.budgets,
      beside.hooks.trans hs.hooks⟩ run (hheard.trans heard)
  | returned status error beside run heard =>
    exact .returned status error ⟨beside.budgets.trans hs.budgets,
      beside.hooks.trans hs.hooks⟩ run (hheard.trans heard)

theorem dispatch_run (hooks : Option HookSnapshot) (d : Dispatch) (s : Boundary) :
    Prog.wp .alone (fun tr r s' => s' = s ∧ (x.dispatch hooks d).Outcome s tr r s)
      (x.dispatch hooks d) s := by
  refine Prog.wp_mono (Prog.wp_and (x.dispatch_frame hooks d s)
    (Prog.wp_of_outcome fun _ _ _ h => h)) fun tr r s' h => ?_
  obtain ⟨rfl, h⟩ := h
  exact ⟨rfl, h⟩

structure Recorded (σ : ReplaySession) (key : String) (result : ToolExecutionResult)
    (record : ReplayRecord) (s' : Boundary) : Prop where
  session : s'.session = some { σ with records := σ.records ++ [record] }
  kind : record.kind = .tool
  key : record.key = key
  response : record.response = redactValue σ.redactor result.toPayload

theorem recordResult_recording {σ : ReplaySession} {s : Boundary} (hs : s.session = some σ)
    (hmode : σ.mode = .record) (request : ToolRequest) (entry : RegisteredTool) (args : Value)
    (key : String) (result : ToolExecutionResult) :
    Prog.wp .alone (fun tr r s' => theCall.heard tr = [] ∧ r = .ok result ∧ Beside s s' ∧
      ∃ record, Recorded σ key result record s') (recordResult request entry args key result) s := by
  have hrecording : σ.isRecording = true := by simp [ReplaySession.isRecording, hmode]
  unfold recordResult
  refine Prog.wp_perform_bind.2 ⟨trivial, fun s' hs' _ now _ => ?_⟩
  cases hs'
  rw [Prog.wp_gets_bind]
  simp only [id_eq]
  rw [hs]
  show Prog.wp .alone _ (if σ.isRecording = true then _ else _) s
  rw [if_pos hrecording]
  unfold ReplaySession.record
  rw [if_neg (not_not_intro hrecording)]
  exact ⟨rfl, rfl, ⟨rfl, rfl⟩, _, rfl, rfl, rfl, rfl⟩

section
variable [Platform]

theorem finishFailed_recording {σ : ReplaySession} {s : Boundary} (hs : s.session = some σ)
    (hmode : σ.mode = .record) (c : ToolCall) (entry : RegisteredTool) (args : Value)
    (key : String) (duration : Rat) (timeout : Bool) (text : String) :
    Prog.wp .alone (fun tr r s' => s'.session = s.session ∨ ∃ result record,
      Recorded σ key result record s' ∧ x.Ended c entry s result tr r)
      (x.finishFailed c entry args key duration timeout text) s := by
  refine Prog.wp_bind_of (x.dispatch_run c.hookSnapshot _ s) (fun tr hook s' h => ?_)
    fun tr e s' h => .inl (by rw [h.1])
  obtain ⟨rfl, hrun⟩ := h
  by_cases hraise : c.raiseOnError = true
  · rw [if_pos hraise]
    exact .inl rfl
  · rw [if_neg hraise]
    refine Prog.wp_mono (recordResult_recording hs hmode ..) fun tr' r s'' h => .inr ?_
    obtain ⟨hheard, rfl, _, record, hrecord⟩ := h
    have hstatus : (if timeout then "timeout" else "error") ≠ "ok" := by cases timeout <;> decide
    refine ⟨_, record, hrecord, .failed hstatus rfl rfl (by simpa using hraise) ⟨rfl, rfl⟩ hrun ?_⟩
    rw [Dialogue.heard_append, hheard, List.append_nil]

theorem invoke_unheard (entry : RegisteredTool) (args : Value) (s : Boundary) :
    Prog.wp .alone (fun tr r s' => theCall.heard tr = [] ∧ Beside s s' ∧
      s'.session = s.session ∧ ∃ invocation, r = .ok invocation) (invoke entry args) s := by
  unfold invoke
  cases invocationPayload args with
  | error text => exact ⟨rfl, ⟨rfl, rfl⟩, rfl, _, rfl⟩
  | ok payload =>
    refine Prog.wp_modify_bind.2 ⟨trivial, fun s' hs' _ answer _ => ?_⟩
    cases hs'
    exact ⟨rfl, ⟨rfl, rfl⟩, rfl, _, rfl⟩

/-- **A live call that is recorded**: it left no record, or the record of its result. -/
theorem finishLive_recording {σ : ReplaySession} {s : Boundary} (hs : s.session = some σ)
    (hmode : σ.mode = .record) (c : ToolCall) (entry : RegisteredTool) (args : Value)
    (key : String) : Prog.wp .alone (fun tr r s' => (∃ reading, ⟨.timer 0, reading⟩ ∈ tr) ∧
      (s'.session = s.session ∨ ∃ result record, Recorded σ key result record s' ∧
        x.Ended c entry s result tr r)) (x.finishLive c entry args key) s := by
  refine ⟨trivial, fun s' hs' _ started _ => ?_⟩
  cases hs'
  refine Prog.wp_mono (Q := fun tr r s' => s'.session = s.session ∨ ∃ result record,
    Recorded σ key result record s' ∧ x.Ended c entry s result tr r) ?_ fun tr r s' h => ?_
  · show Prog.wp .alone _ (invoke entry args >>= _) s
    refine Prog.wp_bind_of (invoke_unheard entry args s) (fun tr invocation s₁ h₁ => ?_)
      fun tr e s₁ h₁ => .inl h₁.2.2.1
    obtain ⟨hheard, hbeside, hsession, _⟩ := h₁
    have hs₁ : s₁.session = some σ := hsession.trans hs
    have hfailed : ∀ (ended : BoundaryAnswer (.timer 1)) (timeout : Bool) (duration : Rat)
        (text : String), Prog.wp .alone (fun tr' r s' => s'.session = s.session ∨
          ∃ result record, Recorded σ key result record s' ∧
            x.Ended c entry s result (tr ++ ⟨.timer 1, ended⟩ :: tr') r)
          (x.finishFailed c entry args key duration timeout text) s₁ := by
      intro ended timeout duration text
      refine Prog.wp_mono (x.finishFailed_recording hs₁ hmode c entry args key duration timeout
        text) fun tr' r s' h => ?_
      rcases h with h | ⟨result, record, hrecord, hended⟩
      · exact .inl (h.trans hsession)
      · refine .inr ⟨result, record, hrecord, Ended.after x tr ?_ hbeside hheard⟩
        exact Ended.after x [⟨.timer 1, ended⟩] hended ⟨rfl, rfl⟩ rfl
    cases invocation with
    | aborted message => exact .inl hsession
    | timedOut =>
      refine ⟨trivial, fun s' hs' _ ended _ => ?_⟩
      cases hs'
      exact hfailed ended true _ _
    | failed text =>
      refine ⟨trivial, fun s' hs' _ ended _ => ?_⟩
      cases hs'
      exact hfailed ended false _ _
    | returned content artifact =>
      refine ⟨trivial, fun s' hs' _ ended _ => ?_⟩
      cases hs'
      show Prog.wp .alone _ (recordResult c.request entry args key _ >>= _) s₁
      refine Prog.wp_bind_of (recordResult_recording hs₁ hmode ..) (fun tr₂ result s₂ h₂ => ?_)
        fun tr₂ e s₂ h₂ => nomatch h₂.2.1
      obtain ⟨hheard₂, hresult, hbeside₂, record, hrecord⟩ := h₂
      cases hresult
      refine Prog.wp_bind_of (x.dispatch_run c.hookSnapshot _ s₂) (fun tr₃ hook s₃ h₃ => ?_)
        fun tr₃ e s₃ h₃ => ?_
      · obtain ⟨rfl, hrun⟩ := h₃
        refine .inr ⟨_, record, hrecord, Ended.after x tr ?_ hbeside hheard⟩
        refine Ended.after x [⟨.timer 1, ended⟩] ?_ ⟨rfl, rfl⟩ rfl
        refine Ended.after x tr₂ ?_ hbeside₂ hheard₂
        rw [List.append_nil]
        exact .returned rfl rfl ⟨rfl, rfl⟩ hrun rfl
      · obtain ⟨rfl, hrun⟩ := h₃
        refine .inr ⟨_, record, hrecord, Ended.after x tr ?_ hbeside hheard⟩
        refine Ended.after x [⟨.timer 1, ended⟩] ?_ ⟨rfl, rfl⟩ rfl
        refine Ended.after x tr₂ ?_ hbeside₂ hheard₂
        exact .returned rfl rfl ⟨rfl, rfl⟩ hrun rfl
  · refine ⟨⟨started, List.mem_cons_self⟩, h.imp_right ?_⟩
    rintro ⟨result, record, hrecord, hended⟩
    exact ⟨result, record, hrecord, Ended.after x [⟨.timer 0, started⟩] hended ⟨rfl, rfl⟩ rfl⟩

/-- what becomes of a call whose recording answers -/
inductive Echoed (c : ToolCall) (entry : RegisteredTool) (s : Boundary)
    (prior : ToolExecutionResult) : CallTrace → Except Err ToolExecutionResult → Prop
  | failed {tr tr' : CallTrace} {hook : Except Err HookResult} {result : ToolExecutionResult}
      (status : prior.status ≠ .str "ok")
      (run : (x.dispatch c.hookSnapshot (toolError entry c.request
        (if prior.error.truthy then prior.error else .str ""))).Outcome s tr' hook s)
      (heard : theCall.heard tr = theCall.heard tr') (echoes : Echoes prior result)
      {r : Except Err ToolExecutionResult}
      (ends : c.raiseOnError = false → r = hook.map fun _ => result) : Echoed c entry s prior tr r
  | returned {tr tr' : CallTrace} {hook : Except Err HookResult} {result : ToolExecutionResult}
      (status : prior.status = .str "ok")
      (run : (x.dispatch c.hookSnapshot (afterTool entry c.request result)).Outcome s tr' hook s)
      (heard : theCall.heard tr = theCall.heard tr') (echoes : Echoes prior result) :
      Echoed c entry s prior tr (hook.map fun _ => result)

theorem finishReplayed_echo (c : ToolCall) (entry : RegisteredTool) {replayed : Value}
    {prior : ToolExecutionResult} (h : ToolExecutionResult.fromPayload replayed = .ok prior)
    (s : Boundary) : Prog.wp .alone (fun tr r s' => s' = s ∧ x.Echoed c entry s prior tr r)
      (x.finishReplayed c entry replayed) s := by
  refine ⟨trivial, fun s' hs' _ started _ => ?_⟩
  cases hs'
  refine Prog.wp_ofExcept_bind (fun prior' hprior => ?_) fun e he => nomatch h.symm.trans he
  cases h.symm.trans hprior
  refine ⟨trivial, fun s' hs' _ ended _ => ?_⟩
  cases hs'
  have hechoes : Echoes prior { prior with name := entry.name } := ⟨rfl, rfl, rfl, rfl⟩
  show Prog.wp .alone _ (if prior.status ≠ .str "ok" then _ else _) s
  by_cases hok : prior.status ≠ .str "ok"
  · rw [if_pos hok]
    refine Prog.wp_bind_of (x.dispatch_run c.hookSnapshot _ s) (fun tr hook s' h => ?_)
      fun tr e s' h => ?_
    · obtain ⟨rfl, hrun⟩ := h
      by_cases hraise : c.raiseOnError = true
      · rw [if_pos hraise]
        refine ⟨rfl, .failed hok hrun ?_ hechoes fun h => ?_⟩
        · rw [List.append_nil]
          rfl
        · rw [hraise] at h
          cases h
      · rw [if_neg hraise]
        refine ⟨rfl, .failed hok hrun ?_ ?_ fun _ => rfl⟩
        · rw [List.append_nil]
          rfl
        · exact ⟨rfl, rfl, rfl, rfl⟩
    · refine ⟨h.1, .failed hok h.2 ?_ hechoes fun _ => rfl⟩
      rfl
  · rw [if_neg hok]
    refine Prog.wp_bind_of (x.dispatch_run c.hookSnapshot _ s) (fun tr hook s' h => ?_)
      fun tr e s' h => ?_
    · obtain ⟨rfl, hrun⟩ := h
      refine ⟨rfl, .returned (not_not.1 hok) hrun ?_ ⟨rfl, rfl, rfl, rfl⟩⟩
      rw [List.append_nil]
      rfl
    · refine ⟨h.1, .returned (not_not.1 hok) h.2 ?_ ⟨rfl, rfl, rfl, rfl⟩⟩
      rfl

end

end ToolExecutor
/-! ## one call, twice -/

section
variable [Platform]

theorem redactValue_toPayload (result : ToolExecutionResult) :
    redactValue [] result.toPayload = .dict
      [("name", .str result.name), ("status", redactValue [] result.status),
       ("content", redactValue [] result.content), ("artifact", redactValue [] result.artifact),
       ("error", redactValue [] result.error), ("duration_seconds", .float result.durationSeconds),
       ("tool_call_id", redactValue [] result.toolCallId),
       ("generation_id", redactValue [] result.generationId),
       ("run_id", redactValue [] result.runId), ("redacted", .bool result.redacted)] := by
  have hplain : ["name", "status", "content", "artifact", "error", "duration_seconds",
      "tool_call_id", "generation_id", "run_id", "redacted"].all (fun k => !secretKey k) = true := by
    decide +kernel
  simp only [List.all_cons, Bool.and_eq_true, Bool.not_eq_true', List.all_nil] at hplain
  obtain ⟨h₁, h₂, h₃, h₄, h₅, h₆, h₇, h₈, h₉, h₁₀, -⟩ := hplain
  simp only [ToolExecutionResult.toPayload, redactValue, redactFields, h₁, h₂, h₃, h₄, h₅, h₆, h₇,
    h₈, h₉, h₁₀]
  rfl

theorem fromPayload_redacted (result : ToolExecutionResult) :
    ∃ prior, ToolExecutionResult.fromPayload (redactValue [] result.toPayload) = .ok prior ∧
      prior.status = redactValue [] result.status ∧
      prior.content = redactValue [] result.content ∧
      prior.artifact = redactValue [] result.artifact ∧
      prior.error = redactValue [] result.error := by
  have hduration : floatFault (.float result.durationSeconds) = none := by
    unfold floatFault
    split <;> rfl
  rw [redactValue_toPayload]
  unfold ToolExecutionResult.fromPayload
  simp only
  split
  · rename_i e he
    cases hduration.symm.trans he
  · exact ⟨_, rfl, rfl, rfl, rfl, rfl⟩

/-- the same call, made twice: nothing but the session differs, and who is asked answers alike -/
structure SameCall (t t' : ToolRun) : Prop where
  executor : t'.executor = t.executor
  call : t'.call = t.call
  beside : Beside t.before t'.before
  agreed : theCall.Agreed (theCall.heard t.trace) (theCall.heard t'.trace)

/-- A call that went live and left no record.  It was cancelled, it failed and raises its error, or
it failed and a hook of the failure raises. -/
def ToolRun.Lost (t : ToolRun) : Prop :=
  (∃ reading, ⟨.timer 0, reading⟩ ∈ t.trace) ∧ t.after.session = t.before.session

/-- the same outcome, but for what a recording hides under the keys of secrets -/
inductive SameOutcome : Except Err ToolExecutionResult → Except Err ToolExecutionResult → Prop
  | result {a b : ToolExecutionResult} (status : b.status = a.status) (error : b.error = a.error)
      (content : b.content = redactValue [] a.content)
      (artifact : b.artifact = redactValue [] a.artifact) : SameOutcome (.ok a) (.ok b)
  | raised (e : Err) : SameOutcome (.error e) (.error e)

/-- the same outcome as it is claimed: the same result, or the same kind of error -/
inductive ExactOutcome : Except Err ToolExecutionResult → Except Err ToolExecutionResult → Prop
  | result {a b : ToolExecutionResult} (status : b.status = a.status) (error : b.error = a.error)
      (content : b.content = a.content) (artifact : b.artifact = a.artifact) :
      ExactOutcome (.ok a) (.ok b)
  | raised {e e' : Err} (kind : e'.kind = e.kind) : ExactOutcome (.error e) (.error e')

/-- its tool was not cancelled -/
def ToolRun.Uncancelled (t : ToolRun) : Prop :=
  ∀ p ∈ invocations t.trace, ∀ message, p.2.2 ≠ .aborted message

theorem ends_alike {x : ToolExecutor} {c : ToolCall} {entry : RegisteredTool} {s s' : Boundary}
    {result prior : ToolExecutionResult} {tr tr' : CallTrace}
    {r r' : Except Err ToolExecutionResult} (hended : x.Ended c entry s result tr r)
    (hprior : ToolExecutionResult.fromPayload (redactValue [] result.toPayload) = .ok prior)
    (hechoed : x.Echoed c entry s' prior tr' r') (hbeside : Beside s s')
    (hagreed : theCall.Agreed (theCall.heard tr) (theCall.heard tr')) : SameOutcome r r' := by
  obtain ⟨prior₁, hprior₁, hstatus, hcontent, hartifact, herror⟩ := fromPayload_redacted result
  cases hprior.symm.trans hprior₁
  cases hended with
  | @failed _ _ _ status text bad hstatus' herror' returned beside run heard =>
    rw [hstatus'] at hstatus
    rw [herror'] at herror run
    cases hechoed with
    | returned hok => exact absurd (Value.str.inj (hstatus.symm.trans hok)) bad
    | failed hbad run' heard' echoes ends =>
      have hmessage : (if prior.error.truthy then prior.error else .str "") = .str text := by
        rw [herror]
        by_cases htext : text = ""
        · subst htext
          rfl
        · have htruthy : Value.truthy (redactValue [] (.str text)) = true := by
            show decide (text ≠ "") = true
            simpa using htext
          rw [if_pos htruthy]
          rfl
      rw [hmessage] at run'
      rw [heard, heard'] at hagreed
      have hhook := (dispatch_lockstep (P := Eq) (fun _ => rfl) (fun _ _ h => by rw [h]) x
        c.hookSnapshot rfl rfl).alike (beside.join hbeside) run run' hagreed
      cases hhook with
      | ok _ =>
        rw [ends returned]
        refine .result ?_ ?_ (echoes.content.trans hcontent) (echoes.artifact.trans hartifact)
        · rw [echoes.status, hstatus, hstatus']
          rfl
        · rw [echoes.error, herror, herror']
          rfl
  | returned hok herror' beside run heard =>
    rw [hok] at hstatus
    rw [herror'] at herror
    cases hechoed with
    | failed hbad => exact absurd hstatus hbad
    | @returned _ hook' result' hok' run' heard' echoes =>
      have hpayload : timeless (ToolExecutor.afterTool entry c.request result).payload =
          timeless (ToolExecutor.afterTool entry c.request result').payload := by
        unfold ToolExecutor.afterTool
        rw [hok, echoes.status, hok']
        simp [timeless]
      rw [heard, heard'] at hagreed
      have hsame : Prog.Lockstep theCall Beside (SameHook fun p p' => timeless p = timeless p')
          (x.dispatch c.hookSnapshot (ToolExecutor.afterTool entry c.request result))
          (x.dispatch c.hookSnapshot (ToolExecutor.afterTool entry c.request result')) :=
        dispatch_lockstep (P := fun p p' => timeless p = timeless p') (fun _ => rfl)
          (fun _ _ h => h) x _ (by rfl) hpayload
      have hhook := hsame.alike (beside.join hbeside) run run' hagreed
      cases hhook with
      | ok _ =>
        refine .result ?_ ?_ (echoes.content.trans hcontent) (echoes.artifact.trans hartifact)
        · rw [echoes.status, hok', hok]
        · rw [echoes.error, herror, herror']
          rfl
      | error e => exact .raised e

/-- what comes of a call behind the gate -/
def behindGate (x : ToolExecutor) (c : ToolCall) (entry : RegisteredTool) (args : Value)
    (key : String) : Call ToolExecutionResult := do
  let replayed ← ToolExecutor.recordedAnswer entry key
  if replayed ≠ .none then x.finishReplayed c entry replayed
  else x.finishLive c entry args key

theorem behindGate_recording {x : ToolExecutor} {c : ToolCall} {entry : RegisteredTool}
    {args : Value} {key : String} {σ : ReplaySession} {s s' : Boundary} {tr : CallTrace}
    {r : Except Err ToolExecutionResult} (h : (behindGate x c entry args key).Outcome s tr r s')
    (hs : s.session = some σ) (hmode : σ.mode = .record) :
    (∃ reading, ⟨.timer 0, reading⟩ ∈ tr) ∧ (s'.session = s.session ∨
      ∃ result record, ToolExecutor.Recorded σ key result record s' ∧
        x.Ended c entry s result tr r) := by
  have hanswer : Prog.wp .alone (fun tr r s' => tr = [] ∧ r = .ok .none ∧ s' = s)
      (ToolExecutor.recordedAnswer entry key) s := by
    unfold ToolExecutor.recordedAnswer
    rw [Prog.wp_gets_bind]
    simp only [id_eq]
    rw [hs]
    show Prog.wp .alone _ (if ¬ σ.isReplaying = true then _ else _) s
    rw [if_pos (by simp [ReplaySession.isReplaying, hmode])]
    exact ⟨rfl, rfl, rfl⟩
  suffices hwp : Prog.wp .alone (fun tr r s' => (∃ reading, ⟨.timer 0, reading⟩ ∈ tr) ∧
      (s'.session = s.session ∨ ∃ result record, ToolExecutor.Recorded σ key result record s' ∧
        x.Ended c entry s result tr r)) (behindGate x c entry args key) s from Prog.wp_alone hwp h
  refine Prog.wp_bind_of hanswer (fun tr a s' h => ?_) fun _ _ _ h => by cases h.2.1
  obtain ⟨rfl, ha, rfl⟩ := h
  cases ha
  rw [if_neg (not_not_intro rfl)]
  exact x.finishLive_recording hs hmode c entry args key

theorem behindGate_replaying {x : ToolExecutor} {c : ToolCall} {entry : RegisteredTool}
    {args : Value} {key : String} {ρ : ReplaySession} {s s' : Boundary} {tr : CallTrace}
    {r : Except Err ToolExecutionResult} (h : (behindGate x c entry args key).Outcome s tr r s')
    (hρ : Replays ρ s) {record : ReplayRecord} {rest : List ReplayRecord}
    (hpending : ρ.pending .tool key = record :: rest) {prior : ToolExecutionResult}
    (hprior : ToolExecutionResult.fromPayload record.response = .ok prior) :
    (∃ ρ', Replays ρ' s' ∧ Advanced key rest ρ ρ') ∧
      ∃ s₁, Beside s s₁ ∧ x.Echoed c entry s₁ prior tr r := by
  have hresponse : record.response ≠ .none := by
    intro hnone
    rw [hnone] at hprior
    cases hprior
  suffices hwp : Prog.wp .alone (fun tr r s' => (∃ ρ', Replays ρ' s' ∧ Advanced key rest ρ ρ') ∧
      ∃ s₁, Beside s s₁ ∧ x.Echoed c entry s₁ prior tr r) (behindGate x c entry args key) s from
    Prog.wp_alone hwp h
  refine Prog.wp_bind.2 (ToolExecutor.recordedAnswer_wp hρ entry key
    (fun hnone => absurd (hnone.symm.trans hpending) (by simp)) fun q rest' ρ' hp hadv => ?_)
  cases hpending.symm.trans hp
  show Prog.wp .alone _ (if record.response ≠ .none then _ else _) _
  rw [if_pos hresponse]
  refine Prog.wp_mono (x.finishReplayed_echo c entry hprior _) fun tr r s' h => ?_
  obtain ⟨rfl, hechoed⟩ := h
  refine ⟨⟨ρ', ⟨rfl, hadv.mode.trans hρ.mode, hadv.fallback.trans hρ.fallback⟩, hadv⟩, ?_⟩
  exact ⟨{ s with session := some ρ' }.note (.consumed record), ⟨rfl, rfl⟩, hechoed⟩

/-- **One call, twice**: the replay of a call ends as the call did, if its record is the next. -/
theorem call_faithful {t t' : ToolRun} {σ ρ : ReplaySession} (ht : t.Happens) (ht' : t'.Happens)
    (hsame : SameCall t t') (hσ : t.before.session = some σ) (hmode : σ.mode = .record)
    (hplain : σ.redactor = []) (hkept : ¬ t.Lost) (hρ : Replays ρ t'.before) :
    (t.after.session = some σ ∧ t'.after.session = some ρ ∧ SameOutcome t.result t'.result) ∨
    ∃ record, t.after.session = some { σ with records := σ.records ++ [record] } ∧
      record.kind = .tool ∧ ∀ rest, ρ.pending .tool record.key = record :: rest →
        (∃ ρ', Replays ρ' t'.after ∧ Advanced record.key rest ρ ρ') ∧
          SameOutcome t.result t'.result := by
  unfold ToolRun.Happens ToolExecutor.execute at ht ht'
  rw [hsame.call, hsame.executor] at ht'
  have hagreed := hsame.agreed
  cases hrequire : t.call.snapshot.require t.call.request.name with
  | error e =>
    rw [hrequire] at ht ht'
    obtain ⟨_, hr, hs⟩ := ht
    obtain ⟨_, hr', hs'⟩ := ht'
    rw [hr, hr', hs, hs']
    exact .inl ⟨hσ, hρ.found, .raised e⟩
  | ok entry =>
    rw [hrequire] at ht ht'
    replace ht : (t.executor.gate t.call entry >>= fun given =>
      behindGate t.executor t.call entry given.1 given.2).Outcome t.before t.trace t.result
        t.after := ht
    replace ht' : (t.executor.gate t.call entry >>= fun given =>
      behindGate t.executor t.call entry given.1 given.2).Outcome t'.before t'.trace t'.result
        t'.after := ht'
    have hgates := t.executor.gate_lockstep t.call entry
    have hframe : ∀ {s tr r s'}, (t.executor.gate t.call entry).Outcome s tr r s' →
        s'.session = s.session := fun h =>
      (Prog.wp_alone (t.executor.gate_frame t.call entry _) h).1
    rcases Prog.outcome_bind ht with ⟨tr₁, given, s₁, tr₂, htr, hgate, hrest⟩ | ⟨e, hr, hgate⟩
    · rcases Prog.outcome_bind ht' with ⟨tr₁', given', s₁', tr₂', htr', hgate', hrest'⟩ |
        ⟨e', hr', hgate'⟩
      · rw [htr, htr'] at hagreed
        obtain ⟨hgiven, hbeside, hagreed⟩ := hgates.run hsame.beside hgate hgate' hagreed
        cases hgiven with
        | ok hgiven =>
          subst hgiven
          obtain ⟨args, key⟩ := given
          have hs₁ := (hframe hgate).trans hσ
          have hρ₁ : Replays ρ s₁' := ⟨(hframe hgate').trans hρ.found, hρ.mode, hρ.fallback⟩
          obtain ⟨⟨reading, hreading⟩, hlost | ⟨result, record, hrecord, hended⟩⟩ :=
            behindGate_recording hrest hs₁ hmode
          · refine absurd ⟨⟨reading, ?_⟩, hlost.trans (hframe hgate)⟩ hkept
            rw [htr]
            exact List.mem_append_right _ hreading
          · refine .inr ⟨record, hrecord.session, hrecord.kind, fun rest hpending => ?_⟩
            have hresponse := hrecord.response
            rw [hplain] at hresponse
            obtain ⟨prior, hprior, _⟩ := fromPayload_redacted result
            rw [hrecord.key] at hpending ⊢
            obtain ⟨hnext, s₂, hbeside₂, hechoed⟩ := behindGate_replaying hrest' hρ₁ hpending
              (by rw [hresponse]; exact hprior)
            refine ⟨hnext, ends_alike hended hprior hechoed ?_ hagreed⟩
            exact ⟨hbeside₂.budgets.trans hbeside.budgets, hbeside₂.hooks.trans hbeside.hooks⟩
      · rw [htr, ← List.append_nil t'.trace] at hagreed
        cases (hgates.run hsame.beside hgate hgate' hagreed).1
    · rcases Prog.outcome_bind ht' with ⟨tr₁', given', s₁', tr₂', htr', hgate', hrest'⟩ |
        ⟨e', hr', hgate'⟩
      · rw [htr', ← List.append_nil t.trace] at hagreed
        cases (hgates.run hsame.beside hgate hgate' hagreed).1
      · have hee := hgates.alike hsame.beside hgate hgate' hagreed
        rw [hr, hr']
        cases hee with
        | error => exact .inl ⟨(hframe hgate).trans hσ, (hframe hgate').trans hρ.found, .raised e⟩

/-! ## sequences -/

theorem ToolRun.Happens.recording {t : ToolRun} {σ : ReplaySession} (ht : t.Happens)
    (hσ : t.before.session = some σ) (hmode : σ.mode = .record) :
    t.after.session = some σ ∨ ∃ record, record.kind = .tool ∧
      t.after.session = some { σ with records := σ.records ++ [record] } := by
  rcases Prog.outcome_bind ht with ⟨tr, entry, s, tr', _, hrequire, hrest⟩ | ⟨e, _, hrequire⟩
  · have hs : s = t.before := by
      have hkeep := Prog.wp_alone ((Prog.wp_ofExcept (Q := fun _ _ s' => s' = t.before) _ _).2 rfl)
        hrequire
      exact hkeep
    subst hs
    have hframe : ∀ {tr r s'}, (t.executor.gate t.call entry).Outcome t.before tr r s' →
        s'.session = t.before.session := fun h =>
      (Prog.wp_alone (t.executor.gate_frame t.call entry _) h).1
    rcases Prog.outcome_bind hrest with ⟨tr₁, given, s₁, tr₂, _, hgate, hrest⟩ | ⟨e, _, hgate⟩
    · obtain ⟨_, hlost | ⟨result, record, hrecord, _⟩⟩ :=
        behindGate_recording hrest ((hframe hgate).trans hσ) hmode
      · exact .inl (hlost.trans ((hframe hgate).trans hσ))
      · exact .inr ⟨record, hrecord.kind, hrecord.session⟩
    · exact .inl ((hframe hgate).trans hσ)
  · have hkeep := Prog.wp_alone ((Prog.wp_ofExcept (Q := fun _ _ s' => s' = t.before) _ _).2 rfl)
      hrequire
    exact .inl ((congrArg Boundary.session hkeep).trans hσ)

def ofKey (key : String) (l : List ReplayRecord) : List ReplayRecord :=
  l.filter fun r => r.kind = .tool && r.key = key

theorem faithful_from {runs : List ToolRun} {before after : Option ReplaySession}
    (hrec : CallRun before runs after) {σ recorded : ReplaySession} (hbefore : before = some σ)
    (hafter : after = some recorded) (hmode : σ.mode = .record) (hplain : σ.redactor = [])
    (hkept : ∀ t ∈ runs, ¬ t.Lost) :
    ∃ l, recorded.records = σ.records ++ l ∧ ∀ {ρ runs' after'}, ρ.mode = .replay →
      ρ.fallback = .error → (∀ key, ρ.pending .tool key = ofKey key l) →
      CallRun (some ρ) runs' after' → List.Forall₂ SameCall runs runs' →
      List.Forall₂ (fun t t' => SameOutcome t.result t'.result) runs runs' := by
  induction hrec generalizing σ with
  | nil session =>
    cases hbefore.symm.trans hafter
    refine ⟨[], (List.append_nil _).symm, fun _ _ _ _ hsame => ?_⟩
    cases hsame
    exact .nil
  | @cons t rest session session' found happens later ih =>
    have hσ : t.before.session = some σ := found.trans hbefore
    rw [List.forall_mem_cons] at hkept
    rcases happens.recording hσ hmode with hsession | ⟨record, hkind, hsession⟩
    · obtain ⟨l, hl, hrest⟩ := ih hsession hafter hmode hplain hkept.2
      refine ⟨l, hl, fun {ρ runs' after'} hρ hf hpending hrep hsame => ?_⟩
      cases hsame with
      | @cons _ t' _ rest' hcall hsame =>
        cases hrep with
        | cons found' happens' later' =>
          rcases call_faithful happens happens' hcall hσ hmode hplain hkept.1 ⟨found', hρ, hf⟩ with
            ⟨_, hsession', houtcome⟩ | ⟨record, hmore, _⟩
          · rw [hsession'] at later'
            exact .cons houtcome (hrest hρ hf hpending later' hsame)
          · have hlength := congrArg (List.length ∘ ReplaySession.records)
              (Option.some.inj (hsession.symm.trans hmore))
            simp at hlength
    · obtain ⟨l, hl, hrest⟩ := ih hsession hafter hmode hplain hkept.2
      rw [List.append_assoc] at hl
      refine ⟨record :: l, hl, fun {ρ runs' after'} hρ hf hpending hrep hsame => ?_⟩
      cases hsame with
      | @cons _ t' _ rest' hcall hsame =>
        cases hrep with
        | cons found' happens' later' =>
          rcases call_faithful happens happens' hcall hσ hmode hplain hkept.1 ⟨found', hρ, hf⟩ with
            ⟨hnone, _⟩ | ⟨record', hmore, _, hreplay⟩
          · have hlength := congrArg (List.length ∘ ReplaySession.records)
              (Option.some.inj (hsession.symm.trans hnone))
            simp at hlength
          · have hrecords := congrArg ReplaySession.records
              (Option.some.inj (hsession.symm.trans hmore))
            obtain rfl : record = record' := by simpa using hrecords
            have hnext : ρ.pending .tool record.key = record :: ofKey record.key l := by
              rw [hpending]
              exact List.filter_cons_of_pos (by simp [hkind])
            obtain ⟨⟨ρ', hρ', hadv⟩, houtcome⟩ := hreplay _ hnext
            rw [hρ'.found] at later'
            refine .cons houtcome (hrest hρ'.mode hρ'.fallback (fun key => ?_) later' hsame)
            rw [hadv.pending]
            by_cases hkey : record.key = key
            · rw [if_pos hkey, hkey]
            · rw [if_neg hkey, hpending]
              exact List.filter_cons_of_neg (by simp [hkey])

/-- The same calls, recorded by a session that tracks no secret, and replayed from its records. -/
structure Rerun (σ recorded ρ : ReplaySession) (runs runs' : List ToolRun) : Prop where
  recording : σ.mode = .record
  untracked : σ.redactor = []
  empty : σ.records = []
  record : CallRun (some σ) runs (some recorded)
  replaying : ρ.mode = .replay
  fallback : ρ.fallback = .error
  records : ρ.records = recorded.records
  cursor : ρ.cursor = Dict.empty
  replay : ∃ after, CallRun (some ρ) runs' after
  same : List.Forall₂ SameCall runs runs'

/-- **A recording replays faithfully**, as far as it goes: call by call the same status and error,
the same content and artifact but for what lies under the key of a secret, and the same errors,
provided that every call that went live left its record. -/
theorem replay_faithful {σ recorded ρ : ReplaySession} {runs runs' : List ToolRun}
    (h : Rerun σ recorded ρ runs runs') (hkept : ∀ t ∈ runs, ¬ t.Lost) :
    List.Forall₂ (fun t t' => SameOutcome t.result t'.result) runs runs' := by
  obtain ⟨l, hl, hall⟩ := faithful_from h.record rfl rfl h.recording h.untracked hkept
  obtain ⟨after, hreplayed⟩ := h.replay
  refine hall h.replaying h.fallback (fun key => ?_) hreplayed h.same
  have hnone : ρ.consumed .tool key = 0 := by
    unfold ReplaySession.consumed
    rw [h.cursor]
    rfl
  rw [h.empty, List.nil_append] at hl
  unfold ReplaySession.pending
  rw [hnone, List.drop_zero]
  unfold ReplaySession.matching
  rw [h.records, hl]
  rfl

end

section
open scoped Plain

/-- a call of a tool nobody guards -/
def trialCall (raiseOnError : Bool) : ToolCall where
  request := { name := "login", args := .dict [] }
  snapshot := ⟨"", [unguarded "login"]⟩
  raiseOnError := raiseOnError

/-- a tool that ends in this way -/
def trialAnswer (invocation : Invocation) : (l : BoundaryOperation) → BoundaryAnswer l
  | .handler .. => .ok none
  | .evaluate .. => .ok { allowed := true, reason := "" }
  | .approve _ => .ok true
  | .invoke .. => invocation
  | .clock => (0 : Rat)
  | .timer _ => (0 : Rat)

/-- the call against a session -/
def trial (raiseOnError : Bool) (invocation : Invocation) (session : ReplaySession) : ToolRun :=
  let s : Boundary := { budgets := .root 0 none, session := some session }
  let run := (ToolExecutor.execute {} (trialCall raiseOnError)).execute (trialAnswer invocation) s
  { executor := {}, call := trialCall raiseOnError, before := s, trace := run.1
    result := run.2.1, after := run.2.2 }

theorem trial_happens (raiseOnError : Bool) (invocation : Invocation) (session : ReplaySession) :
    (trial raiseOnError invocation session).Happens := Prog.execute_outcome ..

def trialRecorded (t : ToolRun) : ReplaySession := t.after.session.getD {}

theorem trial_rerun {raiseOnError : Bool} {invocation invocation' : Invocation} {t t' : ToolRun}
    (ht : t = trial raiseOnError invocation { mode := .record })
    (ht' : t' = trial raiseOnError invocation'
      { mode := .replay, records := (trialRecorded t).records })
    (hsession : t.after.session.isSome = true) (hheard : theCall.heard t.trace = []) :
    Rerun { mode := .record } (trialRecorded t)
      { mode := .replay, records := (trialRecorded t).records } [t] [t'] := by
  have hrecorded : t.after.session = some (trialRecorded t) := by
    unfold trialRecorded
    cases h : t.after.session with
    | none => simp [h] at hsession
    | some session => rfl
  exact {
    recording := rfl
    untracked := rfl
    empty := rfl
    record := .cons (by rw [ht]; rfl) (by rw [ht]; exact trial_happens ..) (hrecorded ▸ .nil _)
    replaying := rfl
    fallback := rfl
    records := rfl
    cursor := rfl
    replay := ⟨_, .cons (by rw [ht']; rfl) (by rw [ht']; exact trial_happens ..) (.nil _)⟩
    same := by
      refine .cons ⟨by rw [ht, ht']; rfl, by rw [ht, ht']; rfl, ?_, ?_⟩ .nil
      · rw [ht, ht']
        exact ⟨rfl, rfl⟩
      · rw [hheard]
        trivial }

/-- a tool that returns a token -/
def tokenCall : ToolRun :=
  trial false (.returned (.dict [("token", .str "abc")]) .none) { mode := .record }

def tokenReplay : ToolRun :=
  trial false (.returned .none .none) { mode := .replay, records := (trialRecorded tokenCall).records }

def failingCall : ToolRun := trial true (.failed "RuntimeError: boom") { mode := .record }

def failingReplay : ToolRun :=
  trial true (.returned .none .none) { mode := .replay, records := (trialRecorded failingCall).records }

def contentOf (r : Except Err ToolExecutionResult) : Option Value :=
  match r with
  | .ok a => some a.content
  | .error _ => none

def kindOf (r : Except Err ToolExecutionResult) : Option ErrorKind :=
  match r with
  | .ok _ => none
  | .error e => some e.kind

theorem ExactOutcome.content_eq {r r' : Except Err ToolExecutionResult} (h : ExactOutcome r r') :
    contentOf r' = contentOf r ∧ kindOf r' = kindOf r := by
  cases h with
  | result _ _ content _ => exact ⟨congrArg some content, rfl⟩
  | raised kind => exact ⟨rfl, congrArg some kind⟩

/-- no invocation was cancelled -/
def uncancelled (tr : CallTrace) : Bool :=
  (invocations tr).all fun p => match p.2.2 with
    | .aborted _ => false
    | _ => true

theorem ToolRun.Uncancelled.of {t : ToolRun} (h : uncancelled t.trace = true) :
    t.Uncancelled := by
  intro p hp message hm
  have hnot := List.all_eq_true.1 h p hp
  rw [hm] at hnot
  cases hnot

theorem ToolRun.not_lost {t : ToolRun} {session : ReplaySession}
    (h : t.before.session = some session) (hempty : session.records = [])
    (hgrown : (trialRecorded t).records.length = 1) : ¬ t.Lost := by
  intro hlost
  have hsame : trialRecorded t = session := by
    unfold trialRecorded
    rw [hlost.2, h]
    rfl
  rw [hsame, hempty] at hgrown
  cases hgrown

theorem token_rerun : Rerun { mode := .record } (trialRecorded tokenCall)
    { mode := .replay, records := (trialRecorded tokenCall).records } [tokenCall] [tokenReplay] :=
  trial_rerun rfl rfl (by decide +kernel) (List.length_eq_zero_iff.1 (by decide +kernel))

theorem replay_faithful_token : List.Forall₂ (fun t t' => SameOutcome t.result t'.result)
    [tokenCall] [tokenReplay] :=
  replay_faithful token_rerun fun t ht => by
    rw [List.mem_singleton.1 ht]
    exact ToolRun.not_lost rfl rfl (by decide +kernel)

/-- what a tool returned under the key of a secret is hidden, and a failure that was raised was
never recorded -/
theorem replay_unfaithful :
    (∃ recorded ρ, Rerun { mode := .record } recorded ρ [tokenCall] [tokenReplay] ∧
      tokenCall.Uncancelled ∧ ¬ ExactOutcome tokenCall.result tokenReplay.result) ∧
    ∃ recorded ρ, Rerun { mode := .record } recorded ρ [failingCall] [failingReplay] ∧
      failingCall.Uncancelled ∧ ¬ ExactOutcome failingCall.result failingReplay.result := by
  refine ⟨⟨_, _, token_rerun, .of ?_, fun h => ?_⟩,
    ⟨_, _, trial_rerun rfl rfl ?_ ?_, .of ?_, fun h => ?_⟩⟩
  · decide +kernel
  · exact absurd h.content_eq.1 (by decide +kernel)
  · decide +kernel
  · exact List.length_eq_zero_iff.1 (by decide +kernel)
  · decide +kernel
  · exact absurd h.content_eq.2 (by decide +kernel)

end
end Chassis
