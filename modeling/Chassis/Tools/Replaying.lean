import Chassis.Tools.Gate
import Chassis.Replay.Order
import Chassis.Capabilities.Plain

/-!
# Calls against a recording

A call asks its session once, after the gate.  What a session answers is a response, and a null
response is what it answers when there is none.

* `dispatch_frame`, `authorize_frame`, `gate_frame`   the gate does not touch the session;
* `recordedAnswer_wp`      what a replaying session answers;
* `ToolRun`, `CallRun`     finished calls, and sequences of them;
* `never_live_iff`         when a replay never goes live.
-/

set_option linter.unusedSectionVars false

namespace Chassis
open Py Coop

/-- a session that replays, and raises where it has no answer -/
structure Replays (session : ReplaySession) (s : Boundary) : Prop where
  found : s.session = some session
  mode : session.mode = .replay
  fallback : session.fallback = .error

/-- `session'` is `session` after one replay of a tool call -/
structure Advanced (key : String) (rest : List ReplayRecord) (session session' : ReplaySession) :
    Prop where
  mode : session'.mode = session.mode
  fallback : session'.fallback = session.fallback
  records : session'.records = session.records
  pending : ∀ key', session'.pending .tool key' =
    if key = key' then rest else session.pending .tool key'

/-- what a result has in common with the one that was recorded -/
structure Echoes (prior result : ToolExecutionResult) : Prop where
  status : result.status = prior.status
  content : result.content = prior.content
  artifact : result.artifact = prior.artifact
  error : result.error = prior.error

namespace ToolExecutor
variable (x : ToolExecutor)

/-! ## the gate leaves the session alone -/

theorem runHandlers_frame (d : Dispatch) (l : List HookRegistration) (payload : Document)
    (failures : List CleanupFailure) (s : Boundary) :
    Prog.wp .alone (fun _ _ s' => s' = s) (runHandlers d l payload failures) s := by
  induction l generalizing payload failures with
  | nil => exact rfl
  | cons registration rest ih =>
    refine Prog.wp_perform_bind.2 ⟨trivial, fun s' hs' _ answer _ => ?_⟩
    cases hs'
    cases judge d registration payload answer with
    | goOn payload' new => exact ih payload' (failures ++ new)
    | stop => exact rfl
    | fail e => exact rfl

theorem dispatch_frame (hooks : Option HookSnapshot) (d : Dispatch) (s : Boundary) :
    Prog.wp .alone (fun _ _ s' => s' = s) (x.dispatch hooks d) s := by
  unfold dispatch
  by_cases hx : ¬ x.hooks = true
  · rw [if_pos hx]
    exact rfl
  · rw [if_neg hx]
    exact runHandlers_frame ..

theorem frame_dispatch {α : Type} {hooks : Option HookSnapshot} {d : Dispatch}
    {k : HookResult → Call α} {s : Boundary}
    (hk : ∀ result, Prog.wp .alone (fun _ _ s' => s' = s) (k result) s) :
    Prog.wp .alone (fun _ _ s' => s' = s) (x.dispatch hooks d >>= k) s := by
  refine Prog.wp_bind_of (x.dispatch_frame hooks d s) (fun _ result s' h => ?_) fun _ _ _ h => h
  rw [show s' = s from h]
  exact hk result

theorem authorizePermission_frame (entry : RegisteredTool) (request : ToolRequest)
    (hooks : Option HookSnapshot) (engine : Nat) (required : Bool) (permission : Permission)
    (s : Boundary) : Prog.wp .alone (fun _ _ s' => s' = s)
      (x.authorizePermission entry request hooks engine required permission) s := by
  refine ⟨trivial, fun s' hs' _ answer _ => ?_⟩
  cases hs'
  cases answer with
  | error e =>
    show Prog.wp .alone _ (if e.kind.isException then _ else _) s
    by_cases hexc : e.kind.isException
    · rw [if_pos hexc]
      exact x.frame_dispatch fun _ => rfl
    · rw [if_neg hexc]
      exact rfl
  | ok result =>
    refine x.frame_dispatch fun _ => ?_
    by_cases hallowed : ¬ result.allowed = true
    · rw [if_pos hallowed]
      exact rfl
    · rw [if_neg hallowed]
      exact rfl

theorem authorize_frame (entry : RegisteredTool) (request : ToolRequest) (args : Value)
    (hooks : Option HookSnapshot) (engine : Option Nat) (s : Boundary) :
    Prog.wp .alone (fun _ _ s' => s' = s) (x.authorize entry request args hooks engine) s := by
  have hpermissions : Prog.wp .alone (fun _ _ s' => s' = s)
      (x.authorizePermissions entry request hooks engine) s := by
    cases engine with
    | none => exact rfl
    | some engine =>
      refine Prog.wp_ofExcept_bind (fun permissions _ => ?_) fun _ _ => rfl
      refine Prog.wp_bind_of (Prog.wp_foldlM_ends (A := fun _ s' => s' = s) (E := fun s' => s' = s)
        (fun required permission s' hs' => ?_) rfl) (fun _ required s' hs' => ?_) fun _ _ _ h => h
      · cases hs'
        refine Prog.wp_mono (x.authorizePermission_frame entry request hooks engine required
          permission s) fun _ r s'' h => ?_
        cases r <;> exact h
      · cases hs'
        exact x.frame_dispatch fun _ => rfl
  refine Prog.wp_bind_of hpermissions (fun _ required s' hs' => ?_) fun _ _ _ h => h
  cases hs'
  by_cases hrequired : required = true
  · rw [if_pos hrequired]
    refine ⟨trivial, fun s' hs' _ answer _ => ?_⟩
    cases hs'
    match answer with
    | .error e => exact rfl
    | .ok true => exact rfl
    | .ok false => exact x.frame_dispatch fun _ => rfl
  · rw [if_neg hrequired]
    exact rfl

theorem charge_frame (budget : Option Nat) (s : Boundary) :
    Prog.wp .alone (fun _ _ s' => s'.session = s.session) (charge budget) s := by
  cases budget with
  | none => exact rfl
  | some i =>
    refine Prog.wp_perform_bind.2 ⟨trivial, fun s' hs' _ now _ => ?_⟩
    cases hs'
    rw [Prog.wp_gets_bind]
    simp only [id_eq]
    cases s.budgets.chargeTool now (some i) with
    | mk answer budgets => exact Prog.wp_modify_bind.2 ((Prog.wp_ofExcept answer _).2 rfl)

section
variable [Platform]

/-- the gate does not touch the session, and the key it gives is that of its arguments -/
theorem gate_frame (c : ToolCall) (entry : RegisteredTool) (s : Boundary) :
    Prog.wp .alone (fun _ r s' => s'.session = s.session ∧ ∀ args key, r = .ok (args, key) →
      boundaryKey [.str BoundaryKind.tool.value, .str entry.name, args] = .ok key)
      (x.gate c entry) s := by
  refine Prog.wp_bind_of (x.dispatch_frame c.hookSnapshot (beforeTool c entry) s)
    (fun _ transformed s' hs' => ?_) fun _ e s' hs' => ⟨by rw [hs'], fun _ _ h => nomatch h⟩
  cases hs'
  by_cases hstop : transformed.stopped = true
  · rw [if_pos hstop]
    exact ⟨rfl, fun _ _ h => nomatch h⟩
  · rw [if_neg hstop]
    refine Prog.wp_bind_of (x.authorize_frame entry c.request _ c.hookSnapshot _ s)
      (fun _ _ s' hs' => ?_) fun _ e s' hs' => ⟨by rw [hs'], fun _ _ h => nomatch h⟩
    cases hs'
    refine Prog.wp_bind_of (charge_frame c.budget s) (fun _ _ s' hs' => ?_)
      fun _ e s' hs' => ⟨hs', fun _ _ h => nomatch h⟩
    refine Prog.wp_ofExcept_bind (fun key hkey => ⟨hs', fun args' key' h => ?_⟩)
      fun e _ => ⟨hs', fun _ _ h => nomatch h⟩
    cases h
    exact hkey

/-! ## what a replaying session answers -/

/-- **The next record answers**, and without one the call is refused. -/
theorem recordedAnswer_wp {R : Rules Boundary BoundaryOperation BoundaryAnswer}
    {Q : CallTrace → Except Err Value → Boundary → Prop} {session : ReplaySession} {s : Boundary}
    (h : Replays session s) (entry : RegisteredTool) (key : String)
    (hmissing : session.pending .tool key = [] → ∀ e, Q [] (.error e) s)
    (hnext : ∀ r rest session', session.pending .tool key = r :: rest →
      Advanced key rest session session' →
      Q [] (.ok r.response) ({ s with session := some session' }.note (.consumed r))) :
    Prog.wp R Q (recordedAnswer entry key) s := by
  have hreplaying : session.isReplaying = true := by simp [ReplaySession.isReplaying, h.mode]
  have hhead : session.hasRemaining .tool key = (session.pending .tool key).head?.isSome := by
    unfold ReplaySession.hasRemaining
    rw [session.peek_eq_head]
  unfold recordedAnswer
  rw [Prog.wp_gets_bind]
  simp only [id_eq]
  rw [h.found]
  show Prog.wp R Q (if ¬ session.isReplaying = true then _ else _) s
  rw [if_neg (not_not_intro hreplaying), hhead]
  rcases session.replay_pending .tool key with
    ⟨hnone, _⟩ | ⟨r, rest, session', hp, hr, hm, hf, hrecords, hall⟩
  · rw [hnone, if_neg (by simp), if_pos h.fallback]
    exact hmissing hnone _
  · rw [hp, if_pos (by simp)]
    rw [hr]
    refine hnext r rest session' hp ⟨hm, hf, hrecords, fun key' => ?_⟩
    rw [hall]
    by_cases hk : key = key'
    · rw [if_pos ⟨rfl, hk⟩, if_pos hk]
    · rw [if_neg fun he => hk he.2, if_neg hk]

theorem wp_undisturbed {α : Type} {Q : CallTrace → Except Err α → Boundary → Prop} {p : Call α}
    {s : Boundary} (h : Prog.wp sharing Q p s) : Prog.wp .alone Q p s :=
  Prog.wp_stricter h (fun _ _ he => congrArg Boundary.journal he) (fun _ _ _ => trivial)
    fun _ => Iff.rfl

theorem last_hook {Q : Except Err ToolExecutionResult → Prop} {hooks : Option HookSnapshot}
    {d : Dispatch} {k : HookResult → Call ToolExecutionResult} {s : Boundary}
    (herr : ∀ e, Q (.error e))
    (hk : ∀ result, Prog.wp .alone (fun tr r s' => s' = s ∧ invocations tr = [] ∧ Q r)
      (k result) s) :
    Prog.wp .alone (fun tr r s' => s' = s ∧ invocations tr = [] ∧ Q r)
      (x.dispatch hooks d >>= k) s := by
  refine Prog.wp_bind_of (Prog.wp_and (x.dispatch_frame hooks d s)
    (wp_undisturbed (x.dispatch_spec hooks d s))) (fun tr result s' h => ?_) fun tr e s' h => ?_
  · obtain ⟨rfl, _, honly, _⟩ := h
    refine Prog.wp_mono (hk result) fun tr' r s'' h' => ⟨h'.1, ?_, h'.2.2⟩
    rw [invocations_append, honly.invocations, h'.2.1]
    rfl
  · exact ⟨h.1, h.2.2.1.invocations, herr e⟩

theorem finishReplayed_wp (c : ToolCall) (entry : RegisteredTool) (replayed : Value)
    (s : Boundary) : Prog.wp .alone (fun tr r s' => s' = s ∧ invocations tr = [] ∧
      ∀ result, r = .ok result → ∃ prior, ToolExecutionResult.fromPayload replayed = .ok prior ∧
        Echoes prior result) (x.finishReplayed c entry replayed) s := by
  refine ⟨trivial, fun s' hs' _ started _ => ?_⟩
  cases hs'
  refine Prog.wp_ofExcept_bind (fun prior hprior => ?_) fun e _ => ⟨rfl, rfl, fun _ h => nomatch h⟩
  refine ⟨trivial, fun s' hs' _ ended _ => ?_⟩
  cases hs'
  have hgive : ∀ r : Except Err ToolExecutionResult, (∀ result, r = .ok result →
      Echoes prior result) → ∀ result, r = .ok result →
        ∃ prior, ToolExecutionResult.fromPayload replayed = .ok prior ∧ Echoes prior result :=
    fun r h result hr => ⟨prior, hprior, h result hr⟩
  show Prog.wp .alone _ (if prior.status ≠ .str "ok" then _ else _) s
  by_cases hok : prior.status ≠ .str "ok"
  · rw [if_pos hok]
    refine x.last_hook (fun _ _ h => nomatch h) fun _ => ?_
    by_cases hraise : c.raiseOnError = true
    · rw [if_pos hraise]
      exact ⟨rfl, rfl, fun _ h => nomatch h⟩
    · rw [if_neg hraise]
      refine ⟨rfl, rfl, hgive _ fun result h => ?_⟩
      cases h
      exact ⟨rfl, rfl, rfl, rfl⟩
  · rw [if_neg hok]
    refine x.last_hook (fun _ _ h => nomatch h) fun _ => ⟨rfl, rfl, hgive _ fun result h => ?_⟩
    cases h
    exact ⟨rfl, rfl, rfl, rfl⟩

end

end ToolExecutor

/-! ## one call -/

section
variable [Platform]

structure ToolRun where
  executor : ToolExecutor
  call : ToolCall
  before : Boundary
  trace : CallTrace
  result : Except Err ToolExecutionResult
  after : Boundary

/-- `t` is what came of the call -/
def ToolRun.Happens (t : ToolRun) : Prop :=
  (t.executor.execute t.call).Outcome t.before t.trace t.result t.after

/-- The call invoked nothing: it raised, or a record that it consumed is its result. -/
structure ToolRun.Replayed (t : ToolRun) (session : ReplaySession) : Prop where
  quiet : invocations t.trace = []
  answered : ∀ result, t.result = .ok result → ∃ acts record prior,
    t.after.journal = t.before.journal ++ acts ∧ .consumed record ∈ acts ∧
    record ∈ session.records ∧ ToolExecutionResult.fromPayload record.response = .ok prior ∧
    Echoes prior result

/-- every record that a tool call can find has a response -/
def ReplaySession.Answerable (session : ReplaySession) : Prop :=
  ∀ r ∈ session.records, r.kind = .tool → r.response = .none → ∀ name args,
    boundaryKey [.str BoundaryKind.tool.value, .str name, args] ≠ .ok r.key

/-- a session that is as it was, but for its cursors -/
def Rewound (session : ReplaySession) (s : Boundary) : Prop :=
  ∃ session', Replays session' s ∧ session'.records = session.records

theorem mem_pending {session : ReplaySession} {kind : BoundaryKind} {key : String}
    {r : ReplayRecord} (h : r ∈ session.pending kind key) :
    r ∈ session.records ∧ r.kind = kind ∧ r.key = key := by
  have hmatching := List.mem_filter.1 (List.mem_of_mem_drop h)
  simpa using hmatching

/-- **One call against an answerable recording** invokes nothing. -/
theorem ToolRun.Happens.replayed {t : ToolRun} {session : ReplaySession} (h : t.Happens)
    (hsession : Rewound session t.before) (hanswers : session.Answerable) :
    t.Replayed session ∧ Rewound session t.after := by
  obtain ⟨now, hreplays, hrecords⟩ := hsession
  suffices hwp : Prog.wp .alone (fun tr r s' => invocations tr = [] ∧
      (∀ result, r = .ok result → ∃ acts record prior, s'.journal = t.before.journal ++ acts ∧
        .consumed record ∈ acts ∧ record ∈ session.records ∧
        ToolExecutionResult.fromPayload record.response = .ok prior ∧ Echoes prior result) ∧
      Rewound session s') (t.executor.execute t.call) t.before by
    obtain ⟨hquiet, hanswered, hafter⟩ := Prog.wp_alone hwp h
    exact ⟨⟨hquiet, hanswered⟩, hafter⟩
  have hstay : ∀ s', s'.session = t.before.session → Rewound session s' := fun s' hs' =>
    ⟨now, ⟨hs'.trans hreplays.found, hreplays.mode, hreplays.fallback⟩, hrecords⟩
  refine Prog.wp_ofExcept_bind (fun entry _ => ?_)
    fun e _ => ⟨rfl, fun _ h => (nomatch h), hstay _ rfl⟩
  refine Prog.wp_bind_of (Prog.wp_and (t.executor.gate_frame t.call entry t.before)
    (ToolExecutor.wp_undisturbed (t.executor.gate_spec t.call entry t.before)))
    (fun tr given s' hgate => ?_) fun tr e s' hgate => ?_
  · obtain ⟨⟨hs', hkey⟩, hquiet, acts, hacts, _⟩ := hgate
    obtain ⟨args, key⟩ := given
    replace hkey := hkey args key rfl
    have hnow : Replays now s' := ⟨hs'.trans hreplays.found, hreplays.mode, hreplays.fallback⟩
    refine Prog.wp_bind.2 (ToolExecutor.recordedAnswer_wp hnow entry key (fun _ e => ?_) ?_)
    · exact ⟨by rw [List.append_nil]; exact hquiet, fun _ h => (nomatch h), hstay s' hs'⟩
    · intro r rest session' hpending hadvanced
      obtain ⟨hmem, hkind, hrkey⟩ := mem_pending (hpending ▸ List.mem_cons_self)
      rw [hrecords] at hmem
      have hresponse : r.response ≠ .none := fun hnull =>
        hanswers r hmem hkind hnull entry.name args (hrkey ▸ hkey)
      show Prog.wp .alone _ (if r.response ≠ .none then _ else _) _
      rw [if_pos hresponse]
      refine Prog.wp_mono (t.executor.finishReplayed_wp t.call entry r.response _)
        fun tr' result s'' h => ?_
      obtain ⟨rfl, hquiet', hresult⟩ := h
      refine ⟨?_, fun value hvalue => ?_, session', ⟨rfl, ?_, ?_⟩, ?_⟩
      · rw [invocations_append, hquiet]
        exact hquiet'
      · obtain ⟨prior, hprior, hechoes⟩ := hresult value hvalue
        refine ⟨acts ++ [.consumed r], r, prior, ?_, by simp, hmem, hprior, hechoes⟩
        show s'.journal ++ [_] = _
        rw [hacts, List.append_assoc]
      · rw [hadvanced.mode]
        exact hreplays.mode
      · rw [hadvanced.fallback]
        exact hreplays.fallback
      · rw [hadvanced.records]
        exact hrecords
  · exact ⟨hgate.2.1, fun _ h => (nomatch h), hstay s' hgate.1.1⟩

/-! ## sequences of calls -/

/-- calls that follow one another; nobody else touches the session -/
inductive CallRun : Option ReplaySession → List ToolRun → Option ReplaySession → Prop
  | nil (session : Option ReplaySession) : CallRun session [] session
  | cons {t : ToolRun} {rest : List ToolRun} {session session' : Option ReplaySession}
      (found : t.before.session = session) (happens : t.Happens)
      (later : CallRun t.after.session rest session') : CallRun session (t :: rest) session'

theorem CallRun.replayed {session : ReplaySession} {before after : Option ReplaySession}
    {runs : List ToolRun} (h : CallRun before runs after)
    (hbefore : ∀ s : Boundary, s.session = before → Rewound session s)
    (hanswers : session.Answerable) : ∀ t ∈ runs, t.Replayed session := by
  induction h with
  | nil => exact fun _ h => nomatch h
  | cons found happens _ ih =>
    obtain ⟨hreplayed, hafter⟩ := happens.replayed (hbefore _ found) hanswers
    refine List.forall_mem_cons.2 ⟨hreplayed, ih fun s hs => ?_⟩
    obtain ⟨session', hreplays, hrecords⟩ := hafter
    exact ⟨session', ⟨hs.trans hreplays.found, hreplays.mode, hreplays.fallback⟩, hrecords⟩

/-! ## a call that finds a null response -/

/-- a hook that replaces the arguments of a call -/
def rewriting : HookRegistration where
  registrationId := ""
  event := .beforeToolExecute
  handlerName := ""
  mode := .transform
  priority := 0
  errorPolicy := .raise
  sequence := 0
  ownerId := ""
  scopeId := ""

def unguarded (name : String) : RegisteredTool where
  registrationId := ""
  name := name
  description := ""
  inputSchema := .absent
  ownerId := ""
  ownerName := ""
  scopeId := ""

def plainExecutor : ToolExecutor where
  hooks := true

def plainCall (name : String) : ToolCall where
  request := { name := name, args := .dict [] }
  snapshot := ⟨"", [unguarded name]⟩
  hookSnapshot := some ⟨"", [rewriting]⟩

def plainAnswer (args : Value) : (l : BoundaryOperation) → BoundaryAnswer l
  | .handler .. => .ok (some { mapping := .ok (some [("args", args)]) })
  | .evaluate .. => .ok { allowed := true, reason := "" }
  | .approve _ => .ok true
  | .invoke .. => .returned .none .none
  | .clock => (0 : Rat)
  | .timer _ => (0 : Rat)

/-- the call of the tool with these arguments, from a state -/
def plainRun (name : String) (args : Value) (s : Boundary) : ToolRun :=
  let run := (plainExecutor.execute (plainCall name)).execute (plainAnswer args) s
  { executor := plainExecutor, call := plainCall name, before := s, trace := run.1
    result := run.2.1, after := run.2.2 }

theorem plainRun_happens (name : String) (args : Value) (s : Boundary) :
    (plainRun name args s).Happens := Prog.execute_outcome ..

/-- the hook lets the call pass, with its arguments replaced -/
theorem plain_gate {name : String} {args : Value} {key : String}
    (hkey : boundaryKey [.str BoundaryKind.tool.value, .str name, args] = .ok key) (s : Boundary) :
    ∃ tr, (plainExecutor.gate (plainCall name) (unguarded name)).execute (plainAnswer args) s =
      (tr, .ok (args, key), s) := by
  have hhook : ∃ tr, (plainExecutor.dispatch (plainCall name).hookSnapshot
      (ToolExecutor.beforeTool (plainCall name) (unguarded name))).execute (plainAnswer args) s =
        (tr, .ok ⟨[("args", args)], false, []⟩, s) := ⟨_, rfl⟩
  obtain ⟨tr, htr⟩ := hhook
  have hrest : (do
      let key ← Prog.ofExcept (boundaryKey [.str BoundaryKind.tool.value, .str name, args])
      return (args, key) : Call (Value × String)).execute (plainAnswer args) s =
        ([], .ok (args, key), s) := by
    rw [hkey]
    rfl
  refine ⟨tr ++ [], ?_⟩
  unfold ToolExecutor.gate
  rw [Prog.execute_bind, htr]
  show (tr ++ (Prog.execute (plainAnswer args) (do
      let key ← Prog.ofExcept (boundaryKey [.str BoundaryKind.tool.value, .str name, args])
      return (args, key) : Call (Value × String)) s).1, (Prog.execute (plainAnswer args) (do
      let key ← Prog.ofExcept (boundaryKey [.str BoundaryKind.tool.value, .str name, args])
      return (args, key) : Call (Value × String)) s).2) = _
  rw [hrest]

theorem plain_execute {name : String} {args : Value} {key : String}
    (hkey : boundaryKey [.str BoundaryKind.tool.value, .str name, args] = .ok key)
    {session : ReplaySession} {s : Boundary} (h : Replays session s) {r : ReplayRecord}
    {rest : List ReplayRecord} (hpending : session.pending .tool key = r :: rest) :
    ∃ tr session', Advanced key rest session session' ∧
      (plainExecutor.execute (plainCall name)).execute (plainAnswer args) s =
        let s' := { s with session := some session' }.note (.consumed r)
        let run := (if r.response ≠ .none then
            plainExecutor.finishReplayed (plainCall name) (unguarded name) r.response
          else plainExecutor.finishLive (plainCall name) (unguarded name) args key).execute
            (plainAnswer args) s'
        (tr ++ run.1, run.2) := by
  obtain ⟨tr, htr⟩ := plain_gate hkey s
  have hanswer := Prog.wp_alone (ToolExecutor.recordedAnswer_wp h (unguarded name) key
    (Q := fun tr result s' => ∃ session', Advanced key rest session session' ∧ tr = [] ∧
      result = .ok r.response ∧ s' = { s with session := some session' }.note (.consumed r))
    (fun hnone => absurd (hnone.symm.trans hpending) (by simp)) fun r' rest' session' hp hadv => by
      cases hpending.symm.trans hp
      exact ⟨session', hadv, rfl, rfl, rfl⟩)
    (Prog.execute_outcome (plainAnswer args) (ToolExecutor.recordedAnswer (unguarded name) key) s)
  obtain ⟨session', hadv, h₁, h₂, h₃⟩ := hanswer
  have hanswer : (ToolExecutor.recordedAnswer (unguarded name) key).execute (plainAnswer args) s =
      ([], .ok r.response, { s with session := some session' }.note (.consumed r)) :=
    Prod.ext h₁ (Prod.ext h₂ h₃)
  have hrequire : (plainCall name).snapshot.require (plainCall name).request.name =
      .ok (unguarded name) := by
    simp [ToolSnapshot.require, plainCall, unguarded]
  refine ⟨tr, session', hadv, ?_⟩
  unfold ToolExecutor.execute
  rw [Prog.execute_bind, hrequire]
  show Prog.execute (plainAnswer args) (plainExecutor.gate (plainCall name) (unguarded name) >>= _) s = _
  rw [Prog.execute_bind, htr]
  show (tr ++ (Prog.execute (plainAnswer args)
    (ToolExecutor.recordedAnswer (unguarded name) key >>= _) s).1, _) = _
  rw [Prog.execute_bind, hanswer]
  rfl

theorem plainRun_answered {name : String} {args : Value} {key : String}
    (hkey : boundaryKey [.str BoundaryKind.tool.value, .str name, args] = .ok key)
    {session : ReplaySession} {s : Boundary} (h : Replays session s) {r : ReplayRecord}
    {rest : List ReplayRecord} (hpending : session.pending .tool key = r :: rest)
    (hresponse : r.response ≠ .none) :
    ∃ session', Replays session' (plainRun name args s).after ∧
      session'.pending .tool key = rest := by
  obtain ⟨tr, session', hadv, hrun⟩ := plain_execute hkey h hpending
  rw [if_pos hresponse] at hrun
  have hlast := Prog.wp_alone (plainExecutor.finishReplayed_wp (plainCall name) (unguarded name)
    r.response ({ s with session := some session' }.note (.consumed r)))
    (Prog.execute_outcome (plainAnswer args) _ _)
  have hafter : (plainRun name args s).after =
      { s with session := some session' }.note (.consumed r) := by
    unfold plainRun
    rw [hrun]
    exact hlast.1
  refine ⟨session', ⟨by rw [hafter]; rfl, ?_, ?_⟩, ?_⟩
  · rw [hadv.mode]
    exact h.mode
  · rw [hadv.fallback]
    exact h.fallback
  · rw [hadv.pending, if_pos rfl]

/-- such a session records nothing -/
theorem recordResult_replaying {session : ReplaySession} {s : Boundary} (h : Replays session s)
    (request : ToolRequest) (entry : RegisteredTool) (args : Value) (key : String)
    (result : ToolExecutionResult) : Prog.wp .alone (fun _ r s' => r = .ok result ∧ s' = s)
      (ToolExecutor.recordResult request entry args key result) s := by
  have hrecording : ¬ session.isRecording = true := by simp [ReplaySession.isRecording, h.mode]
  have hlive : ¬ (session.isReplaying && decide (session.fallback = .live)) = true := by
    simp [h.fallback]
  unfold ToolExecutor.recordResult
  refine Prog.wp_perform_bind.2 ⟨trivial, fun s' hs' _ now _ => ?_⟩
  cases hs'
  rw [Prog.wp_gets_bind]
  simp only [id_eq]
  rw [h.found]
  show Prog.wp .alone _ (if session.isRecording = true then _ else _) s
  rw [if_neg hrecording, if_neg hlive]
  exact ⟨rfl, rfl⟩

theorem plain_failed {name : String} {args : Value} {key text : String}
    (hp : ToolExecutor.invocationPayload args = .error text) {session : ReplaySession}
    {s : Boundary} (h : Replays session s) :
    Prog.wp .alone (fun _ r s' => (∃ result, r = .ok result) ∧ s' = s)
      (plainExecutor.finishLive (plainCall name) (unguarded name) args key) s := by
  refine ⟨trivial, fun s' hs' _ started _ => ?_⟩
  cases hs'
  show Prog.wp .alone _ (ToolExecutor.invoke (unguarded name) args >>= _) s
  unfold ToolExecutor.invoke
  rw [hp]
  refine ⟨trivial, fun s' hs' _ ended _ => ?_⟩
  cases hs'
  have hresult : ∀ result, Prog.wp .alone (fun _ r s' => (∃ result, r = .ok result) ∧ s' = s)
      (ToolExecutor.recordResult (plainCall name).request (unguarded name) args key result) s :=
    fun result => Prog.wp_mono (recordResult_replaying h ..) fun _ _ _ hr => ⟨⟨_, hr.1⟩, hr.2⟩
  let duration : Rat := @HSub.hSub Rat Rat Rat _ ended started
  exact hresult (plainExecutor.failedResult (plainCall name) (unguarded name) duration
    false ("tool " ++ quoted name ++ " failed: " ++ text))

/-- a record without one is consumed, and the tool is called all the same -/
theorem plainRun_invokes {name : String} {args : Value} {key : String}
    (hkey : boundaryKey [.str BoundaryKind.tool.value, .str name, args] = .ok key)
    {session : ReplaySession} {s : Boundary} (h : Replays session s) {r : ReplayRecord}
    {rest : List ReplayRecord} (hpending : session.pending .tool key = r :: rest)
    (hresponse : r.response = .none) {payload : Value}
    (hp : ToolExecutor.invocationPayload args = .ok payload) :
    invocations (plainRun name args s).trace ≠ [] := by
  obtain ⟨tr, session', hadv, hrun⟩ := plain_execute hkey h hpending
  rw [if_neg (not_not_intro hresponse)] at hrun
  have hlive : ∃ rest, (plainRun name args s).trace = tr ++ (⟨.timer 0, (0 : Rat)⟩ ::
      ⟨.invoke (unguarded name) payload, Invocation.returned .none .none⟩ :: rest) := by
    unfold plainRun
    rw [hrun]
    unfold ToolExecutor.finishLive ToolExecutor.invoke
    rw [hp]
    exact ⟨_, rfl⟩
  obtain ⟨rest, hlive⟩ := hlive
  intro hquiet
  rw [hlive, invocations_append] at hquiet
  exact absurd (List.append_eq_nil_iff.1 hquiet).2 (by simp [invocations, invocation?])

theorem plainRun_null {name : String} {args : Value} {key : String}
    (hkey : boundaryKey [.str BoundaryKind.tool.value, .str name, args] = .ok key)
    {session : ReplaySession} {s : Boundary} (h : Replays session s) {r : ReplayRecord}
    {rest : List ReplayRecord} (hpending : session.pending .tool key = r :: rest)
    (hresponse : r.response = .none) (recorded : ReplaySession) :
    ¬ (plainRun name args s).Replayed recorded := by
  intro hreplayed
  cases hp : ToolExecutor.invocationPayload args with
  | ok payload =>
    exact plainRun_invokes hkey h hpending hresponse hp hreplayed.quiet
  | error text =>
    obtain ⟨tr, session', hadv, hrun⟩ := plain_execute hkey h hpending
    rw [if_neg (not_not_intro hresponse)] at hrun
    have hnext : Replays session' ({ s with session := some session' }.note (.consumed r)) :=
      ⟨rfl, hadv.mode.trans h.mode, hadv.fallback.trans h.fallback⟩
    obtain ⟨⟨result, hresult⟩, hafter⟩ := Prog.wp_alone (plain_failed hp hnext)
      (Prog.execute_outcome (plainAnswer args) _ _)
    have hgiven : (plainRun name args s).result = .ok result := by
      unfold plainRun
      rw [hrun]
      exact hresult
    have hend : (plainRun name args s).after =
        { s with session := some session' }.note (.consumed r) := by
      unfold plainRun
      rw [hrun]
      exact hafter
    obtain ⟨acts, record, prior, hacts, hmem, _, hprior, _⟩ := hreplayed.answered result hgiven
    rw [hend] at hacts
    have hacts : acts = [.consumed r] := (List.append_cancel_left hacts).symm
    rw [hacts, List.mem_singleton] at hmem
    cases hmem
    rw [hresponse] at hprior
    cases hprior

theorem exists_live {name : String} {args : Value} {key : String}
    (hkey : boundaryKey [.str BoundaryKind.tool.value, .str name, args] = .ok key)
    (recorded : ReplaySession) (l : List ReplayRecord) (hnull : ∃ r ∈ l, r.response = .none)
    {session : ReplaySession} {s : Boundary} (h : Replays session s)
    (hpending : session.pending .tool key = l) :
    ∃ runs after, CallRun s.session runs after ∧ ∃ t ∈ runs, ¬ t.Replayed recorded := by
  induction l generalizing session s with
  | nil =>
    obtain ⟨r, hr, _⟩ := hnull
    cases hr
  | cons r rest ih =>
    by_cases hresponse : r.response = .none
    · refine ⟨[plainRun name args s], _, .cons rfl (plainRun_happens name args s) (.nil _), _,
        List.mem_singleton_self _, plainRun_null hkey h hpending hresponse recorded⟩
    · obtain ⟨session', hnext, hrest⟩ := plainRun_answered hkey h hpending hresponse
      have hlater : ∃ r ∈ rest, r.response = .none :=
        (List.exists_mem_cons_iff _ _ _).1 hnull |>.resolve_left hresponse
      obtain ⟨runs, after, hruns, t, ht, hbad⟩ := ih hlater hnext hrest
      exact ⟨_ :: runs, after, .cons rfl (plainRun_happens name args s) hruns, t,
        List.mem_cons_of_mem _ ht, hbad⟩

theorem fromDict_cursor {payload : Value} {session : ReplaySession}
    (h : ReplaySession.fromDict payload = .ok session) : session.cursor = Dict.empty := by
  have hbad : ∀ {α : Type} {e : Err} {f : α → Except Err ReplaySession} {P : Prop},
      (Except.error e >>= f) = .ok session → P := fun h => nomatch h
  unfold ReplaySession.fromDict at h
  simp only at h
  split at h
  · obtain ⟨_, _, h⟩ := bind_ok.1 h
    obtain ⟨_, _, h⟩ := bind_ok.1 h
    obtain ⟨_, _, h⟩ := bind_ok.1 h
    obtain ⟨_, _, h⟩ := bind_ok.1 h
    obtain ⟨_, _, h⟩ := bind_ok.1 h
    obtain ⟨_, _, h⟩ := bind_ok.1 h
    split at h
    · obtain ⟨_, _, h⟩ := bind_ok.1 h
      split at h
      · obtain ⟨_, _, h⟩ := bind_ok.1 h
        split at h
        · obtain ⟨_, _, h⟩ := bind_ok.1 h
          split at h
          · obtain ⟨_, _, h⟩ := bind_ok.1 h
            obtain ⟨_, _, h⟩ := bind_ok.1 h
            cases h
            rfl
          · exact hbad h
        · exact hbad h
      · exact hbad h
    · exact hbad h
  · exact hbad h

/-- **When replay never goes live**: for a decoded recording that raises where it has no answer,
iff no record that a call can find has a null response. -/
theorem never_live_iff {payload : Value} {session : ReplaySession}
    (hread : ReplaySession.fromDict payload = .ok session) (hmode : session.mode = .replay)
    (hfallback : session.fallback = .error) :
    (∀ runs after, CallRun (some session) runs after → ∀ t ∈ runs, t.Replayed session) ↔
      session.Answerable := by
  constructor
  · intro h r hmem hkind hresponse name args hkey
    have hpending : session.pending .tool r.key =
        session.records.filter fun q => q.kind = .tool && q.key = r.key := by
      unfold ReplaySession.pending ReplaySession.consumed
      rw [fromDict_cursor hread]
      exact List.drop_zero
    have hfound : ∃ q ∈ session.pending .tool r.key, q.response = .none := by
      refine ⟨r, ?_, hresponse⟩
      rw [hpending]
      exact List.mem_filter.2 ⟨hmem, by simp [hkind]⟩
    obtain ⟨runs, after, hruns, t, ht, hbad⟩ := exists_live hkey session _ hfound
      (s := { budgets := .root 0 none, session := some session }) ⟨rfl, hmode, hfallback⟩ rfl
    exact hbad (h runs after hruns t ht)
  · intro h runs after hruns
    refine hruns.replayed (fun s hs => ?_) h
    exact ⟨session, ⟨hs, hmode, hfallback⟩, rfl⟩

end

section
open scoped Plain

/-- the key of the call of `echo` without arguments -/
def echoKey : String := "[\"tool\",\"echo\",\x7b\x7d]"

def echoRecord : ReplayRecord where
  kind := .tool
  sequence := 0
  key := echoKey

/-- a recording of that call, without a response -/
def echoRecording : Value := .dict
  [("format_version", .int 1), ("mode", .str "replay"), ("fallback", .str "error"),
   ("metadata", .dict []), ("records", .list [.dict
     [("kind", .str "tool"), ("sequence", .int 0), ("key", .str echoKey)]])]

def echoSession : ReplaySession where
  mode := .replay
  records := [echoRecord]

theorem echoRecording_read : ReplaySession.fromDict echoRecording = .ok echoSession := by
  rfl

theorem echo_key :
    boundaryKey [.str BoundaryKind.tool.value, .str "echo", .dict []] = .ok echoKey := by
  rfl

theorem never_live_iff_echo :
    (∀ runs after, CallRun (some echoSession) runs after → ∀ t ∈ runs, t.Replayed echoSession) ↔
      echoSession.Answerable :=
  never_live_iff echoRecording_read rfl rfl

/-- the recorded call reaches its tool -/
theorem echo_goes_live : ¬ ∀ payload session, ReplaySession.fromDict payload = .ok session →
    session.mode = .replay → session.fallback = .error → ∀ runs after,
      CallRun (some session) runs after → ∀ t ∈ runs, invocations t.trace = [] := by
  intro h
  let s : Boundary := { budgets := .root 0 none, session := some echoSession }
  have hreplays : Replays echoSession s := ⟨rfl, rfl, rfl⟩
  have hpending : echoSession.pending .tool echoKey = [echoRecord] := rfl
  have hquiet := h echoRecording echoSession echoRecording_read rfl rfl
    [plainRun "echo" (.dict []) s] _ (.cons rfl (plainRun_happens ..) (.nil _)) _
    (List.mem_singleton_self _)
  exact plainRun_invokes echo_key hreplays hpending rfl rfl hquiet

end
end Chassis
