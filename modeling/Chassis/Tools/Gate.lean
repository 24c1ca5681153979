import Chassis.Tools.Executor

/-!
# The gate in front of a tool

A call is followed through its awaits while other tasks do what they like with the budgets, the
session and the hooks they share with it; only the journal of the call is its own.

* `evaluations`, `approvals`, `invocations`   what a trace says of the engine, the gate, the tool;
* `Asked`          every handler was asked, and let the chain go on;
* `Cleared`        hook, engine and approval gate let the call pass;
* `Paid`           one tool call was charged;
* `tool_gate`      nothing reaches a tool, or a recorded answer, without either.
-/

set_option linter.unusedSectionVars false

namespace Chassis
open Py Coop

abbrev CallTrace := Trace BoundaryOperation BoundaryAnswer

/-- other tasks share everything but the journal of the call -/
def sharing : Rules Boundary BoundaryOperation BoundaryAnswer where
  interferes := fun s s' => s'.journal = s.journal
  admits := fun _ _ => True
  holds := fun _ => True

/-! ## what a trace says -/

def evaluation? : (l : BoundaryOperation) × BoundaryAnswer l →
    Option (Nat × PolicyRequest × Except Err PolicyResult)
  | ⟨.evaluate engine request, answer⟩ => some (engine, request, answer)
  | _ => none

def approval? : (l : BoundaryOperation) × BoundaryAnswer l →
    Option (ApprovalRequest × Except Err Bool)
  | ⟨.approve request, answer⟩ => some (request, answer)
  | _ => none

def invocation? : (l : BoundaryOperation) × BoundaryAnswer l →
    Option (RegisteredTool × Value × Invocation)
  | ⟨.invoke tool payload, answer⟩ => some (tool, payload, answer)
  | _ => none

/-- what the policy engines were asked, and answered -/
def evaluations (tr : CallTrace) : List (Nat × PolicyRequest × Except Err PolicyResult) :=
  tr.filterMap evaluation?

def approvals (tr : CallTrace) : List (ApprovalRequest × Except Err Bool) :=
  tr.filterMap approval?

/-- the tools that were invoked, with what, and how they ended -/
def invocations (tr : CallTrace) : List (RegisteredTool × Value × Invocation) :=
  tr.filterMap invocation?

@[simp] theorem evaluations_append (tr tr' : CallTrace) :
    evaluations (tr ++ tr') = evaluations tr ++ evaluations tr' := List.filterMap_append

@[simp] theorem approvals_append (tr tr' : CallTrace) :
    approvals (tr ++ tr') = approvals tr ++ approvals tr' := List.filterMap_append

@[simp] theorem invocations_append (tr tr' : CallTrace) :
    invocations (tr ++ tr') = invocations tr ++ invocations tr' := List.filterMap_append

/-- neither the engine nor the approval gate is asked -/
structure Silent (tr : CallTrace) : Prop where
  evaluations : evaluations tr = []
  approvals : approvals tr = []

theorem Silent.nil : Silent [] := ⟨rfl, rfl⟩

/-- only the handlers of one dispatch are asked -/
def OnlyHandlers (d : Dispatch) (tr : CallTrace) : Prop :=
  ∀ a ∈ tr, ∃ registration payload answer,
    a = ⟨BoundaryOperation.handler d registration payload, answer⟩

theorem OnlyHandlers.silent {d : Dispatch} {tr : CallTrace} (h : OnlyHandlers d tr) :
    Silent tr := by
  refine ⟨?_, ?_⟩
  · refine List.filterMap_eq_nil_iff.2 fun a ha => ?_
    obtain ⟨registration, payload, answer, rfl⟩ := h a ha
    rfl
  · refine List.filterMap_eq_nil_iff.2 fun a ha => ?_
    obtain ⟨registration, payload, answer, rfl⟩ := h a ha
    rfl

theorem OnlyHandlers.invocations {d : Dispatch} {tr : CallTrace} (h : OnlyHandlers d tr) :
    invocations tr = [] := by
  refine List.filterMap_eq_nil_iff.2 fun a ha => ?_
  obtain ⟨registration, payload, answer, rfl⟩ := h a ha
  rfl

/-- no handler failed a dispatch -/
def Unfailed (tr : CallTrace) : Prop :=
  ∀ d registration payload answer, ⟨BoundaryOperation.handler d registration payload, answer⟩ ∈ tr →
    ∀ e, judge d registration payload answer ≠ .fail e

theorem Unfailed.nil : Unfailed [] := fun _ _ _ _ h => nomatch h

theorem Unfailed.append {tr tr' : CallTrace} (h : Unfailed tr) (h' : Unfailed tr') :
    Unfailed (tr ++ tr') := by
  intro d registration payload answer hmem
  rcases List.mem_append.1 hmem with hmem | hmem
  · exact h d registration payload answer hmem
  · exact h' d registration payload answer hmem

theorem Unfailed.cons {a : (l : BoundaryOperation) × BoundaryAnswer l} {tr : CallTrace}
    (ha : ∀ d registration payload answer,
      a ≠ ⟨BoundaryOperation.handler d registration payload, answer⟩) (h : Unfailed tr) :
    Unfailed (a :: tr) := by
  intro d registration payload answer hmem
  rcases List.mem_cons.1 hmem with hmem | hmem
  · exact absurd hmem.symm (ha d registration payload answer)
  · exact h d registration payload answer hmem

/-- every handler of a chain was asked, and the chain went on after each -/
inductive Asked (d : Dispatch) : List HookRegistration → CallTrace → Prop
  | nil : Asked d [] []
  | cons {registration : HookRegistration} {rest : List HookRegistration} {tr : CallTrace}
      {payload payload' : Document} {answer : HandlerResult} {failures : List CleanupFailure}
      (judged : judge d registration payload answer = .goOn payload' failures)
      (asked : Asked d rest tr) : Asked d (registration :: rest)
        (⟨BoundaryOperation.handler d registration payload, answer⟩ :: tr)

/-! ## what a call does -/

/-- what is asked on the way to the tool or the recording -/
def BoundaryOperation.ofGate : BoundaryOperation → Bool
  | .handler d .. => d.event = .beforeToolExecute || d.event = .policyDecision
  | .evaluate .. | .approve _ | .clock => true
  | .invoke .. | .timer _ => false

/-- one tool call was charged to a chain of governors, if there is one -/
inductive Paid : Option Nat → List BoundaryAct → Prop
  | free : Paid none []
  | charged {i : Nat} {b b' : Governors}
      (bore : Governors.Bore b b' i (Governors.only .toolCalls 1)) :
      Paid (some i) [.charged i b b' (.ok ())]

theorem Paid.mem {budget : Option Nat} {acts : List BoundaryAct} (h : Paid budget acts)
    {act : BoundaryAct} (hmem : act ∈ acts) : ∃ i b b', act = .charged i b b' (.ok ()) := by
  cases h with
  | free => cases hmem
  | charged bore => exact ⟨_, _, _, List.mem_singleton.1 hmem⟩

/-- an act that is no charge -/
def BoundaryAct.Gratis : BoundaryAct → Prop
  | .charged .. => False
  | .consumed _ | .invoked .. | .recorded _ => True

/-! ## the steps -/

namespace ToolExecutor
variable (x : ToolExecutor)

theorem runHandlers_spec (d : Dispatch) (l : List HookRegistration) (payload : Document)
    (failures : List CleanupFailure) (s : Boundary) :
    Prog.wp sharing (fun tr r s' => s'.journal = s.journal ∧ OnlyHandlers d tr ∧
      ∀ result, r = .ok result → Unfailed tr ∧ (result.stopped = false → Asked d l tr))
      (runHandlers d l payload failures) s := by
  induction l generalizing payload failures s with
  | nil => exact ⟨rfl, fun a ha => (by cases ha), fun _ _ => ⟨.nil, fun _ => .nil⟩⟩
  | cons registration rest ih =>
    refine Prog.wp_perform_bind.2 ⟨trivial, fun s' hs' _ answer _ => ?_⟩
    have hone : OnlyHandlers d [⟨BoundaryOperation.handler d registration payload, answer⟩] := by
      intro a ha
      exact ⟨registration, payload, answer, List.mem_singleton.1 ha⟩
    have hunfailed : (∀ e, judge d registration payload answer ≠ .fail e) →
        Unfailed [⟨BoundaryOperation.handler d registration payload, answer⟩] := by
      intro h d' registration' payload' answer' hmem
      cases List.mem_singleton.1 hmem
      exact h
    cases hj : judge d registration payload answer with
    | goOn payload' new =>
      refine Prog.wp_mono (ih payload' (failures ++ new) s') fun tr r s'' h => ?_
      refine ⟨h.1.trans hs', ?_, fun result hr => ⟨?_, fun hst => ?_⟩⟩
      · intro a ha
        rcases List.mem_cons.1 ha with rfl | ha
        · exact ⟨registration, payload, answer, rfl⟩
        · exact h.2.1 a ha
      · exact (hunfailed fun e he => by cases hj.symm.trans he).append (h.2.2 result hr).1
      · exact .cons hj ((h.2.2 result hr).2 hst)
    | stop =>
      refine ⟨hs', hone, fun result hr => ⟨?_, fun hst => ?_⟩⟩
      · exact hunfailed fun e he => by cases hj.symm.trans he
      · cases hr
        cases hst
    | fail e => exact ⟨hs', hone, fun result hr => by cases hr⟩

theorem dispatch_spec (hooks : Option HookSnapshot) (d : Dispatch) (s : Boundary) :
    Prog.wp sharing (fun tr r s' => s'.journal = s.journal ∧ OnlyHandlers d tr ∧
      ∀ result, r = .ok result → Unfailed tr ∧ (result.stopped = false → x.hooks = true →
        Asked d (handlersFor hooks s d.event) tr)) (x.dispatch hooks d) s := by
  unfold dispatch
  by_cases hx : x.hooks = true
  · rw [if_neg (by simp [hx])]
    refine Prog.wp_mono (runHandlers_spec d _ d.payload [] s) fun tr r s' h => ?_
    exact ⟨h.1, h.2.1, fun result hr => ⟨(h.2.2 result hr).1, fun hst _ => (h.2.2 result hr).2 hst⟩⟩
  · rw [if_pos hx]
    exact ⟨rfl, fun a ha => (nomatch ha), fun _ _ => ⟨.nil, fun _ h => absurd h hx⟩⟩

/-- a hook that decides nothing: whatever follows it follows it in any case -/
theorem dispatch_bind {α : Type} {Q : CallTrace → Except Err α → Boundary → Prop}
    {hooks : Option HookSnapshot} {d : Dispatch} {k : HookResult → Call α} {s : Boundary}
    (hok : ∀ tr s' result, s'.journal = s.journal → OnlyHandlers d tr → Unfailed tr →
      Prog.wp sharing (fun tr' => Q (tr ++ tr')) (k result) s')
    (herr : ∀ tr s' e, s'.journal = s.journal → OnlyHandlers d tr → Q tr (.error e) s') :
    Prog.wp sharing Q (x.dispatch hooks d >>= k) s :=
  Prog.wp_bind_of (x.dispatch_spec hooks d s) (fun tr result s' h =>
    hok tr s' result h.1 h.2.1 (h.2.2 result rfl).1)
    fun tr e s' h => herr tr s' e h.1 h.2.1

/-! ### authorization -/

/-- the engine allowed each of these permissions, in order -/
def Allows (entry : RegisteredTool) (request : ToolRequest) (engine : Nat)
    (permissions : List Permission)
    (answers : List (Nat × PolicyRequest × Except Err PolicyResult)) : Prop :=
  List.Forall₂ (fun permission answer => ∃ result : PolicyResult,
    answer = (engine, policyRequest entry request permission, .ok result) ∧
      result.allowed = true) permissions answers

/-- one of the answers requires approval -/
def asksApproval (answers : List (Nat × PolicyRequest × Except Err PolicyResult)) : Bool :=
  answers.any fun a => match a.2.2 with
    | .ok result => result.approvalRequired
    | .error _ => false

theorem authorizePermission_spec (entry : RegisteredTool) (request : ToolRequest)
    (hooks : Option HookSnapshot) (engine : Nat) (required : Bool) (permission : Permission)
    (s : Boundary) :
    Prog.wp sharing (fun tr r s' => s'.journal = s.journal ∧ approvals tr = [] ∧
      invocations tr = [] ∧ ∀ required', r = .ok required' → Unfailed tr ∧ ∃ result : PolicyResult,
        evaluations tr = [(engine, policyRequest entry request permission, .ok result)] ∧
        result.allowed = true ∧ required' = (required || result.approvalRequired))
      (x.authorizePermission entry request hooks engine required permission) s := by
  refine ⟨trivial, fun s' hs' _ answer _ => ?_⟩
  cases answer with
  | error e =>
    by_cases hexc : e.kind.isException
    · show Prog.wp sharing _ (if e.kind.isException then _ else _) s'
      rw [if_pos hexc]
      refine x.dispatch_bind (fun tr s'' _ hj htr _ => ?_) fun tr s'' e' hj htr => ?_
      · refine ⟨hj.trans hs', ?_, ?_, fun _ h => nomatch h⟩
        · rw [List.append_nil]
          exact htr.silent.approvals
        · rw [List.append_nil]
          exact htr.invocations
      · exact ⟨hj.trans hs', htr.silent.approvals, htr.invocations, fun _ h => nomatch h⟩
    · show Prog.wp sharing _ (if e.kind.isException then _ else _) s'
      rw [if_neg hexc]
      exact ⟨hs', rfl, rfl, fun _ h => nomatch h⟩
  | ok result =>
    refine x.dispatch_bind (fun tr s'' _ hj htr hun => ?_) fun tr s'' e' hj htr => ?_
    · by_cases hallowed : result.allowed = true
      · rw [if_neg (by simp [hallowed])]
        rw [← List.append_nil tr] at htr hun
        refine ⟨hj.trans hs', htr.silent.approvals, htr.invocations, fun required' hr => ?_⟩
        refine ⟨.cons (fun _ _ _ _ h => nomatch h) hun, result, ?_, hallowed, ?_⟩
        · exact congrArg (List.cons _) htr.silent.evaluations
        · exact (Except.ok.inj hr).symm
      · rw [if_pos hallowed]
        rw [← List.append_nil tr] at htr
        exact ⟨hj.trans hs', htr.silent.approvals, htr.invocations, fun _ h => nomatch h⟩
    · exact ⟨hj.trans hs', htr.silent.approvals, htr.invocations, fun _ h => nomatch h⟩

theorem authorizeEach_spec (entry : RegisteredTool) (request : ToolRequest)
    (hooks : Option HookSnapshot) (engine : Nat) (required : Bool) (permissions : List Permission)
    (s : Boundary) :
    Prog.wp sharing (fun tr r s' => s'.journal = s.journal ∧ approvals tr = [] ∧
      invocations tr = [] ∧ ∀ required', r = .ok required' → Unfailed tr ∧
        Allows entry request engine permissions (evaluations tr) ∧
        required' = (required || asksApproval (evaluations tr)))
      (permissions.foldlM (x.authorizePermission entry request hooks engine) required) s := by
  induction permissions generalizing required s with
  | nil =>
    refine ⟨rfl, rfl, rfl, fun required' hr => ⟨.nil, .nil, ?_⟩⟩
    cases hr
    exact (Bool.or_false required).symm
  | cons permission permissions ih =>
    rw [List.foldlM_cons]
    refine Prog.wp_bind_of
      (x.authorizePermission_spec entry request hooks engine required permission s)
      (fun tr required₁ s₁ h₁ => ?_) fun tr e s₁ h₁ => ?_
    · obtain ⟨hj₁, ha₁, hi₁, hok₁⟩ := h₁
      obtain ⟨hun₁, result, hev, hallowed, hreq⟩ := hok₁ required₁ rfl
      refine Prog.wp_mono (ih required₁ s₁) fun tr' r s₂ h₂ => ?_
      obtain ⟨hj₂, ha₂, hi₂, hok₂⟩ := h₂
      refine ⟨hj₂.trans hj₁, ?_, ?_, fun required' hr => ?_⟩
      · rw [approvals_append, ha₁, ha₂]
        rfl
      · rw [invocations_append, hi₁, hi₂]
        rfl
      · obtain ⟨hun₂, hall, hreq'⟩ := hok₂ required' hr
        rw [evaluations_append, hev]
        refine ⟨hun₁.append hun₂, .cons ⟨result, rfl, hallowed⟩ hall, ?_⟩
        rw [hreq', hreq, Bool.or_assoc]
        rfl
    · exact ⟨h₁.1, h₁.2.1, h₁.2.2.1, fun _ h => nomatch h⟩

/-- the engine in effect, if any, allowed every declared permission -/
def Authorized (entry : RegisteredTool) (request : ToolRequest) (engine : Option Nat)
    (tr : CallTrace) : Prop :=
  match engine with
  | none => evaluations tr = []
  | some engine => ∃ permissions, entry.policy.permissionObjects = .ok permissions ∧
      Allows entry request engine permissions (evaluations tr)

theorem Authorized.of_same {entry : RegisteredTool} {request : ToolRequest} {engine : Option Nat}
    {tr tr' : CallTrace} (h : Authorized entry request engine tr)
    (he : evaluations tr' = evaluations tr) : Authorized entry request engine tr' := by
  unfold Authorized at h ⊢
  rw [he]
  exact h

def approvalNeeded (entry : RegisteredTool) (tr : CallTrace) : Bool :=
  entry.policy.approvalRequired || asksApproval (evaluations tr)

theorem authorizePermissions_spec (entry : RegisteredTool) (request : ToolRequest)
    (hooks : Option HookSnapshot) (engine : Option Nat) (s : Boundary) :
    Prog.wp sharing (fun tr r s' => s'.journal = s.journal ∧ approvals tr = [] ∧
      invocations tr = [] ∧ ∀ required, r = .ok required → Unfailed tr ∧
        Authorized entry request engine tr ∧ required = approvalNeeded entry tr)
      (x.authorizePermissions entry request hooks engine) s := by
  cases engine with
  | none =>
    refine ⟨rfl, rfl, rfl, fun required hr => ⟨.nil, rfl, ?_⟩⟩
    cases hr
    exact (Bool.or_false _).symm
  | some engine =>
    refine Prog.wp_ofExcept_bind (fun permissions hp => ?_)
      fun e _ => ⟨rfl, rfl, rfl, fun _ h => nomatch h⟩
    refine Prog.wp_bind_of (x.authorizeEach_spec entry request hooks engine _ permissions s)
      (fun tr required s₁ h₁ => ?_) fun tr e s₁ h₁ => ?_
    · obtain ⟨hj₁, ha₁, hi₁, hok₁⟩ := h₁
      obtain ⟨hun₁, hall, hreq⟩ := hok₁ required rfl
      refine x.dispatch_bind (fun tr' s₂ _ hj htr hun => ?_) fun tr' s₂ e' hj htr => ?_
      · rw [← List.append_nil tr'] at htr hun
        have hev : evaluations (tr ++ (tr' ++ [])) = evaluations tr := by
          rw [evaluations_append, htr.silent.evaluations, List.append_nil]
        refine ⟨hj.trans hj₁, ?_, ?_, fun required' hr => ⟨hun₁.append hun, ⟨permissions, hp, ?_⟩, ?_⟩⟩
        · rw [approvals_append, ha₁, htr.silent.approvals]
          rfl
        · rw [invocations_append, hi₁, htr.invocations]
          rfl
        · rw [hev]
          exact hall
        · cases hr
          unfold approvalNeeded
          rw [hev]
          exact hreq
      · refine ⟨hj.trans hj₁, ?_, ?_, fun _ h => nomatch h⟩
        · rw [approvals_append, ha₁, htr.silent.approvals]
          rfl
        · rw [invocations_append, hi₁, htr.invocations]
          rfl
    · exact ⟨h₁.1, h₁.2.1, h₁.2.2.1, fun _ h => nomatch h⟩

theorem approval_spec (entry : RegisteredTool) (request : ToolRequest) (args : Value)
    (hooks : Option HookSnapshot) (s : Boundary) :
    Prog.wp sharing (fun tr r s' => s'.journal = s.journal ∧ evaluations tr = [] ∧
      invocations tr = [] ∧ ∀ u, r = .ok u → Unfailed tr ∧
        approvals tr = [(approvalRequest entry request args, .ok true)])
      (x.approval entry request args hooks) s := by
  refine ⟨trivial, fun s' hs' _ answer _ => ?_⟩
  match answer with
  | .error e => exact ⟨hs', rfl, rfl, fun _ h => nomatch h⟩
  | .ok true => exact ⟨hs', rfl, rfl, fun _ _ => ⟨.cons (fun _ _ _ _ h => nomatch h) .nil, rfl⟩⟩
  | .ok false =>
    refine x.dispatch_bind (fun tr s'' _ hj htr _ => ?_) fun tr s'' e' hj htr => ?_
    · rw [← List.append_nil tr] at htr
      exact ⟨hj.trans hs', htr.silent.evaluations, htr.invocations, fun _ h => nomatch h⟩
    · exact ⟨hj.trans hs', htr.silent.evaluations, htr.invocations, fun _ h => nomatch h⟩

/-- approval was granted if it was needed -/
def Approved (entry : RegisteredTool) (request : ToolRequest) (tr : CallTrace) : Prop :=
  approvalNeeded entry tr = true →
    ∃ args, approvals tr = [(approvalRequest entry request args, .ok true)]

theorem Approved.of_same {entry : RegisteredTool} {request : ToolRequest} {tr tr' : CallTrace}
    (h : Approved entry request tr) (he : evaluations tr' = evaluations tr)
    (ha : approvals tr' = approvals tr) : Approved entry request tr' := by
  unfold Approved approvalNeeded at h ⊢
  rw [he, ha]
  exact h

theorem authorize_spec (entry : RegisteredTool) (request : ToolRequest) (args : Value)
    (hooks : Option HookSnapshot) (engine : Option Nat) (s : Boundary) :
    Prog.wp sharing (fun tr r s' => s'.journal = s.journal ∧ invocations tr = [] ∧ ∀ u, r = .ok u →
        Unfailed tr ∧ Authorized entry request engine tr ∧ Approved entry request tr)
      (x.authorize entry request args hooks engine) s := by
  refine Prog.wp_bind_of (x.authorizePermissions_spec entry request hooks engine s)
    (fun tr required s₁ h₁ => ?_) fun tr e s₁ h₁ => ⟨h₁.1, h₁.2.2.1, fun _ h => nomatch h⟩
  obtain ⟨hj₁, ha₁, hi₁, hok₁⟩ := h₁
  obtain ⟨hun₁, hauth, hreq⟩ := hok₁ required rfl
  by_cases hneeded : required = true
  · rw [if_pos hneeded]
    refine Prog.wp_mono (x.approval_spec entry request args hooks s₁) fun tr' r s₂ h₂ => ?_
    obtain ⟨hj₂, he₂, hi₂, hok₂⟩ := h₂
    have hev : evaluations (tr ++ tr') = evaluations tr := by
      rw [evaluations_append, he₂, List.append_nil]
    refine ⟨hj₂.trans hj₁, ?_, fun u hr => ⟨hun₁.append (hok₂ u hr).1, ?_, fun _ => ⟨args, ?_⟩⟩⟩
    · rw [invocations_append, hi₁, hi₂]
      rfl
    · exact hauth.of_same hev
    · rw [approvals_append, ha₁, (hok₂ u hr).2]
      rfl
  · rw [if_neg hneeded]
    rw [← List.append_nil tr] at hi₁ hun₁ hauth hreq
    exact ⟨hj₁, hi₁, fun u _ => ⟨hun₁, hauth, fun h => absurd (hreq.trans h) hneeded⟩⟩

/-! ### the charge -/

theorem chargeTool_ok {b b' : Governors} {now : ℚ} {i : Nat}
    (h : b.chargeTool now (some i) = (.ok (), b')) :
    Governors.Bore b b' i (Governors.only .toolCalls 1) := by
  unfold Governors.chargeTool at h
  simp only at h
  cases hc : b.consume now i .toolCalls with
  | mk answer b₁ =>
    have hcharged := Governors.consume_cases b now i .toolCalls (.float 1)
    rw [hc] at hcharged h
    cases hcharged with
    | refused e => exact nomatch (Prod.mk.inj h).1
    | charged _ _ bore =>
      obtain ⟨_, rfl⟩ := Prod.mk.inj h
      exact bore

theorem charge_spec (budget : Option Nat) (s : Boundary) :
    Prog.wp sharing (fun tr r s' => Silent tr ∧ invocations tr = [] ∧ Unfailed tr ∧
      ∃ acts, s'.journal = s.journal ++ acts ∧ (∀ u, r = .ok u → Paid budget acts) ∧
        ∀ e, r = .error e → ∃ i b b', acts = [.charged i b b' (.error e)])
      (charge budget) s := by
  cases budget with
  | none =>
    refine ⟨.nil, rfl, .nil, [], (List.append_nil _).symm, fun _ _ => .free, fun _ h => by cases h⟩
  | some i =>
    refine Prog.wp_perform_bind.2 ⟨trivial, fun s' hs' _ now _ => ?_⟩
    rw [Prog.wp_gets_bind]
    simp only [id_eq]
    cases hc : s'.budgets.chargeTool now (some i) with
    | mk answer b' =>
      show Prog.wp sharing _ (do
        Prog.modify fun s => { s with budgets := b' }.note (.charged i s.budgets b' answer)
        Prog.ofExcept answer) s'
      rw [Prog.wp_modify_bind, Prog.wp_ofExcept]
      refine ⟨⟨rfl, rfl⟩, rfl, .cons (fun _ _ _ _ h => by cases h) .nil,
        [.charged i s'.budgets b' answer], congrArg (· ++ _) hs', ?_, ?_⟩
      · rintro u rfl
        exact .charged (chargeTool_ok hc)
      · rintro e rfl
        exact ⟨i, s'.budgets, b', rfl⟩

/-! ### the gate -/

section
variable [Platform]

/-- neither the hook, nor the engine, nor the approval gate refused -/
structure Cleared (c : ToolCall) (entry : RegisteredTool) (s : Boundary) (tr : CallTrace) :
    Prop where
  /-- every handler of the hook let the call go on -/
  hook : x.hooks = true → ∃ asked rest, tr = asked ++ rest ∧
    Asked (beforeTool c entry) (handlersFor c.hookSnapshot s .beforeToolExecute) asked
  unfailed : Unfailed tr
  authorized : Authorized entry c.request (c.policy.or x.policy) tr
  approved : Approved entry c.request tr

theorem cleared_of {c : ToolCall} {entry : RegisteredTool} {s : Boundary}
    {tr tr₂ tr₃ : CallTrace} (honly : OnlyHandlers (beforeTool c entry) tr) (hun : Unfailed tr)
    (hasked : x.hooks = true →
      Asked (beforeTool c entry) (handlersFor c.hookSnapshot s .beforeToolExecute) tr)
    (hun₂ : Unfailed tr₂) (hauth : Authorized entry c.request (c.policy.or x.policy) tr₂)
    (happ : Approved entry c.request tr₂) (hun₃ : Unfailed tr₃) (hsilent : Silent tr₃) :
    x.Cleared c entry s (tr ++ (tr₂ ++ tr₃)) := by
  have he : evaluations (tr ++ (tr₂ ++ tr₃)) = evaluations tr₂ := by
    rw [evaluations_append, evaluations_append, honly.silent.evaluations, hsilent.evaluations,
      List.append_nil]
    rfl
  have ha : approvals (tr ++ (tr₂ ++ tr₃)) = approvals tr₂ := by
    rw [approvals_append, approvals_append, honly.silent.approvals, hsilent.approvals,
      List.append_nil]
    rfl
  exact {
    hook := fun hx => ⟨tr, _, rfl, hasked hx⟩
    unfailed := hun.append (hun₂.append hun₃)
    authorized := hauth.of_same he
    approved := happ.of_same he ha }

theorem gate_spec (c : ToolCall) (entry : RegisteredTool) (s : Boundary) :
    Prog.wp sharing (fun tr r s' => invocations tr = [] ∧ ∃ acts, s'.journal = s.journal ++ acts ∧
      ((acts = [] ∧ ∃ e, r = .error e) ∨ (x.Cleared c entry s tr ∧
        ((∃ i b b' e, acts = [.charged i b b' (.error e)] ∧ r = .error e) ∨ Paid c.budget acts))))
      (x.gate c entry) s := by
  refine Prog.wp_bind_of (x.dispatch_spec c.hookSnapshot (beforeTool c entry) s)
    (fun tr result s₁ h₁ => ?_) fun tr e s₁ h₁ =>
      ⟨h₁.2.1.invocations, [], h₁.1.trans (List.append_nil _).symm, .inl ⟨rfl, e, rfl⟩⟩
  obtain ⟨hj₁, honly, hok₁⟩ := h₁
  obtain ⟨hun₁, hasked⟩ := hok₁ result rfl
  by_cases hstop : result.stopped = true
  · rw [if_pos hstop]
    rw [← List.append_nil tr] at honly
    exact ⟨honly.invocations, [], hj₁.trans (List.append_nil _).symm, .inl ⟨rfl, _, rfl⟩⟩
  · rw [if_neg hstop]
    replace hasked := hasked (by simpa using hstop)
    refine Prog.wp_bind_of (x.authorize_spec entry c.request _ c.hookSnapshot _ s₁)
      (fun tr₂ u s₂ h₂ => ?_) fun tr₂ e s₂ h₂ => ?_
    · obtain ⟨hj₂, hi₂, hok₂⟩ := h₂
      obtain ⟨hun₂, hauth, happ⟩ := hok₂ u rfl
      have hinv : ∀ tr₃ : CallTrace, invocations tr₃ = [] →
          invocations (tr ++ (tr₂ ++ tr₃)) = [] := by
        intro tr₃ hi₃
        rw [invocations_append, invocations_append, honly.invocations, hi₂, hi₃]
        rfl
      refine Prog.wp_bind_of (charge_spec c.budget s₂) (fun tr₃ u₃ s₃ h₃ => ?_)
        fun tr₃ e s₃ h₃ => ?_
      · obtain ⟨hsilent, hi₃, hun₃, acts, hacts, hpaid, _⟩ := h₃
        rw [← List.append_nil tr₃] at hsilent hi₃ hun₃
        have hdone : ∀ r : Except Err (Value × String), invocations (tr ++ (tr₂ ++ (tr₃ ++ []))) = [] ∧
            ∃ acts, s₃.journal = s.journal ++ acts ∧
              ((acts = [] ∧ ∃ e, r = .error e) ∨
                (x.Cleared c entry s (tr ++ (tr₂ ++ (tr₃ ++ []))) ∧
                  ((∃ i b b' e, acts = [.charged i b b' (.error e)] ∧ r = .error e) ∨
                    Paid c.budget acts))) := by
          intro r
          refine ⟨hinv _ hi₃, acts, ?_, .inr ⟨?_, .inr (hpaid u₃ rfl)⟩⟩
          · rw [hacts, hj₂, hj₁]
          · exact x.cleared_of honly hun₁ hasked hun₂ hauth happ hun₃ hsilent
        exact Prog.wp_ofExcept_bind (fun key _ => hdone _) fun e _ => hdone _
      · obtain ⟨hsilent, hi₃, hun₃, acts, hacts, _, hrefused⟩ := h₃
        obtain ⟨i, b, b', rfl⟩ := hrefused e rfl
        refine ⟨hinv _ hi₃, _, ?_, .inr ⟨?_, .inl ⟨i, b, b', e, rfl, rfl⟩⟩⟩
        · rw [hacts, hj₂, hj₁]
        · exact x.cleared_of honly hun₁ hasked hun₂ hauth happ hun₃ hsilent
    · refine ⟨?_, [], (h₂.1.trans hj₁).trans (List.append_nil _).symm, .inl ⟨rfl, e, rfl⟩⟩
      rw [invocations_append, honly.invocations, h₂.2.1]
      rfl

/-! ### past the gate -/

/-- the gate is behind, and nothing more is charged -/
def Past {α : Type} (s : Boundary) (tr : CallTrace) (_ : Except Err α) (s' : Boundary) : Prop :=
  (∀ a ∈ tr, a.1.ofGate = false) ∧
    ∃ acts, s'.journal = s.journal ++ acts ∧ ∀ act ∈ acts, act.Gratis

theorem Past.refl {α : Type} (s : Boundary) (r : Except Err α) : Past s [] r s :=
  ⟨fun _ ha => (nomatch ha), [], (List.append_nil _).symm, fun _ ha => nomatch ha⟩

theorem Past.trans {α β : Type} {s s' s'' : Boundary} {tr tr' : CallTrace} {r : Except Err α}
    {r' : Except Err β} (h : Past s tr r s') (h' : Past s' tr' r' s'') :
    Past s (tr ++ tr') r' s'' := by
  obtain ⟨htr, acts, hj, hacts⟩ := h
  obtain ⟨htr', acts', hj', hacts'⟩ := h'
  refine ⟨fun a ha => ?_, acts ++ acts', ?_, fun a ha => ?_⟩
  · exact (List.mem_append.1 ha).elim (htr a) (htr' a)
  · rw [hj', hj, List.append_assoc]
  · exact (List.mem_append.1 ha).elim (hacts a) (hacts' a)

theorem past_bind {α β : Type} {p : Call α} {k : α → Call β} {s : Boundary}
    (hp : Prog.wp sharing (Past s) p s) (hk : ∀ a s', Prog.wp sharing (Past s') (k a) s') :
    Prog.wp sharing (Past s) (p >>= k) s :=
  Prog.wp_bind_of hp (fun _ a s' h => Prog.wp_mono (hk a s') fun _ _ _ h' => h.trans h')
    fun _ _ _ h => ⟨h.1, h.2⟩

theorem past_timer {n : Nat} {α : Type} {k : Rat → Call α} {s : Boundary}
    (hk : ∀ now s', Prog.wp sharing (Past s') (k now) s') :
    Prog.wp sharing (Past s) (Prog.perform (BoundaryOperation.timer n) >>= k) s := by
  refine past_bind ⟨trivial, fun s' hs' _ now _ => ⟨?_, [], ?_, fun _ ha => nomatch ha⟩⟩ hk
  · intro a ha
    rw [List.mem_singleton.1 ha]
    rfl
  · rw [List.append_nil]
    exact hs'

theorem past_dispatch {hooks : Option HookSnapshot} {d : Dispatch} {α : Type}
    {k : HookResult → Call α} {s : Boundary} (hd : d.event ≠ .beforeToolExecute)
    (hd' : d.event ≠ .policyDecision) (hk : ∀ result s', Prog.wp sharing (Past s') (k result) s') :
    Prog.wp sharing (Past s) (x.dispatch hooks d >>= k) s := by
  refine past_bind (Prog.wp_mono (x.dispatch_spec hooks d s) fun tr r s' h => ?_) hk
  refine ⟨fun a ha => ?_, [], h.1.trans (List.append_nil _).symm, fun _ ha => nomatch ha⟩
  obtain ⟨registration, payload, answer, rfl⟩ := h.2.1 a ha
  show (decide _ || decide _) = false
  rw [decide_eq_false hd, decide_eq_false hd']
  rfl

theorem past_raise {α : Type} (e : Err) (s : Boundary) :
    Prog.wp sharing (Past s) (.raise e : Call α) s := .refl s _

theorem past_note {α : Type} (act : BoundaryAct) (r : Except Err α) {s s' : Boundary}
    (hs : s'.journal = s.journal ++ [act]) (hact : act.Gratis) : Past s [] r s' := by
  refine ⟨fun _ ha => (nomatch ha), [act], hs, fun act' h => ?_⟩
  rw [List.mem_singleton.1 h]
  exact hact

theorem recordedAnswer_past (entry : RegisteredTool) (key : String) (s : Boundary) :
    Prog.wp sharing (Past s) (recordedAnswer entry key) s := by
  unfold recordedAnswer
  rw [Prog.wp_gets_bind]
  simp only [id_eq]
  cases s.session with
  | none => exact .refl s _
  | some session =>
    show Prog.wp sharing (Past s) (if ¬ session.isReplaying = true then _ else _) s
    by_cases hr : session.isReplaying = true
    · rw [if_neg (not_not_intro hr)]
      by_cases hrem : session.hasRemaining .tool key = true
      · rw [if_pos hrem]
        cases session.replay .tool key with
        | mk answer session' =>
          cases answer with
          | error e => exact past_raise e s
          | ok r => exact past_note (.consumed r) (.ok r.response) rfl trivial
      · rw [if_neg hrem]
        by_cases hf : session.fallback = .error
        · rw [if_pos hf]
          exact past_raise _ s
        · rw [if_neg hf]
          exact .refl s _
    · rw [if_pos hr]
      exact .refl s _

theorem recordResult_past (request : ToolRequest) (entry : RegisteredTool) (args : Value)
    (key : String) (result : ToolExecutionResult) (s : Boundary) :
    Prog.wp sharing (Past s) (recordResult request entry args key result) s := by
  refine past_timer fun now s => ?_
  rw [Prog.wp_gets_bind]
  simp only [id_eq]
  cases s.session with
  | none => exact .refl s _
  | some session =>
    show Prog.wp sharing (Past s) (if session.isRecording = true then _ else _) s
    by_cases hrec : session.isRecording = true
    · rw [if_pos hrec]
      cases session.record now .tool key _ result.toPayload request.generationId
          request.runId with
      | mk r session' =>
        cases r with
        | none => exact .refl s _
        | some r => exact past_note (.recorded r) (.ok result) rfl trivial
    · rw [if_neg hrec]
      by_cases hlive : (session.isReplaying && session.fallback = .live) = true
      · rw [if_pos hlive]
        cases session.recordFallback now .tool key _ result.toPayload request.generationId
            request.runId with
        | mk r session' =>
          cases r with
          | error e => exact past_raise e s
          | ok r => exact past_note (.recorded r) (.ok result) rfl trivial
      · rw [if_neg hlive]
        exact .refl s _

theorem finishReplayed_past (c : ToolCall) (entry : RegisteredTool) (replayed : Value)
    (s : Boundary) : Prog.wp sharing (Past s) (x.finishReplayed c entry replayed) s := by
  refine past_timer fun _ s => ?_
  refine past_bind ((Prog.wp_ofExcept _ s).2 (.refl s _)) fun prior s => ?_
  refine past_timer fun _ s => ?_
  by_cases hok : prior.status ≠ .str "ok"
  · rw [if_pos hok]
    refine x.past_dispatch (nofun) (nofun) fun _ s => ?_
    by_cases hraise : c.raiseOnError = true
    · rw [if_pos hraise]
      exact past_raise _ s
    · rw [if_neg hraise]
      exact .refl s _
  · rw [if_neg hok]
    exact x.past_dispatch (nofun) (nofun) fun _ s => .refl s _

theorem finishFailed_past (c : ToolCall) (entry : RegisteredTool) (args : Value) (key : String)
    (duration : Rat) (timeout : Bool) (text : String) (s : Boundary) :
    Prog.wp sharing (Past s) (x.finishFailed c entry args key duration timeout text) s := by
  refine x.past_dispatch (nofun) (nofun) fun _ s => ?_
  by_cases hraise : c.raiseOnError = true
  · rw [if_pos hraise]
    exact past_raise _ s
  · rw [if_neg hraise]
    exact recordResult_past ..

theorem invoke_past (entry : RegisteredTool) (args : Value) (s : Boundary) :
    Prog.wp sharing (Past s) (invoke entry args) s := by
  unfold invoke
  cases invocationPayload args with
  | error text => exact .refl s _
  | ok payload =>
    refine past_bind (past_note (.invoked entry payload) (.ok ()) rfl trivial) fun _ s => ?_
    refine ⟨trivial, fun s' hs' _ answer _ => ⟨fun a ha => ?_, [], ?_, fun _ ha => nomatch ha⟩⟩
    · rw [List.mem_singleton.1 ha]
      rfl
    · rw [List.append_nil]
      exact hs'

theorem finishLive_past (c : ToolCall) (entry : RegisteredTool) (args : Value) (key : String)
    (s : Boundary) : Prog.wp sharing (Past s) (x.finishLive c entry args key) s := by
  refine past_timer fun _ s => ?_
  refine past_bind (invoke_past entry args s) fun invocation s => ?_
  cases invocation with
  | aborted message => exact past_raise _ s
  | timedOut => exact past_timer fun _ s => x.finishFailed_past ..
  | failed text => exact past_timer fun _ s => x.finishFailed_past ..
  | returned content artifact =>
    refine past_timer fun _ s => past_bind (recordResult_past ..) fun _ s => ?_
    exact x.past_dispatch (nofun) (nofun) fun _ s => .refl s _

theorem pastGate_past (c : ToolCall) (entry : RegisteredTool) (args : Value) (key : String)
    (s : Boundary) : Prog.wp sharing (Past s) (do
      let replayed ← recordedAnswer entry key
      if replayed ≠ .none then x.finishReplayed c entry replayed
      else x.finishLive c entry args key) s := by
  refine past_bind (recordedAnswer_past ..) fun replayed s => ?_
  by_cases h : replayed ≠ .none
  · rw [if_pos h]
    exact x.finishReplayed_past ..
  · rw [if_neg h]
    exact x.finishLive_past ..

/-- the gate was passed, and nothing of it is asked again -/
def Through (c : ToolCall) (entry : RegisteredTool) (s : Boundary) (tr : CallTrace) : Prop :=
  ∃ before after, tr = before ++ after ∧ invocations before = [] ∧
    x.Cleared c entry s before ∧ ∀ a ∈ after, a.1.ofGate = false

/-- **The gate.**  A call that reaches the tool, or consumes a recorded answer, was cleared and paid
for before; one that is not cleared does nothing, and one whose charge is refused does nothing
more. -/
theorem tool_gate (c : ToolCall) (s : Boundary) :
    Prog.wp sharing (fun tr r s' => ∃ acts, s'.journal = s.journal ++ acts ∧
      ((invocations tr ≠ [] ∨ ∃ record, .consumed record ∈ acts) →
        ∃ entry paid rest, c.snapshot.require c.request.name = .ok entry ∧
          x.Through c entry s tr ∧ acts = paid ++ rest ∧ Paid c.budget paid ∧
          ∀ act ∈ rest, act.Gratis) ∧
      ((¬ ∃ entry, c.snapshot.require c.request.name = .ok entry ∧ x.Through c entry s tr) →
        invocations tr = [] ∧ acts = [] ∧ ∃ e, r = .error e) ∧
      ∀ i b b' e, .charged i b b' (.error e) ∈ acts →
        invocations tr = [] ∧ acts = [.charged i b b' (.error e)] ∧ ∃ e, r = .error e)
      (x.execute c) s := by
  refine Prog.wp_ofExcept_bind (fun entry hentry => ?_) fun e he => ?_
  · refine Prog.wp_bind_of (x.gate_spec c entry s) (fun tr r₁ s₁ h₁ => ?_) fun tr e s₁ h₁ => ?_
    · obtain ⟨hinv, acts, hacts, ⟨_, e, he⟩ | ⟨hcleared, ⟨_, _, _, e, _, he⟩ | hpaid⟩⟩ := h₁
      · cases he
      · cases he
      · refine Prog.wp_mono (x.pastGate_past c entry r₁.1 r₁.2 s₁) fun tr' r s₂ h₂ => ?_
        obtain ⟨hafter, rest, hrest, hgratis⟩ := h₂
        have hthrough : x.Through c entry s (tr ++ tr') := ⟨tr, tr', rfl, hinv, hcleared, hafter⟩
        refine ⟨acts ++ rest, ?_, fun _ => ?_, fun h => absurd ⟨entry, hentry, hthrough⟩ h, ?_⟩
        · rw [hrest, hacts, List.append_assoc]
        · exact ⟨entry, acts, rest, hentry, hthrough, rfl, hpaid, hgratis⟩
        · intro i b b' e hmem
          rcases List.mem_append.1 hmem with hmem | hmem
          · obtain ⟨_, _, _, h⟩ := hpaid.mem hmem
            cases h
          · exact absurd (hgratis _ hmem) id
    · obtain ⟨hinv, acts, hacts, hcase⟩ := h₁
      refine ⟨acts, hacts, ?_⟩
      rcases hcase with ⟨rfl, _⟩ | ⟨hcleared, ⟨i, b, b', e', rfl, he⟩ | hpaid⟩
      · refine ⟨fun h => ?_, fun _ => ⟨hinv, rfl, e, rfl⟩, fun _ _ _ _ h => nomatch h⟩
        rcases h with h | ⟨record, h⟩
        · exact absurd hinv h
        · cases h
      · have hthrough : x.Through c entry s tr :=
          ⟨tr, [], (List.append_nil tr).symm, hinv, hcleared, fun _ ha => nomatch ha⟩
        refine ⟨fun h => ?_, fun h => absurd ⟨entry, hentry, hthrough⟩ h, ?_⟩
        · rcases h with h | ⟨record, h⟩
          · exact absurd hinv h
          · cases List.mem_singleton.1 h
        · intro i' b₁ b₁' e₁ hmem
          cases List.mem_singleton.1 hmem
          exact ⟨hinv, rfl, e, rfl⟩
      · have hthrough : x.Through c entry s tr :=
          ⟨tr, [], (List.append_nil tr).symm, hinv, hcleared, fun _ ha => nomatch ha⟩
        refine ⟨fun h => ?_, fun h => absurd ⟨entry, hentry, hthrough⟩ h, fun i b b' e' hmem => ?_⟩
        · rcases h with h | ⟨record, h⟩
          · exact absurd hinv h
          · obtain ⟨_, _, _, h⟩ := hpaid.mem h
            cases h
        · obtain ⟨_, _, _, h⟩ := hpaid.mem hmem
          cases h
  · refine ⟨[], (List.append_nil _).symm, fun h => ?_, fun _ => ⟨rfl, rfl, e, rfl⟩,
      fun _ _ _ _ h => nomatch h⟩
    rcases h with h | ⟨record, h⟩
    · exact absurd rfl h
    · cases h

end

end ToolExecutor
end Chassis
