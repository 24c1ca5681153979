import Chassis.Harness.Lifecycle
import Chassis.Replay.Session
import Chassis.Tools.Charging

/-!
# The tool execution boundary

* `ToolRequest`, `ToolExecutionResult`   what goes in and what comes out;
* `Boundary`             what a call reads and writes: the budgets, the session, the live hooks;
* `BoundaryOperation`    what it asks of others: the handlers of hooks, the policy engine, the
                         approval gate, the tool, the clocks;
* `authorize`, `charge`, `recordedAnswer`   the steps before the tool;
* `execute`              one tool call.

Telemetry is left out: it decides nothing.
-/

namespace Chassis
open Py Coop

/-! ## data -/

/-- the tools reachable from one generation -/
structure ToolSnapshot where
  generationId : String
  entries : List RegisteredTool

structure HookSnapshot where
  generationId : String
  registrations : List HookRegistration

/-- `handlers`: priority first, then registration order -/
def HookSnapshot.handlers (s : HookSnapshot) (event : HookEvent) : List HookRegistration :=
  sortedBy HookRegistration.priority
    (sortedBy HookRegistration.sequence (s.registrations.filter fun h => h.event = event))

def ToolSnapshot.require (s : ToolSnapshot) (name : String) : Except Err RegisteredTool :=
  match s.entries.find? fun t => t.name = name with
  | some entry => .ok entry
  | none => .error {
      kind := .ToolNotFound
      message := "tool " ++ quoted name ++ " is not available in generation " ++ s.generationId
      context := [("tool", name), ("generation_id", s.generationId),
        ("available", join ", " (s.entries.map RegisteredTool.name))] }

structure ToolRequest where
  name : String
  /-- a mapping or a text -/
  args : Value
  toolCallId : Option String := none
  generationId : Option String := none
  runId : Option String := none
  metadata : Document := []

/-- `request.generation_id or snapshot.generation_id` -/
def ToolRequest.generation (request : ToolRequest) (snapshot : ToolSnapshot) : String :=
  match request.generationId with
  | some id => if id = "" then snapshot.generationId else id
  | none => snapshot.generationId

structure ToolExecutionResult where
  name : String
  status : Value
  content : Value := .none
  artifact : Value := .none
  error : Value := .none
  durationSeconds : Rat := 0
  toolCallId : Value := .none
  generationId : Value := .none
  runId : Value := .none
  redacted : Bool := false

/-- an exception of Python that is no `ChassisError` -/
def raised (message : String) : Err := { kind := .Other, message := message }

/-- digits, with single underscores between them -/
def digitPart : List Char → Bool
  | [] => false
  | [c] => c.isDigit
  | c :: '_' :: l => c.isDigit && digitPart l
  | c :: l => c.isDigit && digitPart l

/-- what `float` accepts, without its sign -/
def unsignedFloat (l : List Char) : Bool :=
  let lower := l.map lowerChar
  if lower ∈ ["inf".toList, "infinity".toList, "nan".toList] then true
  else
    let mantissa := lower.takeWhile (· ≠ 'e')
    let whole := mantissa.takeWhile (· ≠ '.')
    let fraction := (mantissa.dropWhile (· ≠ '.')).drop 1
    let exponent := match lower.dropWhile (· ≠ 'e') with
      | [] => true
      | _ :: '+' :: l | _ :: '-' :: l => digitPart l
      | _ :: l => digitPart l
    (whole ≠ [] || fraction ≠ []) && (whole = [] || digitPart whole) &&
      (fraction = [] || digitPart fraction) && exponent

/-- `bool(value)`, of what a recording holds: an object in it has no truth of its own -/
def Value.truthy : Value → Bool
  | .none => false
  | .bool b => b
  | .int n => n ≠ 0
  | .float q => q ≠ 0
  | .str s => s ≠ ""
  | .list l => !l.isEmpty
  | .dict items => !items.isEmpty
  | .object _ _ => true

/-- whether `float(value or 0.0)` raises, and what -/
def floatFault (v : Value) : Option Err :=
  if ¬ v.truthy then none
  else match v with
    | .bool _ | .float _ | .none => none
    | .int n => if (floatOfInt n).isSome then none
      else some (raised "int too large to convert to float")
    | .str s =>
      let accepted := match (strip s).toList with
        | '+' :: l | '-' :: l => unsignedFloat l
        | l => unsignedFloat l
      if accepted then none else some (raised "could not convert string to float")
    | .list _ | .dict _ | .object _ _ =>
      some (raised "float() argument must be a string or a real number")

namespace ToolExecutionResult

def toPayload (r : ToolExecutionResult) : Value := .dict
  [("name", .str r.name), ("status", r.status), ("content", r.content), ("artifact", r.artifact),
   ("error", r.error), ("duration_seconds", .float r.durationSeconds),
   ("tool_call_id", r.toolCallId), ("generation_id", r.generationId), ("run_id", r.runId),
   ("redacted", .bool r.redacted)]

/-- What a recording answers.  The recorded duration is converted, and not used. -/
def fromPayload [Platform] (payload : Value) : Except Err ToolExecutionResult :=
  match payload with
  | .dict items =>
    let get (key : String) (default : Value) : Value := (Dict.getItems key items).getD default
    match floatFault (get "duration_seconds" .none) with
    | some e => .error e
    | none => .ok {
        name := match get "name" (.str "") with
          | .str s => s
          | v => reprValue v
        status := get "status" (.str "ok")
        content := get "content" .none
        artifact := get "artifact" .none
        error := get "error" .none
        toolCallId := get "tool_call_id" .none
        generationId := get "generation_id" .none
        runId := get "run_id" .none
        redacted := (get "redacted" (.bool false)).truthy }
  | _ => .error (raised "the payload has no attribute 'get'")

end ToolExecutionResult

structure PolicyRequest where
  permission : Permission
  subject : String
  resource : Option String
  context : Document
  deriving DecidableEq

structure PolicyResult where
  allowed : Bool
  reason : String
  approvalRequired : Bool := false
  deriving DecidableEq

structure ApprovalRequest where
  tool : String
  args : Value
  permissions : List String
  sideEffects : List String
  generationId : Option String
  runId : Option String
  metadata : Document
  deriving DecidableEq

/-! ## what is asked of others -/

inductive BoundaryOperation
  /-- one handler, with the payload the handlers before it left -/
  | handler (d : Dispatch) (registration : HookRegistration) (payload : Document)
  /-- a policy engine, by its number -/
  | evaluate (engine : Nat) (request : PolicyRequest)
  | approve (request : ApprovalRequest)
  /-- `tool.ainvoke` of a registered tool -/
  | invoke (tool : RegisteredTool) (payload : Value)
  /-- the clock of the governors -/
  | clock
  /-- the clocks of the executor: when the call starts, ends and is recorded -/
  | timer (reading : Nat)
  deriving DecidableEq

/-- how a tool ends -/
inductive Invocation
  /-- its output, split into content and artifact -/
  | returned (content artifact : Value)
  /-- a `TimeoutError` -/
  | timedOut
  /-- any other `Exception`, by the name of its type and its text -/
  | failed (text : String)
  /-- cancelled, or another exception that is no `Exception` -/
  | aborted (message : String)

def BoundaryAnswer : BoundaryOperation → Type
  | .handler .. => HandlerResult
  | .evaluate .. => Except Err PolicyResult
  | .approve _ => Except Err Bool
  | .invoke .. => Invocation
  | .clock => Rat
  | .timer _ => Rat

/-- what a call did to what it shares -/
inductive BoundaryAct
  | charged (governor : Nat) (before after : Governors) (answer : Except Err Unit)
  | consumed (r : ReplayRecord)
  | invoked (tool : RegisteredTool) (payload : Value)
  | recorded (r : ReplayRecord)

/-- What the calls of one process share.  The journal lists what they did; no code reads it. -/
structure Boundary where
  budgets : Governors
  session : Option ReplaySession := none
  /-- the live registry, for calls without a snapshot of hooks -/
  hooks : HookRegistry := Owned.empty
  journal : List BoundaryAct := []

def Boundary.note (s : Boundary) (act : BoundaryAct) : Boundary :=
  { s with journal := s.journal ++ [act] }

abbrev Call := Prog Boundary BoundaryOperation BoundaryAnswer Err

/-! ## the executor -/

structure ToolExecutor where
  policy : Option Nat := none
  /-- whether it was given a hook registry -/
  hooks : Bool := false
  redactor : Redactor := []
  defaultTimeoutSeconds : Option Rat := none

/-- one call of `execute`: its arguments -/
structure ToolCall where
  request : ToolRequest
  snapshot : ToolSnapshot
  budget : Option Nat := none
  hookSnapshot : Option HookSnapshot := none
  policy : Option Nat := none
  raiseOnError : Bool := false

def PolicyDenied (message : String) (context : List (String × String)) : Err :=
  { kind := .PolicyDenied, message := message, context := context }

namespace ToolExecutor
variable (x : ToolExecutor)

def runHandlers (d : Dispatch) :
    List HookRegistration → Document → List CleanupFailure → Call HookResult
  | [], payload, failures => return ⟨payload, false, failures⟩
  | registration :: rest, payload, failures => do
    let answer : HandlerResult ← Prog.perform (BoundaryOperation.handler d registration payload)
    match judge d registration payload answer with
    | .goOn payload new => runHandlers d rest payload (failures ++ new)
    | .stop => return ⟨payload, true, failures⟩
    | .fail e => .raise e

/-- the handlers of an event: of the snapshot, else of the live registry -/
def handlersFor (hooks : Option HookSnapshot) (s : Boundary) (event : HookEvent) :
    List HookRegistration :=
  match hooks with
  | some snapshot => snapshot.handlers event
  | none => HookRegistry.handlers s.hooks event

def dispatch (hooks : Option HookSnapshot) (d : Dispatch) : Call HookResult :=
  if ¬ x.hooks then return ⟨d.payload, false, []⟩
  else do
    let handlers ← Prog.gets fun s => handlersFor hooks s d.event
    runHandlers d handlers d.payload []

/-! ### authorization -/

def policyRequest (entry : RegisteredTool) (request : ToolRequest) (permission : Permission) :
    PolicyRequest where
  permission := permission
  subject := "tool:" ++ entry.name
  resource := permission.resource
  context := [("owner", .str entry.ownerName), ("generation_id", .ofOption request.generationId)]

/-- the payload of a policy decision -/
def decision (entry : RegisteredTool) (request : ToolRequest) (detail : Document) : Dispatch where
  event := .policyDecision
  payload := [("tool", .str entry.name), ("owner", .str entry.ownerName)] ++ detail ++
    [("generation_id", .ofOption request.generationId), ("run_id", .ofOption request.runId)]

/-- One permission.  An engine that cannot decide denies; the answer is whether approval is
required by now. -/
def authorizePermission (entry : RegisteredTool) (request : ToolRequest)
    (hooks : Option HookSnapshot) (engine : Nat) (required : Bool) (permission : Permission) :
    Call Bool := do
  let answer : Except Err PolicyResult ←
    Prog.perform (BoundaryOperation.evaluate engine (policyRequest entry request permission))
  match answer with
  | .error e =>
    if e.kind.isException then do
      let _ ← x.dispatch hooks (decision entry request
        [("permission", .str permission.str), ("allowed", .bool false),
         ("reason", .str "policy provider failure")])
      .raise (PolicyDenied
        ("tool " ++ quoted entry.name ++ " was denied: the policy provider failed")
        [("tool", entry.name), ("permission", permission.str),
         ("reason", "policy provider failure")])
    else .raise e
  | .ok result => do
    let reason := x.redactor.redact result.reason
    let _ ← x.dispatch hooks (decision entry request
      [("permission", .str permission.str), ("allowed", .bool result.allowed),
       ("reason", .str reason)])
    if ¬ result.allowed then
      .raise (PolicyDenied
        ("tool " ++ quoted entry.name ++ " requires " ++ permission.str ++ ": " ++ reason)
        [("tool", entry.name), ("permission", permission.str), ("reason", reason)])
    else return required || result.approvalRequired

def authorizePermissions (entry : RegisteredTool) (request : ToolRequest)
    (hooks : Option HookSnapshot) (engine : Option Nat) : Call Bool :=
  match engine with
  | none => return entry.policy.approvalRequired
  | some engine => do
    let permissions ← Prog.ofExcept entry.policy.permissionObjects
    let required ← permissions.foldlM (x.authorizePermission entry request hooks engine)
      entry.policy.approvalRequired
    let _ ← x.dispatch hooks (decision entry request
      [("allowed", .bool true), ("permissions", .list (entry.policy.permissions.map .str))])
    return required

def approvalRequest (entry : RegisteredTool) (request : ToolRequest) (args : Value) :
    ApprovalRequest where
  tool := entry.name
  args := args
  permissions := entry.policy.permissions
  sideEffects := entry.policy.sideEffects
  generationId := request.generationId
  runId := request.runId
  metadata := request.metadata

/-- the approval gate -/
def approval (entry : RegisteredTool) (request : ToolRequest) (args : Value)
    (hooks : Option HookSnapshot) : Call Unit := do
  let answer : Except Err Bool ← Prog.perform (BoundaryOperation.approve (approvalRequest entry request args))
  match answer with
  | .error e => .raise e
  | .ok true => return ()
  | .ok false => do
    let _ ← x.dispatch hooks (decision entry request
      [("allowed", .bool false), ("reason", .str "approval")])
    .raise (PolicyDenied
      ("tool " ++ quoted entry.name ++ " requires approval that was not granted")
      [("tool", entry.name), ("reason", "approval"),
       ("permissions", join ", " entry.policy.permissions)])

def authorize (entry : RegisteredTool) (request : ToolRequest) (args : Value)
    (hooks : Option HookSnapshot) (engine : Option Nat) : Call Unit := do
  let required ← x.authorizePermissions entry request hooks engine
  if required then x.approval entry request args hooks else return ()

def charge (budget : Option Nat) : Call Unit :=
  match budget with
  | none => return ()
  | some i => do
    let now : Rat ← Prog.perform BoundaryOperation.clock
    let s ← Prog.gets id
    let (answer, budgets) := s.budgets.chargeTool now (some i)
    Prog.modify fun s => { s with budgets := budgets }.note (.charged i s.budgets budgets answer)
    Prog.ofExcept answer

/-! ### replay and recording -/

/-- What the recording answers: the response of the next record, `None` if the call goes live. -/
def recordedAnswer (entry : RegisteredTool) (key : String) : Call Value := do
  let s ← Prog.gets id
  match s.session with
  | none => return .none
  | some session =>
    if ¬ session.isReplaying then return .none
    else if session.hasRemaining .tool key then
      match session.replay .tool key with
      | (.ok r, session) => do
        Prog.modify fun s => { s with session := some session }.note (.consumed r)
        return r.response
      | (.error e, _) => .raise e
    else if session.fallback = .error then
      let exhausted := session.has .tool key
      .raise (ReplayMismatch
        (if exhausted then "recorded tool interactions for this key are exhausted"
          else "tool call was not recorded and replay does not fall back to live execution")
        [("tool", entry.name), ("reason", if exhausted then "exhausted" else "missing"),
         ("recorded", toString (session.count .tool))])
    else return .none

/-- `_recorded`: a completed call is recorded when the session records, or captures fallbacks -/
def recordResult (request : ToolRequest) (entry : RegisteredTool) (args : Value) (key : String)
    (result : ToolExecutionResult) : Call ToolExecutionResult := do
  let now : Rat ← Prog.perform (BoundaryOperation.timer 2)
  let s ← Prog.gets id
  let asked : Document := [("tool", .str entry.name), ("args", args)]
  match s.session with
  | none => return result
  | some session =>
    if session.isRecording then
      match session.record now .tool key asked result.toPayload request.generationId
          request.runId with
      | (some r, session) =>
        Prog.modify fun s => { s with session := some session }.note (.recorded r)
        return result
      | (none, _) => return result
    else if session.isReplaying && session.fallback = .live then
      match session.recordFallback now .tool key asked result.toPayload request.generationId
          request.runId with
      | (.ok r, session) =>
        Prog.modify fun s => { s with session := some session }.note (.recorded r)
        return result
      | (.error e, _) => .raise e
    else return result

/-! ### the call -/

def toolExecutionError (entry : RegisteredTool) (message : String) (timeout : Bool) : Err where
  kind := .ToolExecutionError
  message := message
  context := ("tool", entry.name) :: if timeout then [("status", "timeout")] else []

/-- the hook of a failed call -/
def toolError (entry : RegisteredTool) (request : ToolRequest) (message : Value) : Dispatch where
  event := .toolError
  payload := [("tool", .str entry.name), ("error", message),
    ("run_id", .ofOption request.runId)]

/-- the hook of a call that returned -/
def afterTool (entry : RegisteredTool) (request : ToolRequest) (result : ToolExecutionResult) :
    Dispatch where
  event := .afterToolExecute
  payload := [("tool", .str entry.name), ("status", result.status),
    ("duration_seconds", .float result.durationSeconds), ("run_id", .ofOption request.runId)]

section
variable [Platform]

/-- a recorded message in an error: a text as it is, anything else as Python shows it -/
def messageText : Value → String
  | .str s => s
  | v => reprValue v

/-- a recorded answer, under the attribution of this call -/
def finishReplayed (c : ToolCall) (entry : RegisteredTool) (replayed : Value) :
    Call ToolExecutionResult := do
  let started : Rat ← Prog.perform (BoundaryOperation.timer 0)
  let prior ← Prog.ofExcept (ToolExecutionResult.fromPayload replayed)
  let ended : Rat ← Prog.perform (BoundaryOperation.timer 1)
  let result : ToolExecutionResult :=
    { name := entry.name, status := prior.status, content := prior.content
      artifact := prior.artifact, error := prior.error, durationSeconds := ended - started
      toolCallId := .ofOption c.request.toolCallId
      generationId := .str (c.request.generation c.snapshot)
      runId := .ofOption c.request.runId, redacted := prior.redacted }
  if result.status ≠ .str "ok" then do
    let message := if result.error.truthy then result.error else .str ""
    let _ ← x.dispatch c.hookSnapshot (toolError entry c.request message)
    if c.raiseOnError then
      .raise (toolExecutionError entry (messageText message) (result.status = .str "timeout"))
    else return result
  else do
    let _ ← x.dispatch c.hookSnapshot (afterTool entry c.request result)
    return result

/-- `args if isinstance(args, str) else dict(args)`, of a list its pairs -/
def invocationPayload : Value → Except String Value
  | .str s => .ok (.str s)
  | .dict items => .ok (.dict items)
  | .list l => do
    let pairs ← l.mapM fun
      | .list [.str k, v] => .ok (k, v)
      | .str s => match s.toList with
        | [k, v] => .ok (String.ofList [k], .str (String.ofList [v]))
        | _ => .error "ValueError: dictionary update sequence element has the wrong length"
      | _ => .error "TypeError: cannot convert dictionary update sequence element to a sequence"
    .ok (.dict (pairs.foldl (fun items p => Dict.setItems p.1 p.2 items) []))
  | _ => .error "TypeError: object is not iterable"

/-- `_invoke`: a payload that is no mapping fails before the tool is reached -/
def invoke (entry : RegisteredTool) (args : Value) : Call Invocation :=
  match invocationPayload args with
  | .error text => return .failed text
  | .ok payload => do
    Prog.modify fun s => s.note (.invoked entry payload)
    let answer : Invocation ← Prog.perform (BoundaryOperation.invoke entry payload)
    return answer

/-- the text of the deadline that passed -/
def timeoutText (entry : RegisteredTool) : String :=
  match entry.policy.timeoutSeconds.or x.defaultTimeoutSeconds with
  | some q => Platform.floatRepr q
  | none => "None"

/-- the error a tool failed with, in a result -/
def failedResult (c : ToolCall) (entry : RegisteredTool) (duration : Rat) (timeout : Bool)
    (text : String) : ToolExecutionResult where
  name := entry.name
  status := .str (if timeout then "timeout" else "error")
  error := .str (x.redactor.redact text)
  durationSeconds := duration
  toolCallId := .ofOption c.request.toolCallId
  generationId := .str (c.request.generation c.snapshot)
  runId := .ofOption c.request.runId
  redacted := x.redactor.redact text ≠ text

/-- a tool that failed, or passed its deadline -/
def finishFailed (c : ToolCall) (entry : RegisteredTool) (args : Value) (key : String)
    (duration : Rat) (timeout : Bool) (text : String) : Call ToolExecutionResult := do
  let result := x.failedResult c entry duration timeout text
  let message := x.redactor.redact text
  let _ ← x.dispatch c.hookSnapshot (toolError entry c.request (.str message))
  if c.raiseOnError then .raise (toolExecutionError entry message timeout)
  else recordResult c.request entry args key result

def finishLive (c : ToolCall) (entry : RegisteredTool) (args : Value) (key : String) :
    Call ToolExecutionResult := do
  let started : Rat ← Prog.perform (BoundaryOperation.timer 0)
  let invocation ← invoke entry args
  match invocation with
  | .aborted message => .raise { kind := .Base, message := message }
  | .timedOut => do
    let ended : Rat ← Prog.perform (BoundaryOperation.timer 1)
    x.finishFailed c entry args key (ended - started) true
      ("tool " ++ quoted entry.name ++ " exceeded its " ++ x.timeoutText entry ++ "s deadline")
  | .failed text => do
    let ended : Rat ← Prog.perform (BoundaryOperation.timer 1)
    x.finishFailed c entry args key (ended - started) false
      ("tool " ++ quoted entry.name ++ " failed: " ++ text)
  | .returned content artifact => do
    let ended : Rat ← Prog.perform (BoundaryOperation.timer 1)
    let result ← recordResult c.request entry args key
      { name := entry.name, status := .str "ok", content := content, artifact := artifact
        durationSeconds := ended - started
        toolCallId := .ofOption c.request.toolCallId
        generationId := .str (c.request.generation c.snapshot)
        runId := .ofOption c.request.runId }
    let _ ← x.dispatch c.hookSnapshot (afterTool entry c.request result)
    return result

def beforeTool (c : ToolCall) (entry : RegisteredTool) : Dispatch where
  event := .beforeToolExecute
  payload := [("tool", .str entry.name), ("owner", .str entry.ownerName), ("args", c.request.args),
    ("generation_id", .str (c.request.generation c.snapshot)),
    ("run_id", .ofOption c.request.runId)]

/-- the gate: the hook, authorization and budget; the arguments and the replay key of the call -/
def gate (c : ToolCall) (entry : RegisteredTool) : Call (Value × String) := do
  let transformed ← x.dispatch c.hookSnapshot (beforeTool c entry)
  if transformed.stopped then
    .raise (PolicyDenied ("tool " ++ quoted entry.name ++ " was refused by a hook")
      [("tool", entry.name), ("reason", "hook")])
  else do
    let args := (Dict.getItems "args" transformed.payload).getD c.request.args
    x.authorize entry c.request args c.hookSnapshot (c.policy.or x.policy)
    charge c.budget
    let key ← Prog.ofExcept (boundaryKey [.str BoundaryKind.tool.value, .str entry.name, args])
    return (args, key)

/-- `ToolExecutor.execute` -/
def execute (c : ToolCall) : Call ToolExecutionResult := do
  let entry ← Prog.ofExcept (c.snapshot.require c.request.name)
  let (args, key) ← x.gate c entry
  let replayed ← recordedAnswer entry key
  if replayed ≠ .none then x.finishReplayed c entry replayed
  else x.finishLive c entry args key

end
end ToolExecutor
end Chassis
