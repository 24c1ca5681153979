import Chassis.Persistence.Formats

/-!
# Recorded interactions

* `ReplayRecord`       one interaction at a boundary;
* `ReplayRecord.fromDict`   its reader, and what Python raises on a malformed one.
-/

namespace Chassis
open Py

inductive ReplayMode
  | live
  | record
  | replay
  deriving DecidableEq, Repr

inductive BoundaryKind
  | tool
  | model
  | interrupt
  | snapshot
  | lifecycle
  deriving DecidableEq, Repr

/-- what replay does with an operation that was not recorded -/
inductive ReplayFallback
  | error
  | live
  deriving DecidableEq, Repr

def ReplayMode.value : ReplayMode → String
  | .live => "live"
  | .record => "record"
  | .replay => "replay"

def BoundaryKind.value : BoundaryKind → String
  | .tool => "tool"
  | .model => "model"
  | .interrupt => "interrupt"
  | .snapshot => "snapshot"
  | .lifecycle => "lifecycle"

def ReplayFallback.value : ReplayFallback → String
  | .error => "error"
  | .live => "live"

/-- the member of an enumeration with this value -/
def memberOf {α : Type} (value : α → String) (members : List α) : Value → Option α
  | .str s => members.find? fun m => value m = s
  | _ => none

def ReplayMode.of : Value → Option ReplayMode := memberOf value [.live, .record, .replay]

def BoundaryKind.of : Value → Option BoundaryKind :=
  memberOf value [.tool, .model, .interrupt, .snapshot, .lifecycle]

def ReplayFallback.of : Value → Option ReplayFallback := memberOf value [.error, .live]

structure ReplayRecord where
  kind : BoundaryKind
  sequence : Int
  key : String
  request : Document := []
  response : Value := .none
  generationId : Option String := none
  runId : Option String := none
  createdAt : Rat := 0
  deriving DecidableEq

/-- what reading a record raises, with its text -/
inductive ReadFault
  | keyError (text : String)
  | typeError (text : String)
  | valueError (text : String)
  | overflowError (text : String)

/-- `float(n)`: to 53 significant bits, ties to even; `none` is an `OverflowError` -/
def floatOfInt (n : Int) : Option Rat :=
  if n.natAbs < 2 ^ 1024 - 2 ^ 970 then
    let unit : Rat := 2 ^ (Nat.log2 n.natAbs - 52)
    some (roundHalfEven (n / unit) * unit)
  else none

namespace ReplayRecord

/-- `payload[key]` -/
def required (payload : Document) (key : String) : Except ReadFault Value :=
  match payload.get? key with
  | some v => .ok v
  | none => .error (.keyError (quoted key))

/-- a field that is missing, `None` or a string -/
def optionalString (payload : Document) (key : String) : Except ReadFault (Option String) :=
  match payload.get? key with
  | none | some .none => .ok none
  | some (.str s) => .ok (some s)
  | some _ => .error (.typeError ("record " ++ key ++ " is not a string"))

def fromDict [Platform] (payload : Document) : Except ReadFault ReplayRecord := do
  let sequence ← required payload "sequence"
  let key ← required payload "key"
  let sequence ← match sequence with
    | .int n => .ok n
    | _ => .error (.typeError "record sequence is not an integer")
  let key ← match key with
    | .str s => .ok s
    | _ => .error (.typeError "record key is not a string")
  let request ← match payload.get? "request" with
    | none | some .none => .ok []
    | some (.dict items) => .ok items
    | some _ => .error (.typeError "record request is not a mapping")
  let generationId ← optionalString payload "generation_id"
  let runId ← optionalString payload "run_id"
  let createdAt ← match (payload.get? "created_at").getD (.float 0) with
    | .int n => .ok (Sum.inl n)
    | .float q => .ok (Sum.inr q)
    | _ => .error (.typeError "record created_at is not a number")
  let rawKind ← required payload "kind"
  let kind ← match BoundaryKind.of rawKind with
    | some kind => .ok kind
    | none => .error (.valueError (reprValue rawKind ++ " is not a valid BoundaryKind"))
  let createdAt ← match createdAt with
    | .inl n => match floatOfInt n with
      | some q => .ok q
      | none => .error (.overflowError "int too large to convert to float")
    | .inr q => .ok q
  return {
    kind := kind
    sequence := sequence
    key := key
    request := request
    response := (payload.get? "response").getD .none
    generationId := generationId
    runId := runId
    createdAt := createdAt }

end ReplayRecord
end Chassis
