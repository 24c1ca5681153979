import Chassis.Replay.Models
import Chassis.Secrets.Redaction

/-!
# Replay sessions

* `ReplaySession`        one list of records, and how many of each boundary were replayed;
* `record`, `recordFallback`   the writers;
* `replay`, `peek`, `hasRemaining`, `has`   the readers;
* `ReplaySession.fromDict`     a session from its document.
-/

namespace Chassis
open Py

def ReplayMismatch (message : String) (context : List (String × String)) : Err :=
  { kind := .ReplayMismatch, message := message, context := context }

/-- `boundary_key(*parts)` -/
def boundaryKey [Platform] (parts : List Value) : Except Err String :=
  (stableHash (.list parts)).map fun digest => String.ofList (digest.toList.take 32)

structure ReplaySession where
  mode : ReplayMode := .live
  fallback : ReplayFallback := .error
  redactor : Redactor := []
  metadata : Document := []
  records : List ReplayRecord := []
  /-- how many records of a boundary were consumed -/
  cursor : Dict String Nat := Dict.empty

/-- `f"{kind.value}:{key}"` -/
def cursorKey (kind : BoundaryKind) (key : String) : String := kind.value ++ ":" ++ key

namespace ReplaySession
variable (s : ReplaySession)

def isRecording : Bool := s.mode = .record

def isReplaying : Bool := s.mode = .replay

/-- the records of one boundary, in recording order -/
def matching (kind : BoundaryKind) (key : String) : List ReplayRecord :=
  s.records.filter fun r => r.kind = kind && r.key = key

/-- `self._cursor.get(cursor, 0)` -/
def consumed (kind : BoundaryKind) (key : String) : Nat :=
  (s.cursor.get? (cursorKey kind key)).getD 0

/-! ## writing -/

/-- the record that is appended, without what is secret -/
def newRecord (now : Rat) (kind : BoundaryKind) (key : String) (request : Document)
    (response : Value) (generationId runId : Option String) : ReplayRecord where
  kind := kind
  sequence := s.records.length
  key := key
  request := redactFields s.redactor [] request
  response := redactValue s.redactor response
  generationId := generationId
  runId := runId
  createdAt := now

def record (now : Rat) (kind : BoundaryKind) (key : String) (request : Document)
    (response : Value) (generationId runId : Option String) : Option ReplayRecord × ReplaySession :=
  if ¬ s.isRecording then (none, s)
  else
    let r := s.newRecord now kind key request response generationId runId
    (some r, { s with records := s.records ++ [r] })

/-- The record is appended as consumed: a repeated key falls back again. -/
def recordFallback (now : Rat) (kind : BoundaryKind) (key : String) (request : Document)
    (response : Value) (generationId runId : Option String) : Except Err ReplayRecord × ReplaySession :=
  if ¬ s.isReplaying ∨ s.fallback ≠ .live then
    (.error { kind := .Other
              message := "fallback capture requires replay mode with LIVE fallback" }, s)
  else if kind ≠ .tool ∧ kind ≠ .model then
    (.error { kind := .Other
              message := "fallback capture is supported only for tool and model boundaries" }, s)
  else
    let r := s.newRecord now kind key request response generationId runId
    let s := { s with records := s.records ++ [r] }
    let found := (s.matching kind key).length
    (.ok r, { s with cursor := s.cursor.set (cursorKey kind key) found })

/-! ## reading -/

def replay (kind : BoundaryKind) (key : String) : Except Err ReplayRecord × ReplaySession :=
  let found := s.matching kind key
  let consumed := s.consumed kind key
  match found[consumed]? with
  | none =>
    let message := if found = [] then
        "no recorded " ++ kind.value ++ " interaction matches this operation"
      else "recorded " ++ kind.value ++ " interactions for this key are exhausted"
    (.error (ReplayMismatch message
      [("kind", kind.value), ("key", key),
       ("reason", if found = [] then "missing" else "exhausted"),
       ("recorded", toString (s.records.filter fun r => r.kind = kind).length),
       ("consumed", toString consumed)]), s)
  | some r => (.ok r, { s with cursor := s.cursor.set (cursorKey kind key) (consumed + 1) })

/-- the next record of the boundary that was not consumed -/
def peek (kind : BoundaryKind) (key : String) : Option ReplayRecord :=
  (s.matching kind key)[s.consumed kind key]?

def hasRemaining (kind : BoundaryKind) (key : String) : Bool := (s.peek kind key).isSome

/-- whether the boundary was ever recorded -/
def has (kind : BoundaryKind) (key : String) : Bool :=
  s.records.any fun r => r.kind = kind && r.key = key

/-- `self.counts().get(kind.value, 0)` -/
def count (kind : BoundaryKind) : Nat := (s.records.filter fun r => r.kind = kind).length

end ReplaySession

/-! ## reading a document -/

/-- the version of recordings this release writes and reads -/
def REPLAY_FORMAT_VERSION : Nat := 1

/-- a recording without a version has the shape of version 1 -/
def replayMigrations (version : Nat) : Option (Document → Except Err Document) :=
  if version = 0 then some .ok else none

def corrupt (detail : String) : Err :=
  FormatError ("replay recording is corrupted: " ++ detail) "replay" "corrupted"

/-- `_read_record`; an `OverflowError` is not caught -/
def readRecord [Platform] (entry : Value) (index : Nat) : Except Err ReplayRecord :=
  match entry with
  | .dict items =>
    let malformed (text : String) : Except Err ReplayRecord :=
      .error (corrupt ("record " ++ toString index ++ " is malformed (" ++ text ++ ")"))
    match ReplayRecord.fromDict items with
    | .ok r => .ok r
    | .error (.keyError text) | .error (.typeError text) | .error (.valueError text) =>
      malformed text
    | .error (.overflowError text) => .error { kind := .Other, message := text }
  | _ => .error (corrupt ("record " ++ toString index ++ " is not a document"))

def ReplaySession.fromDict [Platform] (payload : Value) : Except Err ReplaySession := do
  let items ← match payload with
    | .dict items => .ok items
    | _ => .error (corrupt "not a document")
  let document ← migratePayload items "replay" REPLAY_FORMAT_VERSION replayMigrations
  let field (name : String) : Except Err Value :=
    match document.get? name with
    | some v => .ok v
    | none => .error (corrupt ("missing " ++ quoted name))
  let mode ← field "mode"
  let fallback ← field "fallback"
  let metadata ← field "metadata"
  let records ← field "records"
  let unknown (v : Value) (enum : String) : Err :=
    corrupt ("unknown mode or fallback: " ++ reprValue v ++ " is not a valid " ++ enum)
  let mode ← match ReplayMode.of mode with
    | some mode => .ok mode
    | none => .error (unknown mode "ReplayMode")
  let fallback ← match ReplayFallback.of fallback with
    | some fallback => .ok fallback
    | none => .error (unknown fallback "ReplayFallback")
  let metadata ← match metadata with
    | .dict items => .ok items
    | _ => .error (corrupt "'metadata' is not a mapping")
  let records ← match records with
    | .list l => .ok l
    | _ => .error (corrupt "'records' is not a list")
  let records ← records.zipIdx.mapM fun e => readRecord e.1 e.2
  return { mode := mode, fallback := fallback, metadata := metadata, records := records }

end Chassis
