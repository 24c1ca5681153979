import Chassis.Persistence.Hashing

/-!
# Versions of persisted documents

* `declaredFormatVersion`   the version a document declares, zero if it declares none;
* `migratePayload`          a document brought to the supported version, step by step.
-/

namespace Chassis
open Py

/-- the items of a mapping -/
abbrev Document := List (String × Value)

def Document.get? (d : Document) (key : String) : Option Value := Dict.getItems key d

def FormatError (message format reason : String) (context : List (String × String) := []) : Err :=
  { kind := .FormatError, message := message
    context := [("format", format), ("reason", reason)] ++ context }

section
variable [Platform]

mutual

def reprValue : Value → String
  | .none => "None"
  | .bool b => if b then "True" else "False"
  | .int n => toString n
  | .float q => Platform.floatRepr q
  | .str s => quoted s
  | .list l => "[" ++ join ", " (reprValues l) ++ "]"
  | .dict items => "\x7b" ++ join ", " (reprItems items) ++ "\x7d"
  | .object typeName _ => "<" ++ typeName ++ " object>"

def reprValues : List Value → List String
  | [] => []
  | v :: l => reprValue v :: reprValues l

def reprItems : List (String × Value) → List String
  | [] => []
  | (k, v) :: l => (quoted k ++ ": " ++ reprValue v) :: reprItems l

end

def malformed (format : String) (found : Value) (supported : Nat) : Err :=
  FormatError (format ++ " document declares a malformed format version") format
    "malformed_version" [("found", reprValue found), ("supported", toString supported)]

/-- an integer of more digits than `sys.int_info.default_max_str_digits` has no text -/
def hasText (n : Int) : Bool := n.natAbs < 10 ^ 4300

def declaredFormatVersion (payload : Document) (format : String) (supported : Nat) :
    Except Err Nat :=
  match payload.get? "format_version" with
  | none => .ok 0
  | some (.int found) =>
    if found < 0 then .error (malformed format (.int found) supported)
    else if supported < found then
      if !hasText found then
        .error { kind := .Other, message := "Exceeds the limit (4300 digits) for integer string " ++
          "conversion; use sys.set_int_max_str_digits() to increase the limit" }
      else .error (FormatError (format ++ " document declares format version " ++ toString found ++
          ", newer than this release supports (" ++ toString supported ++ ")") format
        "future_version" [("found", toString found), ("supported", toString supported)])
    else .ok found.toNat
  | some found => .error (malformed format found supported)

end

/-- the steps that are left, from version `supported - steps` on -/
def migrateFrom (format : String) (supported : Nat)
    (migrations : Nat → Option (Document → Except Err Document)) :
    Nat → Document → Except Err Document
  | 0, document => .ok document
  | steps + 1, document =>
    let version := supported - (steps + 1)
    match migrations version with
    | none => .error (FormatError (format ++ " document at format version " ++ toString version ++
          " has no migration path to version " ++ toString supported) format "unmigratable"
        [("found", toString version), ("supported", toString supported)])
    | some step => do migrateFrom format supported migrations steps (← step document)

def migratePayload [Platform] (payload : Document) (format : String) (supported : Nat)
    (migrations : Nat → Option (Document → Except Err Document)) : Except Err Document := do
  let version ← declaredFormatVersion payload format supported
  let document ← migrateFrom format supported migrations (supported - version) payload
  return Dict.setItems "format_version" (.int supported) document

end Chassis
