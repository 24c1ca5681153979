import Mathlib.Data.Rat.Defs
import Chassis.Lib.Dict
import Chassis.Lib.Text
import Chassis.Core.Errors
import Chassis.Core.Platform
import Chassis.Core.Values

/-!
# Canonical serialization and stable hashes

* `Value.objectType?`   the type of the first object in a payload that is no data;
* `canonicalize`        integral floats as integers, mappings by key;
* `canonicalJson`       the compact text of a canonical payload;
* `stableHash`          its digest, or the error for a payload that is not all data.
-/

namespace Chassis
open Py

/-! ## payloads that are not data -/

mutual

def Value.objectType? : Value → Option String
  | .object typeName _ => some typeName
  | .list l => objectTypeList? l
  | .dict items => objectTypeItems? items
  | _ => none

def objectTypeList? : List Value → Option String
  | [] => none
  | v :: l => (v.objectType?).orElse fun _ => objectTypeList? l

def objectTypeItems? : List (String × Value) → Option String
  | [] => none
  | (_, v) :: l => (v.objectType?).orElse fun _ => objectTypeItems? l

end

/-! ## the canonical form -/

/-- the nearest integer, ties to even -/
def roundHalfEven (q : Rat) : Int :=
  let r := q - q.floor
  if r < 1 / 2 then q.floor
  else if 1 / 2 < r then q.floor + 1
  else if q.floor % 2 = 0 then q.floor else q.floor + 1

/-- `round(value, 12)` -/
def round12 (q : Rat) : Rat := roundHalfEven (q * 10 ^ 12) / 10 ^ 12

def canonicalFloat (q : Rat) : Value :=
  if q.den = 1 ∧ q.num.natAbs < 2 ^ 53 then .int q.num else .float (round12 q)

mutual

def canonicalize : Value → Value
  | .float q => canonicalFloat q
  | .list l => .list (canonicalizeList l)
  | .dict items => .dict (sortedBy Prod.fst (canonicalizeItems items))
  | v => v

def canonicalizeList : List Value → List Value
  | [] => []
  | v :: l => canonicalize v :: canonicalizeList l

def canonicalizeItems : List (String × Value) → List (String × Value)
  | [] => []
  | (k, v) :: l => (k, canonicalize v) :: canonicalizeItems l

end

/-! ## its text -/

/-- one character of a JSON string; nothing beyond ASCII is escaped -/
def jsonChar (c : Char) : List Char :=
  if c = '"' then ['\\', '"']
  else if c = '\\' then ['\\', '\\']
  else if c = '\n' then ['\\', 'n']
  else if c = '\r' then ['\\', 'r']
  else if c = '\t' then ['\\', 't']
  else if c.toNat = 8 then ['\\', 'b']
  else if c.toNat = 12 then ['\\', 'f']
  else if c.toNat < 32 then
    ['\\', 'u', '0', '0', hexDigit (c.toNat / 16), hexDigit c.toNat]
  else [c]

def jsonString (s : String) : String := String.ofList ('"' :: s.toList.flatMap jsonChar ++ ['"'])

variable [Platform]

mutual

def renderJson : Value → String
  | .none => "null"
  | .bool b => if b then "true" else "false"
  | .int n => toString n
  | .float q => Platform.floatRepr q
  | .str s => jsonString s
  | .list l => "[" ++ join "," (renderList l) ++ "]"
  | .dict items => "\x7b" ++ join "," (renderItems items) ++ "\x7d"
  | .object typeName _ => typeName

def renderList : List Value → List String
  | [] => []
  | v :: l => renderJson v :: renderList l

def renderItems : List (String × Value) → List String
  | [] => []
  | (k, v) :: l => (jsonString k ++ ":" ++ renderJson v) :: renderItems l

end

def canonicalJson (payload : Value) : String := renderJson (canonicalize payload)

/-- the digest of a payload of data -/
def digestOf (payload : Value) : String := Platform.hashText (canonicalJson payload)

def stableHash (payload : Value) : Except Err String :=
  match payload.objectType? with
  | some typeName => .error (ConfigurationError "value cannot be canonically serialized"
      [("value_type", typeName)])
  | none => .ok (digestOf payload)

end Chassis
