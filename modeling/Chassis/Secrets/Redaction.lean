import Chassis.Lib.Dict
import Chassis.Lib.Text
import Chassis.Core.Values
import Chassis.Persistence.Hashing

/-!
# Redaction of secret material

* `Redactor`       the secret values known so far;
* `secretKey`      the keys whose values are secret whatever they are;
* `redactConfig`   a configuration without either;
* `redactValue`    a payload without either, in its keys too.
-/

namespace Chassis
open Py

/-- marker substituted for secret material -/
def redactedMarker : String := "<redacted>"

/-- the tracked values, none empty and none twice -/
abbrev Redactor := List String

namespace Redactor

/-- `SecretRedactor.add` -/
def add (r : Redactor) (value : String) : Redactor :=
  if value = "" ∨ value ∈ r then r else r ++ [value]

/-- longer values first, so that none leaves a fragment of another -/
def redact (r : Redactor) (text : String) : String :=
  (sortedBy (fun v => -(v.length : Int)) r).foldl (fun t v => replace t v redactedMarker) text

end Redactor

def lowerChar (c : Char) : Char := if 'A' ≤ c ∧ c ≤ 'Z' then Char.ofNat (c.toNat + 32) else c

def ignoreCase (c : Char) : Char :=
  if c.toNat = 0x130 ∨ c.toNat = 0x131 then 'i'
  else if c.toNat = 0x17f then 's'
  else if c.toNat = 0x212a then 'k'
  else lowerChar c

def wordChar (c : Char) : Bool := ('a' ≤ c && c ≤ 'z') || ('0' ≤ c && c ≤ '9')

/-- the alternatives of `SECRET_KEY_PATTERN` -/
def secretWords : List String :=
  ["api_key", "apikey", "secret", "token", "password", "passwd", "credential", "private_key",
   "access_key", "client_secret", "authorization", "auth"]

/-- one of the words starts here and ends before something that is no letter or digit -/
def secretHere (l : List Char) : Bool :=
  secretWords.any fun w => w.toList.isPrefixOf l &&
    match l.drop w.toList.length with
    | [] => true
    | c :: _ => !wordChar c

/-- one of the words occurs in `l`; `start` says that it may start right here -/
def secretWithin : Bool → List Char → Bool
  | start, [] => start && secretHere []
  | start, c :: l => (start && secretHere (c :: l)) || secretWithin (!wordChar c) l

/-- `SECRET_KEY_PATTERN.search(key)` -/
def secretKey (key : String) : Bool := secretWithin true (key.toList.map ignoreCase)

mutual

/-- `walk` of `redact_config`, below a key that is not secret -/
def redactConfig (r : Redactor) : Value → Value
  | .str s => .str (r.redact s)
  | .list l => .list (redactList r l)
  | .dict items => .dict (redactItems r items)
  | v => v

def redactList (r : Redactor) : List Value → List Value
  | [] => []
  | v :: l => redactConfig r v :: redactList r l

def redactItems (r : Redactor) : List (String × Value) → List (String × Value)
  | [] => []
  | (k, v) :: l =>
    (k, if secretKey k then .str redactedMarker else redactConfig r v) :: redactItems r l

end

mutual

/-- `redact_value`, below a key that is not secret -/
def redactValue (r : Redactor) : Value → Value
  | .str s => .str (r.redact s)
  | .list l => .list (redactValues r l)
  | .dict items => .dict (redactFields r [] items)
  | v => v

def redactValues (r : Redactor) : List Value → List Value
  | [] => []
  | v :: l => redactValue r v :: redactValues r l

def redactFields (r : Redactor) (done : List (String × Value)) :
    List (String × Value) → List (String × Value)
  | [] => done
  | (k, v) :: l =>
    redactFields r (Dict.setItems (r.redact k)
      (if secretKey k then .str redactedMarker else redactValue r v) done) l

end

mutual

/-- what is no data stays no data, whatever secrets are known -/
theorem objectType?_redactConfig (r r' : Redactor) : (v : Value) →
    (redactConfig r v).objectType? = (redactConfig r' v).objectType?
  | .none | .bool _ | .int _ | .float _ | .str _ | .object _ _ => rfl
  | .list l => objectTypeList?_redactList r r' l
  | .dict items => objectTypeItems?_redactItems r r' items

theorem objectTypeList?_redactList (r r' : Redactor) : (l : List Value) →
    objectTypeList? (redactList r l) = objectTypeList? (redactList r' l)
  | [] => rfl
  | v :: l => by
    simp only [redactList, objectTypeList?, objectType?_redactConfig r r' v,
      objectTypeList?_redactList r r' l]

theorem objectTypeItems?_redactItems (r r' : Redactor) : (l : List (String × Value)) →
    objectTypeItems? (redactItems r l) = objectTypeItems? (redactItems r' l)
  | [] => rfl
  | (k, v) :: l => by
    by_cases hk : secretKey k
    · simp only [redactItems, objectTypeItems?, hk, if_true,
        objectTypeItems?_redactItems r r' l]
    · simp only [redactItems, objectTypeItems?, hk, Bool.false_eq_true, if_false,
        objectType?_redactConfig r r' v, objectTypeItems?_redactItems r r' l]

end

mutual

theorem redactConfig_data (r : Redactor) : (v : Value) → v.objectType? = none →
    (redactConfig r v).objectType? = none
  | .none, _ | .bool _, _ | .int _, _ | .float _, _ | .str _, _ => rfl
  | .object _ _, h => nomatch h
  | .list l, h => redactList_data r l h
  | .dict items, h => redactItems_data r items h

theorem redactList_data (r : Redactor) : (l : List Value) → objectTypeList? l = none →
    objectTypeList? (redactList r l) = none
  | [], _ => rfl
  | v :: l, h => by
    obtain ⟨hv, hl⟩ := (Option.orElse_eq_none _ _).1 h
    simp only [redactList, objectTypeList?, redactConfig_data r v hv, redactList_data r l hl,
      Option.orElse_none]

theorem redactItems_data (r : Redactor) : (l : List (String × Value)) → objectTypeItems? l = none →
    objectTypeItems? (redactItems r l) = none
  | [], _ => rfl
  | (k, v) :: l, h => by
    obtain ⟨hv, hl⟩ := (Option.orElse_eq_none _ _).1 h
    have hrest := redactItems_data r l hl
    by_cases hk : secretKey k
    · simp only [redactItems, objectTypeItems?, hk, if_true, hrest, Value.objectType?,
        Option.orElse_none]
    · simp only [redactItems, objectTypeItems?, hk, Bool.false_eq_true, if_false,
        redactConfig_data r v hv, hrest, Option.orElse_none]

end

example : secretKey "api_key" = true ∧ secretKey "tokenizer" = false := by decide

end Chassis
