/-!
# Data

`Value` is what configuration, metadata and the payloads of hashes are made of: JSON data, and
the objects Python lets into a mapping that are no JSON (`object`).
-/

namespace Chassis

inductive Value
  | none
  | bool (b : Bool)
  | int (n : Int)
  /-- a finite float, as the rational it is -/
  | float (q : Rat)
  | str (s : String)
  | list (l : List Value)
  | dict (items : List (String × Value))
  /-- an object that is no data, by the name of its type and its identity -/
  | object (typeName : String) (id : Nat)
  deriving Repr, Inhabited

/-- a text, or `None` -/
def Value.ofOption : Option String → Value
  | Option.none => .none
  | some s => .str s

mutual

def Value.decEq : (a b : Value) → Decidable (a = b)
  | .none, .none => isTrue rfl
  | .bool a, .bool b => decidable_of_iff (a = b) (by simp)
  | .int a, .int b => decidable_of_iff (a = b) (by simp)
  | .float a, .float b => decidable_of_iff (a = b) (by simp)
  | .str a, .str b => decidable_of_iff (a = b) (by simp)
  | .list a, .list b =>
    match Value.decEqList a b with
    | isTrue h => isTrue (by rw [h])
    | isFalse h => isFalse (by simpa using h)
  | .dict a, .dict b =>
    match Value.decEqItems a b with
    | isTrue h => isTrue (by rw [h])
    | isFalse h => isFalse (by simpa using h)
  | .object a i, .object b j => decidable_of_iff (a = b ∧ i = j) (by simp)
  | .none, .bool _ | .none, .int _ | .none, .float _ | .none, .str _ | .none, .list _
  | .none, .dict _ | .none, .object _ _ | .bool _, .none | .bool _, .int _ | .bool _, .float _
  | .bool _, .str _ | .bool _, .list _ | .bool _, .dict _ | .bool _, .object _ _ | .int _, .none
  | .int _, .bool _ | .int _, .float _ | .int _, .str _ | .int _, .list _ | .int _, .dict _
  | .int _, .object _ _ | .float _, .none | .float _, .bool _ | .float _, .int _
  | .float _, .str _ | .float _, .list _ | .float _, .dict _ | .float _, .object _ _
  | .str _, .none | .str _, .bool _ | .str _, .int _ | .str _, .float _ | .str _, .list _
  | .str _, .dict _ | .str _, .object _ _ | .list _, .none | .list _, .bool _ | .list _, .int _
  | .list _, .float _ | .list _, .str _ | .list _, .dict _ | .list _, .object _ _
  | .dict _, .none | .dict _, .bool _ | .dict _, .int _ | .dict _, .float _ | .dict _, .str _
  | .dict _, .list _ | .dict _, .object _ _ | .object _ _, .none | .object _ _, .bool _
  | .object _ _, .int _ | .object _ _, .float _ | .object _ _, .str _ | .object _ _, .list _
  | .object _ _, .dict _ =>
    isFalse (by simp)

def Value.decEqList : (a b : List Value) → Decidable (a = b)
  | [], [] => isTrue rfl
  | [], _ :: _ => isFalse (by simp)
  | _ :: _, [] => isFalse (by simp)
  | x :: a, y :: b =>
    match Value.decEq x y, Value.decEqList a b with
    | isTrue h, isTrue h' => isTrue (by rw [h, h'])
    | isFalse h, _ => isFalse (by simp [h])
    | _, isFalse h => isFalse (by simp [h])

def Value.decEqItems : (a b : List (String × Value)) → Decidable (a = b)
  | [], [] => isTrue rfl
  | [], _ :: _ => isFalse (by simp)
  | _ :: _, [] => isFalse (by simp)
  | (k, x) :: a, (k', y) :: b =>
    match instDecidableEqString k k', Value.decEq x y, Value.decEqItems a b with
    | isTrue h, isTrue h', isTrue h'' => isTrue (by rw [h, h', h''])
    | isFalse h, _, _ => isFalse (by simp [h])
    | _, isFalse h, _ => isFalse (by simp [h])
    | _, _, isFalse h => isFalse (by simp [h])

end

instance : DecidableEq Value := Value.decEq

/-! ## equality of Python values -/

/-- numbers and booleans compare by their value -/
def Value.number? : Value → Option Rat
  | .bool b => some (if b then 1 else 0)
  | .int n => some n
  | .float q => some q
  | _ => Option.none

mutual

/-- `a == b`: mappings compare without their order -/
def Value.same : Value → Value → Bool
  | .list a, .list b => sameList a b
  | .dict a, .dict b => a.length = b.length && sameItems a b
  | .none, .none => true
  | .str s, .str t => s = t
  | .object _ i, .object _ j => i = j
  | a, b => (a.number?).isSome && a.number? = b.number?

def sameList : List Value → List Value → Bool
  | [], [] => true
  | x :: a, y :: b => Value.same x y && sameList a b
  | _, _ => false

/-- every item of the first occurs in the second -/
def sameItems : List (String × Value) → List (String × Value) → Bool
  | [], _ => true
  | (k, x) :: a, b => b.any (fun p => p.1 = k && Value.same x p.2) && sameItems a b

end

end Chassis
