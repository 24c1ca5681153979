import Chassis.Persistence.Canonical

/-!
# Reading JSON

* `JsonStyle`       how `json.dumps` writes: with which separators, and what it escapes;
* `dumps`           the text of a payload in a style; the compact one is that of `renderJson`;
* `FloatText`       what is relied on of the texts of floats;
* `loads`           what `json.loads` makes of a text that `json.dumps` wrote;
* `loads_dumps`     **what was written is read again**, in either style.
-/

set_option linter.unusedSectionVars false

namespace Chassis
open Py

/-! ## characters -/

/-- four hexadecimal digits -/
def hex4 (n : Nat) : List Char :=
  [hexDigit (n / 4096), hexDigit (n / 256), hexDigit (n / 16), hexDigit n]

/-- one character of a JSON string of ASCII, as `ensure_ascii` writes it -/
def asciiChar (c : Char) : List Char :=
  if c = '"' then ['\\', '"']
  else if c = '\\' then ['\\', '\\']
  else if c = '\n' then ['\\', 'n']
  else if c = '\r' then ['\\', 'r']
  else if c = '\t' then ['\\', 't']
  else if c.toNat = 8 then ['\\', 'b']
  else if c.toNat = 12 then ['\\', 'f']
  else if 32 ≤ c.toNat ∧ c.toNat < 127 then [c]
  else if c.toNat < 0x10000 then '\\' :: 'u' :: hex4 c.toNat
  else
    '\\' :: 'u' :: (hex4 (0xd800 + (c.toNat - 0x10000) / 0x400) ++
      '\\' :: 'u' :: hex4 (0xdc00 + (c.toNat - 0x10000) % 0x400))

def readUnit : List Char → Option (Nat × List Char)
  | a :: b :: c :: d :: rest =>
    some (4096 * hexValue a + 256 * hexValue b + 16 * hexValue c + hexValue d, rest)
  | _ => none

theorem readUnit_hex4 {n : Nat} (h : n < 0x10000) (rest : List Char) :
    readUnit (hex4 n ++ rest) = some (n, rest) := by
  show some (4096 * hexValue (hexDigit (n / 4096)) + 256 * hexValue (hexDigit (n / 256)) +
    16 * hexValue (hexDigit (n / 16)) + hexValue (hexDigit n), rest) = some (n, rest)
  rw [hexValue_hexDigit, hexValue_hexDigit, hexValue_hexDigit, hexValue_hexDigit]
  rw [show 4096 * (n / 4096 % 16) + 256 * (n / 256 % 16) + 16 * (n / 16 % 16) + n % 16 = n by omega]

/-- what follows a backslash -/
def readEscape : List Char → Option (Char × List Char)
  | 'n' :: rest => some ('\n', rest)
  | 'r' :: rest => some ('\r', rest)
  | 't' :: rest => some ('\t', rest)
  | 'b' :: rest => some (Char.ofNat 8, rest)
  | 'f' :: rest => some (Char.ofNat 12, rest)
  | 'u' :: rest =>
    match readUnit rest with
    | none => none
    | some (unit, rest) =>
      if 0xd800 ≤ unit ∧ unit < 0xdc00 then
        match rest with
        | '\\' :: 'u' :: rest => (readUnit rest).map fun low =>
            (Char.ofNat (0x10000 + (unit - 0xd800) * 0x400 + (low.1 - 0xdc00)), low.2)
        | _ => none
      else some (Char.ofNat unit, rest)
  | c :: rest => some (c, rest)
  | [] => none

/-- one character of a JSON string, and what follows it -/
def readJsonChar : List Char → Option (Char × List Char)
  | '\\' :: rest => readEscape rest
  | c :: rest => some (c, rest)
  | [] => none

theorem readJsonChar_escape (rest : List Char) : readJsonChar ('\\' :: rest) = readEscape rest := rfl

theorem readJsonChar_self {c : Char} (h : c ≠ '\\') (rest : List Char) :
    readJsonChar (c :: rest) = some (c, rest) := by
  unfold readJsonChar
  split
  · rename_i heq
    exact absurd (List.cons.inj heq).1 h
  · rename_i heq
    cases heq
    rfl
  · rename_i heq
    cases heq

theorem readEscape_unit {c : Char} (h : c.toNat < 0x10000) (rest : List Char) :
    readEscape ('u' :: (hex4 c.toNat ++ rest)) = some (c, rest) := by
  unfold readEscape
  simp only [readUnit_hex4 h]
  rw [if_neg, Char.ofNat_toNat]
  rintro ⟨hhigh, hlow⟩
  rcases c.valid with hv | ⟨hv, -⟩
  · have hlt : c.toNat < 0xd800 := hv
    omega
  · have hlt : 0xdfff < c.toNat := hv
    omega

theorem readEscape_pair {c : Char} (h : 0x10000 ≤ c.toNat) (rest : List Char) :
    readEscape ('u' :: (hex4 (0xd800 + (c.toNat - 0x10000) / 0x400) ++
      '\\' :: 'u' :: (hex4 (0xdc00 + (c.toNat - 0x10000) % 0x400) ++ rest))) = some (c, rest) := by
  have hmax : c.toNat < 0x110000 := by
    rcases c.valid with hv | ⟨-, hv⟩
    · have hlt : c.toNat < 0xd800 := hv
      omega
    · exact hv
  unfold readEscape
  have hhigh : 0xd800 + (c.toNat - 0x10000) / 0x400 < 0x10000 := by omega
  have hlow : 0xdc00 + (c.toNat - 0x10000) % 0x400 < 0x10000 := by omega
  simp only [readUnit_hex4 hhigh, readUnit_hex4 hlow, Option.map_some]
  rw [if_pos ⟨by omega, by omega⟩]
  rw [show 0x10000 + (0xd800 + (c.toNat - 0x10000) / 0x400 - 0xd800) * 0x400 +
    (0xdc00 + (c.toNat - 0x10000) % 0x400 - 0xdc00) = c.toNat by omega, Char.ofNat_toNat]

theorem readJsonChar_jsonChar (c : Char) (rest : List Char) :
    readJsonChar (jsonChar c ++ rest) = some (c, rest) := by
  unfold jsonChar
  split
  · subst_vars; rfl
  split
  · subst_vars; rfl
  split
  · subst_vars; rfl
  split
  · subst_vars; rfl
  split
  · subst_vars; rfl
  split
  · rename_i h
    rw [eq_ofNat h]
    rfl
  split
  · rename_i h
    rw [eq_ofNat h]
    rfl
  split
  · rename_i h
    have hunit := readEscape_unit (c := c) (by omega) rest
    have hhex : hex4 c.toNat = ['0', '0', hexDigit (c.toNat / 16), hexDigit c.toNat] := by
      unfold hex4
      rw [show c.toNat / 4096 = 0 by omega, show c.toNat / 256 = 0 by omega]
      rfl
    rw [hhex] at hunit
    exact hunit
  · rename_i hslash _ _ _ _ _ _
    exact readJsonChar_self hslash rest

theorem readJsonChar_asciiChar (c : Char) (rest : List Char) :
    readJsonChar (asciiChar c ++ rest) = some (c, rest) := by
  unfold asciiChar
  split
  · subst_vars; rfl
  split
  · subst_vars; rfl
  split
  · subst_vars; rfl
  split
  · subst_vars; rfl
  split
  · subst_vars; rfl
  split
  · rename_i h
    rw [eq_ofNat h]
    rfl
  split
  · rename_i h
    rw [eq_ofNat h]
    rfl
  split
  · rename_i hslash _ _ _ _ _ _
    exact readJsonChar_self hslash rest
  split
  · rename_i h
    rw [List.cons_append, List.cons_append, readJsonChar_escape, readEscape_unit h]
  · rename_i h
    simp only [List.cons_append, List.append_assoc]
    rw [readJsonChar_escape, readEscape_pair (by omega)]

/-! ## styles -/

/-- how `json.dumps` writes -/
structure JsonStyle where
  /-- what follows a comma or a colon -/
  gap : List Char
  char : Char → List Char
  gap_space : ∀ c ∈ gap, c = ' '
  read_char : ∀ c rest, readJsonChar (char c ++ rest) = some (c, rest)
  char_quote : ∀ c rest, (char c ++ rest).head? ≠ some '"'

namespace JsonStyle

/-- `separators=(",", ":"), ensure_ascii=False` -/
def compact : JsonStyle where
  gap := []
  char := jsonChar
  gap_space := fun _ hc => nomatch hc
  read_char := readJsonChar_jsonChar
  char_quote := by
    intro c rest h
    rcases hl : jsonChar c ++ rest with _ | ⟨d, l⟩
    · rw [hl] at h
      cases h
    · rw [hl] at h
      cases h
      exact jsonChar_quote c rest l hl

/-- the defaults -/
def plain : JsonStyle where
  gap := [' ']
  char := asciiChar
  gap_space := fun _ hc => List.mem_singleton.1 hc
  read_char := readJsonChar_asciiChar
  char_quote := by
    intro c rest h
    rcases hl : asciiChar c ++ rest with _ | ⟨d, l⟩
    · rw [hl] at h
      cases h
    · rw [hl] at h
      cases h
      have hread := readJsonChar_asciiChar c rest
      rw [hl, readJsonChar_self (by decide)] at hread
      cases hread
      have hquote : asciiChar '"' ++ rest = '\\' :: '"' :: rest := rfl
      rw [hquote] at hl
      exact absurd (List.cons.inj hl).1 (by decide)

variable (style : JsonStyle)

def text (t : String) : List Char := '"' :: (t.toList.flatMap style.char ++ ['"'])

variable [Platform]

mutual

/-- the text of a payload, as characters -/
def value : Value → List Char
  | .none => "null".toList
  | .bool b => if b then "true".toList else "false".toList
  | .int n => (toString n).toList
  | .float q => (Platform.floatRepr q).toList
  | .str t => style.text t
  | .list [] => ['[', ']']
  | .list (v :: l) => '[' :: (value v ++ (elements l ++ [']']))
  | .dict [] => ['\x7b', '\x7d']
  | .dict ((k, v) :: l) =>
    '\x7b' :: (style.text k ++ ':' :: (style.gap ++ (value v ++ (members l ++ ['\x7d']))))
  | .object typeName _ => typeName.toList

/-- further elements, each after a comma -/
def elements : List Value → List Char
  | [] => []
  | v :: l => ',' :: (style.gap ++ (value v ++ elements l))

def members : List (String × Value) → List Char
  | [] => []
  | (k, v) :: l =>
    ',' :: (style.gap ++ (style.text k ++ ':' :: (style.gap ++ (value v ++ members l))))

end

/-- `json.dumps`, of a payload whose mappings are sorted -/
def dumps (v : Value) : String := String.ofList (style.value v)

end JsonStyle

/-! ## the compact style -/

section
variable [Platform]
open JsonStyle

mutual

theorem value_compact : (v : Value) → compact.value v = (renderJson v).toList
  | .none => rfl
  | .bool b => by cases b <;> rfl
  | .int _ => rfl
  | .float _ => rfl
  | .str t => (jsonString_toList t).symm
  | .list [] => by
    have hnil := renderJson_nil []
    rw [List.append_nil] at hnil
    rw [hnil]
    rfl
  | .list (v :: l) => by
    have hcons := renderJson_cons v l []
    rw [List.append_nil] at hcons
    rw [hcons, ← elements_compact l, ← value_compact v]
    rfl
  | .dict [] => by
    have hnil := renderJson_empty []
    rw [List.append_nil] at hnil
    rw [hnil]
    rfl
  | .dict ((k, v) :: l) => by
    have hitem := renderJson_item k v l []
    rw [List.append_nil] at hitem
    rw [hitem, ← members_compact l, ← value_compact v, jsonString_toList]
    rfl
  | .object _ _ => rfl

theorem elements_compact : (l : List Value) → ∀ x, compact.elements l ++ x = listTail l x
  | [], _ => rfl
  | v :: l, x => by
    rw [elements, listTail, ← elements_compact l, ← value_compact v]
    show ',' :: (([] ++ (compact.value v ++ compact.elements l)) ++ x) = _
    rw [List.nil_append, List.append_assoc]

theorem members_compact : (l : List (String × Value)) →
    ∀ x, compact.members l ++ x = itemsTail l x
  | [], _ => rfl
  | (k, v) :: l, x => by
    have hkey : compact.text k = (jsonString k).toList := (jsonString_toList k).symm
    rw [members, itemsTail, ← members_compact l, ← value_compact v, ← hkey]
    show ',' :: (([] ++ (compact.text k ++ ':' :: ([] ++ (compact.value v ++
      compact.members l)))) ++ x) = _
    simp only [List.nil_append, List.append_assoc, List.cons_append]

end

theorem dumps_compact (v : Value) : compact.dumps v = renderJson v := by
  unfold dumps
  rw [value_compact, String.ofList_toList]

end

/-! ## numbers -/

/-- what the text of a number is made of -/
def numberChar (c : Char) : Bool := c.isDigit || c = '-' || c = '+' || c = '.' || c = 'e' || c = 'E'

/-- the text of a number that is a float -/
def fractional (token : List Char) : Bool := token.any fun c => c = '.' || c = 'e' || c = 'E'

def readInt : List Char → Int
  | '-' :: digits => -(Nat.ofDigitChars 10 digits 0 : Nat)
  | digits => (Nat.ofDigitChars 10 digits 0 : Nat)

theorem isDigit_repr {n : Nat} {c : Char} (hc : c ∈ (Nat.repr n).toList) : c.isDigit = true := by
  rw [Nat.toList_repr] at hc
  exact Nat.isDigit_of_mem_toDigits (by decide) (by decide) hc

theorem readInt_repr (n : Int) : readInt (toString n).toList = n := by
  have hnat : ∀ m : Nat, Nat.ofDigitChars 10 (Nat.repr m).toList 0 = m := by
    intro m
    rw [Nat.toList_repr, Nat.ofDigitChars_ten_toDigits]
  rcases n with m | m
  · show readInt (Nat.repr m).toList = _
    unfold readInt
    split
    · rename_i digits heq
      have hminus := isDigit_repr (n := m) (c := '-') (heq ▸ List.mem_cons_self)
      exact absurd hminus (by decide)
    · rw [hnat]
      rfl
  · show readInt ("-" ++ Nat.repr (m + 1)).toList = _
    rw [String.toList_append]
    show (-(Nat.ofDigitChars 10 (Nat.repr (m + 1)).toList 0 : Nat) : Int) = _
    rw [hnat]
    rfl

theorem repr_ne_nil (n : Int) : (toString n).toList ≠ [] := by
  intro hnil
  rcases n with m | m
  · have hrepr : (Nat.repr m).toList = [] := hnil
    rw [Nat.toList_repr] at hrepr
    exact Nat.toDigits_ne_nil hrepr
  · have hrepr : ("-" ++ Nat.repr (m + 1)).toList = [] := hnil
    rw [String.toList_append] at hrepr
    cases hrepr

theorem numberChar_repr {n : Int} {c : Char} (hc : c ∈ (toString n).toList) :
    (c.isDigit || c = '-') = true := by
  rcases n with m | m
  · rw [isDigit_repr (n := m) hc]
    rfl
  · have hc' : c ∈ ("-" ++ Nat.repr (m + 1)).toList := hc
    rw [String.toList_append, List.mem_append] at hc'
    rcases hc' with hc' | hc'
    · rw [List.mem_singleton.1 (show c ∈ ['-'] from hc')]
      rfl
    · rw [isDigit_repr hc']
      rfl

/-- What is relied on of the texts of these floats: `float` reads them again, they are texts of
numbers, and they have a fractional part or an exponent. -/
structure FloatText [Platform] (floats : Rat → Prop) (readFloat : List Char → Option Rat) :
    Prop where
  read : ∀ q, floats q → readFloat (Platform.floatRepr q).toList = some q
  number : ∀ q, floats q → ∀ c ∈ (Platform.floatRepr q).toList, numberChar c = true
  fraction : ∀ q, floats q → fractional (Platform.floatRepr q).toList = true

/-! ## reading -/

section
variable (readFloat : List Char → Option Rat)

def skipSpace (l : List Char) : List Char :=
  l.dropWhile fun c => c = ' ' || c = '\n' || c = '\r' || c = '\t'

/-- the rest of a string, up to its quote -/
def readText : Nat → List Char → Option (List Char × List Char)
  | 0, _ => none
  | n + 1, l =>
    if l.head? = some '"' then some ([], l.tail)
    else match readJsonChar l with
      | none => none
      | some (c, rest) => (readText n rest).map fun r => (c :: r.1, r.2)

def readNumber (l : List Char) : Option (Value × List Char) :=
  let token := l.takeWhile numberChar
  let rest := l.dropWhile numberChar
  if token = [] then none
  else if fractional token then (readFloat token).map fun q => (.float q, rest)
  else some (.int (readInt token), rest)

mutual

/-- a value, and what follows it; no text has more values in it than it is long -/
def readValue : Nat → List Char → Option (Value × List Char)
  | 0, _ => none
  | n + 1, l =>
    match skipSpace l with
    | '"' :: l => (readText l.length l).map fun r => (.str (String.ofList r.1), r.2)
    | '[' :: l =>
      match skipSpace l with
      | ']' :: rest => some (.list [], rest)
      | l => (readElements n l).map fun r => (.list r.1, r.2)
    | '\x7b' :: l =>
      match skipSpace l with
      | '\x7d' :: rest => some (.dict [], rest)
      | l => (readMembers n l).map fun r => (.dict (Dict.ofList r.1).items, r.2)
    | 'n' :: 'u' :: 'l' :: 'l' :: rest => some (.none, rest)
    | 't' :: 'r' :: 'u' :: 'e' :: rest => some (.bool true, rest)
    | 'f' :: 'a' :: 'l' :: 's' :: 'e' :: rest => some (.bool false, rest)
    | l => readNumber readFloat l

def readElements : Nat → List Char → Option (List Value × List Char)
  | 0, _ => none
  | n + 1, l =>
    match readValue n l with
    | none => none
    | some (v, rest) =>
      match skipSpace rest with
      | ',' :: rest => (readElements n rest).map fun r => (v :: r.1, r.2)
      | ']' :: rest => some ([v], rest)
      | _ => none

def readMembers : Nat → List Char → Option (List (String × Value) × List Char)
  | 0, _ => none
  | n + 1, l =>
    match skipSpace l with
    | '"' :: l =>
      match readText l.length l with
      | none => none
      | some (k, rest) =>
        match skipSpace rest with
        | ':' :: rest =>
          match readValue n rest with
          | none => none
          | some (v, rest) =>
            match skipSpace rest with
            | ',' :: rest => (readMembers n rest).map fun r => ((String.ofList k, v) :: r.1, r.2)
            | '\x7d' :: rest => some ([(String.ofList k, v)], rest)
            | _ => none
        | _ => none
    | _ => none

end

/-- `json.loads` -/
def loads (text : String) : Option Value :=
  match readValue readFloat (text.toList.length + 1) text.toList with
  | some (v, rest) => if skipSpace rest = [] then some v else none
  | none => none

end

/-! ## what was written is read again -/

mutual

/-- data of JSON, with these floats, whose mappings have one item for a key -/
def Value.Json (floats : Rat → Prop) : Value → Prop
  | .none | .bool _ | .int _ | .str _ => True
  | .float q => floats q
  | .list l => JsonAll floats l
  | .dict items => (items.map Prod.fst).Nodup ∧ JsonWithin floats items
  | .object _ _ => False

def JsonAll (floats : Rat → Prop) : List Value → Prop
  | [] => True
  | v :: l => v.Json floats ∧ JsonAll floats l

def JsonWithin (floats : Rat → Prop) : List (String × Value) → Prop
  | [] => True
  | (_, v) :: l => v.Json floats ∧ JsonWithin floats l

end

/-- no number goes on here -/
def Ends (x : List Char) : Prop := ∀ c ∈ x.head?, numberChar c = false

theorem skipSpace_gap {gap : List Char} (h : ∀ c ∈ gap, c = ' ') (l : List Char) :
    skipSpace (gap ++ l) = skipSpace l := by
  refine List.dropWhile_append_of_pos fun c hc => ?_
  rw [h c hc]
  rfl

theorem skipSpace_cons {c : Char} (h : (c = ' ' || c = '\n' || c = '\r' || c = '\t') = false)
    (l : List Char) : skipSpace (c :: l) = c :: l := by
  unfold skipSpace
  rw [List.dropWhile_cons_of_neg]
  rw [h]
  exact Bool.false_ne_true

theorem numberChar_space {c : Char} (h : numberChar c = true) :
    (c = ' ' || c = '\n' || c = '\r' || c = '\t') = false := by
  rw [Bool.eq_false_iff]
  intro hspace
  simp only [Bool.or_eq_true, decide_eq_true_eq] at hspace
  rcases hspace with ((rfl | rfl) | rfl) | rfl <;> exact absurd h (by decide)

theorem readText_text (style : JsonStyle) (t x : List Char) {n : Nat} (h : t.length < n) :
    readText n (t.flatMap style.char ++ '"' :: x) = some (t, x) := by
  induction t generalizing n with
  | nil =>
    rcases n with _ | n
    · exact absurd h (Nat.not_lt_zero _)
    · rfl
  | cons c t ih =>
    rcases n with _ | n
    · exact absurd h (Nat.not_lt_zero _)
    · rw [List.length_cons] at h
      rw [List.flatMap_cons, List.append_assoc, readText, if_neg (style.char_quote c _),
        style.read_char]
      simp only [ih (show t.length < n by omega), Option.map_some]

theorem length_text (style : JsonStyle) (t : List Char) :
    t.length ≤ (t.flatMap style.char).length := by
  induction t with
  | nil => exact le_refl _
  | cons c t ih =>
    have hpos : (style.char c) ≠ [] := by
      intro hnil
      have hread := style.read_char c []
      rw [hnil] at hread
      cases hread
    have hlen := List.length_pos_iff.2 hpos
    rw [List.flatMap_cons, List.length_append, List.length_cons]
    omega

theorem readText_length (style : JsonStyle) (t : String) (x : List Char) :
    readText (t.toList.flatMap style.char ++ '"' :: x).length
      (t.toList.flatMap style.char ++ '"' :: x) = some (t.toList, x) := by
  refine readText_text style t.toList x ?_
  have hlen := length_text style t.toList
  rw [List.length_append, List.length_cons]
  omega

section
variable [Platform] {floats : Rat → Prop} {readFloat : List Char → Option Rat}

theorem readNumber_token {token x : List Char} (hne : token ≠ [])
    (hall : ∀ c ∈ token, numberChar c = true) (hx : Ends x) :
    readNumber readFloat (token ++ x) =
      if fractional token then (readFloat token).map fun q => (.float q, x)
      else some (.int (readInt token), x) := by
  have hrest : x.takeWhile numberChar = [] ∧ x.dropWhile numberChar = x := by
    rcases x with _ | ⟨c, x⟩
    · exact ⟨rfl, rfl⟩
    · have hc := hx c rfl
      exact ⟨List.takeWhile_cons_of_neg (by rw [hc]; exact Bool.false_ne_true),
        List.dropWhile_cons_of_neg (by rw [hc]; exact Bool.false_ne_true)⟩
  have htoken : (token ++ x).takeWhile numberChar = token := by
    rw [List.takeWhile_append_of_pos hall, hrest.1, List.append_nil]
  have hdrop : (token ++ x).dropWhile numberChar = x := by
    rw [List.dropWhile_append_of_pos hall, hrest.2]
  unfold readNumber
  simp only [htoken, hdrop, hne, if_false]

theorem number_repr {n : Int} : ∀ c ∈ (toString n).toList, numberChar c = true := by
  intro c hc
  have hdigit := numberChar_repr hc
  unfold numberChar
  rw [hdigit]
  rfl

theorem readNumber_int (n : Int) {x : List Char} (hx : Ends x) :
    readNumber readFloat ((toString n).toList ++ x) = some (.int n, x) := by
  have hwhole : fractional (toString n).toList = false := by
    unfold fractional
    rw [List.any_eq_false]
    intro c hc hpoint
    have hdigit := numberChar_repr hc
    simp only [Bool.or_eq_true, decide_eq_true_eq] at hpoint
    rcases hpoint with (rfl | rfl) | rfl <;> exact absurd hdigit (by decide)
  rw [readNumber_token (repr_ne_nil n) number_repr hx, hwhole, if_neg Bool.false_ne_true,
    readInt_repr]

theorem readValue_number {gap : List Char} (hgap : ∀ c ∈ gap, c = ' ') {c : Char}
    (hc : numberChar c = true) (l : List Char) (n : Nat) :
    readValue readFloat (n + 1) (gap ++ c :: l) = readNumber readFloat (c :: l) := by
  rw [readValue, skipSpace_gap hgap, skipSpace_cons (numberChar_space hc)]
  have hne : ∀ d, numberChar d = false → c ≠ d := by
    rintro d hd rfl
    rw [hc] at hd
    cases hd
  split
  · rename_i heq
    exact absurd (List.cons.inj heq).1 (hne _ (by decide))
  · rename_i heq
    exact absurd (List.cons.inj heq).1 (hne _ (by decide))
  · rename_i heq
    exact absurd (List.cons.inj heq).1 (hne _ (by decide))
  · rename_i heq
    exact absurd (List.cons.inj heq).1 (hne _ (by decide))
  · rename_i heq
    exact absurd (List.cons.inj heq).1 (hne _ (by decide))
  · rename_i heq
    exact absurd (List.cons.inj heq).1 (hne _ (by decide))
  · rfl

theorem readValue_list {gap : List Char} (hgap : ∀ c ∈ gap, c = ' ') {c : Char} (hc : c ≠ ']')
    (hspace : (c = ' ' || c = '\n' || c = '\r' || c = '\t') = false) (l : List Char) (n : Nat) :
    readValue readFloat (n + 1) (gap ++ '[' :: c :: l) =
      (readElements readFloat n (c :: l)).map fun r => (.list r.1, r.2) := by
  rw [readValue, skipSpace_gap hgap, skipSpace_cons (by decide)]
  simp only [skipSpace_cons hspace]
  split
  · rename_i heq
    exact absurd (List.cons.inj heq).1 hc
  · rfl

theorem readElements_comma {n : Nat} {start rest : List Char} {v : Value}
    (h : readValue readFloat n start = some (v, ',' :: rest)) :
    readElements readFloat (n + 1) start =
      (readElements readFloat n rest).map fun r => (v :: r.1, r.2) := by
  rw [readElements, h]
  rfl

theorem readMembers_key {n : Nat} {start rest rest' : List Char} {k : String} {v : Value}
    (style : JsonStyle)
    (hkey : skipSpace start = '"' :: (k.toList.flatMap style.char ++ '"' :: ':' :: rest))
    (hvalue : readValue readFloat n rest = some (v, rest')) :
    readMembers readFloat (n + 1) start =
      match skipSpace rest' with
      | ',' :: rest => (readMembers readFloat n rest).map fun r => ((k, v) :: r.1, r.2)
      | '\x7d' :: rest => some ([(k, v)], rest)
      | _ => none := by
  rw [readMembers, hkey]
  simp only [readText_length style k (':' :: rest), skipSpace_cons
    (show ((':' : Char) = ' ' || (':' : Char) = '\n' || (':' : Char) = '\r' ||
      (':' : Char) = '\t') = false by decide), hvalue, String.ofList_toList]

variable (hf : FloatText floats readFloat) (style : JsonStyle)
include hf

theorem float_ne_nil {q : Rat} (hq : floats q) : (Platform.floatRepr q).toList ≠ [] := by
  intro hnil
  have hfraction := hf.fraction q hq
  rw [hnil] at hfraction
  cases hfraction

theorem readNumber_float {q : Rat} (hq : floats q) {x : List Char} (hx : Ends x) :
    readNumber readFloat ((Platform.floatRepr q).toList ++ x) = some (.float q, x) := by
  rw [readNumber_token (float_ne_nil hf hq) (hf.number q hq) hx, hf.fraction q hq, if_pos rfl,
    hf.read q hq]
  rfl

theorem value_head {v : Value} (hv : v.Json floats) :
    ∃ c l, style.value v = c :: l ∧ c ≠ ']' ∧
      (c = ' ' || c = '\n' || c = '\r' || c = '\t') = false := by
  have hnumber : ∀ l : List Char, l ≠ [] → (∀ c ∈ l, numberChar c = true) →
      ∃ c l', l = c :: l' ∧ c ≠ ']' ∧ (c = ' ' || c = '\n' || c = '\r' || c = '\t') = false := by
    intro l hne hall
    obtain ⟨c, l', rfl⟩ := List.exists_cons_of_ne_nil hne
    have hc := hall c List.mem_cons_self
    refine ⟨c, l', rfl, ?_, numberChar_space hc⟩
    rintro rfl
    cases hc
  cases v with
  | none => exact ⟨_, _, rfl, by decide, by decide⟩
  | bool b => cases b <;> exact ⟨_, _, rfl, by decide, by decide⟩
  | int n => exact hnumber _ (repr_ne_nil n) number_repr
  | float q => exact hnumber _ (float_ne_nil hf hv) (hf.number q hv)
  | str t => exact ⟨_, _, rfl, by decide, by decide⟩
  | list l => cases l <;> exact ⟨_, _, rfl, by decide, by decide⟩
  | dict items => rcases items with _ | ⟨⟨k, v⟩, items⟩ <;> exact ⟨_, _, rfl, by decide, by decide⟩
  | object _ _ => exact hv.elim

mutual

/-- **A value that was written is read**, whatever follows it that continues no number. -/
theorem readValue_value : (v : Value) → v.Json floats → ∀ {n : Nat} {g x : List Char},
    (∀ c ∈ g, c = ' ') → (style.value v).length ≤ n → Ends x →
    readValue readFloat n (g ++ (style.value v ++ x)) = some (v, x)
  | v, hv, 0, _, _, _, hn, _ => by
    obtain ⟨c, l, hhead, -, -⟩ := value_head hf style hv
    rw [hhead] at hn
    exact absurd hn (Nat.not_succ_le_zero _)
  | .none, _, n + 1, _, _, hgap, _, _ => by
    rw [readValue, skipSpace_gap hgap]
    rfl
  | .bool b, _, n + 1, _, _, hgap, _, _ => by
    rw [readValue, skipSpace_gap hgap]
    cases b <;> rfl
  | .int m, _, n + 1, _, x, hgap, _, hx => by
    obtain ⟨c, l, hhead⟩ := List.exists_cons_of_ne_nil (repr_ne_nil m)
    have hc : numberChar c = true := number_repr c (hhead ▸ List.mem_cons_self)
    have hread : readNumber readFloat ((toString m).toList ++ x) = some (.int m, x) :=
      readNumber_int m hx
    show readValue readFloat (n + 1) (_ ++ ((toString m).toList ++ x)) = _
    rw [hhead] at hread ⊢
    rw [List.cons_append, readValue_number hgap hc]
    exact hread
  | .float q, hv, n + 1, _, x, hgap, _, hx => by
    obtain ⟨c, l, hhead⟩ := List.exists_cons_of_ne_nil (float_ne_nil hf hv)
    have hc : numberChar c = true := hf.number q hv c (hhead ▸ List.mem_cons_self)
    have hread := readNumber_float hf hv hx
    show readValue readFloat (n + 1) (_ ++ ((Platform.floatRepr q).toList ++ x)) = _
    rw [hhead] at hread ⊢
    rw [List.cons_append, readValue_number hgap hc]
    exact hread
  | .str t, _, n + 1, _, x, hgap, _, _ => by
    rw [show style.value (.str t) ++ x = '"' :: (t.toList.flatMap style.char ++ '"' :: x) by
      rw [JsonStyle.value, JsonStyle.text]
      simp]
    rw [readValue, skipSpace_gap hgap, skipSpace_cons (by decide)]
    simp only [readText_length style t x, Option.map_some, String.ofList_toList]
  | .list [], _, n + 1, _, _, hgap, _, _ => by
    rw [readValue, skipSpace_gap hgap]
    rfl
  | .list (v :: l), hv, n + 1, _, x, hgap, hn, _ => by
    obtain ⟨c, l', hhead, hc, hspace⟩ := value_head hf style hv.1
    have hlen : (style.value (.list (v :: l))).length =
        (style.value v).length + (style.elements l).length + 2 := by
      rw [JsonStyle.value]
      simp only [List.length_cons, List.length_append, List.length_nil]
      omega
    have hpos := congrArg List.length hhead
    rw [List.length_cons] at hpos
    obtain ⟨m, rfl⟩ : ∃ m, n = m + 1 := ⟨n - 1, by omega⟩
    have hfirst := readValue_value v hv.1 (n := m) (g := [])
      (x := style.elements l ++ (']' :: x)) (fun _ hc => nomatch hc) (by omega) (by
        cases l <;> · intro c hc; cases hc; rfl)
    have hall := readElements_elements l hv.2 hfirst (by omega)
    have htext : style.value (.list (v :: l)) ++ x =
        '[' :: (style.value v ++ (style.elements l ++ (']' :: x))) := by
      rw [JsonStyle.value]
      simp
    rw [htext]
    rw [List.nil_append] at hall
    rw [hhead] at hall ⊢
    rw [List.cons_append, readValue_list hgap hc hspace, ← List.cons_append, hall]
    rfl
  | .dict [], _, n + 1, _, _, hgap, _, _ => by
    rw [readValue, skipSpace_gap hgap]
    rfl
  | .dict ((k, v) :: l), hv, n + 1, _, x, hgap, hn, _ => by
    have hlen : (style.value (.dict ((k, v) :: l))).length =
        (style.text k).length + style.gap.length + (style.value v).length +
          (style.members l).length + 3 := by
      rw [JsonStyle.value]
      simp only [List.length_cons, List.length_append, List.length_nil]
      omega
    have htext : (style.text k).length = (k.toList.flatMap style.char).length + 2 := by
      rw [JsonStyle.text]
      simp
    obtain ⟨m, rfl⟩ : ∃ m, n = m + 1 := ⟨n - 1, by omega⟩
    have hfirst := readValue_value v hv.2.1 (n := m) (g := style.gap)
      (x := style.members l ++ ('\x7d' :: x)) style.gap_space (by omega) (by
        rcases l with _ | ⟨⟨k', w⟩, l⟩ <;> · intro c hc; cases hc; rfl)
    have hkey : skipSpace ('"' :: (k.toList.flatMap style.char ++ '"' :: ':' ::
        (style.gap ++ (style.value v ++ (style.members l ++ ('\x7d' :: x)))))) =
        '"' :: (k.toList.flatMap style.char ++ '"' :: ':' ::
          (style.gap ++ (style.value v ++ (style.members l ++ ('\x7d' :: x))))) :=
      skipSpace_cons (by decide) _
    have hall := readMembers_members l hv.2.2 hkey hfirst (by omega)
    rw [show style.value (.dict ((k, v) :: l)) ++ x = '\x7b' :: '"' ::
        (k.toList.flatMap style.char ++ '"' :: ':' ::
          (style.gap ++ (style.value v ++ (style.members l ++ ('\x7d' :: x))))) by
      rw [JsonStyle.value, JsonStyle.text]
      simp]
    rw [readValue, skipSpace_gap hgap, skipSpace_cons (by decide)]
    simp only [hkey]
    show (readMembers readFloat (m + 1) _).map _ = _
    rw [hall, Option.map_some, Dict.items_ofList hv.1]
  | .object _ _, hv, n + 1, _, _, _, _, _ => hv.elim

theorem readElements_elements : (l : List Value) → JsonAll floats l →
    ∀ {n : Nat} {v : Value} {start x : List Char},
    readValue readFloat n start = some (v, style.elements l ++ (']' :: x)) →
    (style.elements l).length < n →
    readElements readFloat (n + 1) start = some (v :: l, x)
  | [], _, n, v, start, x, hstart, _ => by
    rw [readElements, hstart]
    rfl
  | w :: l, hl, n + 1, v, start, x, hstart, hn => by
    have hlen : (style.elements (w :: l)).length =
        style.gap.length + (style.value w).length + (style.elements l).length + 1 := by
      rw [JsonStyle.elements]
      simp only [List.length_cons, List.length_append]
      omega
    have hfirst := readValue_value w hl.1 (n := n) (g := style.gap)
      (x := style.elements l ++ (']' :: x)) style.gap_space (by omega) (by
        cases l <;> · intro c hc; cases hc; rfl)
    have hall := readElements_elements l hl.2 hfirst (by
      obtain ⟨c, l', hhead, -, -⟩ := value_head hf style hl.1
      have hpos := congrArg List.length hhead
      rw [List.length_cons] at hpos
      omega)
    have hsplit : style.elements (w :: l) ++ (']' :: x) =
        ',' :: (style.gap ++ (style.value w ++ (style.elements l ++ (']' :: x)))) := by
      rw [JsonStyle.elements]
      simp
    rw [hsplit] at hstart
    rw [readElements_comma hstart, hall]
    rfl
  | _ :: _, _, 0, _, _, _, _, hn => absurd hn (Nat.not_lt_zero _)

theorem readMembers_members : (l : List (String × Value)) → JsonWithin floats l →
    ∀ {n : Nat} {k : String} {v : Value} {start rest x : List Char},
    skipSpace start = '"' :: (k.toList.flatMap style.char ++ '"' :: ':' :: rest) →
    readValue readFloat n rest = some (v, style.members l ++ ('\x7d' :: x)) →
    (style.members l).length < n →
    readMembers readFloat (n + 1) start = some ((k, v) :: l, x)
  | [], _, n, k, v, start, rest, x, hkey, hvalue, _ => by
    rw [readMembers_key style hkey hvalue]
    rfl
  | _ :: _, _, 0, _, _, _, _, _, _, _, hn => absurd hn (Nat.not_lt_zero _)
  | (k', w) :: l, hl, n + 1, k, v, start, rest, x, hkey, hvalue, hn => by
    have hlen : (style.members ((k', w) :: l)).length = 2 * style.gap.length +
        (style.text k').length + (style.value w).length + (style.members l).length + 2 := by
      rw [JsonStyle.members]
      simp only [List.length_cons, List.length_append]
      omega
    have hfirst := readValue_value w hl.1 (n := n) (g := style.gap)
      (x := style.members l ++ ('\x7d' :: x)) style.gap_space (by omega) (by
        rcases l with _ | ⟨⟨k'', w'⟩, l⟩ <;> · intro c hc; cases hc; rfl)
    have hkey' : skipSpace (style.gap ++ '"' :: (k'.toList.flatMap style.char ++ '"' :: ':' ::
        (style.gap ++ (style.value w ++ (style.members l ++ ('\x7d' :: x)))))) =
        '"' :: (k'.toList.flatMap style.char ++ '"' :: ':' ::
          (style.gap ++ (style.value w ++ (style.members l ++ ('\x7d' :: x))))) := by
      rw [skipSpace_gap style.gap_space]
      exact skipSpace_cons (by decide) _
    have hall := readMembers_members l hl.2 hkey' hfirst (by omega)
    have hsplit : style.members ((k', w) :: l) ++ ('\x7d' :: x) = ',' :: (style.gap ++
        '"' :: (k'.toList.flatMap style.char ++ '"' :: ':' ::
          (style.gap ++ (style.value w ++ (style.members l ++ ('\x7d' :: x)))))) := by
      rw [JsonStyle.members, JsonStyle.text]
      simp
    rw [hsplit] at hvalue
    rw [readMembers_key style hkey hvalue, skipSpace_cons (by decide)]
    show (readMembers readFloat (n + 1) _).map _ = _
    rw [hall]
    rfl

end

/-- **What was written is read again**, in either style. -/
theorem loads_dumps {v : Value} (hv : v.Json floats) :
    loads readFloat (style.dumps v) = some v := by
  have hread := readValue_value hf style v hv (n := (style.value v).length + 1) (g := [])
    (x := []) (fun _ hc => nomatch hc) (Nat.le_succ _) (fun _ hc => nomatch hc)
  rw [List.nil_append, List.append_nil] at hread
  unfold loads JsonStyle.dumps
  rw [String.toList_ofList, hread]
  rfl

/-- so the text of data determines it -/
theorem dumps_injective {v w : Value} (hv : v.Json floats) (hw : w.Json floats)
    (h : style.dumps v = style.dumps w) : v = w := by
  have hread := loads_dumps hf style hv
  rw [h, loads_dumps hf style hw] at hread
  exact (Option.some.inj hread).symm

end

end Chassis
