import Chassis.Persistence.Hashing

/-!
# What a canonical text determines

* `Delimits f`        where the text of a value ends can be read off the text itself;
* `jsonString_delimits`   so it is with JSON strings;
* `renderJson_delimits`   and with payloads of strings, `None`, lists and mappings of them;
* `canonicalJson_injective`   **the canonical text of such a payload determines it**.
-/

set_option linter.unusedSectionVars false

namespace Chassis
open Py

/-- the end of a text of `f` can be told from what follows it -/
def Delimits {α : Type} (f : α → List Char) : Prop :=
  ∀ a b x y, f a ++ x = f b ++ y → a = b ∧ x = y

/-! ## strings -/

def hexValue (c : Char) : Nat := if c.toNat < 58 then c.toNat - 48 else c.toNat - 87

/-- one character of a JSON string, and what follows it -/
def readChar : List Char → Option (Char × List Char)
  | '\\' :: '"' :: rest => some ('"', rest)
  | '\\' :: '\\' :: rest => some ('\\', rest)
  | '\\' :: 'n' :: rest => some ('\n', rest)
  | '\\' :: 'r' :: rest => some ('\r', rest)
  | '\\' :: 't' :: rest => some ('\t', rest)
  | '\\' :: 'b' :: rest => some (Char.ofNat 8, rest)
  | '\\' :: 'f' :: rest => some (Char.ofNat 12, rest)
  | '\\' :: 'u' :: '0' :: '0' :: a :: b :: rest =>
    some (Char.ofNat (16 * hexValue a + hexValue b), rest)
  | c :: rest => some (c, rest)
  | [] => none

theorem hexValue_hexDigit (n : Nat) : hexValue (hexDigit n) = n % 16 := by
  have hall : ∀ m : Fin 16, hexValue (Nat.digitChar m) = m := by decide
  exact hall ⟨n % 16, Nat.mod_lt n (by omega)⟩

theorem eq_ofNat {c : Char} {n : Nat} (h : c.toNat = n) : c = Char.ofNat n := by
  rw [← h, Char.ofNat_toNat]

theorem readChar_jsonChar (c : Char) (rest : List Char) :
    readChar (jsonChar c ++ rest) = some (c, rest) := by
  unfold jsonChar
  split
  · subst_vars; rfl
  split
  · subst_vars; rfl
  split
  · subst_vars; rfl
  split
  · subst_vars; rfl
  split
  · subst_vars; rfl
  split
  · rename_i h
    rw [eq_ofNat h]
    rfl
  split
  · rename_i h
    rw [eq_ofNat h]
    rfl
  split
  · rename_i h
    show some (Char.ofNat (16 * hexValue (hexDigit (c.toNat / 16)) + hexValue (hexDigit c.toNat)),
      rest) = some (c, rest)
    rw [hexValue_hexDigit, hexValue_hexDigit,
      show 16 * (c.toNat / 16 % 16) + c.toNat % 16 = c.toNat by omega, Char.ofNat_toNat]
  · rename_i hslash _ _ _ _ _ _
    show readChar (c :: rest) = some (c, rest)
    unfold readChar
    split <;> simp_all

theorem jsonChar_delimits : Delimits jsonChar := by
  intro a b x y h
  have hread := (readChar_jsonChar a x).symm.trans ((congrArg readChar h).trans
    (readChar_jsonChar b y))
  exact ⟨congrArg Prod.fst (Option.some.inj hread), congrArg Prod.snd (Option.some.inj hread)⟩

theorem delimits_closed {α : Type} {f : α → List Char} (hf : Delimits f) {close : Char}
    (hclose : ∀ a x y, f a ++ x ≠ close :: y) : Delimits fun l : List α => l.flatMap f ++ [close] := by
  intro l l' x y h
  simp only [List.append_assoc, List.singleton_append] at h
  induction l generalizing l' with
  | nil =>
    cases l' with
    | nil => exact ⟨rfl, (List.cons.inj h).2⟩
    | cons b l' =>
      rw [List.flatMap_cons, List.append_assoc] at h
      exact absurd h.symm (hclose b _ _)
  | cons a l ih =>
    cases l' with
    | nil =>
      rw [List.flatMap_cons, List.append_assoc] at h
      exact absurd h (hclose a _ _)
    | cons b l' =>
      rw [List.flatMap_cons, List.flatMap_cons, List.append_assoc, List.append_assoc] at h
      obtain ⟨rfl, hrest⟩ := hf a b _ _ h
      obtain ⟨rfl, rfl⟩ := ih l' hrest
      exact ⟨rfl, rfl⟩

theorem jsonChar_quote (c : Char) (x y : List Char) : jsonChar c ++ x ≠ '"' :: y := by
  intro h
  have hread := congrArg readChar h
  rw [readChar_jsonChar] at hread
  cases hread
  exact absurd (List.cons.inj h).1 (by decide)

theorem jsonString_toList (s : String) :
    (jsonString s).toList = '"' :: (s.toList.flatMap jsonChar ++ ['"']) := by
  unfold jsonString
  rw [String.toList_ofList]
  rfl

theorem jsonString_delimits : Delimits fun s => (jsonString s).toList := by
  intro s t x y h
  simp only [jsonString_toList] at h
  obtain ⟨hlist, hrest⟩ := delimits_closed jsonChar_delimits jsonChar_quote _ _ _ _
    (List.cons.inj h).2
  exact ⟨String.toList_inj.1 hlist, hrest⟩

/-! ## payloads -/

mutual

/-- strings, `None`, and lists and mappings of such -/
def Value.isTextual : Value → Bool
  | .none | .str _ => true
  | .list l => isTextualList l
  | .dict items => isTextualItems items
  | _ => false

def isTextualList : List Value → Bool
  | [] => true
  | v :: l => v.isTextual && isTextualList l

def isTextualItems : List (String × Value) → Bool
  | [] => true
  | (_, v) :: l => v.isTextual && isTextualItems l

end

variable [Platform]

/-- the elements of a list, each after a comma, and what follows them -/
def listTail : List Value → List Char → List Char
  | [], x => x
  | v :: l, x => ',' :: ((renderJson v).toList ++ listTail l x)

/-- the items of a mapping, each after a comma, and what follows them -/
def itemsTail : List (String × Value) → List Char → List Char
  | [], x => x
  | (k, v) :: l, x =>
    ',' :: ((jsonString k).toList ++ ':' :: ((renderJson v).toList ++ itemsTail l x))

theorem join_toList (s : String) (l : List String) :
    (join "," (s :: l)).toList = s.toList ++ l.flatMap fun t => ',' :: t.toList := by
  induction l generalizing s with
  | nil => simp [join]
  | cons t l ih =>
    have hcons : join "," (s :: t :: l) = s ++ "," ++ join "," (t :: l) :=
      String.intercalate_cons_cons
    rw [hcons, String.toList_append, String.toList_append, ih, List.flatMap_cons]
    simp

theorem listTail_eq (l : List Value) (x : List Char) :
    ((renderList l).flatMap fun t => ',' :: t.toList) ++ x = listTail l x := by
  induction l with
  | nil => rfl
  | cons v l ih =>
    rw [renderList, List.flatMap_cons, List.append_assoc, ih]
    rfl

theorem itemsTail_eq (l : List (String × Value)) (x : List Char) :
    ((renderItems l).flatMap fun t => ',' :: t.toList) ++ x = itemsTail l x := by
  induction l with
  | nil => rfl
  | cons p l ih =>
    obtain ⟨k, v⟩ := p
    rw [renderItems, List.flatMap_cons, List.append_assoc, ih, String.toList_append,
      String.toList_append]
    simp [itemsTail]

theorem renderJson_nil (x : List Char) :
    (renderJson (.list [])).toList ++ x = '[' :: ']' :: x := by
  simp [renderJson, renderList, join]

theorem renderJson_cons (v : Value) (l : List Value) (x : List Char) :
    (renderJson (.list (v :: l))).toList ++ x =
      '[' :: ((renderJson v).toList ++ listTail l (']' :: x)) := by
  rw [← listTail_eq, renderJson, renderList, String.toList_append, String.toList_append,
    join_toList]
  simp

theorem renderJson_empty (x : List Char) :
    (renderJson (.dict [])).toList ++ x = '\x7b' :: '\x7d' :: x := by
  simp [renderJson, renderItems, join]

theorem renderJson_item (k : String) (v : Value) (l : List (String × Value)) (x : List Char) :
    (renderJson (.dict ((k, v) :: l))).toList ++ x = '\x7b' ::
      ((jsonString k).toList ++ ':' :: ((renderJson v).toList ++ itemsTail l ('\x7d' :: x))) := by
  rw [← itemsTail_eq, renderJson, renderItems, String.toList_append, String.toList_append,
    join_toList, String.toList_append, String.toList_append]
  simp

/-- how the text of a payload begins -/
def Value.opening : Value → Char
  | .str _ => '"'
  | .list _ => '['
  | .dict _ => '\x7b'
  | _ => 'n'

theorem renderJson_opening {v : Value} (h : v.isTextual = true) (x : List Char) :
    ∃ rest, (renderJson v).toList ++ x = v.opening :: rest := by
  cases v with
  | none => exact ⟨'u' :: 'l' :: 'l' :: x, by simp [renderJson, Value.opening]⟩
  | str s => exact ⟨_, congrArg (· ++ x) (jsonString_toList s)⟩
  | list l =>
    cases l with
    | nil => exact ⟨_, renderJson_nil x⟩
    | cons v l => exact ⟨_, renderJson_cons v l x⟩
  | dict l =>
    cases l with
    | nil => exact ⟨_, renderJson_empty x⟩
    | cons p l => exact ⟨_, renderJson_item p.1 p.2 l x⟩
  | bool _ => exact nomatch h
  | int _ => exact nomatch h
  | float _ => exact nomatch h
  | object _ _ => exact nomatch h

theorem opening_ne (v : Value) : v.opening ≠ ']' := by
  cases v <;> simp [Value.opening]

theorem renderJson_close {v : Value} (h : v.isTextual = true) (x y : List Char) :
    (renderJson v).toList ++ x ≠ ']' :: y := by
  obtain ⟨rest, hrest⟩ := renderJson_opening h x
  rw [hrest]
  exact fun heq => opening_ne v (List.cons.inj heq).1

theorem jsonString_close (s : String) (x y : List Char) :
    (jsonString s).toList ++ x ≠ '\x7d' :: y := by
  rw [jsonString_toList]
  exact fun heq => absurd (List.cons.inj heq).1 (by decide)

/-- two payloads that begin the same way are of one kind -/
inductive SameKind : Value → Value → Prop
  | none : SameKind .none .none
  | str (s t : String) : SameKind (.str s) (.str t)
  | list (l l' : List Value) : SameKind (.list l) (.list l')
  | dict (l l' : List (String × Value)) : SameKind (.dict l) (.dict l')

theorem sameKind {v w : Value} (hv : v.isTextual = true) (hw : w.isTextual = true)
    (h : v.opening = w.opening) : SameKind v w := by
  cases v <;> cases w <;> first
    | constructor
    | exact absurd hv Bool.false_ne_true
    | exact absurd hw Bool.false_ne_true
    | simp [Value.opening] at h

theorem sameKind_of_eq {v w : Value} (hv : v.isTextual = true) (hw : w.isTextual = true)
    {x y : List Char} (h : (renderJson v).toList ++ x = (renderJson w).toList ++ y) :
    SameKind v w := by
  obtain ⟨rest, hrest⟩ := renderJson_opening hv x
  obtain ⟨rest', hrest'⟩ := renderJson_opening hw y
  rw [hrest, hrest'] at h
  exact sameKind hv hw (List.cons.inj h).1

theorem isTextualList_cons {v : Value} {l : List Value} :
    isTextualList (v :: l) = true ↔ v.isTextual = true ∧ isTextualList l = true := by
  rw [isTextualList, Bool.and_eq_true]

theorem isTextualItems_cons (k : String) {v : Value} {l : List (String × Value)} :
    isTextualItems ((k, v) :: l) = true ↔ v.isTextual = true ∧ isTextualItems l = true := by
  rw [isTextualItems, Bool.and_eq_true]

mutual

theorem renderJson_delimits (v w : Value) (x y : List Char) (hv : v.isTextual = true)
    (hw : w.isTextual = true) (h : (renderJson v).toList ++ x = (renderJson w).toList ++ y) :
    v = w ∧ x = y := by
  have hkind := sameKind_of_eq hv hw h
  cases v with
  | none =>
    cases hkind
    exact ⟨rfl, List.append_cancel_left h⟩
  | str s =>
    cases hkind with
    | str _ t =>
      obtain ⟨rfl, hrest⟩ := jsonString_delimits s t x y h
      exact ⟨rfl, hrest⟩
  | list l =>
    cases hkind with
    | list _ l' =>
      cases l with
      | nil =>
        cases l' with
        | nil => exact ⟨rfl, List.append_cancel_left h⟩
        | cons w l' =>
          rw [renderJson_nil, renderJson_cons] at h
          exact absurd (List.cons.inj h).2.symm
            (renderJson_close (isTextualList_cons.1 hw).1 _ _)
      | cons v l =>
        cases l' with
        | nil =>
          rw [renderJson_nil, renderJson_cons] at h
          exact absurd (List.cons.inj h).2 (renderJson_close (isTextualList_cons.1 hv).1 _ _)
        | cons w l' =>
          rw [renderJson_cons, renderJson_cons] at h
          obtain ⟨rfl, htail⟩ := renderJson_delimits v w _ _ (isTextualList_cons.1 hv).1
            (isTextualList_cons.1 hw).1 (List.cons.inj h).2
          obtain ⟨rfl, rfl⟩ := listTail_delimits l l' x y (isTextualList_cons.1 hv).2
            (isTextualList_cons.1 hw).2 htail
          exact ⟨rfl, rfl⟩
  | bool b => cases hkind
  | int n => cases hkind
  | float q => cases hkind
  | object n m => cases hkind
  | dict l =>
    cases hkind with
    | dict _ l' =>
      match l, l' with
      | [], [] => exact ⟨rfl, List.append_cancel_left h⟩
      | [], (k, w) :: l' =>
        rw [renderJson_empty, renderJson_item] at h
        exact absurd (List.cons.inj h).2.symm (jsonString_close k _ _)
      | (k, v) :: l, [] =>
        rw [renderJson_empty, renderJson_item] at h
        exact absurd (List.cons.inj h).2 (jsonString_close k _ _)
      | (k, v) :: l, (k', w) :: l' =>
        rw [renderJson_item, renderJson_item] at h
        obtain ⟨rfl, hvalue⟩ := jsonString_delimits k k' _ _ (List.cons.inj h).2
        obtain ⟨rfl, htail⟩ := renderJson_delimits v w _ _ ((isTextualItems_cons k).1 hv).1
          ((isTextualItems_cons k).1 hw).1 (List.cons.inj hvalue).2
        obtain ⟨rfl, rfl⟩ := itemsTail_delimits l l' x y ((isTextualItems_cons k).1 hv).2
          ((isTextualItems_cons k).1 hw).2 htail
        exact ⟨rfl, rfl⟩

theorem listTail_delimits (l l' : List Value) (x y : List Char) (hl : isTextualList l = true)
    (hl' : isTextualList l' = true) (h : listTail l (']' :: x) = listTail l' (']' :: y)) :
    l = l' ∧ x = y := by
  match l, l' with
  | [], [] => exact ⟨rfl, (List.cons.inj h).2⟩
  | [], w :: l' => exact absurd (List.cons.inj h).1 (by decide)
  | v :: l, [] => exact absurd (List.cons.inj h).1 (by decide)
  | v :: l, w :: l' =>
    obtain ⟨rfl, htail⟩ := renderJson_delimits v w _ _ (isTextualList_cons.1 hl).1
      (isTextualList_cons.1 hl').1 (List.cons.inj h).2
    obtain ⟨rfl, rfl⟩ := listTail_delimits l l' x y (isTextualList_cons.1 hl).2
      (isTextualList_cons.1 hl').2 htail
    exact ⟨rfl, rfl⟩

theorem itemsTail_delimits (l l' : List (String × Value)) (x y : List Char)
    (hl : isTextualItems l = true) (hl' : isTextualItems l' = true)
    (h : itemsTail l ('\x7d' :: x) = itemsTail l' ('\x7d' :: y)) : l = l' ∧ x = y := by
  match l, l' with
  | [], [] => exact ⟨rfl, (List.cons.inj h).2⟩
  | [], (k, w) :: l' => exact absurd (List.cons.inj h).1 (by decide)
  | (k, v) :: l, [] => exact absurd (List.cons.inj h).1 (by decide)
  | (k, v) :: l, (k', w) :: l' =>
    obtain ⟨rfl, hvalue⟩ := jsonString_delimits k k' _ _ (List.cons.inj h).2
    obtain ⟨rfl, htail⟩ := renderJson_delimits v w _ _ ((isTextualItems_cons k).1 hl).1
      ((isTextualItems_cons k).1 hl').1 (List.cons.inj hvalue).2
    obtain ⟨rfl, rfl⟩ := itemsTail_delimits l l' x y ((isTextualItems_cons k).1 hl).2
      ((isTextualItems_cons k).1 hl').2 htail
    exact ⟨rfl, rfl⟩

end

/-! ## canonical payloads -/

theorem isTextualItems_iff (l : List (String × Value)) :
    isTextualItems l = true ↔ ∀ p ∈ l, p.2.isTextual = true := by
  induction l with
  | nil => exact ⟨fun _ _ hp => absurd hp List.not_mem_nil, fun _ => rfl⟩
  | cons p l ih => rw [isTextualItems_cons p.1, ih, List.forall_mem_cons]

mutual

theorem isTextual_canonicalize (v : Value) (h : v.isTextual = true) :
    (canonicalize v).isTextual = true := by
  match v with
  | .none => exact h
  | .str _ => exact h
  | .list l => exact isTextualList_canonicalize l h
  | .dict l =>
    refine (isTextualItems_iff _).2 fun p hp => ?_
    exact (isTextualItems_iff _).1 (isTextualItems_canonicalize l h) p (mem_sortedBy.1 hp)

theorem isTextualList_canonicalize (l : List Value) (h : isTextualList l = true) :
    isTextualList (canonicalizeList l) = true := by
  match l with
  | [] => rfl
  | v :: l =>
    exact isTextualList_cons.2 ⟨isTextual_canonicalize v (isTextualList_cons.1 h).1,
      isTextualList_canonicalize l (isTextualList_cons.1 h).2⟩

theorem isTextualItems_canonicalize (l : List (String × Value)) (h : isTextualItems l = true) :
    isTextualItems (canonicalizeItems l) = true := by
  match l with
  | [] => rfl
  | (k, v) :: l =>
    exact (isTextualItems_cons k).2 ⟨isTextual_canonicalize v ((isTextualItems_cons k).1 h).1,
      isTextualItems_canonicalize l ((isTextualItems_cons k).1 h).2⟩

end

/-- **The canonical text of a payload of texts determines its canonical form.** -/
theorem canonicalJson_injective {v w : Value} (hv : v.isTextual = true) (hw : w.isTextual = true)
    (h : canonicalJson v = canonicalJson w) : canonicalize v = canonicalize w :=
  (renderJson_delimits _ _ [] [] (isTextual_canonicalize v hv) (isTextual_canonicalize w hw)
    (congrArg (String.toList · ++ []) h)).1

end Chassis
