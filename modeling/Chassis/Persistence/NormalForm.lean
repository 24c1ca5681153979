import Chassis.Persistence.Json
import Mathlib.Data.Rat.Floor
import Mathlib.Tactic.FieldSimp
import Mathlib.Tactic.NormNum
import Mathlib.Tactic.Ring

/-!
# Whether the canonical text is a normal form

Canonical floats are integers, or rounded to twelve decimals.  Rounding comes second: a float that
only rounds to an integer stays a float, and is an integer to whoever reads its text.

* `Folds`                      a float with a fraction that rounds to a small integer;
* `canonicalize_twice`         the canonical form is canonical iff no float folds;
* `SameBut`                    payloads that are the same but for their floats;
* `canonicalJson_normal`       the text is a normal form iff no float folds, and tells floats apart
                               that round alike iff one of them folds.
-/

set_option linter.unusedSectionVars false

namespace Chassis
open Py

/-! ## rounding -/

theorem roundHalfEven_int (n : Int) : roundHalfEven n = n := by
  unfold roundHalfEven
  simp only [Rat.floor_intCast, sub_self]
  exact if_pos (by norm_num)

theorem round12_of_int {q : Rat} (h : q.den = 1) : round12 q = q := by
  have hq : q = (q.num : Rat) := by
    conv_lhs => rw [← Rat.num_div_den q, h]
    simp
  unfold round12
  rw [hq, show (q.num : Rat) * 10 ^ 12 = ((q.num * 10 ^ 12 : Int) : Rat) by push_cast; ring,
    roundHalfEven_int]
  push_cast
  exact mul_div_cancel_right₀ _ (by norm_num)

theorem round12_round12 (q : Rat) : round12 (round12 q) = round12 q := by
  have hscale : round12 q * 10 ^ 12 = (roundHalfEven (q * 10 ^ 12) : Rat) := by
    unfold round12
    field_simp
  rw [round12, hscale, roundHalfEven_int]
  rfl

/-- what becomes an integer -/
def Small (q : Rat) : Prop := q.den = 1 ∧ q.num.natAbs < 2 ^ 53

instance (q : Rat) : Decidable (Small q) :=
  inferInstanceAs (Decidable (q.den = 1 ∧ q.num.natAbs < 2 ^ 53))

/-- a float with a fraction, whose rounding is an integer that a float would have become -/
def Folds (q : Rat) : Prop := q.den ≠ 1 ∧ Small (round12 q)

instance (q : Rat) : Decidable (Folds q) :=
  inferInstanceAs (Decidable (q.den ≠ 1 ∧ Small (round12 q)))

theorem canonicalFloat_eq (q : Rat) :
    canonicalFloat q = if Small q then .int q.num else .float (round12 q) := rfl

theorem canonicalize_canonicalFloat (q : Rat) :
    canonicalize (canonicalFloat q) = canonicalFloat q ↔ ¬ Folds q := by
  rw [canonicalFloat_eq]
  split
  · rename_i hsmall
    exact iff_of_true rfl fun hfolds => hfolds.1 hsmall.1
  · rename_i hsmall
    rw [canonicalize, canonicalFloat_eq, round12_round12]
    constructor
    · intro h hfolds
      rw [if_pos hfolds.2] at h
      cases h
    · intro hfolds
      rw [if_neg]
      intro hround
      refine hfolds ⟨fun hden => hsmall ?_, hround⟩
      rw [round12_of_int hden] at hround
      exact hround

/-- floats that round alike have one canonical form, unless only one of them folds -/
theorem canonicalFloat_congr {q q' : Rat} (h : round12 q = round12 q') :
    canonicalFloat q = canonicalFloat q' ↔ (Folds q ↔ Folds q') := by
  have hcases : ∀ {p : Rat}, Small (round12 p) → ¬ Folds p → Small p ∧ p = round12 p := by
    intro p hround hfolds
    have hden : p.den = 1 := by
      by_contra hne
      exact hfolds ⟨hne, hround⟩
    rw [round12_of_int hden] at hround ⊢
    exact ⟨hround, rfl⟩
  have hnot : ∀ {p : Rat}, Folds p → ¬ Small p := fun hfolds hsmall => hfolds.1 hsmall.1
  have hlarge : ∀ {p : Rat}, ¬ Small (round12 p) → ¬ Small p ∧ ¬ Folds p := by
    intro p hround
    refine ⟨fun hsmall => hround ?_, fun hfolds => hround hfolds.2⟩
    rw [round12_of_int hsmall.1]
    exact hsmall
  rw [canonicalFloat_eq, canonicalFloat_eq]
  by_cases hround : Small (round12 q)
  · have hround' : Small (round12 q') := h ▸ hround
    by_cases hq : Folds q <;> by_cases hq' : Folds q'
    · rw [if_neg (hnot hq), if_neg (hnot hq'), h]
      exact iff_of_true rfl (iff_of_true hq hq')
    · rw [if_neg (hnot hq), if_pos (hcases hround' hq').1]
      exact iff_of_false (fun heq => nomatch heq) fun hiff => hq' (hiff.1 hq)
    · rw [if_pos (hcases hround hq).1, if_neg (hnot hq')]
      exact iff_of_false (fun heq => nomatch heq) fun hiff => hq (hiff.2 hq')
    · obtain ⟨hsmall, heq⟩ := hcases hround hq
      obtain ⟨hsmall', heq'⟩ := hcases hround' hq'
      have hnum : q.num = q'.num := by rw [heq, heq', h]
      rw [if_pos hsmall, if_pos hsmall', hnum]
      exact iff_of_true rfl (iff_of_false hq hq')
  · have hround' : ¬ Small (round12 q') := h ▸ hround
    rw [if_neg (hlarge hround).1, if_neg (hlarge hround').1, h]
    exact iff_of_true rfl (iff_of_false (hlarge hround).2 (hlarge hround').2)

/-! ## payloads -/

theorem canonicalizeItems_eq (l : List (String × Value)) :
    canonicalizeItems l = l.map fun p => (p.1, canonicalize p.2) := by
  induction l with
  | nil => rfl
  | cons p l ih => rw [canonicalizeItems, ih, List.map_cons]

theorem sortedBy_canonicalizeItems (l : List (String × Value)) :
    canonicalizeItems (sortedBy Prod.fst l) = sortedBy Prod.fst (canonicalizeItems l) := by
  induction l with
  | nil => rfl
  | cons p l ih =>
    have hcons : ∀ (q : String × Value) (m : List (String × Value)), sortedBy Prod.fst (q :: m) =
        (sortedBy Prod.fst m).orderedInsert (fun a b => a.1 ≤ b.1) q := fun _ _ => rfl
    have hinsert : ∀ (q : String × Value) (m : List (String × Value)),
        canonicalizeItems (m.orderedInsert (fun a b => a.1 ≤ b.1) q) =
          (canonicalizeItems m).orderedInsert (fun a b => a.1 ≤ b.1) (q.1, canonicalize q.2) := by
      intro q m
      induction m with
      | nil => rfl
      | cons b m ih =>
        rw [canonicalizeItems, List.orderedInsert_cons, List.orderedInsert_cons]
        split
        · rfl
        · rw [canonicalizeItems, ih]
    rw [canonicalizeItems, hcons, hcons, hinsert, ih]

mutual

/-- no float in a payload folds -/
def Unfolded : Value → Prop
  | .float q => ¬ Folds q
  | .list l => UnfoldedAll l
  | .dict items => UnfoldedWithin items
  | _ => True

def UnfoldedAll : List Value → Prop
  | [] => True
  | v :: l => Unfolded v ∧ UnfoldedAll l

def UnfoldedWithin : List (String × Value) → Prop
  | [] => True
  | (_, v) :: l => Unfolded v ∧ UnfoldedWithin l

end

theorem canonicalizeItems_fixed {l : List (String × Value)}
    (h : canonicalizeItems (sortedBy Prod.fst l) = sortedBy Prod.fst l) :
    canonicalizeItems l = l := by
  rw [canonicalizeItems_eq] at h ⊢
  have hmem : ∀ p ∈ sortedBy Prod.fst l, (p.1, canonicalize p.2) = p := by
    intro p hp
    exact List.map_inj_left.1 (h.trans (List.map_id _).symm) p hp
  conv_rhs => rw [← List.map_id l]
  exact List.map_congr_left fun p hp => hmem p (mem_sortedBy.2 hp)

mutual

/-- **The canonical form is canonical** iff no float folds. -/
theorem canonicalize_twice : (v : Value) →
    (canonicalize (canonicalize v) = canonicalize v ↔ Unfolded v)
  | .none | .bool _ | .int _ | .str _ | .object _ _ => iff_of_true rfl trivial
  | .float q => canonicalize_canonicalFloat q
  | .list l => by
    rw [canonicalize, canonicalize, Value.list.injEq]
    exact canonicalizeList_twice l
  | .dict items => by
    rw [canonicalize, canonicalize, Value.dict.injEq, sortedBy_canonicalizeItems, sortedBy_sortedBy,
      ← sortedBy_canonicalizeItems]
    refine Iff.trans ⟨fun h => ?_, fun h => ?_⟩ (canonicalizeItems_twice items)
    · exact canonicalizeItems_fixed h
    · rw [sortedBy_canonicalizeItems, h]

theorem canonicalizeList_twice : (l : List Value) →
    (canonicalizeList (canonicalizeList l) = canonicalizeList l ↔ UnfoldedAll l)
  | [] => iff_of_true rfl trivial
  | v :: l => by
    rw [canonicalizeList, canonicalizeList, List.cons.injEq, canonicalize_twice v,
      canonicalizeList_twice l]
    rfl

theorem canonicalizeItems_twice : (l : List (String × Value)) →
    (canonicalizeItems (canonicalizeItems l) = canonicalizeItems l ↔ UnfoldedWithin l)
  | [] => iff_of_true rfl trivial
  | (k, v) :: l => by
    rw [canonicalizeItems, canonicalizeItems, List.cons.injEq, Prod.mk.injEq,
      canonicalize_twice v, canonicalizeItems_twice l]
    exact and_congr_left fun _ => and_iff_right rfl

end

/-! ### payloads that differ in floats -/

mutual

/-- payloads that are the same but for floats, which are related -/
inductive SameBut (R : Rat → Rat → Prop) : Value → Value → Prop
  | none : SameBut R .none .none
  | bool (b : Bool) : SameBut R (.bool b) (.bool b)
  | int (n : Int) : SameBut R (.int n) (.int n)
  | float {q q' : Rat} : R q q' → SameBut R (.float q) (.float q')
  | str (s : String) : SameBut R (.str s) (.str s)
  | list {l l' : List Value} : SameButAll R l l' → SameBut R (.list l) (.list l')
  | dict {l l' : List (String × Value)} : SameButWithin R l l' → SameBut R (.dict l) (.dict l')

inductive SameButAll (R : Rat → Rat → Prop) : List Value → List Value → Prop
  | nil : SameButAll R [] []
  | cons {v w : Value} {l l' : List Value} :
    SameBut R v w → SameButAll R l l' → SameButAll R (v :: l) (w :: l')

inductive SameButWithin (R : Rat → Rat → Prop) :
    List (String × Value) → List (String × Value) → Prop
  | nil : SameButWithin R [] []
  | cons {k : String} {v w : Value} {l l' : List (String × Value)} :
    SameBut R v w → SameButWithin R l l' → SameButWithin R ((k, v) :: l) ((k, w) :: l')

end

/-- floats that agree after rounding -/
def Agree (q q' : Rat) : Prop := round12 q = round12 q'

/-- floats that both fold, or neither -/
def FoldAlike (q q' : Rat) : Prop := Folds q ↔ Folds q'

theorem SameButWithin.keys {R : Rat → Rat → Prop} {l l' : List (String × Value)}
    (h : SameButWithin R l l') : l.map Prod.fst = l'.map Prod.fst := by
  induction l generalizing l' with
  | nil =>
    cases h
    rfl
  | cons p l ih =>
    cases h with
    | cons hv hl => rw [List.map_cons, List.map_cons, ih hl]

theorem keys_canonicalizeItems (l : List (String × Value)) :
    (canonicalizeItems l).map Prod.fst = l.map Prod.fst := by
  rw [canonicalizeItems_eq, List.map_map]
  rfl

theorem eq_of_sortedBy_eq {l l' : List (String × Value)} (hkeys : l.map Prod.fst = l'.map Prod.fst)
    (hnodup : (l.map Prod.fst).Nodup) (h : sortedBy Prod.fst l = sortedBy Prod.fst l') : l = l' := by
  have hsub : ∀ p ∈ l, p ∈ l' := by
    intro p hp
    have hp' : p ∈ sortedBy Prod.fst l := mem_sortedBy.2 hp
    rw [h] at hp'
    exact mem_sortedBy.1 hp'
  clear h
  induction l generalizing l' with
  | nil => exact (List.map_eq_nil_iff.1 hkeys.symm).symm
  | cons p l ih =>
    rcases l' with _ | ⟨p', l'⟩
    · cases hkeys
    · obtain ⟨hkey, hrest⟩ := List.cons.inj hkeys
      obtain ⟨hout, hnodup'⟩ := List.nodup_cons.1 hnodup
      have hkept : ∀ q ∈ l, q ∈ l' := by
        intro q hq
        rcases List.mem_cons.1 (hsub q (List.mem_cons_of_mem p hq)) with rfl | hin
        · exact absurd (List.mem_map_of_mem hq) (hkey ▸ hout)
        · exact hin
      have hhead : p = p' := by
        rcases List.mem_cons.1 (hsub p List.mem_cons_self) with heq | hin
        · exact heq
        · refine absurd (List.mem_map_of_mem (f := Prod.fst) hin) ?_
          rw [← hrest]
          exact hout
      rw [hhead, ih hrest hnodup' hkept]

variable {floats : Rat → Prop}

mutual

/-- **Payloads that differ only in floats that round alike** have one canonical form iff these fold
alike. -/
theorem canonicalize_congr : (v w : Value) → v.Json floats → SameBut Agree v w →
    (canonicalize v = canonicalize w ↔ SameBut FoldAlike v w)
  | .none, .none, _, .none => iff_of_true rfl .none
  | .bool _, .bool _, _, .bool b => iff_of_true rfl (.bool b)
  | .int _, .int _, _, .int n => iff_of_true rfl (.int n)
  | .str _, .str _, _, .str s => iff_of_true rfl (.str s)
  | .float q, .float q', hv, .float h => by
    rw [canonicalize, canonicalize, canonicalFloat_congr h]
    refine ⟨fun hfold => .float hfold, fun hsame => ?_⟩
    cases hsame with
    | float hfold => exact hfold
  | .list l, .list l', hv, .list h => by
    rw [canonicalize, canonicalize, Value.list.injEq, canonicalizeList_congr l l' hv h]
    refine ⟨fun hfold => .list hfold, fun hsame => ?_⟩
    cases hsame with
    | list hfold => exact hfold
  | .dict l, .dict l', hv, .dict h => by
    have hnodup : ((canonicalizeItems l).map Prod.fst).Nodup := by
      rw [keys_canonicalizeItems]
      exact hv.1
    have hkeys : (canonicalizeItems l).map Prod.fst = (canonicalizeItems l').map Prod.fst := by
      rw [keys_canonicalizeItems, keys_canonicalizeItems, h.keys]
    rw [canonicalize, canonicalize, Value.dict.injEq]
    have hitems := canonicalizeItems_congr l l' hv.2 h
    constructor
    · intro hsorted
      exact .dict (hitems.1 (eq_of_sortedBy_eq hkeys hnodup hsorted))
    · intro hsame
      cases hsame with
      | dict hfold => rw [hitems.2 hfold]

theorem canonicalizeList_congr : (l l' : List Value) → JsonAll floats l → SameButAll Agree l l' →
    (canonicalizeList l = canonicalizeList l' ↔ SameButAll FoldAlike l l')
  | [], [], _, .nil => iff_of_true rfl .nil
  | v :: l, w :: l', hl, .cons hv hrest => by
    rw [canonicalizeList, canonicalizeList, List.cons.injEq, canonicalize_congr v w hl.1 hv,
      canonicalizeList_congr l l' hl.2 hrest]
    refine ⟨fun h => .cons h.1 h.2, fun hsame => ?_⟩
    cases hsame with
    | cons hfirst hall => exact ⟨hfirst, hall⟩

theorem canonicalizeItems_congr : (l l' : List (String × Value)) → JsonWithin floats l →
    SameButWithin Agree l l' →
    (canonicalizeItems l = canonicalizeItems l' ↔ SameButWithin FoldAlike l l')
  | [], [], _, .nil => iff_of_true rfl .nil
  | (k, v) :: l, (_, w) :: l', hl, .cons hv hrest => by
    rw [canonicalizeItems, canonicalizeItems, List.cons.injEq, Prod.mk.injEq,
      canonicalize_congr v w hl.1 hv, canonicalizeItems_congr l l' hl.2 hrest]
    refine ⟨fun h => .cons h.1.2 h.2, fun hsame => ?_⟩
    cases hsame with
    | cons hfirst hall => exact ⟨⟨rfl, hfirst⟩, hall⟩

end

/-! ## the text -/

theorem jsonWithin_iff {l : List (String × Value)} :
    JsonWithin floats l ↔ ∀ p ∈ l, p.2.Json floats := by
  induction l with
  | nil => exact iff_of_true trivial fun _ hp => nomatch hp
  | cons p l ih =>
    rw [List.forall_mem_cons, ← ih]
    rfl

section
variable (h12 : ∀ q, floats q → floats (round12 q))
include h12

theorem json_canonicalFloat {q : Rat} (hq : floats q) : (canonicalFloat q).Json floats := by
  unfold canonicalFloat
  split
  · trivial
  · exact h12 q hq

mutual

theorem json_canonicalize : (v : Value) → v.Json floats → (canonicalize v).Json floats
  | .none, _ | .bool _, _ | .int _, _ | .str _, _ => trivial
  | .float _, hv => json_canonicalFloat h12 hv
  | .list l, hv => json_canonicalizeList l hv
  | .dict items, hv => by
    have hitems := jsonWithin_iff.1 (json_canonicalizeItems items hv.2)
    refine ⟨?_, jsonWithin_iff.2 fun p hp => hitems p (mem_sortedBy.1 hp)⟩
    have hperm := (sortedBy_perm Prod.fst (canonicalizeItems items)).map Prod.fst
    rw [hperm.nodup_iff, keys_canonicalizeItems]
    exact hv.1
  | .object _ _, hv => hv

theorem json_canonicalizeList : (l : List Value) → JsonAll floats l →
    JsonAll floats (canonicalizeList l)
  | [], _ => trivial
  | v :: l, hl => ⟨json_canonicalize v hl.1, json_canonicalizeList l hl.2⟩

theorem json_canonicalizeItems : (l : List (String × Value)) → JsonWithin floats l →
    JsonWithin floats (canonicalizeItems l)
  | [], _ => trivial
  | (_, v) :: l, hl => ⟨json_canonicalize v hl.1, json_canonicalizeItems l hl.2⟩

end

end

/-- **Whether the canonical text is a normal form.**  The text of a payload, read and written again,
is the same text iff no float in the payload folds; and payloads that differ in floats only, which
agree after rounding, have one text iff of each two such floats both fold or neither does. -/
theorem canonicalJson_normal [Platform] {readFloat : List Char → Option Rat}
    (hf : FloatText floats readFloat) (h12 : ∀ q, floats q → floats (round12 q)) :
    (∀ v : Value, v.Json floats →
      ((loads readFloat (canonicalJson v)).map canonicalJson = some (canonicalJson v) ↔
        Unfolded v)) ∧
    ∀ v w : Value, v.Json floats → w.Json floats → SameBut Agree v w →
      (canonicalJson v = canonicalJson w ↔ SameBut FoldAlike v w) := by
  have htext : ∀ v, JsonStyle.compact.dumps (canonicalize v) = canonicalJson v :=
    fun v => dumps_compact (canonicalize v)
  have hinj : ∀ v w : Value, v.Json floats → w.Json floats →
      (canonicalJson v = canonicalJson w ↔ canonicalize v = canonicalize w) := by
    intro v w hv hw
    refine ⟨fun h => ?_, fun h => congrArg renderJson h⟩
    rw [← htext, ← htext] at h
    exact dumps_injective hf .compact (json_canonicalize h12 v hv) (json_canonicalize h12 w hw) h
  constructor
  · intro v hv
    have hcanon := json_canonicalize h12 v hv
    have hread : loads readFloat (canonicalJson v) = some (canonicalize v) := by
      rw [← htext]
      exact loads_dumps hf .compact hcanon
    rw [hread, Option.map_some, Option.some.injEq, hinj _ _ hcanon hv]
    exact canonicalize_twice v
  · intro v w hv hw hsame
    rw [hinj v w hv hw]
    exact canonicalize_congr v w hv hsame

namespace Decimals

/-- the places of a decimal, without the zeros at their end -/
def places (q : Rat) : List Char :=
  let digits := toString (10 ^ 13 + q.num.natAbs * 10 ^ 13 / q.den % 10 ^ 13)
  ((digits.toList.drop 1).reverse.dropWhile (· = '0')).reverse

/-- decimals of at most thirteen places, as `repr` writes them -/
def text (q : Rat) : String :=
  (if q < 0 then "-" else "") ++ toString (q.num.natAbs / q.den) ++ "." ++
    (if places q = [] then "0" else String.ofList (places q))

def read (l : List Char) : Option Rat :=
  let places := (l.dropWhile (· ≠ '.')).drop 1
  some (readInt (l.takeWhile (· ≠ '.') ++ places) / 10 ^ places.length)

scoped instance platform : Platform where
  hashText := id
  floatRepr := text
  fresh := padded
  fresh_injective _ _ := padded_injective

/-- thirteen nines, which round to one -/
def nines : Rat := (10 ^ 13 - 1) / 10 ^ 13

def OneOrNines (q : Rat) : Prop := q = 1 ∨ q = nines

theorem round12_nines : round12 nines = 1 := by decide +kernel

theorem text_one : text 1 = "1.0" := by decide +kernel

theorem text_nines : text nines = "0.9999999999999" := by decide +kernel

theorem floatText : FloatText OneOrNines read where
  read := by
    rintro q (rfl | rfl)
    · decide +kernel
    · decide +kernel
  number := by
    intro q hq
    refine List.all_eq_true.1 ?_
    show (text q).toList.all numberChar = true
    rcases hq with rfl | rfl
    · rw [text_one]
      decide +kernel
    · rw [text_nines]
      decide +kernel
  fraction := by
    rintro q (rfl | rfl)
    · decide +kernel
    · decide +kernel

theorem round12_oneOrNines : ∀ q, OneOrNines q → OneOrNines (round12 q) := by
  rintro q (rfl | rfl)
  · exact .inl (round12_of_int rfl)
  · exact .inl round12_nines

theorem canonicalJson_normal_decimals :
    (∀ v : Value, v.Json OneOrNines →
      ((loads read (canonicalJson v)).map canonicalJson = some (canonicalJson v) ↔
        Unfolded v)) ∧
    ∀ v w : Value, v.Json OneOrNines → w.Json OneOrNines → SameBut Agree v w →
      (canonicalJson v = canonicalJson w ↔ SameBut FoldAlike v w) :=
  canonicalJson_normal floatText round12_oneOrNines

/-- thirteen nines are written as 1.0, which is read and written again as 1, as one is -/
theorem canonicalJson_nines :
    canonicalJson (.float nines) = "1.0" ∧
    (loads read "1.0").map canonicalJson = some "1" ∧
    round12 nines = round12 1 ∧ canonicalJson (.float 1) = "1" := by
  refine ⟨by decide +kernel, by decide +kernel, ?_, by decide +kernel⟩
  rw [round12_nines]
  exact (round12_of_int rfl).symm

end Decimals

end Chassis
