import Mathlib.Algebra.GroupWithZero.Nat
import Mathlib.Data.List.Induction
import Mathlib.Data.List.Nodup
import Mathlib.Data.List.Sort
import Mathlib.Data.String.Basic

/-!
# Insertion-ordered dictionaries and stable sorting

The two built-in containers every module of the development reads:

* `Dict κ ν`       an association list whose keys are pairwise distinct, in insertion order;
                   `set` on a present key keeps its place, on a new key it appends;
* `sortedBy key`   the stable sort by a key (`sorted(..., key=...)`).
-/

set_option linter.unusedSectionVars false

namespace Py

/-- A dictionary: its items in insertion order, no key twice. -/
structure Dict (κ ν : Type*) where
  items : List (κ × ν)
  nodup : (items.map Prod.fst).Nodup

namespace Dict
variable {κ ν μ : Type*}

def empty : Dict κ ν := ⟨[], List.nodup_nil⟩

instance : Inhabited (Dict κ ν) := ⟨empty⟩

instance [DecidableEq κ] [DecidableEq ν] : DecidableEq (Dict κ ν) := fun a b =>
  decidable_of_iff (a.items = b.items) (by
    constructor
    · intro h
      cases a
      cases b
      simp only at h
      subst h
      rfl
    · rintro rfl
      rfl)

def keys (d : Dict κ ν) : List κ := d.items.map Prod.fst
def values (d : Dict κ ν) : List ν := d.items.map Prod.snd

theorem keys_nodup (d : Dict κ ν) : d.keys.Nodup := d.nodup

/-- `{k: f(v) for k, v in d.items()}` -/
def mapValues (f : ν → μ) (d : Dict κ ν) : Dict κ μ :=
  ⟨d.items.map fun p => (p.1, f p.2), by
    rw [List.map_map]
    exact d.nodup⟩

section
variable [DecidableEq κ]

/-- `d.get(k)` on the raw items -/
def getItems (k : κ) : List (κ × ν) → Option ν
  | [] => none
  | (k', v) :: l => if k' = k then some v else getItems k l

def get? (d : Dict κ ν) (k : κ) : Option ν := getItems k d.items

/-- `d[k] = v` on the raw items -/
def setItems (k : κ) (v : ν) : List (κ × ν) → List (κ × ν)
  | [] => [(k, v)]
  | (k', v') :: l => if k' = k then (k', v) :: l else (k', v') :: setItems k v l

theorem keys_setItems (k : κ) (v : ν) (l : List (κ × ν)) :
    (setItems k v l).map Prod.fst
      = if k ∈ l.map Prod.fst then l.map Prod.fst else l.map Prod.fst ++ [k] := by
  induction l with
  | nil => simp [setItems]
  | cons p l ih =>
    obtain ⟨k', v'⟩ := p
    by_cases hk : k' = k
    · simp [setItems, hk]
    · simp only [setItems, hk, if_false, List.map_cons, ih, List.mem_cons, Ne.symm hk, false_or]
      split <;> rfl

theorem setItems_new {k : κ} (v : ν) {l : List (κ × ν)} (h : k ∉ l.map Prod.fst) :
    setItems k v l = l ++ [(k, v)] := by
  induction l with
  | nil => rfl
  | cons p l ih =>
    obtain ⟨k', v'⟩ := p
    rw [List.map_cons, List.mem_cons, not_or] at h
    rw [setItems, if_neg (Ne.symm h.1), ih h.2]
    rfl

theorem mem_setItems {k : κ} {v : ν} {l : List (κ × ν)} {p : κ × ν} (h : p ∈ setItems k v l) :
    p ∈ l ∨ p = (k, v) := by
  induction l with
  | nil => exact Or.inr (List.mem_singleton.1 h)
  | cons q l ih =>
    obtain ⟨k', v'⟩ := q
    rw [setItems] at h
    split at h
    · rename_i hk
      subst hk
      rcases List.mem_cons.1 h with rfl | h
      · exact Or.inr rfl
      · exact Or.inl (List.mem_cons_of_mem _ h)
    · rcases List.mem_cons.1 h with rfl | h
      · exact Or.inl List.mem_cons_self
      · exact (ih h).imp_left (List.mem_cons_of_mem _)

def set (d : Dict κ ν) (k : κ) (v : ν) : Dict κ ν :=
  ⟨setItems k v d.items, by
    rw [keys_setItems]
    split
    · exact d.nodup
    · rename_i h
      exact List.nodup_append.2 ⟨d.nodup, List.nodup_singleton k, fun a ha b hb => by
        rw [List.mem_singleton] at hb
        subst hb
        exact fun e => h (e ▸ ha)⟩⟩

/-- `d.pop(k, None)` -/
def erase (d : Dict κ ν) (k : κ) : Dict κ ν :=
  ⟨d.items.filter (fun p => p.1 ≠ k), d.nodup.sublist ((List.filter_sublist).map _)⟩

def ofList (l : List (κ × ν)) : Dict κ ν := l.foldl (fun d p => d.set p.1 p.2) empty

/-- `{**d, **e}` -/
def update (d e : Dict κ ν) : Dict κ ν := e.items.foldl (fun d p => d.set p.1 p.2) d

/-- `d == e`: the same keys with the same values, in any order -/
def same [DecidableEq ν] (d e : Dict κ ν) : Bool :=
  d.items.all (fun p => e.get? p.1 = some p.2) && e.items.all (fun p => d.get? p.1 = some p.2)

/-! ## lookups -/

theorem getItems_setItems (k k' : κ) (v : ν) (l : List (κ × ν)) :
    getItems k' (setItems k v l) = if k' = k then some v else getItems k' l := by
  induction l with
  | nil =>
    by_cases h : k' = k
    · simp [setItems, getItems, h]
    · simp [setItems, getItems, h, Ne.symm h]
  | cons p l ih =>
    obtain ⟨a, b⟩ := p
    by_cases ha : a = k
    · subst ha
      by_cases h : k' = a
      · simp [setItems, getItems, h]
      · simp [setItems, getItems, h, Ne.symm h]
    · by_cases h : k' = k
      · subst h
        simp [setItems, getItems, ha, ih]
      · simp [setItems, getItems, ha, ih, h]

theorem getItems_eq_some {k : κ} {v : ν} {l : List (κ × ν)} (h : (l.map Prod.fst).Nodup) :
    getItems k l = some v ↔ (k, v) ∈ l := by
  induction l with
  | nil => simp [getItems]
  | cons p l ih =>
    obtain ⟨a, b⟩ := p
    have hn : a ∉ l.map Prod.fst ∧ (l.map Prod.fst).Nodup := List.nodup_cons.1 h
    by_cases ha : a = k
    · subst ha
      have hno : ∀ w, (a, w) ∉ l := fun w hw => hn.1 (List.mem_map.2 ⟨(a, w), hw, rfl⟩)
      simp [getItems, hno, eq_comm]
    · have hne : ¬(k = a ∧ v = b) := fun e => ha e.1.symm
      simp [getItems, ha, ih hn.2, hne]

theorem getItems_filter (q : κ → Bool) (k : κ) (l : List (κ × ν)) :
    getItems k (l.filter (fun p => q p.1)) = if q k then getItems k l else none := by
  induction l with
  | nil => simp [getItems]
  | cons p l ih =>
    obtain ⟨a, b⟩ := p
    by_cases ha : a = k
    · subst ha
      by_cases hq : q a
      · simp [getItems, hq]
      · simp [hq, ih]
    · by_cases hq : q a
      · simp [getItems, hq, ha, ih]
      · simp [getItems, hq, ih, ha]

theorem get?_mapValues (f : ν → μ) (d : Dict κ ν) (k : κ) :
    (d.mapValues f).get? k = (d.get? k).map f := by
  show getItems k (d.items.map fun p => (p.1, f p.2)) = (getItems k d.items).map f
  induction d.items with
  | nil => rfl
  | cons p l ih =>
    obtain ⟨a, b⟩ := p
    by_cases ha : a = k
    · simp [getItems, ha]
    · simp [getItems, ha, ih]

@[simp] theorem get?_empty (k : κ) : (empty : Dict κ ν).get? k = none := rfl
@[simp] theorem values_empty : (empty : Dict κ ν).values = [] := rfl

theorem get?_set (d : Dict κ ν) (k k' : κ) (v : ν) :
    (d.set k v).get? k' = if k' = k then some v else d.get? k' :=
  getItems_setItems k k' v d.items

@[simp] theorem get?_set_self (d : Dict κ ν) (k : κ) (v : ν) : (d.set k v).get? k = some v := by
  rw [get?_set, if_pos rfl]

@[simp] theorem get?_set_ne (d : Dict κ ν) {k k' : κ} (v : ν) (h : k' ≠ k) :
    (d.set k v).get? k' = d.get? k' := by
  rw [get?_set, if_neg h]

theorem get?_erase (d : Dict κ ν) (k k' : κ) :
    (d.erase k).get? k' = if k' = k then none else d.get? k' := by
  have h := getItems_filter (fun a => decide (a ≠ k)) k' d.items
  by_cases hk : k' = k
  · simpa [get?, erase, hk] using h
  · simpa [get?, erase, hk] using h

@[simp] theorem get?_erase_self (d : Dict κ ν) (k : κ) : (d.erase k).get? k = none := by
  rw [get?_erase, if_pos rfl]

@[simp] theorem get?_erase_ne (d : Dict κ ν) {k k' : κ} (h : k' ≠ k) :
    (d.erase k).get? k' = d.get? k' := by
  rw [get?_erase, if_neg h]

theorem mem_items {d : Dict κ ν} {k : κ} {v : ν} : (k, v) ∈ d.items ↔ d.get? k = some v :=
  (getItems_eq_some d.nodup).symm

theorem erase_missing {d : Dict κ ν} {k : κ} (h : d.get? k = none) : d.erase k = d := by
  have hitems : d.items.filter (fun p => p.1 ≠ k) = d.items := by
    refine List.filter_eq_self.2 fun p hp => decide_eq_true fun he => ?_
    have hget := mem_items.1 (show (p.1, p.2) ∈ d.items from hp)
    rw [he, h] at hget
    cases hget
  cases d
  simp only [erase, mk.injEq]
  exact hitems

theorem erase_set (d : Dict κ ν) (k : κ) (v : ν) : (d.set k v).erase k = d.erase k := by
  have hitems : ∀ l : List (κ × ν), (setItems k v l).filter (fun p => p.1 ≠ k) =
      l.filter (fun p => p.1 ≠ k) := by
    intro l
    induction l with
    | nil => simp [setItems]
    | cons p l ih =>
      obtain ⟨a, b⟩ := p
      by_cases ha : a = k
      · simp [setItems, ha]
      · simp only [setItems, ha, if_false, List.filter_cons, ih]
  simp only [erase, set, mk.injEq]
  exact hitems d.items

theorem set_set (d : Dict κ ν) (k : κ) (v v' : ν) : (d.set k v).set k v' = d.set k v' := by
  have hitems : ∀ l : List (κ × ν), setItems k v' (setItems k v l) = setItems k v' l := by
    intro l
    induction l with
    | nil => simp [setItems]
    | cons p l ih =>
      obtain ⟨a, b⟩ := p
      by_cases ha : a = k
      · simp [setItems, ha]
      · simp only [setItems, ha, if_false, ih]
  simp only [set, mk.injEq]
  exact hitems d.items

theorem mem_keys {d : Dict κ ν} {k : κ} : k ∈ d.keys ↔ ∃ v, d.get? k = some v := by
  constructor
  · intro h
    obtain ⟨⟨a, b⟩, hp, rfl⟩ := List.mem_map.1 h
    exact ⟨b, mem_items.1 hp⟩
  · rintro ⟨v, hv⟩
    exact List.mem_map.2 ⟨(k, v), mem_items.2 hv, rfl⟩

theorem mem_values {d : Dict κ ν} {v : ν} : v ∈ d.values ↔ ∃ k, d.get? k = some v := by
  constructor
  · intro h
    obtain ⟨⟨a, b⟩, hp, rfl⟩ := List.mem_map.1 h
    exact ⟨a, mem_items.1 hp⟩
  · rintro ⟨k, hv⟩
    exact List.mem_map.2 ⟨(k, v), mem_items.2 hv, rfl⟩

theorem same_refl [DecidableEq ν] (d : Dict κ ν) : d.same d = true := by
  unfold same
  rw [Bool.and_self, List.all_eq_true]
  exact fun p hp => decide_eq_true (mem_items.1 hp)

theorem sum_set (f : ν → Nat) {d : Dict κ ν} {k : κ} {v : ν} (h : d.get? k = some v) (v' : ν) :
    ((d.set k v').values.map f).sum + f v = (d.values.map f).sum + f v' := by
  have hitems : ∀ l : List (κ × ν), getItems k l = some v →
      (((setItems k v' l).map Prod.snd).map f).sum + f v = ((l.map Prod.snd).map f).sum + f v' := by
    intro l hl
    induction l with
    | nil => cases hl
    | cons p l ih =>
      obtain ⟨a, b⟩ := p
      by_cases ha : a = k
      · rw [getItems, if_pos ha] at hl
        cases hl
        rw [setItems, if_pos ha]
        simp only [List.map_cons, List.sum_cons]
        omega
      · rw [getItems, if_neg ha] at hl
        have hrest := ih hl
        rw [setItems, if_neg ha]
        simp only [List.map_cons, List.sum_cons]
        omega
  exact hitems d.items h

theorem values_set_new {d : Dict κ ν} {k : κ} (v : ν) (h : d.get? k = none) :
    (d.set k v).values = d.values ++ [v] := by
  have hk : k ∉ d.keys := fun hin => by
    obtain ⟨v', hv⟩ := mem_keys.1 hin
    rw [h] at hv
    cases hv
  show (setItems k v d.items).map Prod.snd = d.items.map Prod.snd ++ [v]
  rw [setItems_new v hk, List.map_append, List.map_singleton]

theorem items_ofList {l : List (κ × ν)} (h : (l.map Prod.fst).Nodup) : (ofList l).items = l := by
  have hloop : ∀ (l : List (κ × ν)) (d : Dict κ ν), ((d.items ++ l).map Prod.fst).Nodup →
      (l.foldl (fun d p => d.set p.1 p.2) d).items = d.items ++ l := by
    intro l
    induction l with
    | nil => exact fun d _ => (List.append_nil _).symm
    | cons p l ih =>
      intro d hd
      have hnew : p.1 ∉ d.items.map Prod.fst := by
        rw [List.map_append, List.nodup_append] at hd
        exact fun hin => hd.2.2 _ hin _ (List.mem_cons_self) rfl
      have hset : (d.set p.1 p.2).items = d.items ++ [p] := setItems_new p.2 hnew
      rw [List.foldl_cons, ih (d.set p.1 p.2) ?_, hset, List.append_assoc]
      · rfl
      · rw [hset, List.append_assoc]
        exact hd
  exact hloop l empty h

theorem get?_ofList {l : List (κ × ν)} (h : (l.map Prod.fst).Nodup) {k : κ} {v : ν} :
    (ofList l).get? k = some v ↔ (k, v) ∈ l := by
  rw [← mem_items, items_ofList h]

theorem get?_ofList_eq (l : List (κ × ν)) (k : κ) :
    (ofList l).get? k = (l.reverse.find? fun p => p.1 = k).map Prod.snd := by
  induction l using List.reverseRecOn with
  | nil => rfl
  | append_singleton l p ih =>
    have hset : ofList (l ++ [p]) = (ofList l).set p.1 p.2 := by
      rw [ofList, List.foldl_append]
      rfl
    rw [hset, get?_set, List.reverse_append, List.reverse_singleton, List.singleton_append,
      List.find?_cons]
    by_cases hk : p.1 = k
    · rw [if_pos hk.symm, decide_eq_true hk]
      rfl
    · rw [if_neg (Ne.symm hk), decide_eq_false hk, ih]

theorem get?_ofList_of_unique {l : List (κ × ν)} (h : ∀ p ∈ l, ∀ q ∈ l, p.1 = q.1 → p = q) {k : κ}
    {v : ν} : (ofList l).get? k = some v ↔ (k, v) ∈ l := by
  rw [get?_ofList_eq, Option.map_eq_some_iff]
  constructor
  · rintro ⟨p, hp, rfl⟩
    have hk := List.find?_some hp
    obtain rfl : p.1 = k := of_decide_eq_true hk
    exact List.mem_reverse.1 (List.mem_of_find?_eq_some hp)
  · intro hin
    obtain ⟨p, hp⟩ : ∃ p, l.reverse.find? (fun p => decide (p.1 = k)) = some p := by
      rw [← Option.isSome_iff_exists, List.find?_isSome]
      exact ⟨(k, v), List.mem_reverse.2 hin, decide_eq_true rfl⟩
    have hk := List.find?_some hp
    have hmem : p ∈ l := List.mem_reverse.1 (List.mem_of_find?_eq_some hp)
    refine ⟨p, hp, ?_⟩
    rw [h p hmem (k, v) hin (of_decide_eq_true hk)]

theorem get?_foldl_set {l : List (κ × ν)} (h : (l.map Prod.fst).Nodup) (d : Dict κ ν) (k : κ) :
    (l.foldl (fun d p => d.set p.1 p.2) d).get? k = (getItems k l).or (d.get? k) := by
  induction l generalizing d with
  | nil => rfl
  | cons p l ih =>
    obtain ⟨k', v⟩ := p
    rw [List.map_cons, List.nodup_cons] at h
    rw [List.foldl_cons, ih h.2, get?_set]
    show _ = (if k' = k then some v else getItems k l).or (d.get? k)
    by_cases hk : k = k'
    · have hnone : getItems k l = none := by
        refine Option.eq_none_iff_forall_ne_some.2 fun w hw => h.1 ?_
        have hin : (k, w) ∈ l := (getItems_eq_some h.2).1 hw
        exact List.mem_map.2 ⟨(k, w), hin, hk⟩
      rw [hnone, if_pos hk, if_pos hk.symm]
      rfl
    · rw [if_neg hk, if_neg (Ne.symm hk)]

theorem get?_update (d e : Dict κ ν) (k : κ) : (d.update e).get? k = (e.get? k).or (d.get? k) :=
  get?_foldl_set e.nodup d k

/-- sets a key if there is a value for it -/
def setSome (d : Dict κ ν) (k : κ) : Option ν → Dict κ ν
  | none => d
  | some v => d.set k v

theorem get?_setSome_self (d : Dict κ ν) (k : κ) (v : Option ν) :
    (d.setSome k v).get? k = v.or (d.get? k) := by
  cases v with
  | none => rfl
  | some v => exact get?_set_self d k v

theorem get?_setSome_ne (d : Dict κ ν) {k k' : κ} (v : Option ν) (h : k' ≠ k) :
    (d.setSome k v).get? k' = d.get? k' := by
  cases v with
  | none => rfl
  | some v => exact get?_set_ne d v h

section
variable {α : Type*} (key : α → κ) (f : α → Option ν)

theorem get?_foldl_setSome_missing {l : List α} {k : κ} (h : k ∉ l.map key) (d : Dict κ ν) :
    (l.foldl (fun d a => d.setSome (key a) (f a)) d).get? k = d.get? k := by
  induction l generalizing d with
  | nil => rfl
  | cons a l ih =>
    rw [List.map_cons, List.mem_cons, not_or] at h
    rw [List.foldl_cons, ih h.2, get?_setSome_ne d _ h.1]

/-- of entries with different keys, the one that has the key decides, if it has a value -/
theorem get?_foldl_setSome {l : List α} (h : (l.map key).Nodup) {a : α} (ha : a ∈ l)
    (d : Dict κ ν) :
    (l.foldl (fun d a => d.setSome (key a) (f a)) d).get? (key a) = (f a).or (d.get? (key a)) := by
  induction l generalizing d with
  | nil => exact absurd ha List.not_mem_nil
  | cons b l ih =>
    rw [List.map_cons, List.nodup_cons] at h
    rw [List.foldl_cons]
    rcases List.mem_cons.1 ha with rfl | hl
    · rw [get?_foldl_setSome_missing key f h.1, get?_setSome_self]
    · have hne : key a ≠ key b := fun heq => h.1 (heq ▸ List.mem_map_of_mem hl)
      rw [ih h.2 hl, get?_setSome_ne d _ hne]

end

theorem get?_foldl_erase {α : Type*} (key : α → κ) (l : List α) (d : Dict κ ν) (k : κ) :
    (l.foldl (fun d a => d.erase (key a)) d).get? k =
      if ∃ a ∈ l, key a = k then none else d.get? k := by
  induction l generalizing d with
  | nil => simp
  | cons a l ih =>
    rw [List.foldl_cons, ih, get?_erase]
    by_cases hk : k = key a
    · simp [hk]
    · simp [hk, Ne.symm hk]

theorem keys_erase (d : Dict κ ν) (k : κ) : (d.erase k).keys = d.keys.filter (· ≠ k) := by
  simp only [keys, erase, List.filter_map]
  rfl

end
end Dict

/-! ## stable sorting -/

section
variable {α κ : Type*} [LinearOrder κ]

/-- `sorted(l, key=key)`; insertion sort is stable, as the built-in one is -/
def sortedBy (key : α → κ) (l : List α) : List α := l.insertionSort (fun a b => key a ≤ key b)

abbrev sorted (l : List κ) : List κ := sortedBy id l

theorem sortedBy_perm (key : α → κ) (l : List α) : (sortedBy key l).Perm l :=
  List.perm_insertionSort _ l

@[simp] theorem mem_sortedBy {key : α → κ} {l : List α} {a : α} : a ∈ sortedBy key l ↔ a ∈ l :=
  (sortedBy_perm key l).mem_iff

@[simp] theorem length_sortedBy (key : α → κ) (l : List α) : (sortedBy key l).length = l.length :=
  (sortedBy_perm key l).length_eq

theorem sortedBy_nodup {key : α → κ} {l : List α} (h : l.Nodup) : (sortedBy key l).Nodup :=
  (sortedBy_perm key l).nodup_iff.2 h

theorem sortedBy_pairwise (key : α → κ) (l : List α) :
    (sortedBy key l).Pairwise (fun a b => key a ≤ key b) := by
  have : Std.Total (fun a b : α => key a ≤ key b) := ⟨fun a b => le_total (key a) (key b)⟩
  have : IsTrans α (fun a b : α => key a ≤ key b) := ⟨fun _ _ _ hab hbc => le_trans hab hbc⟩
  exact List.pairwise_insertionSort _ l

/-- the order of a list does not show after it is sorted by keys that tell its members apart -/
theorem sortedBy_eq_of_perm {key : α → κ} {l l' : List α}
    (hkey : ∀ a ∈ l, ∀ b ∈ l, key a = key b → a = b) (h : l.Perm l') :
    sortedBy key l = sortedBy key l' := by
  refine List.Perm.eq_of_pairwise (fun a b ha hb hab hba => ?_) (sortedBy_pairwise key l)
    (sortedBy_pairwise key l') ?_
  · have hb' := h.mem_iff.2 (mem_sortedBy.1 hb)
    exact hkey a (mem_sortedBy.1 ha) b hb' (le_antisymm hab hba)
  · exact (sortedBy_perm key l).trans (h.trans (sortedBy_perm key l').symm)

theorem sorted_eq_of_perm {l l' : List κ} (h : l.Perm l') : sorted l = sorted l' :=
  sortedBy_eq_of_perm (fun _ _ _ _ he => he) h

theorem sortedBy_sortedBy (key : α → κ) (l : List α) :
    sortedBy key (sortedBy key l) = sortedBy key l :=
  (sortedBy_pairwise key l).insertionSort_eq

theorem sortedBy_map {β : Type*} (key : β → κ) (f : α → β) (l : List α) :
    sortedBy key (l.map f) = (sortedBy (fun a => key (f a)) l).map f :=
  (List.map_insertionSort (fun a b => key (f a) ≤ key (f b)) (fun a b => key a ≤ key b) f l
    fun _ _ _ _ => Iff.rfl).symm

theorem filter_orderedInsert (key : α → κ) (q : α → Bool) (a : α) {l : List α}
    (h : l.Pairwise (fun a b => key a ≤ key b)) :
    (l.orderedInsert (fun a b => key a ≤ key b) a).filter q =
      if q a then (l.filter q).orderedInsert (fun a b => key a ≤ key b) a else l.filter q := by
  induction l with
  | nil => by_cases hq : q a <;> simp [hq]
  | cons b l ih =>
    have hb := List.pairwise_cons.1 h
    rw [List.orderedInsert_cons]
    by_cases hab : key a ≤ key b
    · have hins : ((b :: l).filter q).orderedInsert (fun a b => key a ≤ key b) a
          = a :: (b :: l).filter q := by
        rcases hf : (b :: l).filter q with _ | ⟨x, m⟩
        · rfl
        · have hx : x ∈ b :: l := (List.mem_filter.1 (hf ▸ List.mem_cons_self)).1
          have hax : key a ≤ key x := by
            rcases List.mem_cons.1 hx with rfl | hx
            · exact hab
            · exact le_trans hab (hb.1 x hx)
          rw [List.orderedInsert_cons, if_pos hax]
      rw [if_pos hab, hins, List.filter_cons]
    · rw [if_neg hab, List.filter_cons, ih hb.2, List.filter_cons]
      by_cases hqb : q b <;> by_cases hqa : q a <;> simp [hqa, hqb, hab]

/-- the sort is stable: it commutes with dropping elements -/
theorem sortedBy_filter (key : α → κ) (q : α → Bool) (l : List α) :
    sortedBy key (l.filter q) = (sortedBy key l).filter q := by
  induction l with
  | nil => rfl
  | cons a l ih =>
    have hcons : ∀ (b : α) (m : List α), sortedBy key (b :: m)
        = (sortedBy key m).orderedInsert (fun a b => key a ≤ key b) b := fun _ _ => rfl
    rw [hcons, filter_orderedInsert key q a (sortedBy_pairwise key l), ← ih]
    by_cases hq : q a
    · rw [List.filter_cons_of_pos hq, if_pos hq, hcons]
    · rw [List.filter_cons_of_neg hq, if_neg hq]

end

/-! ## lists whose elements have keys -/

theorem find?_key {α κ : Type*} [DecidableEq κ] {key : α → κ} {l : List α}
    (h : (l.map key).Nodup) {k : κ} {a : α} :
    l.find? (fun x => key x = k) = some a ↔ a ∈ l ∧ key a = k := by
  constructor
  · intro hf
    have hk := List.find?_some hf
    exact ⟨List.mem_of_find?_eq_some hf, of_decide_eq_true hk⟩
  · rintro ⟨ha, rfl⟩
    obtain ⟨b, hb⟩ : ∃ b, l.find? (fun x => key x = key a) = some b := by
      rw [← Option.isSome_iff_exists, List.find?_isSome]
      exact ⟨a, ha, decide_eq_true rfl⟩
    have hk := List.find?_some hb
    rw [hb, List.inj_on_of_nodup_map h (List.mem_of_find?_eq_some hb) ha (of_decide_eq_true hk)]

end Py
