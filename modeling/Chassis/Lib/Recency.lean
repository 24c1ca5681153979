import Chassis.Lib.Dict

/-!
# Dictionaries in the order of their use

An `OrderedDict` that keeps what was used last.

* `moveToEnd`    what was used goes to the end, and nothing else changes;
* `evict`        from the front, until no more is left than there is room for;
* `get?_evict`   what is left is found as before, what is gone is not;
* `touch`, `store`   the same on plain lists, the last used first: such a dictionary, read
                 backwards, is such a list;
* `lastUse`      when a key was last named in a sequence of operations.
-/

set_option linter.unusedSectionVars false

namespace Py.Dict
variable {κ ν : Type*} [DecidableEq κ]

/-- `d.move_to_end(k)`, where there is such a key -/
def moveToEnd (d : Dict κ ν) (k : κ) : Dict κ ν :=
  match d.get? k with
  | none => d
  | some v => (d.erase k).set k v

@[simp] theorem get?_moveToEnd (d : Dict κ ν) (k k' : κ) : (d.moveToEnd k).get? k' = d.get? k' := by
  unfold moveToEnd
  rcases h : d.get? k with _ | v
  · rfl
  · simp only
    by_cases hk : k' = k
    · rw [hk, get?_set_self, h]
    · rw [get?_set_ne _ _ hk, get?_erase_ne _ hk]

/-- `while len(d) > capacity: d.popitem(last=False)` on the raw items: the keys that went, and what
is left -/
def evictItems (capacity : Nat) : List (κ × ν) → List κ × List (κ × ν)
  | [] => ([], [])
  | p :: l =>
    if capacity < (p :: l).length then
      (p.1 :: (evictItems capacity l).1, (evictItems capacity l).2)
    else ([], p :: l)

theorem evictItems_suffix (capacity : Nat) (l : List (κ × ν)) :
    ∃ gone, l = gone ++ (evictItems capacity l).2 ∧ (evictItems capacity l).1 = gone.map Prod.fst := by
  induction l with
  | nil => exact ⟨[], rfl, rfl⟩
  | cons p l ih =>
    obtain ⟨gone, hl, hkeys⟩ := ih
    unfold evictItems
    split
    · refine ⟨p :: gone, ?_, ?_⟩
      · rw [List.cons_append, ← hl]
      · rw [List.map_cons, ← hkeys]
    · exact ⟨[], rfl, rfl⟩

def evicted (capacity : Nat) (d : Dict κ ν) : List κ := (evictItems capacity d.items).1

def evict (capacity : Nat) (d : Dict κ ν) : Dict κ ν :=
  ⟨(evictItems capacity d.items).2, by
    obtain ⟨gone, hl, -⟩ := evictItems_suffix capacity d.items
    have h := d.nodup
    rw [hl, List.map_append] at h
    exact (List.nodup_append.1 h).2.1⟩

/-- **What is left** is found as before, and what is gone is not. -/
theorem get?_evict (capacity : Nat) (d : Dict κ ν) (k : κ) :
    (d.evict capacity).get? k = if k ∈ d.evicted capacity then none else d.get? k := by
  obtain ⟨gone, hl, hkeys⟩ := evictItems_suffix capacity d.items
  have hnodup := d.nodup
  rw [hl, List.map_append] at hnodup
  unfold evicted
  rw [hkeys]
  refine Option.ext fun v => ?_
  rw [← mem_items]
  split
  · rename_i hgone
    refine iff_of_false (fun hin => ?_) (fun h => by cases h)
    exact (List.nodup_append.1 hnodup).2.2 _ hgone _ (List.mem_map_of_mem (f := Prod.fst) hin) rfl
  · rename_i hgone
    rw [← mem_items, hl, List.mem_append]
    constructor
    · exact Or.inr
    · intro hin
      exact hin.resolve_left fun h => hgone (List.mem_map_of_mem (f := Prod.fst) h)

theorem get?_of_evict {capacity : Nat} {d : Dict κ ν} {k : κ} {v : ν}
    (h : (d.evict capacity).get? k = some v) : d.get? k = some v := by
  rw [get?_evict] at h
  split at h
  · cases h
  · exact h

/-! ## lists by last use -/

/-- an entry that is there was used -/
def touch (k : κ) (l : List (κ × ν)) : List (κ × ν) :=
  match getItems k l with
  | none => l
  | some v => (k, v) :: l.filter fun p => p.1 ≠ k

/-- an entry is stored, and what there is no more room for goes -/
def store (capacity : Nat) (k : κ) (v : ν) (l : List (κ × ν)) : List (κ × ν) :=
  ((k, v) :: l.filter fun p => p.1 ≠ k).take capacity

theorem items_erase (d : Dict κ ν) (k : κ) : (d.erase k).items = d.items.filter fun p => p.1 ≠ k :=
  rfl

theorem items_set_new {d : Dict κ ν} {k : κ} (v : ν) (h : d.get? k = none) :
    (d.set k v).items = d.items ++ [(k, v)] := by
  refine setItems_new v fun hin => ?_
  obtain ⟨w, hw⟩ := mem_keys.1 hin
  rw [h] at hw
  cases hw

theorem items_moveToEnd {d : Dict κ ν} {k : κ} {v : ν} (h : d.get? k = some v) :
    (d.moveToEnd k).items = (d.items.filter fun p => p.1 ≠ k) ++ [(k, v)] := by
  unfold moveToEnd
  rw [h]
  simp only
  rw [items_set_new v (get?_erase_self d k), items_erase]

theorem getItems_reverse (d : Dict κ ν) (k : κ) : getItems k d.items.reverse = d.get? k := by
  have hn : (d.items.reverse.map Prod.fst).Nodup := by
    rw [List.map_reverse, List.nodup_reverse]
    exact d.nodup
  refine Option.ext fun v => ?_
  rw [getItems_eq_some hn, List.mem_reverse, mem_items]

/-- **A use, read backwards** -/
theorem reverse_moveToEnd (d : Dict κ ν) (k : κ) :
    (d.moveToEnd k).items.reverse = touch k d.items.reverse := by
  unfold touch
  rw [getItems_reverse]
  rcases h : d.get? k with _ | v
  · unfold moveToEnd
    rw [h]
  · rw [items_moveToEnd h, List.reverse_append, List.filter_reverse]
    rfl

theorem evictItems_eq (capacity : Nat) (l : List (κ × ν)) : evictItems capacity l =
    ((l.take (l.length - capacity)).map Prod.fst, l.drop (l.length - capacity)) := by
  induction l with
  | nil => rw [List.take_nil, List.drop_nil]; rfl
  | cons p l ih =>
    unfold evictItems
    split
    · rename_i hover
      rw [ih, List.length_cons, Nat.succ_sub (Nat.lt_succ_iff.1 hover)]
      rfl
    · rename_i hroom
      rw [Nat.sub_eq_zero_of_le (not_lt.1 hroom)]
      rfl

theorem reverse_evict (capacity : Nat) (d : Dict κ ν) :
    (d.evict capacity).items.reverse = d.items.reverse.take capacity := by
  have hrest : (d.evict capacity).items = d.items.drop (d.items.length - capacity) :=
    congrArg Prod.snd (evictItems_eq capacity d.items)
  rw [hrest, List.take_reverse]

theorem mem_evicted {capacity : Nat} {d : Dict κ ν} {k : κ} :
    k ∈ d.evicted capacity ↔ k ∈ (d.items.reverse.drop capacity).map Prod.fst := by
  unfold evicted
  rw [evictItems_eq, List.drop_reverse, List.map_reverse, List.mem_reverse]

theorem reverse_set_moveToEnd (d : Dict κ ν) (k : κ) (v : ν) :
    ((d.set k v).moveToEnd k).items.reverse = (k, v) :: d.items.reverse.filter fun p => p.1 ≠ k := by
  have hrest : ((d.set k v).items.filter fun p => p.1 ≠ k) = d.items.filter fun p => p.1 ≠ k := by
    rw [← items_erase, erase_set, items_erase]
  rw [items_moveToEnd (get?_set_self d k v), hrest, List.reverse_append, List.filter_reverse]
  rfl

theorem getItems_eq_none {l : List (κ × ν)} {k : κ} :
    getItems k l = none ↔ ∀ p ∈ l, p.1 ≠ k := by
  induction l with
  | nil => simp [getItems]
  | cons p l ih =>
    by_cases hk : p.1 = k
    · simp [getItems, hk]
    · simpa [getItems, hk] using ih

theorem length_touch {l : List (κ × ν)} (k : κ) : (touch k l).length ≤ l.length := by
  unfold touch
  cases hget : getItems k l with
  | none => exact le_refl _
  | some v =>
    have hfew : (l.filter fun p => p.1 ≠ k).length < l.length := by
      refine lt_of_le_of_ne (List.length_filter_le _ _) fun hall => ?_
      have hnone : getItems k l = none := by
        refine getItems_eq_none.2 fun p hp => ?_
        exact of_decide_eq_true (List.filter_eq_self.1 (List.filter_sublist.eq_of_length hall) p hp)
      rw [hnone] at hget
      cases hget
    exact hfew

theorem items_foldl_erase (l : List κ) (d : Dict κ ν) :
    (l.foldl (fun d k => d.erase k) d).items = d.items.filter fun p => p.1 ∉ l := by
  induction l generalizing d with
  | nil =>
    symm
    rw [List.foldl_nil, List.filter_eq_self]
    exact fun _ _ => decide_eq_true List.not_mem_nil
  | cons k l ih =>
    rw [List.foldl_cons, ih, items_erase, List.filter_filter]
    refine List.filter_congr fun p _ => ?_
    simp [Bool.and_comm]

/-! ### keys under another name -/

section
variable {κ' : Type*} [DecidableEq κ'] (f : κ → κ')

/-- the entries under the other names -/
def renamed (l : List (κ × ν)) : List (κ' × ν) := l.map fun p => (f p.1, p.2)

variable {f} {l : List (κ × ν)} {k : κ}

theorem getItems_renamed (h : ∀ p ∈ l, f p.1 = f k → p.1 = k) :
    getItems (f k) (renamed f l) = getItems k l := by
  induction l with
  | nil => rfl
  | cons p l ih =>
    have hrest := ih fun q hq => h q (List.mem_cons_of_mem _ hq)
    by_cases hk : p.1 = k
    · simp [renamed, getItems, hk]
    · have hf : f p.1 ≠ f k := fun he => hk (h p List.mem_cons_self he)
      simpa [renamed, getItems, hk, hf] using hrest

theorem filter_renamed (h : ∀ p ∈ l, f p.1 = f k → p.1 = k) :
    ((renamed f l).filter fun p => p.1 ≠ f k) = renamed f (l.filter fun p => p.1 ≠ k) := by
  unfold renamed
  rw [List.filter_map]
  refine congrArg _ (List.filter_congr fun p hp => ?_)
  refine decide_eq_decide.2 (not_congr ⟨h p hp, fun he => ?_⟩)
  exact congrArg f he

theorem touch_renamed (h : ∀ p ∈ l, f p.1 = f k → p.1 = k) :
    touch (f k) (renamed f l) = renamed f (touch k l) := by
  unfold touch
  rw [getItems_renamed h, filter_renamed h]
  rcases getItems k l with _ | v
  · rfl
  · rfl

end

/-! ### least recently used -/

section
variable {ω : Type*} (uses : ω → κ → Bool)

/-- how many operations there were up to the last one that names the key -/
def lastUse (ops : List ω) (k : κ) : Nat := ops.length - ops.reverse.findIdx fun op => uses op k

variable {uses}

theorem lastUse_concat (ops : List ω) (op : ω) (k : κ) : lastUse uses (ops ++ [op]) k =
    if uses op k then ops.length + 1 else lastUse uses ops k := by
  unfold lastUse
  rw [List.reverse_append, List.reverse_singleton, List.singleton_append, List.findIdx_cons,
    List.length_append, List.length_singleton]
  cases uses op k with
  | true => rfl
  | false => exact Nat.add_sub_add_right _ 1 _

theorem lastUse_le (ops : List ω) (k : κ) : lastUse uses ops k ≤ ops.length := Nat.sub_le _ _

/-- the entries stand in the order of their last use, the last used first -/
def ByUse (uses : ω → κ → Bool) (ops : List ω) (l : List (κ × ν)) : Prop :=
  l.Pairwise fun p q => lastUse uses ops q.1 < lastUse uses ops p.1

theorem ByUse.sublist {ops : List ω} {l l' : List (κ × ν)} (h : ByUse uses ops l)
    (hsub : l'.Sublist l) : ByUse uses ops l' := List.Pairwise.sublist hsub h

theorem ByUse.unused {ops : List ω} {op : ω} {l : List (κ × ν)} (h : ByUse uses ops l)
    (hn : ∀ p ∈ l, uses op p.1 = false) : ByUse uses (ops ++ [op]) l := by
  refine List.Pairwise.imp_of_mem (fun {p q} hp hq hlt => ?_) h
  rw [lastUse_concat, lastUse_concat, hn p hp, hn q hq]
  exact hlt

theorem ByUse.used {ops : List ω} {op : ω} {l : List (κ × ν)} {k : κ} (h : ByUse uses ops l)
    (hk : ∀ k', uses op k' = true ↔ k' = k) (v : ν) :
    ByUse uses (ops ++ [op]) ((k, v) :: l.filter fun p => p.1 ≠ k) := by
  have hother : ∀ p ∈ l.filter fun p => p.1 ≠ k, uses op p.1 = false := by
    intro p hp
    refine Bool.eq_false_iff.2 fun hu => ?_
    exact of_decide_eq_true (List.mem_filter.1 hp).2 ((hk p.1).1 hu)
  refine List.pairwise_cons.2 ⟨fun p hp => ?_, (h.sublist List.filter_sublist).unused hother⟩
  rw [lastUse_concat, lastUse_concat, (hk k).2 rfl, hother p hp]
  exact Nat.lt_succ_of_le (lastUse_le ops p.1)

/-- a key that is touched is used, and one that is not there is none of the keys -/
theorem ByUse.touch {ops : List ω} {op : ω} {l : List (κ × ν)} {k : κ} (h : ByUse uses ops l)
    (hk : ∀ k', uses op k' = true ↔ k' = k) : ByUse uses (ops ++ [op]) (touch k l) := by
  unfold Dict.touch
  cases hget : getItems k l with
  | some v => exact h.used hk v
  | none =>
    refine h.unused fun p hp => Bool.eq_false_iff.2 fun hu => ?_
    have hmiss := getItems_eq_none.1 hget p hp
    exact hmiss ((hk p.1).1 hu)

theorem ByUse.store {ops : List ω} {op : ω} {l : List (κ × ν)} {k : κ} (h : ByUse uses ops l)
    (hk : ∀ k', uses op k' = true ↔ k' = k) (capacity : Nat) (v : ν) :
    ByUse uses (ops ++ [op]) (store capacity k v l) :=
  (h.used hk v).sublist (List.take_sublist _ _)

/-- what is cut off was used less recently than what is left -/
theorem ByUse.cut {ops : List ω} {l : List (κ × ν)} (h : ByUse uses ops l) (capacity : Nat)
    {p q : κ × ν} (hp : p ∈ l.take capacity) (hq : q ∈ l.drop capacity) :
    lastUse uses ops q.1 < lastUse uses ops p.1 := by
  unfold ByUse at h
  rw [← List.take_append_drop capacity l] at h
  exact (List.pairwise_append.1 h).2.2 p hp q hq

end

end Py.Dict
