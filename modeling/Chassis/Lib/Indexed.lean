import Chassis.Lib.Owned

/-!
# Registrations found by name

* `Indexed β`      a registry with a second index: of every name, the ids registered under it;
* `insert`, `release`, `unregister`, `newest`   registering, withdrawing by id and by name, and
                   looking up;
* `Consistent`     the index lists exactly the live registrations of every name, oldest first;
* `newest_eq`, `unregister_eq`   what looking up and withdrawing by name come to, then.
-/

namespace Py

/-- a kind of registration that has a name -/
class Named (β : Type) where
  name : β → String

variable {β : Type} [Registration β]

namespace Owned
variable {r : Owned β}

def pop (r : Owned β) (id : String) : Owned β := r.discard fun b => Registration.id b = id

theorem get?_eq_some {id : String} {b : β} :
    r.byId.get? id = some b ↔ b ∈ r.all ∧ Registration.id b = id := by
  constructor
  · intro h
    have hin := Dict.mem_items.2 h
    exact ⟨List.mem_map_of_mem hin, r.id_eq _ hin⟩
  · rintro ⟨hb, rfl⟩
    obtain ⟨⟨k, b'⟩, hp, rfl⟩ := List.mem_map.1 hb
    have hk : Registration.id b' = k := r.id_eq _ hp
    subst hk
    exact Dict.mem_items.1 hp

theorem ids_nodup (r : Owned β) : (r.all.map Registration.id).Nodup := by
  have hkeys : r.all.map Registration.id = r.byId.items.map Prod.fst := by
    rw [all, Dict.values, List.map_map]
    exact List.map_congr_left fun p hp => r.id_eq p hp
  rw [hkeys]
  exact r.byId.nodup

theorem mem_all_unique {b b' : β} (hb : b ∈ r.all) (hb' : b' ∈ r.all)
    (h : Registration.id b = Registration.id b') : b = b' :=
  List.inj_on_of_nodup_map r.ids_nodup hb hb' h

theorem mem_pop {id : String} {b : β} : b ∈ (r.pop id).all ↔ b ∈ r.all ∧ Registration.id b ≠ id := by
  rw [pop, all_discard, List.mem_filter, Bool.not_eq_true', decide_eq_false_iff_not]

theorem get?_of_subset {r' : Owned β} (h : ∀ b ∈ r'.all, b ∈ r.all) (id : String) :
    r'.byId.get? id = r.byId.get? id ∨ r'.byId.get? id = none := by
  rcases hget : r'.byId.get? id with _ | b
  · exact Or.inr rfl
  · obtain ⟨hb, hid⟩ := get?_eq_some.1 hget
    exact Or.inl (get?_eq_some.2 ⟨h b hb, hid⟩).symm

theorem mem_of_discard {gone : β → Bool} {b : β} (h : b ∈ (r.discard gone).all) : b ∈ r.all := by
  rw [all_discard] at h
  exact (List.mem_filter.1 h).1

theorem get?_pop (id id' : String) :
    (r.pop id).byId.get? id' = if id' = id then none else r.byId.get? id' := by
  refine Option.ext fun b => ?_
  rw [get?_eq_some, mem_pop]
  split
  · rename_i hid
    refine iff_of_false ?_ (fun h => by cases h)
    rintro ⟨⟨-, hne⟩, heq⟩
    exact hne (heq.trans hid)
  · rename_i hid
    rw [get?_eq_some]
    constructor
    · rintro ⟨⟨hb, -⟩, heq⟩
      exact ⟨hb, heq⟩
    · rintro ⟨hb, heq⟩
      exact ⟨⟨hb, fun h => hid (heq.symm.trans h)⟩, heq⟩

theorem get?_add (b : β) (id : String) :
    (r.add b).byId.get? id = if id = Registration.id b then some b else r.byId.get? id :=
  Dict.get?_set _ _ _ _

theorem pop_missing {id : String} (h : r.byId.get? id = none) : r.pop id = r := by
  refine ext ?_
  refine List.filter_eq_self.2 fun p hp => ?_
  rw [Bool.not_eq_true', decide_eq_false_iff_not]
  intro hid
  rw [get?_eq_some.2 ⟨List.mem_map_of_mem hp, hid⟩] at h
  cases h

end Owned

variable [Named β]

/-- a registry and its index of names -/
structure Indexed (β : Type) [Registration β] where
  store : Owned β := Owned.empty
  /-- the ids of a name, oldest first -/
  names : Dict String (List String) := Dict.empty

namespace Indexed
variable (r : Indexed β)

def ids (name : String) : List String := (r.names.get? name).getD []

/-- the registration is stored, and its id comes last among those of its name -/
def insert (b : β) : Indexed β :=
  ⟨r.store.add b, r.names.set (Named.name b) (r.ids (Named.name b) ++ [Registration.id b])⟩

/-- `_release`: whether there was such a registration, and the registry after it -/
def release (id : String) : Bool × Indexed β :=
  match r.store.byId.get? id with
  | none => (false, r)
  | some b =>
    let left := (r.ids (Named.name b)).erase id
    (true, ⟨r.store.pop id,
      if left = [] then r.names.erase (Named.name b) else r.names.set (Named.name b) left⟩)

def newest (name : String) : Except String (Option β) :=
  match (r.ids name).getLast? with
  | none => .ok none
  | some id =>
    match r.store.byId.get? id with
    | some b => .ok (some b)
    | none => .error id

def releaseOwned (owns : β → Bool) : List String → Indexed β → Except String Bool × Indexed β
  | [], r => (.ok false, r)
  | id :: ids, r =>
    match r.store.byId.get? id with
    | none => (.error id, r)
    | some b =>
      if owns b then
        match releaseOwned owns ids (r.release id).2 with
        | (.ok later, r') => (.ok ((r.release id).1 || later), r')
        | (.error e, r') => (.error e, r')
      else releaseOwned owns ids r

/-- `unregister`: with an owner, all its registrations of the name; without one, the newest -/
def unregister (name : String) (owns : Option (β → Bool)) : Except String Bool × Indexed β :=
  match owns with
  | none =>
    match (r.ids name).getLast? with
    | none => (.ok false, r)
    | some id => (.ok (r.release id).1, (r.release id).2)
  | some owns => releaseOwned owns (r.ids name) r

/-- the live registrations of a name, oldest first -/
def named (name : String) : List β := r.store.all.filter fun b => Named.name b = name

/-- the index lists exactly the live registrations of every name, oldest first -/
def Consistent : Prop :=
  ∀ name, r.names.get? name =
    if r.named name = [] then none else some ((r.named name).map Registration.id)

variable {r}

theorem mem_named {name : String} {b : β} :
    b ∈ r.named name ↔ b ∈ r.store.all ∧ Named.name b = name := by
  rw [named, List.mem_filter, decide_eq_true_iff]

theorem named_nodup (r : Indexed β) (name : String) :
    ((r.named name).map Registration.id).Nodup :=
  r.store.ids_nodup.sublist (List.filter_sublist.map _)

theorem consistent_empty : (⟨Owned.empty, Dict.empty⟩ : Indexed β).Consistent := fun _ => rfl

namespace Consistent
variable (hc : r.Consistent)
include hc

theorem ids_eq (name : String) : r.ids name = (r.named name).map Registration.id := by
  rw [ids, hc name]
  split
  · rename_i hnil
    rw [hnil]
    rfl
  · rfl

/-- a name is listed iff there is a live registration of it -/
theorem listed_iff {name : String} : name ∈ r.names.keys ↔ ∃ b, b ∈ r.named name := by
  rw [Dict.mem_keys, hc name]
  split
  · rename_i hnil
    rw [hnil]
    exact iff_of_false (fun ⟨_, h⟩ => nomatch h) fun ⟨_, h⟩ => nomatch h
  · rename_i hne
    exact iff_of_true ⟨_, rfl⟩ (List.exists_mem_of_ne_nil _ hne)

theorem insert {b : β} (h : ∀ b' ∈ r.store.all, Registration.id b' ≠ Registration.id b) :
    (r.insert b).Consistent := by
  intro name
  have hall : (r.insert b).store.all = r.store.all ++ [b] := Owned.all_add h
  have hnamed : (r.insert b).named name =
      if Named.name b = name then r.named name ++ [b] else r.named name := by
    rw [named, hall, List.filter_append]
    split
    · rename_i hname
      rw [List.filter_singleton, decide_eq_true hname]
      rfl
    · rename_i hname
      rw [List.filter_singleton, decide_eq_false hname, cond_false, List.append_nil]
      rfl
  have hget : (r.insert b).names.get? name = if name = Named.name b then
      some (r.ids (Named.name b) ++ [Registration.id b]) else r.names.get? name :=
    Dict.get?_set _ _ _ _
  rw [hget, hnamed]
  by_cases hname : Named.name b = name
  · subst hname
    rw [if_pos rfl, if_pos rfl, if_neg (by simp), hc.ids_eq, List.map_append]
    rfl
  · rw [if_neg (Ne.symm hname), if_neg hname]
    exact hc name

theorem release_store (id : String) : (r.release id).2.store = r.store.pop id ∧
    ((r.release id).1 = true ↔ ∃ b ∈ r.store.all, Registration.id b = id) := by
  unfold release
  rcases hget : r.store.byId.get? id with _ | b
  · refine ⟨(Owned.pop_missing hget).symm, iff_of_false Bool.false_ne_true ?_⟩
    rintro ⟨b, hb⟩
    rw [Owned.get?_eq_some.2 hb] at hget
    cases hget
  · exact ⟨rfl, iff_of_true rfl ⟨b, Owned.get?_eq_some.1 hget⟩⟩

theorem release (id : String) : (r.release id).2.Consistent := by
  unfold Indexed.release
  rcases hget : r.store.byId.get? id with _ | b
  · exact hc
  · obtain ⟨hb, rfl⟩ := Owned.get?_eq_some.1 hget
    intro name
    have hnamed : ((r.store.pop (Registration.id b)).all.filter fun b' => Named.name b' = name) =
        (r.named name).filter fun b' => Registration.id b' ≠ Registration.id b := by
      rw [Owned.pop, Owned.all_discard, named, List.filter_filter, List.filter_filter]
      refine List.filter_congr fun b' _ => ?_
      rw [Bool.and_comm, decide_not]
    have hleft : (r.ids (Named.name b)).erase (Registration.id b) =
        ((r.named (Named.name b)).filter fun b' => Registration.id b' ≠ Registration.id b).map
          Registration.id := by
      rw [hc.ids_eq, (r.named_nodup _).erase_eq_filter, List.filter_map]
      refine congrArg _ (List.filter_congr fun b' _ => ?_)
      rw [Function.comp_apply, Bool.eq_iff_iff, bne_iff_ne, decide_eq_true_iff]
    show (if _ = [] then r.names.erase (Named.name b) else r.names.set (Named.name b) _).get? name =
      if ((r.store.pop (Registration.id b)).all.filter fun b' => Named.name b' = name) = [] then none
      else some (((r.store.pop (Registration.id b)).all.filter fun b' => Named.name b' = name).map
        Registration.id)
    rw [hnamed]
    by_cases hname : name = Named.name b
    · subst hname
      rw [hleft]
      by_cases hnil : ((r.named (Named.name b)).filter
          fun b' => Registration.id b' ≠ Registration.id b) = []
      · rw [if_pos (by rw [hnil]; rfl), if_pos hnil, Dict.get?_erase_self]
      · rw [if_neg (fun h => hnil (List.map_eq_nil_iff.1 h)), if_neg hnil, Dict.get?_set_self]
    · have hsame : ((r.named name).filter fun b' => Registration.id b' ≠ Registration.id b) =
          r.named name := by
        refine List.filter_eq_self.2 fun b' hb' => decide_eq_true fun hid => ?_
        obtain ⟨hin, hn⟩ := mem_named.1 hb'
        rw [Owned.mem_all_unique hin hb hid] at hn
        exact hname hn.symm
      rw [hsame, ← hc name]
      split
      · rw [Dict.get?_erase_ne _ hname]
      · rw [Dict.get?_set_ne _ _ hname]

/-- **Looking up a name** never fails, and gives the newest live registration. -/
theorem newest_eq (name : String) : r.newest name = .ok (r.named name).getLast? := by
  unfold newest
  rw [hc.ids_eq, List.getLast?_map]
  rcases hlast : (r.named name).getLast? with _ | b
  · rfl
  · have hb := mem_named.1 (List.mem_of_getLast? hlast)
    simp only [Option.map_some]
    rw [Owned.get?_eq_some.2 ⟨hb.1, rfl⟩]

theorem releaseOwned_eq (owns : β → Bool) {ids : List String} (hn : ids.Nodup)
    (hlive : ∀ id ∈ ids, ∃ b ∈ r.store.all, Registration.id b = id) :
    ∃ removed r', releaseOwned owns ids r = (.ok removed, r') ∧ r'.Consistent ∧
      r'.store = r.store.discard (fun b => decide (Registration.id b ∈ ids) && owns b) ∧
      (removed = true ↔ ∃ b ∈ r.store.all, Registration.id b ∈ ids ∧ owns b = true) := by
  induction ids generalizing r with
  | nil =>
    refine ⟨false, r, rfl, hc, ?_, iff_of_false Bool.false_ne_true ?_⟩
    · refine Owned.ext (Eq.symm (List.filter_eq_self.2 fun p _ => ?_))
      simp
    · rintro ⟨b, -, hin, -⟩
      cases hin
  | cons id ids ih =>
    obtain ⟨hout, hn⟩ := List.nodup_cons.1 hn
    obtain ⟨b, hb, hid⟩ := hlive id List.mem_cons_self
    have hget : r.store.byId.get? id = some b := Owned.get?_eq_some.2 ⟨hb, hid⟩
    have honly : ∀ b' ∈ r.store.all, Registration.id b' = id → b' = b := fun b' hb' h =>
      Owned.mem_all_unique hb' hb (h.trans hid.symm)
    unfold releaseOwned
    rw [hget]
    simp only
    by_cases howns : owns b = true
    · rw [if_pos howns]
      obtain ⟨hstore, hfirst⟩ := hc.release_store id
      have hremoved : (r.release id).1 = true := hfirst.2 ⟨b, hb, hid⟩
      obtain ⟨removed, r', heq, hc', hstore', -⟩ := ih (hc.release id) hn fun i hi => by
        obtain ⟨b', hb', hid'⟩ := hlive i (List.mem_cons_of_mem _ hi)
        refine ⟨b', ?_, hid'⟩
        rw [hstore, Owned.mem_pop]
        refine ⟨hb', fun h => ?_⟩
        rw [hid'] at h
        exact hout (h ▸ hi)
      rw [heq]
      simp only [hremoved, Bool.true_or]
      refine ⟨true, r', rfl, hc', ?_, iff_of_true rfl ⟨b, hb, hid ▸ List.mem_cons_self, howns⟩⟩
      rw [hstore', hstore]
      refine Owned.ext ?_
      show (r.store.byId.items.filter _).filter _ = r.store.byId.items.filter _
      rw [List.filter_filter]
      refine List.filter_congr fun p hp => ?_
      by_cases hpid : Registration.id p.2 = id
      · rw [honly p.2 (List.mem_map_of_mem hp) hpid]
        simp [hid, howns]
      · simp [hpid]
    · rw [if_neg howns]
      obtain ⟨removed, r', heq, hc', hstore', hremoved⟩ := ih hc hn fun i hi =>
        hlive i (List.mem_cons_of_mem _ hi)
      refine ⟨removed, r', heq, hc', ?_, hremoved.trans ?_⟩
      · rw [hstore']
        refine Owned.ext (List.filter_congr fun p hp => ?_)
        by_cases hpid : Registration.id p.2 = id
        · rw [honly p.2 (List.mem_map_of_mem hp) hpid]
          simp [howns]
        · simp [hpid]
      · refine exists_congr fun b' => and_congr_right fun hb' => ?_
        constructor
        · exact fun h => ⟨List.mem_cons_of_mem _ h.1, h.2⟩
        · rintro ⟨hin, howns'⟩
          rcases List.mem_cons.1 hin with heq | hin
          · rw [honly b' hb' heq] at howns'
            exact absurd howns' howns
          · exact ⟨hin, howns'⟩

/-- **Withdrawing by name** never fails, and withdraws what it says. -/
theorem unregister_eq (name : String) (owns : Option (β → Bool)) :
    ∃ removed r', r.unregister name owns = (.ok removed, r') ∧ r'.Consistent ∧
      r'.store = match owns with
        | none =>
          match (r.named name).getLast? with
          | none => r.store
          | some newest => r.store.pop (Registration.id newest)
        | some owns => r.store.discard fun b => decide (Named.name b = name) && owns b := by
  cases owns with
  | none =>
    unfold unregister
    rw [hc.ids_eq, List.getLast?_map]
    rcases (r.named name).getLast? with _ | b
    · exact ⟨_, _, rfl, hc, rfl⟩
    · exact ⟨_, _, rfl, hc.release _, (hc.release_store _).1⟩
  | some owns =>
    have hids := hc.ids_eq name
    obtain ⟨removed, r', heq, hc', hstore, -⟩ := hc.releaseOwned_eq owns
      (hids ▸ r.named_nodup name) fun id hid => by
        rw [hids] at hid
        obtain ⟨b, hb, rfl⟩ := List.mem_map.1 hid
        exact ⟨b, (mem_named.1 hb).1, rfl⟩
    refine ⟨removed, r', heq, hc', hstore.trans (Owned.ext (List.filter_congr fun p hp => ?_))⟩
    have hin : p.2 ∈ r.store.all := List.mem_map_of_mem hp
    have hiff : Registration.id p.2 ∈ r.ids name ↔ Named.name p.2 = name := by
      rw [hids, List.mem_map]
      constructor
      · rintro ⟨b, hb, hid⟩
        obtain ⟨hb, hname⟩ := mem_named.1 hb
        rw [Owned.mem_all_unique hin hb hid.symm]
        exact hname
      · exact fun hname => ⟨p.2, mem_named.2 ⟨hin, hname⟩, rfl⟩
    show (!(decide (Registration.id p.2 ∈ r.ids name) && owns p.2)) =
      !(decide (Named.name p.2 = name) && owns p.2)
    rw [decide_eq_decide.2 hiff]

theorem unregister_subset (name : String) (owns : Option (β → Bool)) :
    ∃ removed r', r.unregister name owns = (.ok removed, r') ∧ r'.Consistent ∧
      ∀ b ∈ r'.store.all, b ∈ r.store.all := by
  obtain ⟨removed, r', heq, hc', hstore⟩ := hc.unregister_eq name owns
  refine ⟨removed, r', heq, hc', fun b hb => ?_⟩
  rw [hstore] at hb
  split at hb
  · split at hb
    · exact hb
    · exact (Owned.mem_pop.1 hb).1
  · exact Owned.mem_of_discard hb

/-- **A listed name** is found. -/
theorem newest_listed {name : String} (h : name ∈ r.names.keys) : ∃ b, r.newest name = .ok (some b) := by
  obtain ⟨b, hb⟩ := hc.listed_iff.1 h
  obtain ⟨newest, hlast⟩ := Option.isSome_iff_exists.1
    (List.getLast?_isSome.2 (List.ne_nil_of_mem hb))
  exact ⟨newest, by rw [hc.newest_eq, hlast]⟩

end Consistent

end Indexed

end Py
