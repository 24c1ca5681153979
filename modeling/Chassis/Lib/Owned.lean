import Chassis.Lib.Dict

/-!
# Registrations owned by scopes

* `Owned β`          a registry: registrations by id, each made through a scope;
* `add`, `closeScope`   registering, and the withdrawal of all a scope registered;
* `discard`          the withdrawal of some registrations, whoever made them;
* `kept_add`, `kept_discard`, `kept_closeScope`   a selection of the registrations does not see what
                     happens to others.
-/

namespace Py

/-- a kind of registration: its id and the scope that owns it -/
class Registration (β : Type) where
  id : β → String
  scopeId : β → String

variable {β : Type} [Registration β]

/-- registrations by their id, in the order they were made -/
structure Owned (β : Type) [Registration β] where
  byId : Dict String β
  id_eq : ∀ p ∈ byId.items, Registration.id p.2 = p.1

namespace Owned

def empty : Owned β := ⟨Dict.empty, by simp [Dict.empty]⟩

instance : Inhabited (Owned β) := ⟨empty⟩

/-- the registrations, oldest first -/
def all (r : Owned β) : List β := r.byId.values

/-- `self._registrations[registration.registration_id] = registration` -/
def add (r : Owned β) (b : β) : Owned β :=
  ⟨r.byId.set (Registration.id b) b, fun p hp => by
    rcases Dict.mem_setItems hp with hp | rfl
    · exact r.id_eq p hp
    · rfl⟩

/-- closing the scope runs the withdrawal of each of its registrations -/
def closeScope (r : Owned β) (scopeId : String) : Owned β :=
  ⟨⟨r.byId.items.filter (fun p => Registration.scopeId p.2 ≠ scopeId),
      r.byId.nodup.sublist (List.filter_sublist.map _)⟩,
    fun p hp => r.id_eq p (List.mem_filter.1 hp).1⟩

theorem ext {r r' : Owned β} (h : r.byId.items = r'.byId.items) : r = r' := by
  obtain ⟨⟨items, nodup⟩, hid⟩ := r
  obtain ⟨⟨items', nodup'⟩, hid'⟩ := r'
  simp only at h
  subst h
  rfl

theorem all_closeScope (r : Owned β) (scopeId : String) :
    (r.closeScope scopeId).all = r.all.filter (fun b => Registration.scopeId b ≠ scopeId) := by
  simp only [all, Dict.values, closeScope, List.filter_map]
  rfl

/-- the registrations that `gone` holds of are withdrawn -/
def discard (r : Owned β) (gone : β → Bool) : Owned β :=
  ⟨⟨r.byId.items.filter (fun p => !gone p.2), r.byId.nodup.sublist (List.filter_sublist.map _)⟩,
    fun p hp => r.id_eq p (List.mem_filter.1 hp).1⟩

theorem all_discard (r : Owned β) (gone : β → Bool) :
    (r.discard gone).all = r.all.filter (fun b => !gone b) := by
  simp only [all, Dict.values, discard, List.filter_map]
  rfl

theorem items_add {r : Owned β} {b : β} (h : ∀ b' ∈ r.all, Registration.id b' ≠ Registration.id b) :
    (r.add b).byId.items = r.byId.items ++ [(Registration.id b, b)] := by
  refine Dict.setItems_new b fun hmem => ?_
  obtain ⟨p, hp, hk⟩ := List.mem_map.1 hmem
  exact h p.2 (List.mem_map_of_mem hp) ((r.id_eq p hp).trans hk)

theorem all_add {r : Owned β} {b : β} (h : ∀ b' ∈ r.all, Registration.id b' ≠ Registration.id b) :
    (r.add b).all = r.all ++ [b] := by
  simp only [all, Dict.values, items_add h, List.map_append, List.map_cons, List.map_nil]

/-! ### selections -/

variable {r : Owned β} {q : β → Bool}

theorem kept_add {b : β} (h : ∀ b' ∈ r.all, Registration.id b' ≠ Registration.id b)
    (hq : q b = false) : (r.add b).all.filter q = r.all.filter q := by
  rw [all_add h, List.filter_append, List.filter_cons_of_neg (by simp [hq]), List.filter_nil,
    List.append_nil]

theorem kept_discard {gone : β → Bool} (h : ∀ b ∈ r.all, gone b = true → q b = false) :
    (r.discard gone).all.filter q = r.all.filter q := by
  rw [all_discard, List.filter_filter]
  refine List.filter_congr fun b hb => ?_
  cases hgone : gone b with
  | false => rw [Bool.not_false, Bool.and_true]
  | true => rw [h b hb hgone, Bool.false_and]

theorem kept_closeScope {scopeId : String}
    (h : ∀ b ∈ r.all, Registration.scopeId b = scopeId → q b = false) :
    (r.closeScope scopeId).all.filter q = r.all.filter q := by
  rw [all_closeScope, List.filter_filter]
  refine List.filter_congr fun b hb => ?_
  by_cases hs : Registration.scopeId b = scopeId
  · rw [h b hb hs, Bool.false_and]
  · rw [decide_eq_true hs, Bool.and_true]

end Owned

end Py
