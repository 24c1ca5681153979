import Mathlib.Data.List.Forall2

/-!
# Computations that may fail

* `bind_ok`   a sequence succeeds iff both halves do;
* `mapM_ok`   a traversal succeeds iff every element does, with the results in order.
-/

namespace Py
universe u v
variable {α β : Type u} {ε : Type v}

theorem bind_ok {x : Except ε α} {f : α → Except ε β} {b : β} :
    (x >>= f) = .ok b ↔ ∃ a, x = .ok a ∧ f a = .ok b := by
  cases x with
  | error e => simp [bind, Except.bind]
  | ok a => simp [bind, Except.bind]

theorem mapM_ok {f : α → Except ε β} {l : List α} {r : List β} :
    l.mapM f = .ok r ↔ List.Forall₂ (fun a b => f a = .ok b) l r := by
  induction l generalizing r with
  | nil => cases r <;> simp [pure, Except.pure]
  | cons a l ih =>
    rw [List.mapM_cons, bind_ok, List.forall₂_cons_left_iff]
    constructor
    · rintro ⟨b, hb, h⟩
      obtain ⟨r', hr', h⟩ := bind_ok.1 h
      cases h
      exact ⟨b, r', hb, ih.1 hr', rfl⟩
    · rintro ⟨b, r', hb, hr', rfl⟩
      exact ⟨b, hb, bind_ok.2 ⟨r', ih.2 hr', rfl⟩⟩

theorem mapM_ok_mem {f : α → Except ε β} {l : List α} {r : List β}
    (h : l.mapM f = .ok r) {b : β} (hb : b ∈ r) : ∃ a ∈ l, f a = .ok b := by
  have h2 := mapM_ok.1 h
  clear h
  induction h2 with
  | nil => exact absurd hb (by simp)
  | cons hab _ ih =>
    rcases List.mem_cons.1 hb with rfl | hb
    · exact ⟨_, List.mem_cons_self, hab⟩
    · obtain ⟨a, ha, h⟩ := ih hb
      exact ⟨a, List.mem_cons_of_mem _ ha, h⟩

theorem mapM_ok_mem_left {f : α → Except ε β} {l : List α} {r : List β}
    (h : l.mapM f = .ok r) {a : α} (ha : a ∈ l) : ∃ b ∈ r, f a = .ok b := by
  have h2 := mapM_ok.1 h
  clear h
  induction h2 with
  | nil => exact absurd ha (by simp)
  | cons hab _ ih =>
    rcases List.mem_cons.1 ha with rfl | ha
    · exact ⟨_, List.mem_cons_self, hab⟩
    · obtain ⟨b, hb, h⟩ := ih ha
      exact ⟨b, List.mem_cons_of_mem _ hb, h⟩

theorem mapM_ok_map {f : α → Except ε β} {g : β → α} (hg : ∀ a b, f a = .ok b → g b = a)
    {l : List α} {r : List β} (h : l.mapM f = .ok r) : r.map g = l := by
  have h2 := mapM_ok.1 h
  clear h
  induction h2 with
  | nil => rfl
  | cons hab _ ih => rw [List.map_cons, hg _ _ hab, ih]

theorem mapM_ok_keys {κ : Type*} {f : α → Except ε β} {key : α → κ} {key' : β → κ}
    (hkey : ∀ a b, f a = .ok b → key' b = key a) {l : List α} {r : List β}
    (h : l.mapM f = .ok r) : r.map key' = l.map key := by
  have h2 := mapM_ok.1 h
  clear h
  induction h2 with
  | nil => rfl
  | cons hab _ ih => rw [List.map_cons, List.map_cons, hkey _ _ hab, ih]

theorem mapM_total {f : α → Except ε β} {l : List α} (h : ∀ a ∈ l, ∃ b, f a = .ok b) :
    ∃ r, l.mapM f = .ok r := by
  induction l with
  | nil => exact ⟨[], rfl⟩
  | cons a l ih =>
    rw [List.forall_mem_cons] at h
    obtain ⟨b, hb⟩ := h.1
    obtain ⟨r, hr⟩ := ih h.2
    exact ⟨b :: r, mapM_ok.2 (List.Forall₂.cons hb (mapM_ok.1 hr))⟩

theorem forM_ok {f : α → Except ε PUnit} {l : List α} (h : l.forM f = .ok ⟨⟩) {a : α}
    (ha : a ∈ l) : f a = .ok ⟨⟩ := by
  induction l with
  | nil => exact absurd ha (by simp)
  | cons b l ih =>
    change (f b >>= fun _ => l.forM f) = .ok ⟨⟩ at h
    obtain ⟨_, hb, h⟩ := bind_ok.1 h
    rcases List.mem_cons.1 ha with rfl | ha
    · exact hb
    · exact ih h ha

theorem forM_ok_iff {f : α → Except ε PUnit} {l : List α} :
    l.forM f = .ok ⟨⟩ ↔ ∀ a ∈ l, f a = .ok ⟨⟩ := by
  refine ⟨fun h a ha => forM_ok h ha, fun h => ?_⟩
  induction l with
  | nil => rfl
  | cons b l ih =>
    show (f b >>= fun _ => l.forM f) = .ok ⟨⟩
    rw [h b List.mem_cons_self]
    exact ih fun a ha => h a (List.mem_cons_of_mem b ha)

/-- what a computation raised -/
def raised? : Except ε α → Option ε
  | .error e => some e
  | .ok _ => none

theorem raised?_eq_some {x : Except ε α} {e : ε} : raised? x = some e ↔ x = .error e := by
  cases x with
  | error e' => simp [raised?]
  | ok a => simp [raised?]

theorem ok_of_toOption {x : Except ε α} {a : α} (h : x.toOption = some a) : x = .ok a := by
  cases x with
  | error e => cases h
  | ok a => exact congrArg Except.ok (Option.some.inj h)

theorem ok_of_map (x : Except ε α) (f : α → β) (b : β) (h : x.toOption.map f = some b) :
    ∃ a, x = .ok a ∧ f a = b := by
  cases x with
  | error e => cases h
  | ok a => exact ⟨a, rfl, Option.some.inj h⟩

end Py
