import Chassis.Lib.Fallible

/-!
# What escapes a reader

A reader that is to fail in one way only fails otherwise when an error it does not mean to raise
escapes it.

* `Escapes`         the error is none of those that are meant;
* `escapes_bind`, `escapes_mapM`   what escapes a sequence or a traversal escapes one of its steps,
                    and the steps before it succeed.
-/

namespace Py
universe u v
variable {α β : Type u} {ε : Type v} {meant : ε → Prop}

/-- it fails, and not as it is meant to -/
def Escapes (meant : ε → Prop) (x : Except ε α) : Prop := ∃ e, x = .error e ∧ ¬ meant e

theorem not_escapes {x : Except ε α} : ¬ Escapes meant x ↔ ∀ e, x = .error e → meant e := by
  constructor
  · intro h e he
    by_contra hmeant
    exact h ⟨e, he, hmeant⟩
  · rintro h ⟨e, he, hmeant⟩
    exact hmeant (h e he)

@[simp] theorem escapes_ok {a : α} : ¬ Escapes meant (.ok a : Except ε α) := fun ⟨_, h, _⟩ => nomatch h

@[simp] theorem escapes_error {e : ε} : Escapes meant (.error e : Except ε α) ↔ ¬ meant e := by
  constructor
  · rintro ⟨e', he, hmeant⟩
    cases he
    exact hmeant
  · exact fun hmeant => ⟨e, rfl, hmeant⟩

/-- **A sequence**: its first half escapes, or that succeeds and the second half does. -/
theorem escapes_bind {x : Except ε α} {f : α → Except ε β} :
    Escapes meant (x >>= f) ↔ Escapes meant x ∨ ∃ a, x = .ok a ∧ Escapes meant (f a) := by
  cases x with
  | error e =>
    rw [show ((.error e : Except ε α) >>= f) = .error e from rfl, escapes_error, escapes_error]
    exact ⟨Or.inl, fun h => h.resolve_right fun ⟨_, ha, _⟩ => nomatch ha⟩
  | ok a =>
    rw [show ((.ok a : Except ε α) >>= f) = f a from rfl]
    constructor
    · exact fun h => Or.inr ⟨a, rfl, h⟩
    · rintro (h | ⟨a', ha, h⟩)
      · exact absurd h escapes_ok
      · cases ha
        exact h

theorem escapes_bind_of {x : Except ε α} {f : α → Except ε β} (hx : ¬ Escapes meant x) :
    Escapes meant (x >>= f) ↔ ∃ a, x = .ok a ∧ Escapes meant (f a) := by
  rw [escapes_bind]
  exact ⟨fun h => h.resolve_left hx, Or.inr⟩

theorem not_escapes_bind {x : Except ε α} {f : α → Except ε β} (hx : ¬ Escapes meant x)
    (hf : ∀ a, ¬ Escapes meant (f a)) : ¬ Escapes meant (x >>= f) := by
  rw [escapes_bind_of hx]
  rintro ⟨a, -, h⟩
  exact hf a h

/-- **A traversal**: one element escapes, and all before it succeed. -/
theorem escapes_mapM {f : α → Except ε β} {l : List α} : Escapes meant (l.mapM f) ↔
    ∃ before a after, l = before ++ a :: after ∧ (∀ b ∈ before, ∃ r, f b = .ok r) ∧
      Escapes meant (f a) := by
  induction l with
  | nil =>
    refine iff_of_false escapes_ok ?_
    rintro ⟨before, a, after, h, -⟩
    exact absurd h (by simp)
  | cons x l ih =>
    rw [List.mapM_cons, escapes_bind]
    constructor
    · rintro (h | ⟨r, hr, h⟩)
      · exact ⟨[], x, l, rfl, fun b hb => (nomatch hb), h⟩
      · rw [escapes_bind] at h
        rcases h with h | ⟨rs, -, h⟩
        · obtain ⟨before, a, after, hl, hbefore, ha⟩ := ih.1 h
          refine ⟨x :: before, a, after, by rw [hl]; rfl, ?_, ha⟩
          intro b hb
          rcases List.mem_cons.1 hb with rfl | hb
          · exact ⟨r, hr⟩
          · exact hbefore b hb
        · exact absurd h escapes_ok
    · rintro ⟨before, a, after, hl, hbefore, ha⟩
      cases before with
      | nil =>
        cases hl
        exact Or.inl ha
      | cons b before =>
        cases hl
        obtain ⟨r, hr⟩ := hbefore x List.mem_cons_self
        refine Or.inr ⟨r, hr, escapes_bind.2 (Or.inl ?_)⟩
        exact ih.2 ⟨before, a, after, rfl, fun b' hb' => hbefore b' (List.mem_cons_of_mem _ hb'), ha⟩

theorem escapes_mapM_zipIdx {f : α → Nat → Except ε β} {P Q : α → Prop}
    (hok : ∀ a i, (∃ r, f a i = .ok r) ↔ P a) (hescapes : ∀ a i, Escapes meant (f a i) ↔ Q a)
    {l : List α} {start : Nat} : Escapes meant ((l.zipIdx start).mapM fun e => f e.1 e.2) ↔
      ∃ before a after, l = before ++ a :: after ∧ (∀ b ∈ before, P b) ∧ Q a := by
  rw [escapes_mapM]
  constructor
  · rintro ⟨before, a, after, hl, hbefore, ha⟩
    refine ⟨before.map Prod.fst, a.1, after.map Prod.fst, ?_, ?_, (hescapes _ _).1 ha⟩
    · rw [← List.map_cons, ← List.map_append, ← hl, List.zipIdx_map_fst]
    · intro b hb
      obtain ⟨e, he, rfl⟩ := List.mem_map.1 hb
      exact (hok _ _).1 (hbefore e he)
  · rintro ⟨before, a, after, rfl, hbefore, ha⟩
    refine ⟨before.zipIdx start, (a, start + before.length),
      after.zipIdx (start + before.length + 1), ?_, ?_, (hescapes _ _).2 ha⟩
    · rw [List.zipIdx_append, List.zipIdx_cons]
    · intro e he
      exact (hok _ _).2 (hbefore e.1 (List.fst_mem_of_mem_zipIdx he))

end Py
