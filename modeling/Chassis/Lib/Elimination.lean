import Mathlib.Data.List.Basic
import Mathlib.Order.Basic

/-!
# Iterated elimination

`eliminate ok n E` starts from the candidates `E` and drops, pass after pass, every candidate
that `ok` rejects against the candidates of the pass, until a pass drops nothing.  The test is
NOT assumed monotone: a candidate may be rejected by an early pass and be acceptable against
the survivors.

* `passes ok k E`      the candidates left after `k` passes;
* `eliminate_eq`       the result is one of the `passes`, and later passes change nothing;
* `eliminate_ok`       every survivor is accepted against the survivors.
-/

namespace Elimination
variable {α : Type*}

/-- one pass: keep what the test accepts against the whole of `E` -/
def pass (ok : List α → α → Bool) (E : List α) : List α := E.filter (ok E)

/-- what is left after `k` passes -/
def passes (ok : List α → α → Bool) : Nat → List α → List α
  | 0, E => E
  | k + 1, E => passes ok k (pass ok E)

/-- passes until one of them changes nothing (at most `n` of them) -/
def eliminate (ok : List α → α → Bool) : Nat → List α → List α
  | 0, E => E
  | n + 1, E => if E.all (ok E) then E else eliminate ok n (pass ok E)

variable {ok : List α → α → Bool}

theorem pass_sublist (E : List α) : (pass ok E).Sublist E := List.filter_sublist

theorem mem_pass {E : List α} {a : α} : a ∈ pass ok E ↔ a ∈ E ∧ ok E a = true := List.mem_filter

theorem pass_eq_self {E : List α} (h : E.all (ok E) = true) : pass ok E = E :=
  List.filter_eq_self.2 (List.all_eq_true.1 h)

theorem length_pass_lt {E : List α} (h : E.all (ok E) ≠ true) :
    (pass ok E).length < E.length := by
  rw [Ne, List.all_eq_true] at h
  push Not at h
  obtain ⟨a, ha, hno⟩ := h
  have hle := (@pass_sublist _ ok E).length_le
  rcases Nat.lt_or_ge (pass ok E).length E.length with hlt | hge
  · exact hlt
  · have heq : pass ok E = E := (pass_sublist E).eq_of_length (Nat.le_antisymm hle hge)
    have hmem : a ∈ pass ok E := by rw [heq]; exact ha
    exact absurd (mem_pass.1 hmem).2 hno

theorem passes_sublist (k : Nat) (E : List α) : (passes ok k E).Sublist E := by
  induction k generalizing E with
  | zero => exact List.Sublist.refl E
  | succ k ih => exact (ih (pass ok E)).trans (pass_sublist E)

theorem passes_succ (k : Nat) (E : List α) : passes ok (k + 1) E = pass ok (passes ok k E) := by
  induction k generalizing E with
  | zero => rfl
  | succ k ih =>
    show passes ok (k + 1) (pass ok E) = _
    rw [ih]
    rfl

theorem passes_antitone {j k : Nat} (h : j ≤ k) (E : List α) :
    (passes ok k E).Sublist (passes ok j E) := by
  induction k with
  | zero =>
    obtain rfl : j = 0 := by omega
    exact List.Sublist.refl _
  | succ k ih =>
    rcases Nat.lt_or_ge k j with hkj | hjk
    · obtain rfl : j = k + 1 := by omega
      exact List.Sublist.refl _
    · rw [passes_succ]
      exact (pass_sublist _).trans (ih hjk)

theorem eliminate_eq (n : Nat) (E : List α) : ∃ k, eliminate ok n E = passes ok k E := by
  induction n generalizing E with
  | zero => exact ⟨0, rfl⟩
  | succ n ih =>
    by_cases h : E.all (ok E) = true
    · exact ⟨0, by simp only [eliminate, h, if_true, passes]⟩
    · obtain ⟨k, hk⟩ := ih (pass ok E)
      exact ⟨k + 1, by simp [eliminate, h, hk, passes]⟩

theorem eliminate_sublist (n : Nat) (E : List α) : (eliminate ok n E).Sublist E := by
  obtain ⟨k, hk⟩ := @eliminate_eq _ ok n E
  rw [hk]
  exact passes_sublist k E

/-- **Every survivor is accepted against the survivors**, once the passes are as many as the
candidates. -/
theorem eliminate_ok {n : Nat} {E : List α} (hn : E.length ≤ n) :
    ∀ a ∈ eliminate ok n E, ok (eliminate ok n E) a = true := by
  induction n generalizing E with
  | zero =>
    intro a ha
    have hE : E = [] := List.length_eq_zero_iff.1 (by omega)
    subst hE
    exact absurd ha (by simp [eliminate])
  | succ n ih =>
    by_cases h : E.all (ok E) = true
    · intro a ha
      simp only [eliminate, h, if_true] at ha ⊢
      exact List.all_eq_true.1 h a ha
    · have hlen := length_pass_lt h
      simp only [eliminate, h]
      exact ih (by omega)

theorem eliminate_fixed {n : Nat} {E : List α} (hn : E.length ≤ n) (k : Nat) :
    passes ok k (eliminate ok n E) = eliminate ok n E := by
  have hall : (eliminate ok n E).all (ok (eliminate ok n E)) = true :=
    List.all_eq_true.2 (eliminate_ok hn)
  induction k with
  | zero => rfl
  | succ k ih =>
    show passes ok k (pass ok (eliminate ok n E)) = _
    rw [pass_eq_self hall, ih]

/-- the survivors are among the candidates of every pass -/
theorem eliminate_sublist_passes {n : Nat} {E : List α} (hn : E.length ≤ n) (j : Nat) :
    (eliminate ok n E).Sublist (passes ok j E) := by
  obtain ⟨k, hk⟩ := @eliminate_eq _ ok n E
  rcases Nat.le_total j k with hjk | hkj
  · rw [hk]
    exact passes_antitone hjk E
  · have hstay : passes ok j E = eliminate ok n E := by
      obtain ⟨i, rfl⟩ := Nat.exists_eq_add_of_le hkj
      have hsplit : passes ok (k + i) E = passes ok i (passes ok k E) := by
        clear hk hkj
        induction k generalizing E with
        | zero => rw [Nat.zero_add]; rfl
        | succ k ih =>
          have : k + 1 + i = k + i + 1 := by omega
          rw [this]
          exact ih (E := pass ok E) (Nat.le_trans (pass_sublist E).length_le hn)
      rw [hsplit, ← hk, eliminate_fixed hn]
    rw [hstay]

end Elimination
