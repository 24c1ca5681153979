import Chassis.Budget.Governor

/-!
# The charge for a tool call

`_charge` consumes one tool call, and then checks the wall clock for the default amount of a
check: one second.

* `remaining_lt_iff`, `remainingSeconds_eq_zero_iff`   what is left, governor by governor;
* `chargeTool_cases`         what a charge comes to, and when it is refused;
* `charge_exact_iff`         when that is as it should be.
-/

namespace Chassis
open Py

/-! ## what is left -/

/-- less than `c` is left of a limit of `g` -/
def Governor.Short (g : Governor) (now : ℚ) (d : BudgetDimension) (c : ℚ) : Prop :=
  ∃ limit, g.limits.limitFor d = some limit ∧ limit < g.usage.consumed now d + c

theorem remainingIn_lt_iff {now : ℚ} {d : BudgetDimension} {c : ℚ} (hc : 0 < c)
    (l : List Governor) :
    (∃ r, remainingIn now d l = some r ∧ r < c) ↔ ∃ g ∈ l, g.Short now d c := by
  induction l with
  | nil => simp [remainingIn]
  | cons g l ih =>
    rw [List.exists_mem_cons_iff, ← ih]
    unfold Governor.Short
    have hself : ∀ x limit : ℚ, max 0 (limit - x) < c ↔ limit < x + c := by
      intro x limit
      rw [max_lt_iff, sub_lt_iff_lt_add']
      exact ⟨fun h => h.2, fun h => ⟨hc, h⟩⟩
    cases hl : g.limits.limitFor d with
    | none =>
      cases hr : remainingIn now d l with
      | none => simp [remainingIn, hl, hr]
      | some r => simp [remainingIn, hl, hr, hc]
    | some limit =>
      cases hr : remainingIn now d l with
      | none => simp [remainingIn, hl, hr, hself]
      | some r =>
        have hmin : max 0 (min (limit - g.usage.consumed now d) r) < c ↔
            limit < g.usage.consumed now d + c ∨ r < c := by
          rw [max_lt_iff, min_lt_iff, sub_lt_iff_lt_add']
          exact ⟨fun h => h.2, fun h => ⟨hc, h⟩⟩
        simp [remainingIn, hl, hr, List.min?_cons, hmin]

theorem remainingSecondsIn_nonneg {now : ℚ} {l : List Governor} {r : ℚ}
    (h : remainingSecondsIn now l = some r) : 0 ≤ r := by
  induction l generalizing r with
  | nil => cases h
  | cons g l ih =>
    unfold remainingSecondsIn at h
    split at h
    · exact ih h
    · simp only at h
      split at h
      · cases h
        exact le_max_left ..
      · rename_i hr
        cases h
        exact le_min (le_max_left ..) (ih hr)

theorem remainingSecondsIn_eq_zero_iff (now : ℚ) (l : List Governor) :
    remainingSecondsIn now l = some 0 ↔ ∃ g ∈ l, ∃ t, g.deadline = some t ∧ t ≤ now := by
  induction l with
  | nil => simp [remainingSecondsIn]
  | cons g l ih =>
    rw [List.exists_mem_cons_iff, ← ih]
    cases hd : g.deadline with
    | none => simp [remainingSecondsIn, hd]
    | some t =>
      have hown : max 0 (t - now) = 0 ↔ t ≤ now := by
        rw [max_eq_left_iff]
        exact sub_nonpos
      cases hr : remainingSecondsIn now l with
      | none => simp [remainingSecondsIn, hd, hr, hown]
      | some r =>
        have h0 := remainingSecondsIn_nonneg hr
        have hmin : min (max 0 (t - now)) r = 0 ↔ t ≤ now ∨ r = 0 := by
          rw [← hown]
          constructor
          · intro h
            rcases min_choice (max 0 (t - now)) r with h' | h'
            · exact Or.inl (h'.symm.trans h)
            · exact Or.inr (h'.symm.trans h)
          · rintro (h | h)
            · rw [h]
              exact min_eq_left h0
            · rw [h]
              exact min_eq_right (le_max_left ..)
        simp [remainingSecondsIn, hd, hr, hmin]

namespace Governors

theorem found_of_mem_chain {b : Governors} {i j : Nat} (hi : i < b.governors.length)
    (h : j ∈ b.chain i) : ∃ g, b.governors[j]? = some g := by
  have hj : j < b.governors.length :=
    lt_of_le_of_lt (le_of_mem_lineage b.parentOf_earlier h) hi
  exact ⟨_, List.getElem?_eq_getElem hj⟩

theorem mem_line {b : Governors} {i : Nat} {g : Governor} :
    g ∈ b.line i ↔ ∃ j ∈ b.chain i, b.governors[j]? = some g := List.mem_filterMap

theorem remaining_lt_iff {b : Governors} {now c : ℚ} {i : Nat} {d : BudgetDimension}
    (hc : 0 < c) : (∃ r, b.remaining now i d = some r ∧ r < c) ↔
      ∃ g ∈ b.line i, g.Short now d c := remainingIn_lt_iff hc _

theorem remainingSeconds_eq_zero_iff {b : Governors} {now : ℚ} {i : Nat} :
    b.remainingSeconds now i = some 0 ↔ ∃ g ∈ b.line i, ∃ t, g.deadline = some t ∧ t ≤ now :=
  remainingSecondsIn_eq_zero_iff now _

theorem check_one {b : Governors} {i : Nat} (hi : i < b.governors.length) (now : ℚ)
    (d : BudgetDimension) :
    b.check now i d (.float 1) = .ok () ↔ ¬ ∃ g ∈ b.line i, g.Short now d 1 := by
  have hvalid : validateAmount d (.float 1) = .ok () := by cases d <;> decide
  have hone : (Amount.float 1).toRat = 1 := rfl
  rw [check_ok]
  constructor
  · intro h hshort
    obtain ⟨g, hg, limit, hl, hlt⟩ := hshort
    obtain ⟨j, hj, hg⟩ := mem_line.1 hg
    obtain ⟨g', hg', hc⟩ := h j hj
    cases hg.symm.trans hg'
    have hle := (Governor.check_ok.1 hc).2 limit hl
    rw [hone] at hle
    exact absurd hlt (not_lt.2 hle)
  · intro h j hj
    obtain ⟨g, hg⟩ := found_of_mem_chain hi hj
    refine ⟨g, hg, Governor.check_ok.2 ⟨hvalid, fun limit hl => ?_⟩⟩
    rw [hone]
    by_contra hlt
    exact h ⟨g, mem_line.2 ⟨j, hj, hg⟩, limit, hl, not_le.1 hlt⟩

/-! ## the charge -/

/-- `ToolExecutor._charge` -/
def chargeTool (b : Governors) (now : ℚ) (budget : Option Nat) : Except Err Unit × Governors :=
  match budget with
  | none => (.ok (), b)
  | some i =>
    match b.consume now i .toolCalls with
    | (.error e, b) => (.error e, b)
    | (.ok _, b) => (b.check now i .wallClockSeconds (.float 1), b)

/-- the charge is refused -/
def Refused (b : Governors) (now : ℚ) (i : Nat) : Prop :=
  ∃ e, (b.chargeTool now (some i)).1 = .error e

theorem Bore.short_wall {b b' : Governors} {i : Nat} {v : BudgetDimension → ℚ}
    (h : Bore b b' i v) (now c : ℚ) :
    (∃ g ∈ b'.line i, g.Short now .wallClockSeconds c) ↔
      ∃ g ∈ b.line i, g.Short now .wallClockSeconds c := by
  have hsame : ∀ g g' : Governor, g'.limits = g.limits →
      g'.usage.startedAt = g.usage.startedAt →
      (g'.Short now .wallClockSeconds c ↔ g.Short now .wallClockSeconds c) := by
    intro g g' hl hs
    unfold Governor.Short BudgetUsage.consumed
    rw [hl, hs]
  constructor
  · rintro ⟨g', hg', hshort⟩
    obtain ⟨j, hj, hg'⟩ := mem_line.1 hg'
    obtain ⟨g, hg, hl, _, hs, _⟩ := h.usage j g' hg'
    rw [h.chain] at hj
    exact ⟨g, mem_line.2 ⟨j, hj, hg⟩, (hsame g g' hl hs).1 hshort⟩
  · rintro ⟨g, hg, hshort⟩
    obtain ⟨j, hj, hg⟩ := mem_line.1 hg
    have hlt : j < b'.governors.length := by
      rw [h.length]
      exact (List.getElem?_eq_some_iff.1 hg).1
    have hg' := List.getElem?_eq_getElem hlt
    obtain ⟨g₀, hg₀, hl, _, hs, _⟩ := h.usage j _ hg'
    cases hg.symm.trans hg₀
    rw [← h.chain] at hj
    exact ⟨_, mem_line.2 ⟨j, hj, hg'⟩, (hsame g _ hl hs).2 hshort⟩

/-- What a charge comes to.  A call that nobody can afford is refused before anything is charged;
one that everybody can afford is charged, and refused afterwards if somebody has less than a second
left. -/
theorem chargeTool_cases {b : Governors} {i : Nat} (hi : i < b.governors.length) (now : ℚ) :
    ((∃ g ∈ b.line i, g.Short now .toolCalls 1) ∧
      ∃ e, b.chargeTool now (some i) = (.error e, b)) ∨
    ((¬ ∃ g ∈ b.line i, g.Short now .toolCalls 1) ∧
      ∃ b', Bore b b' i (only .toolCalls 1) ∧ (b.chargeTool now (some i)).2 = b' ∧
        (Refused b now i ↔ ∃ g ∈ b.line i, g.Short now .wallClockSeconds 1)) := by
  have hcheck := check_one hi now .toolCalls
  cases hc : b.check now i .toolCalls (.float 1) with
  | error e =>
    left
    have hshort : ∃ g ∈ b.line i, g.Short now .toolCalls 1 := by
      by_contra hno
      have hok := hcheck.2 hno
      rw [hc] at hok
      cases hok
    refine ⟨hshort, e, ?_⟩
    simp only [chargeTool, consume, hc]
  | ok u =>
    right
    refine ⟨hcheck.1 hc, b.bear i .toolCalls 1, ?_, ?_, ?_⟩
    · exact bear_bore b i .toolCalls fun _ => truncate_eq rfl
    · simp only [chargeTool, consume, hc]
      rfl
    · have hbore : Bore b (b.bear i .toolCalls 1) i (only .toolCalls 1) :=
        bear_bore b i .toolCalls fun _ => truncate_eq rfl
      have hi' : i < (b.bear i .toolCalls 1).governors.length := by rwa [hbore.length]
      have hwall := check_one hi' now .wallClockSeconds
      rw [hbore.short_wall] at hwall
      have hcharge : (b.chargeTool now (some i)).1 =
          (b.bear i .toolCalls 1).check now i .wallClockSeconds (.float 1) := by
        simp only [chargeTool, consume, hc]
        rfl
      unfold Refused
      rw [hcharge]
      cases hw : (b.bear i .toolCalls 1).check now i .wallClockSeconds (.float 1) with
      | ok _ =>
        rw [hw] at hwall
        refine ⟨fun h => ?_, fun hshort => absurd hshort (hwall.1 rfl)⟩
        obtain ⟨e, he⟩ := h
        cases he
      | error e =>
        rw [hw] at hwall
        refine ⟨fun _ => ?_, fun _ => ⟨e, rfl⟩⟩
        by_contra hno
        cases hwall.2 hno

theorem short_of_deadline {g : Governor} {now t : ℚ} (h : g.deadline = some t) (ht : t ≤ now) :
    g.Short now .wallClockSeconds 1 := by
  unfold Governor.deadline at h
  split at h
  · rename_i limit started hl hs
    cases h
    refine ⟨limit, hl, ?_⟩
    have hused : now - started ≤ g.usage.consumed now .wallClockSeconds := by
      unfold BudgetUsage.consumed
      rw [hs]
      exact le_max_right ..
    linarith
  · cases h

/-- The charge for one tool call as it should be: refused iff somebody on the chain has less than
one call left or has reached its deadline, and then no call is charged. -/
def ChargeExact (b : Governors) (now : ℚ) (i : Nat) : Prop :=
  (Refused b now i ↔ (∃ r, b.remaining now i .toolCalls = some r ∧ r < 1) ∨
    b.remainingSeconds now i = some 0) ∧
  (Refused b now i → ∀ j ∈ b.chain i, ∀ g g', b.governors[j]? = some g →
    (b.chargeTool now (some i)).2.governors[j]? = some g' →
    g'.usage.toolCalls = g.usage.toolCalls)

/-- **When the charge is exact**: unless everybody on the chain can afford the call and somebody
has less than a second left. -/
theorem charge_exact_iff (b : Governors) (now : ℚ) (i : Fin b.governors.length) :
    ChargeExact b now i ↔ (∃ r, b.remaining now i .toolCalls = some r ∧ r < 1) ∨
      ∀ r, b.remaining now i .wallClockSeconds = some r → 1 ≤ r := by
  unfold ChargeExact
  rw [remaining_lt_iff one_pos, remainingSeconds_eq_zero_iff]
  have hwall : (∀ r, b.remaining now i .wallClockSeconds = some r → 1 ≤ r) ↔
      ¬ ∃ g ∈ b.line i, g.Short now .wallClockSeconds 1 := by
    rw [← remaining_lt_iff one_pos]
    refine ⟨?_, fun h r hr => not_lt.1 fun hlt => h ⟨r, hr, hlt⟩⟩
    rintro h ⟨r, hr, hlt⟩
    exact absurd hlt (not_lt.2 (h r hr))
  rw [hwall]
  rcases chargeTool_cases i.isLt now with ⟨hshort, e, hc⟩ | ⟨hcalls, b', hbore, hb', href⟩
  · refine iff_of_true ⟨iff_of_true ⟨e, by rw [hc]⟩ (Or.inl hshort), ?_⟩ (Or.inl hshort)
    intro _ j _ g g' hg hg'
    rw [hc, hg] at hg'
    cases hg'
    rfl
  · by_cases hw : ∃ g ∈ b.line i, g.Short now .wallClockSeconds 1
    · refine iff_of_false (fun h => ?_) fun h => h.elim hcalls fun h => h hw
      obtain ⟨g, hg⟩ := found_of_mem_chain i.isLt (mem_lineage_self b.parentOf i)
      have hlt : i.val < b'.governors.length := by
        rw [hbore.length]
        exact i.isLt
      have hg' := List.getElem?_eq_getElem hlt
      obtain ⟨g₀, hg₀, _, _, _, hu⟩ := hbore.usage i _ hg'
      cases hg.symm.trans hg₀
      have hsame := h.2 (href.2 hw) i (mem_lineage_self b.parentOf i) g _ hg (by rw [hb', hg'])
      have hmore := hu now .toolCalls (by decide)
      have hmem : i.val ∈ b.chain i := mem_lineage_self b.parentOf i
      simp only [BudgetUsage.consumed, hsame, hmem, if_true, only] at hmore
      linarith
    · have hdead : ¬ ∃ g ∈ b.line i, ∃ t, g.deadline = some t ∧ t ≤ now := by
        rintro ⟨g, hg, t, ht, hle⟩
        exact hw ⟨g, hg, short_of_deadline ht hle⟩
      refine iff_of_true ⟨iff_of_false (fun h => hw (href.1 h)) fun h => h.elim hcalls hdead, ?_⟩
        (Or.inr hw)
      exact fun h => absurd (href.1 h) hw

/-- half a second before its deadline, with five calls left -/
def almostOver : Governors := root 0 (some
  { wallClockSeconds := some 10, toolCalls := some 5, cost_nonneg := BudgetLimits.none_nonneg })

/-- With half a second left a call is refused, and charged. -/
theorem refused_before_deadline :
    ¬ ∀ (b : Governors) (now : ℚ) (i : Fin b.governors.length), ChargeExact b now i := by
  intro h
  have hexact := (h almostOver (19 / 2) ⟨0, by decide⟩).1
  have hrefused : Refused almostOver (19 / 2) 0 := by
    refine ⟨BudgetExceeded .wallClockSeconds 10 (19 / 2) (.float 1), ?_⟩
    decide +kernel
  have hleft : almostOver.remaining (19 / 2) 0 .toolCalls = some 5 ∧
      almostOver.remainingSeconds (19 / 2) 0 = some (1 / 2) := by decide +kernel
  rcases hexact.1 hrefused with ⟨r, hr, hlt⟩ | hzero
  · cases hleft.1.symm.trans hr
    exact absurd hlt (by norm_num)
  · exact absurd (Option.some.inj (hleft.2.symm.trans hzero)) (by norm_num)

end Governors
end Chassis
