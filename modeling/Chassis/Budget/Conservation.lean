import Chassis.Budget.Governor

/-!
# Runs of a budget

A tree of governors grows from a root by `child`; any of its governors is charged at any time.

* `BudgetOp`, `Governors.step`   the operations;
* `Budget`           the governors, with the charges that went through;
* `Budget.Sound`     the invariant: usage is what the charges come to, and within every limit;
* `Budget.Sound.run`   it holds throughout a run;
* `usage_conserved`  **so usage is what the charges come to, and within every limit.**
-/

namespace Chassis
open Py

inductive BudgetOp
  | consume (i : Nat) (d : BudgetDimension) (amount : Amount)
  | record (i : Nat) (modelCalls tokens estimatedCost : Amount)
  | child (i : Nat) (limits : Option BudgetLimits)

/-- what the operation charges if it goes through -/
def BudgetOp.charge : BudgetOp → Charge (BudgetDimension → ℚ)
  | consume i d amount => ⟨i, Governors.only d amount.toRat⟩
  | record i modelCalls tokens estimatedCost =>
    ⟨i, Governors.reportedOn modelCalls tokens estimatedCost⟩
  | child i _ => ⟨i, Governors.only .childRuns 1⟩

namespace Governors

def step (b : Governors) (now : ℚ) : BudgetOp → Except Err Unit × Governors
  | .consume i d amount => b.consume now i d amount
  | .record i modelCalls tokens estimatedCost =>
    b.record now i modelCalls tokens estimatedCost
  | .child i limits => ((b.child now i limits).1.map fun _ => (), (b.child now i limits).2)

theorem consumed_fresh {d : BudgetDimension} (hd : d ≠ .wallClockSeconds) (now started : ℚ) :
    ({ startedAt := some started } : BudgetUsage).consumed now d = 0 := by
  cases d with
  | wallClockSeconds => exact absurd rfl hd
  | modelCalls | toolCalls | tokens | estimatedCost | childRuns => rfl

/-- `b'` is `b` and one governor more, which has consumed nothing -/
structure Grown (b b' : Governors) : Prop where
  length : b'.governors.length = b.governors.length + 1
  old : ∀ j < b.governors.length, b'.governors[j]? = b.governors[j]?
  new : ∀ g, b'.governors[b.governors.length]? = some g →
    ∀ now d, d ≠ .wallClockSeconds → g.usage.consumed now d = 0

theorem build_grown {b b' : Governors} {now : ℚ} {limits : Option BudgetLimits}
    {parent : Option Nat} {n : Nat} (h : b.build now limits parent = (.ok n, b')) :
    Grown b b' := by
  unfold build at h
  split at h
  · cases h
    refine ⟨by simp, fun j hj => ?_, fun g hg now' d hd => ?_⟩
    · show (b.governors ++ _)[j]? = _
      rw [List.getElem?_append_left hj]
    · have hg' : (b.governors ++ [_])[b.governors.length]? = some g := hg
      rw [List.getElem?_concat_length] at hg'
      cases hg'
      exact consumed_fresh hd now' now
  · cases h

/-- what a step comes to: it raises and nothing changed, or its charge fitted and was borne, and
then perhaps a governor was built -/
inductive Stepped (b : Governors) (c : Charge (BudgetDimension → ℚ)) :
    Except Err Unit × Governors → Prop
  | refused (e : Err) : Stepped b c (.error e, b)
  | charged {b' : Governors} (found : c.node < b.governors.length)
      (fits : b.Fits c.node c.amount) (bore : Bore b b' c.node c.amount) :
      Stepped b c (.ok (), b')
  | grown {b' b'' : Governors} (found : c.node < b.governors.length)
      (fits : b.Fits c.node c.amount) (bore : Bore b b' c.node c.amount) (grown : Grown b' b'') :
      Stepped b c (.ok (), b'')

theorem Charged.stepped {b : Governors} {c : Charge (BudgetDimension → ℚ)}
    {r : Except Err Unit × Governors} (h : Charged b c.node c.amount r) : Stepped b c r := by
  cases h with
  | refused e => exact .refused e
  | charged found fits bore =>
    obtain ⟨g, hg⟩ := found
    exact .charged (List.getElem?_eq_some_iff.1 hg).1 fits bore

theorem step_cases (b : Governors) (now : ℚ) (op : BudgetOp) :
    Stepped b op.charge (b.step now op) := by
  cases op with
  | consume i d amount => exact (consume_cases b now i d amount).stepped
  | record i modelCalls tokens estimatedCost =>
    exact (record_cases b now i modelCalls tokens estimatedCost).stepped
  | child i limits =>
    have hc := consume_cases b now i .childRuns (.float 1)
    show Stepped b ⟨i, only .childRuns 1⟩
      ((b.child now i limits).1.map fun _ => (), (b.child now i limits).2)
    unfold child
    generalize b.consume now i .childRuns (.float 1) = r at hc
    cases hc with
    | refused e => exact .refused e
    | @charged b' found fits bore =>
      obtain ⟨g, hg⟩ := found
      have hlt : i < b.governors.length := (List.getElem?_eq_some_iff.1 hg).1
      have hparent : ∀ p ∈ some i, p < b'.governors.length := by
        intro p hp
        cases hp
        rwa [bore.length]
      show Stepped b _ ((b'.build now limits (some i)).1.map fun _ => (),
        (b'.build now limits (some i)).2)
      have hb : ∃ b'', b'.build now limits (some i) = (.ok b'.governors.length, b'') := by
        unfold build
        rw [dif_pos hparent]
        exact ⟨_, rfl⟩
      obtain ⟨b'', hb⟩ := hb
      rw [hb]
      exact .grown hlt fits bore (build_grown hb)

end Governors

/-! ## runs -/

/-- the governors, and the charges that went through, oldest first -/
structure Budget where
  governors : Governors
  charged : List (Charge (BudgetDimension → ℚ)) := []

namespace Budget

def step (s : Budget) (op : ℚ × BudgetOp) : Budget :=
  match s.governors.step op.1 op.2 with
  | (.ok _, b) => ⟨b, s.charged ++ [op.2.charge]⟩
  | (.error _, b) => ⟨b, s.charged⟩

/-- operations in turn, each with what the clock reads then -/
def run (s : Budget) (ops : List (ℚ × BudgetOp)) : Budget := ops.foldl step s

structure Sound (s : Budget) : Prop where
  found : ∀ c ∈ s.charged, c.node < s.governors.governors.length
  conserved : ∀ (i : Nat) (g : Governor), s.governors.governors[i]? = some g →
    ∀ now d, d ≠ .wallClockSeconds →
      g.usage.consumed now d = borne s.governors.parentOf s.charged i d
  within : ∀ (i : Nat) (g : Governor), s.governors.governors[i]? = some g →
    ∀ now d, d ≠ .wallClockSeconds → ∀ limit, g.limits.limitFor d = some limit → g.usage.consumed now d ≤ limit

theorem Sound.root (started : ℚ) (limits : Option BudgetLimits) :
    Sound ⟨Governors.root started limits, []⟩ := by
  have hfresh : ∀ (i : Nat) (g : Governor), (Governors.root started limits).governors[i]? = some g →
      ∀ now d, d ≠ .wallClockSeconds → g.usage.consumed now d = 0 := by
    intro i g hg now d hd
    have hg' : [_][i]? = some g := hg
    rw [List.getElem?_singleton] at hg'
    split at hg'
    · cases hg'
      exact Governors.consumed_fresh hd now started
    · cases hg'
  refine ⟨by simp, fun i g hg now d hd => hfresh i g hg now d hd, ?_⟩
  intro i g hg now d hd limit hl
  rw [hfresh i g hg now d hd]
  exact g.limits.limitFor_nonneg hl

theorem Sound.bore {s : Budget} (h : s.Sound) {c : Charge (BudgetDimension → ℚ)} {b : Governors}
    (found : c.node < s.governors.governors.length) (fits : s.governors.Fits c.node c.amount)
    (bore : s.governors.Bore b c.node c.amount) : Sound ⟨b, s.charged ++ [c]⟩ where
  found := by
    intro c' hc'
    show _ < b.governors.length
    rw [bore.length]
    rcases List.mem_append.1 hc' with hc' | hc'
    · exact h.found c' hc'
    · rw [List.mem_singleton.1 hc']
      exact found
  conserved := by
    intro i g' hg' now d hd
    obtain ⟨g, hg, _, _, _, hu⟩ := bore.usage i g' hg'
    show _ = borne b.parentOf (s.charged ++ [c]) i d
    rw [hu now d hd, h.conserved i g hg now d hd, bore.parents, borne_append, Pi.add_apply,
      borne_singleton]
    have hchain : s.governors.chain c.node = lineage s.governors.parentOf c.node := rfl
    rw [hchain]
    by_cases hi : i ∈ lineage s.governors.parentOf c.node
    · rw [if_pos hi, if_pos hi]
    · rw [if_neg hi, if_neg hi]
      rfl
  within := by
    intro i g' hg' now d hd limit hl
    obtain ⟨g, hg, hlim, _, _, hu⟩ := bore.usage i g' hg'
    rw [hlim] at hl
    have hw := h.within i g hg now d hd limit hl
    rw [hu now d hd]
    by_cases hi : i ∈ s.governors.chain c.node
    · rw [if_pos hi]
      by_cases h0 : c.amount d = 0
      · rw [h0, add_zero]
        exact hw
      · exact fits i hi g hg d hd limit hl h0 now
    · rw [if_neg hi, add_zero]
      exact hw

theorem Sound.grown {s : Budget} (h : s.Sound) {b : Governors}
    (grown : s.governors.Grown b) : Sound ⟨b, s.charged⟩ := by
  have hparent : ∀ j < s.governors.governors.length, b.parentOf j = s.governors.parentOf j := by
    intro j hj
    unfold Governors.parentOf
    rw [grown.old j hj]
  have hline : ∀ c ∈ s.charged,
      lineage b.parentOf c.node = lineage s.governors.parentOf c.node := by
    intro c hc
    refine lineage_congr s.governors.parentOf_earlier b.parentOf_earlier fun j hj => ?_
    exact hparent j (lt_of_le_of_lt hj (h.found c hc))
  have hnew : borne s.governors.parentOf s.charged s.governors.governors.length = 0 := by
    refine borne_eq_zero fun c hc hmem => ?_
    have := le_of_mem_lineage s.governors.parentOf_earlier hmem
    have := h.found c hc
    omega
  have hcases : ∀ (i : Nat) (g : Governor), b.governors[i]? = some g → s.governors.governors[i]? = some g ∨
      i = s.governors.governors.length := by
    intro i g hg
    by_cases hi : i < s.governors.governors.length
    · left
      rwa [grown.old i hi] at hg
    · have hlt := (List.getElem?_eq_some_iff.1 hg).1
      rw [grown.length] at hlt
      right
      omega
  refine ⟨fun c hc => ?_, fun i g hg now d hd => ?_, fun i g hg now d hd limit hl => ?_⟩
  · have := h.found c hc
    show c.node < b.governors.length
    rw [grown.length]
    omega
  · show _ = borne b.parentOf s.charged i d
    rw [borne_congr hline]
    rcases hcases i g hg with hg' | rfl
    · exact h.conserved i g hg' now d hd
    · rw [hnew]
      exact grown.new g hg now d hd
  · rcases hcases i g hg with hg' | rfl
    · exact h.within i g hg' now d hd limit hl
    · rw [grown.new g hg now d hd]
      exact g.limits.limitFor_nonneg hl

theorem Sound.step {s : Budget} (h : s.Sound) (op : ℚ × BudgetOp) : (s.step op).Sound := by
  have hc := Governors.step_cases s.governors op.1 op.2
  unfold Budget.step
  generalize s.governors.step op.1 op.2 = r at hc
  cases hc with
  | refused e => exact h
  | charged found fits bore => exact h.bore found fits bore
  | grown found fits bore grown => exact (h.bore found fits bore).grown grown

theorem Sound.run {s : Budget} (h : s.Sound) (ops : List (ℚ × BudgetOp)) : (s.run ops).Sound := by
  induction ops generalizing s with
  | nil => exact h
  | cons op ops ih => exact ih (h.step op)

/-- Usage is conserved and limited.  Whatever is charged at any governors of a tree, and whatever
limits it has: a governor has used what went through at it and below it, never more than its own
limit, and an operation that raises leaves the tree as it was. -/
theorem usage_conserved (started : ℚ) (limits : Option BudgetLimits)
    (ops : List (ℚ × BudgetOp)) :
    let s := (⟨Governors.root started limits, []⟩ : Budget).run ops
    (∀ (i : Nat) (g : Governor), s.governors.governors[i]? = some g →
      ∀ now d, d ≠ .wallClockSeconds →
      g.usage.consumed now d = borne s.governors.parentOf s.charged i d ∧
      ∀ limit, g.limits.limitFor d = some limit → g.usage.consumed now d ≤ limit) ∧
    ∀ now op e, (s.governors.step now op).1 = .error e →
      (s.governors.step now op).2 = s.governors := by
  intro s
  have h : s.Sound := (Sound.root started limits).run ops
  refine ⟨fun i g hg now d hd => ⟨h.conserved i g hg now d hd, h.within i g hg now d hd⟩, ?_⟩
  intro now op e he
  have hc := Governors.step_cases s.governors now op
  generalize s.governors.step now op = r at hc he
  cases hc with
  | refused e' => rfl
  | charged found fits bore => cases he
  | grown found fits bore grown => cases he

end Budget
end Chassis
