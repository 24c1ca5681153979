import Chassis.Core.Errors
import Chassis.Lib.Fallible
import Mathlib.Algebra.Order.Ring.Rat
import Mathlib.Tactic.Linarith

/-!
# Budget dimensions, limits and usage

Over exact arithmetic: a finite float is the rational it is.

* `Amount`         a Python value where a number is expected;
* `BudgetLimits`   limits that passed the checks of their constructor;
* `BudgetUsage`    what one governor has recorded.
-/

namespace Chassis

inductive BudgetDimension
  | wallClockSeconds
  | modelCalls
  | toolCalls
  | tokens
  | estimatedCost
  | childRuns
  deriving DecidableEq, Repr

namespace BudgetDimension

def value : BudgetDimension → String
  | wallClockSeconds => "wall_clock_seconds"
  | modelCalls => "model_calls"
  | toolCalls => "tool_calls"
  | tokens => "tokens"
  | estimatedCost => "estimated_cost"
  | childRuns => "child_runs"

/-- the dimensions that are counts -/
def counts : BudgetDimension → Bool
  | modelCalls | toolCalls | tokens | childRuns => true
  | wallClockSeconds | estimatedCost => false

end BudgetDimension

/-- what is passed as an amount or a limit -/
inductive Amount
  | int (n : Int)
  | float (q : ℚ)
  | nan
  | inf
  | negInf
  /-- a `bool`, or no number at all, by how it is shown -/
  | other (shown : String)
  deriving DecidableEq

namespace Amount

/-- the number; zero for what no check accepts -/
def toRat : Amount → ℚ
  | int n => n
  | float q => q
  | nan | inf | negInf | other _ => 0

def shown : Amount → String
  | int n => toString n
  | float q => toString q
  | nan => "nan"
  | inf => "inf"
  | negInf => "-inf"
  | other s => s

/-- `isinstance(amount, (int, float))`, and no `bool` -/
def isNumber : Amount → Bool
  | other _ => false
  | _ => true

/-- not negative, no nan and no infinity -/
def nonnegFinite : Amount → Bool
  | int n => 0 ≤ n
  | float q => 0 ≤ q
  | nan | inf | negInf | other _ => false

/-- `float(amount).is_integer()` -/
def isInteger : Amount → Bool
  | int _ => true
  | float q => q.den = 1
  | nan | inf | negInf | other _ => false

end Amount

/-- `int(x)`: towards zero -/
def truncate (q : ℚ) : Int := q.num.tdiv q.den

theorem truncate_eq {q : ℚ} (h : q.den = 1) : (truncate q : ℚ) = q := by
  unfold truncate
  rw [h, Nat.cast_one, Int.tdiv_one]
  exact Rat.coe_int_num_of_den_eq_one h

theorem Amount.truncate_toRat {a : Amount} (h : a.isInteger = true) :
    (truncate a.toRat : ℚ) = a.toRat := by
  cases a with
  | int n => exact truncate_eq rfl
  | float q =>
    have hq : q.den = 1 := by simpa [isInteger] using h
    exact truncate_eq hq
  | nan | inf | negInf | other s => cases h

/-! ## limits -/

theorem BudgetLimits.none_nonneg : ∀ q ∈ (none : Option ℚ), 0 ≤ q := by simp

/-- the limits of one run, each of them non-negative; `none` disables a dimension -/
structure BudgetLimits where
  wallClockSeconds : Option ℚ := none
  modelCalls : Option Nat := none
  toolCalls : Option Nat := none
  tokens : Option Nat := none
  estimatedCost : Option ℚ := none
  childRuns : Option Nat := none
  wallClock_nonneg : ∀ q ∈ wallClockSeconds, 0 ≤ q := by simp
  cost_nonneg : ∀ q ∈ estimatedCost, 0 ≤ q := by simp

namespace BudgetLimits

def limitFor (l : BudgetLimits) : BudgetDimension → Option ℚ
  | .wallClockSeconds => l.wallClockSeconds
  | .modelCalls => l.modelCalls.map fun n : Nat => (n : ℚ)
  | .toolCalls => l.toolCalls.map fun n : Nat => (n : ℚ)
  | .tokens => l.tokens.map fun n : Nat => (n : ℚ)
  | .estimatedCost => l.estimatedCost
  | .childRuns => l.childRuns.map fun n : Nat => (n : ℚ)

theorem limitFor_nonneg (l : BudgetLimits) {d : BudgetDimension} {q : ℚ}
    (h : l.limitFor d = some q) : 0 ≤ q := by
  have hcount : ∀ o : Option Nat, o.map (fun n : Nat => (n : ℚ)) = some q → 0 ≤ q := by
    intro o ho
    obtain ⟨n, _, hn⟩ := Option.map_eq_some_iff.1 ho
    rw [← hn]
    exact Nat.cast_nonneg _
  cases d with
  | wallClockSeconds => exact l.wallClock_nonneg q h
  | estimatedCost => exact l.cost_nonneg q h
  | modelCalls => exact hcount _ h
  | toolCalls => exact hcount _ h
  | tokens => exact hcount _ h
  | childRuns => exact hcount _ h

end BudgetLimits

/-! ## usage -/

/-- consumption recorded so far by one governor -/
structure BudgetUsage where
  modelCalls : Int := 0
  toolCalls : Int := 0
  tokens : Int := 0
  estimatedCost : ℚ := 0
  childRuns : Int := 0
  startedAt : Option ℚ := none

namespace BudgetUsage

def consumed (u : BudgetUsage) (now : ℚ) : BudgetDimension → ℚ
  | .wallClockSeconds => match u.startedAt with
    | none => 0
    | some started => max 0 (now - started)
  | .modelCalls => u.modelCalls
  | .toolCalls => u.toolCalls
  | .tokens => u.tokens
  | .estimatedCost => u.estimatedCost
  | .childRuns => u.childRuns

def add (u : BudgetUsage) (amount : ℚ) : BudgetDimension → BudgetUsage
  | .modelCalls => { u with modelCalls := u.modelCalls + truncate amount }
  | .toolCalls => { u with toolCalls := u.toolCalls + truncate amount }
  | .tokens => { u with tokens := u.tokens + truncate amount }
  | .estimatedCost => { u with estimatedCost := u.estimatedCost + amount }
  | .childRuns => { u with childRuns := u.childRuns + truncate amount }
  -- elapsed time is observed, never accumulated
  | .wallClockSeconds => u

theorem consumed_now (u : BudgetUsage) {d : BudgetDimension} (hd : d ≠ .wallClockSeconds)
    (now now' : ℚ) : u.consumed now d = u.consumed now' d := by
  cases d with
  | wallClockSeconds => exact absurd rfl hd
  | modelCalls | toolCalls | tokens | estimatedCost | childRuns => rfl

theorem consumed_add_self (u : BudgetUsage) (now : ℚ) {d : BudgetDimension}
    (hd : d ≠ .wallClockSeconds) {amount : ℚ}
    (hi : d.counts = true → (truncate amount : ℚ) = amount) :
    (u.add amount d).consumed now d = u.consumed now d + amount := by
  cases d with
  | wallClockSeconds => exact absurd rfl hd
  | estimatedCost => rfl
  | modelCalls | toolCalls | tokens | childRuns =>
    simp only [add, consumed, Int.cast_add, hi rfl]

theorem consumed_add_of_ne (u : BudgetUsage) (now amount : ℚ) {d d' : BudgetDimension}
    (h : d' ≠ d) : (u.add amount d).consumed now d' = u.consumed now d' := by
  cases d <;> cases d' <;> first | rfl | exact absurd rfl h

end BudgetUsage
end Chassis
