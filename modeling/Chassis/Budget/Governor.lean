import Chassis.Budget.Models
import Chassis.Lib.Lineage

/-!
# Budget governors

The governors of a program are numbered in the order they are built.  An operation answers and
leaves the governors as they are then, also when it raises; `now` is what their clock reads.

* `remaining`, `remainingSeconds`   what is left to a governor and to all above it;
* `check`              an amount against the limits of a governor and of all above it;
* `consume`, `record`, `child`   the operations that charge;
* `Bore`               how a charge changes the governors;
* `consume_cases`, `record_cases`   everything a charge can do.
-/

namespace Chassis
open Py

def BudgetExceeded (d : BudgetDimension) (limit used : ℚ) (requested : Amount) : Err where
  kind := .BudgetExceeded
  message := "budget exceeded for " ++ d.value
  context := [("dimension", d.value), ("limit", toString limit), ("used", toString used),
    ("requested", requested.shown)]

def validateAmount (d : BudgetDimension) (amount : Amount) : Except Err Unit :=
  let context := [("dimension", d.value), ("amount", amount.shown)]
  if ¬ amount.isNumber then
    .error (ConfigurationError "consumption amounts must be numbers" context)
  else if ¬ amount.nonnegFinite then
    .error (ConfigurationError "consumption amounts must be non-negative and finite" context)
  else if d.counts ∧ ¬ amount.isInteger then
    .error (ConfigurationError "count dimensions require integer amounts" context)
  else .ok ()

structure Governor where
  limits : BudgetLimits := {}
  parent : Option Nat := none
  usage : BudgetUsage := {}

/-- `check` of one governor, without its parent -/
def Governor.check (g : Governor) (now : ℚ) (d : BudgetDimension) (amount : Amount) :
    Except Err Unit := do
  validateAmount d amount
  match g.limits.limitFor d with
  | none => .ok ()
  | some limit =>
    let used := g.usage.consumed now d
    if limit < used + amount.toRat then .error (BudgetExceeded d limit used amount) else .ok ()

/-- the absolute time at which the wall-clock budget of the governor expires -/
def Governor.deadline (g : Governor) : Option ℚ :=
  match g.limits.wallClockSeconds, g.usage.startedAt with
  | some limit, some started => some (started + limit)
  | _, _ => none

/-- `remaining`, of the first governor of a line up to the root -/
def remainingIn (now : ℚ) (d : BudgetDimension) : List Governor → Option ℚ
  | [] => none
  | g :: above =>
    let candidates := ((g.limits.limitFor d).map (· - g.usage.consumed now d)).toList ++
      (remainingIn now d above).toList
    candidates.min?.map (max 0)

def remainingSecondsIn (now : ℚ) : List Governor → Option ℚ
  | [] => none
  | g :: above =>
    match g.deadline with
    | none => remainingSecondsIn now above
    | some deadline =>
      let own := max 0 (deadline - now)
      match remainingSecondsIn now above with
      | none => some own
      | some r => some (min own r)

/-! ## what a check says -/

theorem validateAmount_ok {d : BudgetDimension} {amount : Amount}
    (h : validateAmount d amount = .ok ()) :
    amount.nonnegFinite = true ∧ (d.counts = true → amount.isInteger = true) := by
  unfold validateAmount at h
  simp only at h
  split at h
  · cases h
  · split at h
    · cases h
    · rename_i hn
      split at h
      · cases h
      · rename_i hi
        exact ⟨by simpa using hn, fun hd => by simpa [hd] using hi⟩

theorem Governor.check_ok {g : Governor} {now : ℚ} {d : BudgetDimension} {amount : Amount} :
    g.check now d amount = .ok () ↔ validateAmount d amount = .ok () ∧
      ∀ limit, g.limits.limitFor d = some limit →
        g.usage.consumed now d + amount.toRat ≤ limit := by
  unfold Governor.check
  cases hv : validateAmount d amount with
  | error e => simp [bind, Except.bind]
  | ok u =>
    cases hl : g.limits.limitFor d with
    | none => simp [bind, Except.bind]
    | some limit =>
      by_cases h : limit < g.usage.consumed now d + amount.toRat
      · simp [bind, Except.bind, h]
      · simp [bind, Except.bind, h, not_lt.1 h]

/-- every governor is built after its parent -/
structure Governors where
  governors : List Governor
  earlier : ∀ (i : Nat) (g : Governor) (p : Nat), governors[i]? = some g → g.parent = some p → p < i

/-- raised for a number that no governor has; a Python reference always has one -/
def noSuchGovernor : Err := { kind := .Other, message := "no such governor" }

namespace Governors

def parentOf (b : Governors) (i : Nat) : Option Nat := b.governors[i]?.bind (·.parent)

theorem parentOf_earlier (b : Governors) : Earlier b.parentOf := by
  intro i p h
  obtain ⟨g, hg, hp⟩ := Option.bind_eq_some_iff.1 h
  exact b.earlier i g p hg hp

/-- a governor, its parent, and so on up -/
def chain (b : Governors) (i : Nat) : List Nat := lineage b.parentOf i

def check (b : Governors) (now : ℚ) (i : Nat) (d : BudgetDimension) (amount : Amount) :
    Except Err Unit :=
  (b.chain i).forM fun j => match b.governors[j]? with
    | none => .error noSuchGovernor
    | some g => g.check now d amount

def line (b : Governors) (i : Nat) : List Governor := (b.chain i).filterMap (b.governors[·]?)

def remaining (b : Governors) (now : ℚ) (i : Nat) (d : BudgetDimension) : Option ℚ :=
  remainingIn now d (b.line i)

def remainingSeconds (b : Governors) (now : ℚ) (i : Nat) : Option ℚ :=
  remainingSecondsIn now (b.line i)

/-- `self._usage.add(dimension, amount)` -/
def add (b : Governors) (i : Nat) (d : BudgetDimension) (amount : ℚ) : Governors where
  governors := b.governors.modify i fun g => { g with usage := g.usage.add amount d }
  earlier := by
    intro j g p hg hp
    rw [List.getElem?_modify] at hg
    obtain ⟨g', hg', rfl⟩ := Option.map_eq_some_iff.1 hg
    refine b.earlier j g' p hg' ?_
    by_cases h : i = j
    · rw [if_pos h] at hp
      exact hp
    · rw [if_neg h] at hp
      exact hp

/-- the usage of the governor, then `_record` of its parent -/
def bear (b : Governors) (i : Nat) (d : BudgetDimension) (amount : ℚ) : Governors :=
  (b.chain i).foldl (fun b j => b.add j d amount) b

def consume (b : Governors) (now : ℚ) (i : Nat) (d : BudgetDimension)
    (amount : Amount := .float 1) : Except Err Unit × Governors :=
  match b.check now i d amount with
  | .error e => (.error e, b)
  | .ok _ => (.ok (), b.bear i d amount.toRat)

/-- the charges of one report -/
def reported (modelCalls tokens estimatedCost : Amount) : List (BudgetDimension × Amount) :=
  [(.modelCalls, modelCalls), (.tokens, tokens), (.estimatedCost, estimatedCost)]

/-- the checks of a report: every charge is validated, then the ones that charge something are
held against the limits -/
def checkReport (b : Governors) (now : ℚ) (i : Nat) (charges : List (BudgetDimension × Amount)) :
    Except Err Unit :=
  match b.governors[i]? with
  | none => .error noSuchGovernor
  | some _ => do
    charges.forM fun c => validateAmount c.1 c.2
    charges.forM fun c => if c.2.toRat = 0 then .ok () else b.check now i c.1 c.2

/-- all checks come before the first governor is charged -/
def record (b : Governors) (now : ℚ) (i : Nat)
    (modelCalls tokens estimatedCost : Amount := .int 0) : Except Err Unit × Governors :=
  let charges := reported modelCalls tokens estimatedCost
  match b.checkReport now i charges with
  | .error e => (.error e, b)
  | .ok _ => (.ok (), charges.foldl
      (fun b c => if c.2.toRat = 0 then b else b.bear i c.1 c.2.toRat) b)

def root (now : ℚ) (limits : Option BudgetLimits) : Governors where
  governors := [{ limits := limits.getD {}, usage := { startedAt := some now } }]
  earlier := by
    intro i g p hg hp
    rw [List.getElem?_singleton] at hg
    split at hg
    · cases hg
      cases hp
    · cases hg

/-- `BudgetGovernor(limits, parent=parent)` -/
def build (b : Governors) (now : ℚ) (limits : Option BudgetLimits) (parent : Option Nat) :
    Except Err Nat × Governors :=
  if h : ∀ p ∈ parent, p < b.governors.length then
    (.ok b.governors.length,
      { governors := b.governors ++
          [{ limits := limits.getD {}, parent := parent, usage := { startedAt := some now } }]
        earlier := by
          intro i g p hg hp
          rw [List.getElem?_append] at hg
          split at hg
          · exact b.earlier i g p hg hp
          · rename_i hi
            rw [List.getElem?_singleton] at hg
            split at hg
            · cases hg
              have hlt := h p hp
              omega
            · cases hg })
  else (.error noSuchGovernor, b)

def child (b : Governors) (now : ℚ) (i : Nat) (limits : Option BudgetLimits) :
    Except Err Nat × Governors :=
  match b.consume now i .childRuns with
  | (.error e, b) => (.error e, b)
  | (.ok _, b) => b.build now limits (some i)

/-! ## what a charge changes -/

theorem add_parentOf (b : Governors) (i : Nat) (d : BudgetDimension) (amount : ℚ) :
    (b.add i d amount).parentOf = b.parentOf := by
  funext j
  unfold parentOf add
  rw [List.getElem?_modify]
  cases b.governors[j]? with
  | none => rfl
  | some g =>
    by_cases h : i = j
    · simp [h]
    · simp [h]

/-- `b'` is `b` after every governor of the lineage of `i` has borne `v` -/
structure Bore (b b' : Governors) (i : Nat) (v : BudgetDimension → ℚ) : Prop where
  parents : b'.parentOf = b.parentOf
  length : b'.governors.length = b.governors.length
  usage : ∀ j g', b'.governors[j]? = some g' → ∃ g, b.governors[j]? = some g ∧
    g'.limits = g.limits ∧ g'.parent = g.parent ∧ g'.usage.startedAt = g.usage.startedAt ∧
    ∀ now d, d ≠ .wallClockSeconds → g'.usage.consumed now d =
      g.usage.consumed now d + if j ∈ b.chain i then v d else 0

theorem Bore.refl (b : Governors) (i : Nat) : Bore b b i 0 where
  parents := rfl
  length := rfl
  usage := fun j g hg => ⟨g, hg, rfl, rfl, rfl, fun now d _ => by simp⟩

theorem Bore.chain {b b' : Governors} {i : Nat} {v : BudgetDimension → ℚ} (h : Bore b b' i v)
    (j : Nat) : b'.chain j = b.chain j := by
  unfold Governors.chain
  rw [h.parents]

theorem Bore.trans {b b' b'' : Governors} {i : Nat} {v w : BudgetDimension → ℚ}
    (h : Bore b b' i v) (h' : Bore b' b'' i w) : Bore b b'' i (v + w) where
  parents := h'.parents.trans h.parents
  length := h'.length.trans h.length
  usage := by
    intro j g'' hg''
    obtain ⟨g', hg', hl', hp', hs', hu'⟩ := h'.usage j g'' hg''
    obtain ⟨g, hg, hl, hp, hs, hu⟩ := h.usage j g' hg'
    refine ⟨g, hg, hl'.trans hl, hp'.trans hp, hs'.trans hs, fun now d hd => ?_⟩
    rw [hu' now d hd, hu now d hd, h.chain, Pi.add_apply, add_assoc]
    by_cases hj : j ∈ b.chain i
    · rw [if_pos hj, if_pos hj, if_pos hj]
    · rw [if_neg hj, if_neg hj, if_neg hj, add_zero]

theorem getElem?_foldl_add (d : BudgetDimension) (amount : ℚ) {l : List Nat} (hl : l.Nodup)
    (b : Governors) (j : Nat) :
    (l.foldl (fun b j => b.add j d amount) b).governors[j]? =
      b.governors[j]?.map fun g =>
        if j ∈ l then { g with usage := g.usage.add amount d } else g := by
  induction l generalizing b with
  | nil =>
    show b.governors[j]? = b.governors[j]?.map fun g => if j ∈ [] then _ else g
    cases b.governors[j]? with
    | none => rfl
    | some g => simp
  | cons i l ih =>
    rw [List.nodup_cons] at hl
    rw [List.foldl_cons, ih hl.2]
    show ((b.governors.modify i _)[j]?).map _ = _
    rw [List.getElem?_modify, Option.map_eq_map, Option.map_map]
    congr 1
    funext g
    by_cases hij : i = j
    · subst hij
      simp [hl.1]
    · have hji : j ≠ i := fun h => hij h.symm
      simp [hij, hji]

theorem foldl_add_parentOf (d : BudgetDimension) (amount : ℚ) (l : List Nat) (b : Governors) :
    (l.foldl (fun b j => b.add j d amount) b).parentOf = b.parentOf := by
  induction l generalizing b with
  | nil => rfl
  | cons i l ih => rw [List.foldl_cons, ih, add_parentOf]

theorem foldl_add_length (d : BudgetDimension) (amount : ℚ) (l : List Nat) (b : Governors) :
    (l.foldl (fun b j => b.add j d amount) b).governors.length = b.governors.length := by
  induction l generalizing b with
  | nil => rfl
  | cons i l ih =>
    rw [List.foldl_cons, ih]
    exact List.length_modify ..

/-- the amount of one dimension, as a charge on all of them -/
def only (d : BudgetDimension) (amount : ℚ) (d' : BudgetDimension) : ℚ :=
  if d' = d then amount else 0

theorem bear_bore (b : Governors) (i : Nat) (d : BudgetDimension) {amount : ℚ}
    (hi : d.counts = true → (truncate amount : ℚ) = amount) :
    Bore b (b.bear i d amount) i (only d amount) where
  parents := foldl_add_parentOf d amount _ b
  length := foldl_add_length d amount _ b
  usage := by
    intro j g' hg'
    have hnodup : (b.chain i).Nodup := lineage_nodup b.parentOf_earlier i
    unfold bear at hg'
    rw [getElem?_foldl_add d amount hnodup] at hg'
    obtain ⟨g, hg, rfl⟩ := Option.map_eq_some_iff.1 hg'
    by_cases hj : j ∈ b.chain i
    · have hstart : (g.usage.add amount d).startedAt = g.usage.startedAt := by cases d <;> rfl
      refine ⟨g, hg, by rw [if_pos hj], by rw [if_pos hj], by rw [if_pos hj]; exact hstart, ?_⟩
      intro now d' hd'
      rw [if_pos hj, if_pos hj]
      by_cases hdd : d' = d
      · subst hdd
        rw [only, if_pos rfl]
        exact g.usage.consumed_add_self now hd' hi
      · rw [only, if_neg hdd, add_zero]
        exact g.usage.consumed_add_of_ne now amount hdd
    · refine ⟨g, hg, by rw [if_neg hj], by rw [if_neg hj], by rw [if_neg hj], ?_⟩
      intro now d' _
      rw [if_neg hj, if_neg hj, add_zero]

/-! ## what an operation can do -/

theorem check_ok {b : Governors} {now : ℚ} {i : Nat} {d : BudgetDimension} {amount : Amount} :
    b.check now i d amount = .ok () ↔ ∀ j ∈ b.chain i, ∃ g, b.governors[j]? = some g ∧
      g.check now d amount = .ok () := by
  unfold Governors.check
  rw [forM_ok_iff]
  constructor
  · intro h j hj
    have hj' := h j hj
    cases hg : b.governors[j]? with
    | none =>
      rw [hg] at hj'
      cases hj'
    | some g =>
      rw [hg] at hj'
      exact ⟨g, rfl, hj'⟩
  · intro h j hj
    obtain ⟨g, hg, hc⟩ := h j hj
    simp only [hg, hc]

theorem check_validated {b : Governors} {now : ℚ} {i : Nat} {d : BudgetDimension}
    {amount : Amount} (h : b.check now i d amount = .ok ()) :
    validateAmount d amount = .ok () := by
  obtain ⟨g, _, hc⟩ := check_ok.1 h i (mem_lineage_self _ i)
  exact (Governor.check_ok.1 hc).1

/-- `v` fits into what every governor of the lineage of `i` has left -/
def Fits (b : Governors) (i : Nat) (v : BudgetDimension → ℚ) : Prop :=
  ∀ j ∈ b.chain i, ∀ g, b.governors[j]? = some g → ∀ d, d ≠ .wallClockSeconds →
    ∀ limit, g.limits.limitFor d = some limit → v d ≠ 0 →
      ∀ now, g.usage.consumed now d + v d ≤ limit

theorem fits_of_check {b : Governors} (now : ℚ) {i : Nat} {v : BudgetDimension → ℚ}
    (h : ∀ d, v d ≠ 0 → ∃ amount : Amount, amount.toRat = v d ∧
      b.check now i d amount = .ok ()) : b.Fits i v := by
  intro j hj g hg d hd limit hl hv now'
  obtain ⟨amount, ha, hc⟩ := h d hv
  obtain ⟨g', hg', hc'⟩ := check_ok.1 hc j hj
  cases hg.symm.trans hg'
  rw [g.usage.consumed_now hd now' now, ← ha]
  exact (Governor.check_ok.1 hc').2 limit hl

/-- what charging `v` at `i` comes to: it raises and nothing changed, or `v` fitted into what was
left and was borne -/
inductive Charged (b : Governors) (i : Nat) (v : BudgetDimension → ℚ) :
    Except Err Unit × Governors → Prop
  | refused (e : Err) : Charged b i v (.error e, b)
  | charged {b' : Governors} (exists_ : ∃ g, b.governors[i]? = some g) (fits : b.Fits i v)
      (bore : Bore b b' i v) : Charged b i v (.ok (), b')

theorem consume_cases (b : Governors) (now : ℚ) (i : Nat) (d : BudgetDimension)
    (amount : Amount) : Charged b i (only d amount.toRat) (b.consume now i d amount) := by
  unfold consume
  cases hc : b.check now i d amount with
  | error e => exact .refused e
  | ok u =>
    cases u
    obtain ⟨g, hg, _⟩ := check_ok.1 hc i (mem_lineage_self _ i)
    have hi := (validateAmount_ok (check_validated hc)).2
    refine .charged ⟨g, hg⟩ (fits_of_check now fun d' hd' => ⟨amount, ?_, ?_⟩)
      (bear_bore b i d fun hd => Amount.truncate_toRat (hi hd))
    all_goals
      have hdd : d' = d := by
        by_contra hne
        exact hd' (if_neg hne)
      subst hdd
    · exact (if_pos rfl).symm
    · exact hc

/-- what a report charges on each dimension -/
def reportedOn (modelCalls tokens estimatedCost : Amount) : BudgetDimension → ℚ
  | .modelCalls => modelCalls.toRat
  | .tokens => tokens.toRat
  | .estimatedCost => estimatedCost.toRat
  | .wallClockSeconds | .toolCalls | .childRuns => 0

theorem checkReport_ok {b : Governors} {now : ℚ} {i : Nat}
    {charges : List (BudgetDimension × Amount)} (h : b.checkReport now i charges = .ok ()) :
    (∃ g, b.governors[i]? = some g) ∧ ∀ c ∈ charges, validateAmount c.1 c.2 = .ok () ∧
      (c.2.toRat ≠ 0 → b.check now i c.1 c.2 = .ok ()) := by
  unfold checkReport at h
  split at h
  · cases h
  · rename_i g hg
    obtain ⟨_, hv, hc⟩ := bind_ok.1 h
    refine ⟨⟨g, hg⟩, fun c hmem => ⟨forM_ok hv hmem, fun hne => ?_⟩⟩
    have := forM_ok hc hmem
    rwa [if_neg hne] at this

theorem foldl_bore {b : Governors} {i : Nat} (charges : List (BudgetDimension × Amount))
    (h : ∀ c ∈ charges, validateAmount c.1 c.2 = .ok ()) :
    Bore b (charges.foldl (fun b c => if c.2.toRat = 0 then b else b.bear i c.1 c.2.toRat) b) i
      (charges.map fun c => only c.1 c.2.toRat).sum := by
  induction charges generalizing b with
  | nil => exact .refl b i
  | cons c charges ih =>
    rw [List.forall_mem_cons] at h
    rw [List.foldl_cons, List.map_cons, List.sum_cons]
    refine Bore.trans ?_ (ih h.2)
    by_cases h0 : c.2.toRat = 0
    · have hzero : only c.1 c.2.toRat = 0 := by
        funext d
        simp [only, h0]
      rw [if_pos h0, hzero]
      exact .refl b i
    · rw [if_neg h0]
      exact bear_bore b i c.1 fun hd => Amount.truncate_toRat ((validateAmount_ok h.1).2 hd)

theorem sum_reported (modelCalls tokens estimatedCost : Amount) :
    ((reported modelCalls tokens estimatedCost).map fun c => only c.1 c.2.toRat).sum =
      reportedOn modelCalls tokens estimatedCost := by
  funext d
  cases d <;> simp [reported, reportedOn, only]

theorem record_cases (b : Governors) (now : ℚ) (i : Nat)
    (modelCalls tokens estimatedCost : Amount) :
    Charged b i (reportedOn modelCalls tokens estimatedCost)
      (b.record now i modelCalls tokens estimatedCost) := by
  unfold record
  simp only
  cases hc : b.checkReport now i (reported modelCalls tokens estimatedCost) with
  | error e => exact .refused e
  | ok u =>
    obtain ⟨hg, hall⟩ := checkReport_ok hc
    refine .charged hg (fits_of_check now fun d hd => ?_) ?_
    · have hmem : ∀ c ∈ reported modelCalls tokens estimatedCost, c.2.toRat ≠ 0 →
          b.check now i c.1 c.2 = .ok () := fun c h => (hall c h).2
      cases d with
      | modelCalls => exact ⟨modelCalls, rfl, hmem (_, _) (by simp [reported]) hd⟩
      | tokens => exact ⟨tokens, rfl, hmem (_, _) (by simp [reported]) hd⟩
      | estimatedCost => exact ⟨estimatedCost, rfl, hmem (_, _) (by simp [reported]) hd⟩
      | wallClockSeconds | toolCalls | childRuns => exact absurd rfl hd
    · have := foldl_bore (b := b) (i := i) _ fun c h => (hall c h).1
      rwa [sum_reported] at this

end Governors
end Chassis
