import Mathlib.Data.List.Nodup
import Mathlib.Algebra.BigOperators.Group.List.Basic

/-!
# Forests of numbered nodes, and what their nodes bear

A forest is given by the parent of each node; a parent has a smaller number than its children.

* `lineage`          a node and its ancestors, nearest first;
* `lineage_congr`    a lineage depends on the parents met on the way, so a forest that grows keeps
                     the lineages it has;
* `borne`            what a node bears of a log of charges, when a charge at a node falls on its
                     whole lineage.
-/

namespace Py

/-- every parent comes before its children -/
def Earlier (parent : Nat → Option Nat) : Prop := ∀ i p, parent i = some p → p < i

/-- at most `n` steps up from `i` -/
def climb (parent : Nat → Option Nat) : Nat → Nat → List Nat
  | 0, _ => []
  | n + 1, i => i :: (match parent i with
    | none => []
    | some p => climb parent n p)

def lineage (parent : Nat → Option Nat) (i : Nat) : List Nat := climb parent (i + 1) i

section
variable {parent : Nat → Option Nat} (he : Earlier parent)
include he

theorem climb_of_lt {n i : Nat} (h : i < n) : climb parent n i = lineage parent i := by
  induction i using Nat.strongRecOn generalizing n with
  | ind i ih =>
    obtain ⟨n, rfl⟩ : ∃ m, n = m + 1 := ⟨n - 1, by omega⟩
    unfold lineage
    simp only [climb]
    cases hp : parent i with
    | none => rfl
    | some p =>
      have hlt : p < i := he i p hp
      show i :: climb parent n p = i :: climb parent i p
      rw [ih p hlt (by omega), ih p hlt hlt]

theorem lineage_eq (i : Nat) :
    lineage parent i = i :: (match parent i with
      | none => []
      | some p => lineage parent p) := by
  cases hp : parent i with
  | none => simp [lineage, climb, hp]
  | some p =>
    have h := climb_of_lt he (he i p hp)
    show climb parent (i + 1) i = i :: lineage parent p
    simp only [climb, hp, h]

theorem lineage_root {i : Nat} (h : parent i = none) : lineage parent i = [i] := by
  rw [lineage_eq he, h]

theorem lineage_child {i p : Nat} (h : parent i = some p) :
    lineage parent i = i :: lineage parent p := by
  rw [lineage_eq he, h]

theorem le_of_mem_lineage {i j : Nat} (h : j ∈ lineage parent i) : j ≤ i := by
  induction i using Nat.strongRecOn with
  | ind i ih =>
    cases hp : parent i with
    | none =>
      rw [lineage_root he hp, List.mem_singleton] at h
      exact Nat.le_of_eq h
    | some p =>
      rw [lineage_child he hp, List.mem_cons] at h
      have hlt : p < i := he i p hp
      rcases h with rfl | h
      · exact Nat.le_refl _
      · exact Nat.le_trans (ih p hlt h) (Nat.le_of_lt hlt)

theorem lineage_nodup (i : Nat) : (lineage parent i).Nodup := by
  induction i using Nat.strongRecOn with
  | ind i ih =>
    cases hp : parent i with
    | none =>
      rw [lineage_root he hp]
      exact List.nodup_singleton i
    | some p =>
      have hlt : p < i := he i p hp
      rw [lineage_child he hp, List.nodup_cons]
      refine ⟨fun h => ?_, ih p hlt⟩
      have := le_of_mem_lineage he h
      omega

end

theorem mem_lineage_self (parent : Nat → Option Nat) (i : Nat) : i ∈ lineage parent i :=
  List.mem_cons_self

theorem lineage_congr {parent parent' : Nat → Option Nat} (he : Earlier parent)
    (he' : Earlier parent') {i : Nat} (h : ∀ j ≤ i, parent' j = parent j) :
    lineage parent' i = lineage parent i := by
  induction i using Nat.strongRecOn with
  | ind i ih =>
    have hi := h i (Nat.le_refl i)
    cases hp : parent i with
    | none => rw [lineage_root he hp, lineage_root he' (hi.trans hp)]
    | some p =>
      have hlt : p < i := he i p hp
      rw [lineage_child he hp, lineage_child he' (hi.trans hp),
        ih p hlt fun j hj => h j (by omega)]

/-! ## charges -/

/-- an amount charged at a node -/
structure Charge (M : Type*) where
  node : Nat
  amount : M

section
variable {M : Type*} [AddCommMonoid M]

/-- what `i` bears of the charges made at it and below it -/
def borne (parent : Nat → Option Nat) (log : List (Charge M)) (i : Nat) : M :=
  ((log.filter fun c => i ∈ lineage parent c.node).map (·.amount)).sum

theorem borne_append (parent : Nat → Option Nat) (log log' : List (Charge M)) (i : Nat) :
    borne parent (log ++ log') i = borne parent log i + borne parent log' i := by
  unfold borne
  rw [List.filter_append, List.map_append, List.sum_append]

theorem borne_singleton (parent : Nat → Option Nat) (c : Charge M) (i : Nat) :
    borne parent [c] i = if i ∈ lineage parent c.node then c.amount else 0 := by
  by_cases h : i ∈ lineage parent c.node <;> simp [borne, h]

theorem borne_congr {parent parent' : Nat → Option Nat} {log : List (Charge M)}
    (h : ∀ c ∈ log, lineage parent' c.node = lineage parent c.node) (i : Nat) :
    borne parent' log i = borne parent log i := by
  have hf : log.filter (fun c => i ∈ lineage parent' c.node) =
      log.filter fun c => i ∈ lineage parent c.node := by
    apply List.filter_congr
    intro c hc
    rw [h c hc]
  unfold borne
  rw [hf]

theorem borne_eq_zero {parent : Nat → Option Nat} {log : List (Charge M)} {i : Nat}
    (h : ∀ c ∈ log, i ∉ lineage parent c.node) : borne parent log i = 0 := by
  have hf : log.filter (fun c => i ∈ lineage parent c.node) = [] := by
    rw [List.filter_eq_nil_iff]
    intro c hc
    simpa using h c hc
  unfold borne
  rw [hf]
  rfl

end

end Py
