import Mathlib.Data.List.Infix

/-!
# Sequences of calls

An object whose state only its own calls change, one at a time.

* `run`                what a sequence of calls makes of a state;
* `Throughout`         every call of a sequence is made in a state that admits it;
* `run_invariant`      what every admitted call keeps holds after all of them;
* `holds_iff_kept`     what holds throughout a sequence iff its calls keep to something;
* `events`             what happens in the course of it, call by call.
-/

namespace Calls
variable {σ ω : Type*} (step : σ → ω → σ)

def run (s : σ) (ops : List ω) : σ := ops.foldl step s

theorem run_concat (s : σ) (ops : List ω) (op : ω) :
    run step s (ops ++ [op]) = step (run step s ops) op := by
  rw [run, List.foldl_append]
  rfl

/-- every call is made in a state that admits it -/
def Throughout (s : σ) (admits : σ → ω → Prop) (ops : List ω) : Prop :=
  ∀ before op, before ++ [op] <+: ops → admits (run step s before) op

variable {step} {s : σ} {admits kept : σ → ω → Prop}

theorem throughout_nil : Throughout step s admits [] := by
  intro before op h
  exact absurd (List.prefix_nil.1 h) (by simp)

theorem throughout_concat {ops : List ω} {op : ω} : Throughout step s admits (ops ++ [op]) ↔
    Throughout step s admits ops ∧ admits (run step s ops) op := by
  constructor
  · intro h
    exact ⟨fun before o hpre => h before o (hpre.trans (List.prefix_append _ _)),
      h ops op (List.prefix_refl _)⟩
  · rintro ⟨h, hop⟩ before o hpre
    rcases List.prefix_concat_iff.1 hpre with heq | hpre
    · obtain ⟨rfl, hlast⟩ := List.append_inj' heq rfl
      cases hlast
      exact hop
    · exact h before o hpre

theorem throughout_cons {ops : List ω} {op : ω} : Throughout step s admits (op :: ops) ↔
    admits s op ∧ Throughout step (step s op) admits ops := by
  constructor
  · intro h
    refine ⟨h [] op ⟨ops, rfl⟩, fun before o hpre => ?_⟩
    exact h (op :: before) o (List.cons_prefix_cons.2 ⟨rfl, hpre⟩)
  · rintro ⟨hop, h⟩ before o hpre
    rcases before with _ | ⟨b, before⟩
    · cases (List.cons_prefix_cons.1 hpre).1
      exact hop
    · obtain ⟨rfl, hrest⟩ := List.cons_prefix_cons.1 hpre
      exact h before o hrest

instance decidableThroughout [∀ s op, Decidable (admits s op)] :
    ∀ (s : σ) (ops : List ω), Decidable (Throughout step s admits ops)
  | _, [] => isTrue throughout_nil
  | s, op :: ops =>
    have : Decidable (Throughout step (step s op) admits ops) := decidableThroughout _ ops
    decidable_of_iff (admits s op ∧ Throughout step (step s op) admits ops) throughout_cons.symm

/-- **What every admitted call keeps** holds after all of them. -/
theorem run_invariant {I : σ → Prop} (h₀ : I s) (hstep : ∀ s op, I s → admits s op → I (step s op))
    {ops : List ω} (h : Throughout step s admits ops) : I (run step s ops) := by
  induction ops using List.reverseRecOn with
  | nil => exact h₀
  | append_singleton ops op ih =>
    rw [throughout_concat] at h
    rw [run_concat]
    exact hstep _ _ (ih h.1) h.2

/-- Where calls that are kept to keep `I`, and one that is not breaks `P`, `P` holds in every state
of a sequence iff all its calls are kept to. -/
theorem holds_iff_kept {I P : σ → Prop} (h₀ : I s) (hI : ∀ s, I s → P s)
    (hkept : ∀ s op, I s → admits s op → kept s op → I (step s op))
    (hbreak : ∀ s op, I s → admits s op → P (step s op) → kept s op)
    {ops : List ω} (h : Throughout step s admits ops) :
    (∀ before, before <+: ops → P (run step s before)) ↔ Throughout step s kept ops := by
  have hrun : ∀ {ops}, Throughout step s admits ops → Throughout step s kept ops →
      I (run step s ops) := by
    intro ops ha hk
    have hboth : Throughout step s (fun s op => admits s op ∧ kept s op) ops :=
      fun before op hpre => ⟨ha before op hpre, hk before op hpre⟩
    exact run_invariant h₀ (fun s op hs hop => hkept s op hs hop.1 hop.2) hboth
  constructor
  · intro hall
    induction ops using List.reverseRecOn with
    | nil => exact throughout_nil
    | append_singleton ops op ih =>
      rw [throughout_concat] at h ⊢
      have hbefore := ih h.1 fun before hpre =>
        hall before (hpre.trans (List.prefix_append _ _))
      refine ⟨hbefore, hbreak _ _ (hrun h.1 hbefore) h.2 ?_⟩
      have hlast := hall _ (List.prefix_refl _)
      rw [run_concat] at hlast
      exact hlast
  · intro hall before hpre
    exact hI _ (hrun (fun b op hb => h b op (hb.trans hpre)) fun b op hb => hall b op (hb.trans hpre))

/-! ## events -/

section
variable {ε : Type*} (step) (happens : σ → ω → List ε)

/-- what happens, each thing in the state its call is made in -/
def events : σ → List ω → List ε
  | _, [] => []
  | s, op :: ops => happens s op ++ events (step s op) ops

theorem events_concat (s : σ) (ops : List ω) (op : ω) :
    events step happens s (ops ++ [op]) = events step happens s ops ++ happens (run step s ops) op := by
  induction ops generalizing s with
  | nil => exact List.append_nil _
  | cons first ops ih =>
    show happens s first ++ events step happens (step s first) (ops ++ [op]) = _
    rw [ih, ← List.append_assoc]
    rfl

end

end Calls
