import Mathlib.Logic.Function.Basic
import Mathlib.Data.List.Basic

/-!
# Things in the custody of scopes

Scopes own things, and keep for each of them what will dispose of it; a scope that closes disposes
of what it owns, the newest first, while others go on.

* `Custody`       who owns what, in which phase every scope is, and what it has still to unwind;
* `Step`          what can happen, one thing at a time;
* `Sound`         everything that is owned is still to be disposed of by its owner, and only by it;
* `Sound.step`    every step keeps that;
* `Sound.closed`  so a closed scope owns nothing.
-/

namespace Py

inductive Phase
  | opened
  | closing
  | closed
  deriving DecidableEq, Repr

/-- `δ` are the things that can be owned, `σ` the scopes -/
structure Custody (δ σ : Type*) where
  owner : δ → Option σ
  phase : σ → Option Phase
  /-- what a scope will dispose of, the newest first -/
  stack : σ → List δ

namespace Custody
variable {δ σ : Type*} [DecidableEq δ] [DecidableEq σ] {c c' : Custody δ σ}

/-- one thing that happens -/
inductive Step (c c' : Custody δ σ) : Prop
  /-- a new scope -/
  | create (s : σ) : c.phase s = none → c.stack s = [] → c'.owner = c.owner →
    (∀ s', c'.phase s' = if s' = s then some .opened else c.phase s') → c'.stack = c.stack →
    Step c c'
  /-- an open scope gets something more to dispose of that nobody owns -/
  | push (s : σ) (d : δ) : c.phase s = some .opened → c.owner d = none → c'.owner = c.owner →
    c'.phase = c.phase → (∀ s', c'.stack s' = if s' = s then d :: c.stack s else c.stack s') →
    Step c c'
  /-- an open scope comes to own something new -/
  | register (s : σ) (d : δ) : c.phase s = some .opened → (∀ s', d ∉ c.stack s') →
    (∀ d', c'.owner d' = if d' = d then some s else c.owner d') → c'.phase = c.phase →
    (∀ s', c'.stack s' = if s' = s then d :: c.stack s else c.stack s') → Step c c'
  /-- some of what is owned is withdrawn -/
  | withdraw : (∀ d, c'.owner d = c.owner d ∨ c'.owner d = none) → c'.phase = c.phase →
    c'.stack = c.stack → Step c c'
  /-- a scope begins to close -/
  | close (s : σ) : c.phase s = some .opened → c'.owner = c.owner →
    (∀ s', c'.phase s' = if s' = s then some .closing else c.phase s') → c'.stack = c.stack →
    Step c c'
  /-- it disposes of the newest -/
  | unwind (s : σ) (d : δ) (rest : List δ) : c.phase s = some .closing → c.stack s = d :: rest →
    (∀ d', c'.owner d' = if d' = d then none else c.owner d') → c'.phase = c.phase →
    (∀ s', c'.stack s' = if s' = s then rest else c.stack s') → Step c c'
  /-- nothing is left to dispose of -/
  | finish (s : σ) : c.phase s = some .closing → c.stack s = [] → c'.owner = c.owner →
    (∀ s', c'.phase s' = if s' = s then some .closed else c.phase s') → c'.stack = c.stack →
    Step c c'

/-- it has closed, or there is no such scope -/
def Idle (c : Custody δ σ) (s : σ) : Prop := c.phase s = some .closed ∨ c.phase s = none

/-- everything that is owned is still to be disposed of by its owner, and only by it -/
structure Sound (c : Custody δ σ) : Prop where
  owned : ∀ {d s}, c.owner d = some s → d ∈ c.stack s
  placed : ∀ {d s o}, d ∈ c.stack s → c.owner d = some o → o = s
  drained : ∀ {s}, c.Idle s → c.stack s = []

omit [DecidableEq δ] [DecidableEq σ] in
theorem not_idle {s : σ} {p : Phase} (h : c.phase s = some p) (hp : p ≠ .closed) : ¬ c.Idle s := by
  rintro (hi | hi)
  · rw [h] at hi
    exact hp (Option.some.inj hi)
  · rw [h] at hi
    cases hi

omit [DecidableEq δ] [DecidableEq σ] in
/-- **A closed scope** owns nothing. -/
theorem Sound.closed (hs : c.Sound) {s : σ} (h : c.phase s = some .closed) (d : δ) :
    c.owner d ≠ some s := by
  intro hd
  have hin := hs.owned hd
  rw [hs.drained (Or.inl h)] at hin
  cases hin

/-! ## what every step keeps -/

theorem Step.owned (hs : c.Sound) (h : Step c c') {d : δ} {s : σ}
    (ho : c'.owner d = some s) : d ∈ c'.stack s := by
  cases h with
  | create _ _ _ howner _ hstack =>
    rw [hstack]
    exact hs.owned (howner ▸ ho)
  | push s' d' _ _ howner _ hstack =>
    have hin := hs.owned (howner ▸ ho)
    rw [hstack]
    split
    · rename_i hss
      subst hss
      exact List.mem_cons_of_mem _ hin
    · exact hin
  | register s' d' _ _ howner _ hstack =>
    rw [howner] at ho
    rw [hstack]
    split at ho
    · rename_i hd
      subst hd
      cases ho
      rw [if_pos rfl]
      exact List.mem_cons_self
    · split
      · rename_i hss
        subst hss
        exact List.mem_cons_of_mem _ (hs.owned ho)
      · exact hs.owned ho
  | withdraw howner _ hstack =>
    rw [hstack]
    rcases howner d with hsame | hnone
    · exact hs.owned (hsame ▸ ho)
    · rw [hnone] at ho
      cases ho
  | close _ _ howner _ hstack =>
    rw [hstack]
    exact hs.owned (howner ▸ ho)
  | unwind s' d' rest _ htop howner _ hstack =>
    rw [howner] at ho
    split at ho
    · cases ho
    · rename_i hd
      have hin := hs.owned ho
      rw [hstack]
      split
      · rename_i hss
        rw [hss, htop] at hin
        exact (List.mem_cons.1 hin).resolve_left hd
      · exact hin
  | finish _ _ _ howner _ hstack =>
    rw [hstack]
    exact hs.owned (howner ▸ ho)

theorem Step.placed (hs : c.Sound) (h : Step c c') {d : δ} {s o : σ}
    (hin : d ∈ c'.stack s) (ho : c'.owner d = some o) : o = s := by
  cases h with
  | create _ _ _ howner _ hstack => exact hs.placed (hstack ▸ hin) (howner ▸ ho)
  | push s' d' _ hd howner _ hstack =>
    rw [howner] at ho
    rw [hstack] at hin
    split at hin
    · rename_i hss
      subst hss
      rcases List.mem_cons.1 hin with rfl | hin
      · rw [hd] at ho
        cases ho
      · exact hs.placed hin ho
    · exact hs.placed hin ho
  | register s' d' _ hnew howner _ hstack =>
    rw [howner] at ho
    rw [hstack] at hin
    split at ho
    · rename_i hd
      subst hd
      cases ho
      split at hin
      · rename_i hss
        exact hss.symm
      · exact absurd hin (hnew s)
    · rename_i hd
      split at hin
      · rename_i hss
        subst hss
        exact hs.placed ((List.mem_cons.1 hin).resolve_left hd) ho
      · exact hs.placed hin ho
  | withdraw howner _ hstack =>
    rcases howner d with hsame | hnone
    · exact hs.placed (hstack ▸ hin) (hsame ▸ ho)
    · rw [hnone] at ho
      cases ho
  | close _ _ howner _ hstack => exact hs.placed (hstack ▸ hin) (howner ▸ ho)
  | unwind s' d' rest _ htop howner _ hstack =>
    rw [howner] at ho
    rw [hstack] at hin
    split at ho
    · cases ho
    · refine hs.placed ?_ ho
      split at hin
      · rename_i hss
        rw [hss, htop]
        exact List.mem_cons_of_mem _ hin
      · exact hin
  | finish _ _ _ howner _ hstack => exact hs.placed (hstack ▸ hin) (howner ▸ ho)

theorem Step.drained (hs : c.Sound) (h : Step c c') {s : σ}
    (hidle : c'.Idle s) : c'.stack s = [] := by
  have hbusy : ∀ {s' p} {l : List δ}, c.phase s' = some p → p ≠ .closed → c'.phase = c.phase →
      (if s = s' then l else c.stack s) = [] := by
    intro s' p l hp hne hphase
    have hidle' : c.Idle s := by
      unfold Idle at hidle ⊢
      rw [hphase] at hidle
      exact hidle
    rw [if_neg]
    · exact hs.drained hidle'
    · rintro rfl
      exact not_idle hp hne hidle'
  cases h with
  | create s' _ hempty _ hphase hstack =>
    rw [hstack]
    by_cases hss : s = s'
    · rw [hss]
      exact hempty
    · refine hs.drained ?_
      unfold Idle at hidle ⊢
      rw [hphase, if_neg hss] at hidle
      exact hidle
  | push s' d' hopen _ _ hphase hstack =>
    rw [hstack]
    exact hbusy hopen (by decide) hphase
  | register s' d' hopen _ _ hphase hstack =>
    rw [hstack]
    exact hbusy hopen (by decide) hphase
  | withdraw _ hphase hstack =>
    rw [hstack]
    refine hs.drained ?_
    unfold Idle at hidle ⊢
    rw [hphase] at hidle
    exact hidle
  | close s' hopen _ hphase hstack =>
    rw [hstack]
    have hss : s ≠ s' := by
      rintro rfl
      refine not_idle ?_ (by decide : Phase.closing ≠ .closed) hidle
      rw [hphase, if_pos rfl]
    refine hs.drained ?_
    unfold Idle at hidle ⊢
    rw [hphase, if_neg hss] at hidle
    exact hidle
  | unwind s' d' rest hclosing _ _ hphase hstack =>
    rw [hstack]
    exact hbusy hclosing (by decide) hphase
  | finish s' _ hempty _ hphase hstack =>
    rw [hstack]
    by_cases hss : s = s'
    · rw [hss]
      exact hempty
    · refine hs.drained ?_
      unfold Idle at hidle ⊢
      rw [hphase, if_neg hss] at hidle
      exact hidle

/-- **Every step keeps custody sound.** -/
theorem Sound.step (hs : c.Sound) (h : Step c c') : c'.Sound :=
  ⟨h.owned hs, h.placed hs, h.drained hs⟩

end Custody

end Py
