import Mathlib.Logic.Relation
import Mathlib.Data.List.Basic

/-!
# Tasks that suspend

A task of a cooperative scheduler runs undisturbed between two awaits; at an await others run, and
what it waited for answers.

* `Prog σ ι ρ ε α`     programs over a state `σ`: they read it, write it, raise an `ε`, and await
                       an operation `l : ι`, which answers with a `ρ l`;
* `Prog.Outcome`       the runs of a program that nothing disturbs, with the answers they got;
* `Prog.execute`       such a run, computed;
* `Prog.wp R Q p s`    from `s`, under the rules `R`, every run of `p` ends in `Q`, and `R.holds`
                       whenever it suspends;
* `wp_bind`, `wp_tryCatch`, `wp_foldlM_ends`, `wp_mono`   its rules;
* `wp_outcome`         what it says of an undisturbed run;
* `Prog.embed`, `wp_embed`   a program where more can be awaited than what it awaits.
-/

namespace Coop

/-- a program: its synchronous parts read and write the state, its awaits let go of it -/
inductive Prog (σ ι : Type) (ρ : ι → Type) (ε α : Type)
  | ret (a : α)
  | raise (e : ε)
  | read (k : σ → Prog σ ι ρ ε α)
  | write (s : σ) (k : Prog σ ι ρ ε α)
  | await (l : ι) (k : ρ l → Prog σ ι ρ ε α)

/-- the awaited operations of a run and their answers, in order -/
abbrev Trace (ι : Type) (ρ : ι → Type) := List ((l : ι) × ρ l)

namespace Prog
variable {σ ι : Type} {ρ : ι → Type} {ε α β γ : Type}

def bind : Prog σ ι ρ ε α → (α → Prog σ ι ρ ε β) → Prog σ ι ρ ε β
  | .ret a, f => f a
  | .raise e, _ => .raise e
  | .read k, f => .read fun s => (k s).bind f
  | .write s k, f => .write s (k.bind f)
  | .await l k, f => .await l fun a => (k a).bind f

instance : Monad (Prog σ ι ρ ε) where
  pure := .ret
  bind := .bind

def tryCatch : Prog σ ι ρ ε α → (ε → Prog σ ι ρ ε α) → Prog σ ι ρ ε α
  | .ret a, _ => .ret a
  | .raise e, h => h e
  | .read k, h => .read fun s => (k s).tryCatch h
  | .write s k, h => .write s (k.tryCatch h)
  | .await l k, h => .await l fun a => (k a).tryCatch h

/-- what the state says -/
def gets (f : σ → α) : Prog σ ι ρ ε α := .read fun s => .ret (f s)

def modify (f : σ → σ) : Prog σ ι ρ ε Unit := .read fun s => .write (f s) (.ret ())

/-- waits for `l` -/
def perform (l : ι) : Prog σ ι ρ ε (ρ l) := .await l .ret

/-- a computation that does not suspend: its value, or the error it raises -/
def ofExcept : Except ε α → Prog σ ι ρ ε α
  | .ok a => .ret a
  | .error e => .raise e

/-! ## undisturbed runs -/

/-- `p` started in `s` gets the answers of `tr` and ends with `r` in `s'` -/
def Outcome : Prog σ ι ρ ε α → σ → Trace ι ρ → Except ε α → σ → Prop
  | .ret a, s, tr, r, s' => tr = [] ∧ r = .ok a ∧ s' = s
  | .raise e, s, tr, r, s' => tr = [] ∧ r = .error e ∧ s' = s
  | .read k, s, tr, r, s' => (k s).Outcome s tr r s'
  | .write s₁ k, _, tr, r, s' => k.Outcome s₁ tr r s'
  | .await l k, s, tr, r, s' => ∃ a tr', tr = ⟨l, a⟩ :: tr' ∧ (k a).Outcome s tr' r s'

/-- **Runs of a sequence.** -/
theorem outcome_bind {p : Prog σ ι ρ ε α} {f : α → Prog σ ι ρ ε β} {s s' : σ}
    {tr : Trace ι ρ} {r : Except ε β} (h : (p >>= f).Outcome s tr r s') :
    (∃ tr₁ a s₁ tr₂, tr = tr₁ ++ tr₂ ∧ p.Outcome s tr₁ (.ok a) s₁ ∧ (f a).Outcome s₁ tr₂ r s') ∨
      ∃ e, r = .error e ∧ p.Outcome s tr (.error e) s' := by
  replace h : (p.bind f).Outcome s tr r s' := h
  induction p generalizing s tr with
  | ret a => exact Or.inl ⟨[], a, s, tr, rfl, ⟨rfl, rfl, rfl⟩, h⟩
  | raise e =>
    obtain ⟨rfl, rfl, rfl⟩ := h
    exact Or.inr ⟨e, rfl, rfl, rfl, rfl⟩
  | read k ih => exact ih s h
  | write s₁ k ih => exact ih h
  | await l k ih =>
    obtain ⟨a, tr', rfl, h⟩ := h
    rcases ih a h with ⟨tr₁, b, s₁, tr₂, rfl, h₁, h₂⟩ | ⟨e, hr, h₁⟩
    · exact Or.inl ⟨⟨l, a⟩ :: tr₁, b, s₁, tr₂, rfl, ⟨a, tr₁, rfl, h₁⟩, h₂⟩
    · exact Or.inr ⟨e, hr, a, tr', rfl, h₁⟩

/-- **A run is determined by its answers**, whatever follows them. -/
theorem Outcome.unique {p : Prog σ ι ρ ε α} {s s₁ s₂ : σ} {tr₁ tr₂ rest₁ rest₂ : Trace ι ρ}
    {r₁ r₂ : Except ε α} (h₁ : p.Outcome s tr₁ r₁ s₁) (h₂ : p.Outcome s tr₂ r₂ s₂)
    (h : tr₁ ++ rest₁ = tr₂ ++ rest₂) : tr₁ = tr₂ ∧ r₁ = r₂ ∧ s₁ = s₂ := by
  induction p generalizing s tr₁ tr₂ with
  | ret a =>
    obtain ⟨rfl, rfl, rfl⟩ := h₁
    obtain ⟨rfl, rfl, rfl⟩ := h₂
    exact ⟨rfl, rfl, rfl⟩
  | raise e =>
    obtain ⟨rfl, rfl, rfl⟩ := h₁
    obtain ⟨rfl, rfl, rfl⟩ := h₂
    exact ⟨rfl, rfl, rfl⟩
  | read k ih => exact ih s h₁ h₂ h
  | write s₁ k ih => exact ih h₁ h₂ h
  | await l k ih =>
    obtain ⟨a, tr₁', rfl, h₁⟩ := h₁
    obtain ⟨b, tr₂', rfl, h₂⟩ := h₂
    obtain ⟨hab, hrest⟩ := List.cons.inj h
    obtain ⟨-, hab⟩ := Sigma.mk.inj hab
    obtain rfl := eq_of_heq hab
    obtain ⟨rfl, rfl, rfl⟩ := ih a h₁ h₂ hrest
    exact ⟨rfl, rfl, rfl⟩

/-- runs a program, given the answers -/
def execute (answer : (l : ι) → ρ l) : Prog σ ι ρ ε α → σ → Trace ι ρ × Except ε α × σ
  | .ret a, s => ([], .ok a, s)
  | .raise e, s => ([], .error e, s)
  | .read k, s => (k s).execute answer s
  | .write s₁ k, _ => k.execute answer s₁
  | .await l k, s =>
    let run := (k (answer l)).execute answer s
    (⟨l, answer l⟩ :: run.1, run.2)

theorem execute_outcome (answer : (l : ι) → ρ l) (p : Prog σ ι ρ ε α) (s : σ) :
    p.Outcome s (p.execute answer s).1 (p.execute answer s).2.1 (p.execute answer s).2.2 := by
  induction p generalizing s with
  | ret a => exact ⟨rfl, rfl, rfl⟩
  | raise e => exact ⟨rfl, rfl, rfl⟩
  | read k ih => exact ih s s
  | write s₁ k ih => exact ih s₁
  | await l k ih => exact ⟨answer l, _, rfl, ih (answer l) s⟩

theorem execute_bind (answer : (l : ι) → ρ l) (p : Prog σ ι ρ ε α) (f : α → Prog σ ι ρ ε β)
    (s : σ) : (p >>= f).execute answer s = match p.execute answer s with
      | (tr, .ok a, s') => (tr ++ ((f a).execute answer s').1, ((f a).execute answer s').2)
      | (tr, .error e, s') => (tr, .error e, s') := by
  show (p.bind f).execute answer s = _
  induction p generalizing s with
  | ret a => rfl
  | raise e => rfl
  | read k ih => exact ih s s
  | write s₁ k ih => exact ih s₁
  | await l k ih =>
    show (_, _) = _
    rw [ih (answer l) s]
    show _ = (match (⟨l, answer l⟩ :: ((k (answer l)).execute answer s).1,
      ((k (answer l)).execute answer s).2) with
      | (tr, .ok a, s') => (tr ++ ((f a).execute answer s').1, ((f a).execute answer s').2)
      | (tr, .error e, s') => (tr, .error e, s'))
    rcases (k (answer l)).execute answer s with ⟨tr, r, s'⟩
    cases r <;> rfl

/-! ## what every run does -/

end Prog

/-- What a task may count on, and what it owes to the others. -/
structure Rules (σ ι : Type) (ρ : ι → Type) where
  /-- what the others may do to the state while the task is suspended -/
  interferes : σ → σ → Prop
  /-- the answers an operation may give -/
  admits : (l : ι) → ρ l → Prop
  /-- what holds of the state whenever the task suspends -/
  holds : σ → Prop

/-- nobody interferes -/
def Rules.alone : Rules σ ι ρ where
  interferes := fun s s' => s' = s
  admits := fun _ _ => True
  holds := fun _ => True

namespace Prog
variable {σ ι : Type} {ρ : ι → Type} {ε α β γ : Type}

/-- the weakest precondition -/
def wp (R : Rules σ ι ρ) : (Trace ι ρ → Except ε α → σ → Prop) → Prog σ ι ρ ε α → σ → Prop
  | Q, .ret a, s => Q [] (.ok a) s
  | Q, .raise e, s => Q [] (.error e) s
  | Q, .read k, s => wp R Q (k s) s
  | Q, .write s' k, _ => wp R Q k s'
  | Q, .await l k, s => R.holds s ∧ ∀ s', R.interferes s s' → R.holds s' → ∀ a, R.admits l a →
      wp R (fun tr => Q (⟨l, a⟩ :: tr)) (k a) s'

variable {R : Rules σ ι ρ}

@[simp] theorem wp_pure {Q : Trace ι ρ → Except ε α → σ → Prop} (a : α) (s : σ) :
    wp R Q (pure a : Prog σ ι ρ ε α) s ↔ Q [] (.ok a) s := Iff.rfl

@[simp] theorem wp_ret {Q : Trace ι ρ → Except ε α → σ → Prop} (a : α) (s : σ) :
    wp R Q (.ret a : Prog σ ι ρ ε α) s ↔ Q [] (.ok a) s := Iff.rfl

@[simp] theorem wp_raise {Q : Trace ι ρ → Except ε α → σ → Prop} (e : ε) (s : σ) :
    wp R Q (.raise e : Prog σ ι ρ ε α) s ↔ Q [] (.error e) s := Iff.rfl

@[simp] theorem wp_gets {Q : Trace ι ρ → Except ε α → σ → Prop} (f : σ → α) (s : σ) :
    wp R Q (gets f : Prog σ ι ρ ε α) s ↔ Q [] (.ok (f s)) s := Iff.rfl

@[simp] theorem wp_modify {Q : Trace ι ρ → Except ε Unit → σ → Prop} (f : σ → σ) (s : σ) :
    wp R Q (modify f : Prog σ ι ρ ε Unit) s ↔ Q [] (.ok ()) (f s) := Iff.rfl

@[simp] theorem wp_perform {l : ι} {Q : Trace ι ρ → Except ε (ρ l) → σ → Prop} (s : σ) :
    wp R Q (perform l : Prog σ ι ρ ε (ρ l)) s ↔
      R.holds s ∧ ∀ s', R.interferes s s' → R.holds s' → ∀ a, R.admits l a →
        Q [⟨l, a⟩] (.ok a) s' := Iff.rfl

@[simp] theorem wp_ofExcept {Q : Trace ι ρ → Except ε α → σ → Prop} (x : Except ε α) (s : σ) :
    wp R Q (ofExcept x : Prog σ ι ρ ε α) s ↔ Q [] x s := by
  cases x <;> exact Iff.rfl

theorem wp_mono {Q Q' : Trace ι ρ → Except ε α → σ → Prop} {p : Prog σ ι ρ ε α} {s : σ}
    (h : wp R Q p s) (hq : ∀ tr r s', Q tr r s' → Q' tr r s') : wp R Q' p s := by
  induction p generalizing s Q Q' with
  | ret a => exact hq _ _ _ h
  | raise e => exact hq _ _ _ h
  | read k ih => exact ih s h hq
  | write s₁ k ih => exact ih h hq
  | await l k ih =>
    obtain ⟨hs, h⟩ := h
    exact ⟨hs, fun s' hs' hh a ha => ih a (h s' hs' hh a ha) fun tr => hq _⟩

theorem wp_stricter {R' : Rules σ ι ρ} {Q : Trace ι ρ → Except ε α → σ → Prop}
    {p : Prog σ ι ρ ε α} {s : σ} (h : wp R Q p s)
    (hinterferes : ∀ s s', R'.interferes s s' → R.interferes s s')
    (hadmits : ∀ l a, R'.admits l a → R.admits l a) (hholds : ∀ s, R'.holds s ↔ R.holds s) :
    wp R' Q p s := by
  induction p generalizing s Q with
  | ret a => exact h
  | raise e => exact h
  | read k ih => exact ih s h
  | write s₁ k ih => exact ih h
  | await l k ih =>
    refine ⟨(hholds s).2 h.1, fun s' hs' hh a ha => ?_⟩
    exact ih a (h.2 s' (hinterferes s s' hs') ((hholds s').1 hh) a (hadmits l a ha))

theorem wp_and {Q Q' : Trace ι ρ → Except ε α → σ → Prop} {p : Prog σ ι ρ ε α} {s : σ}
    (h : wp R Q p s) (h' : wp R Q' p s) : wp R (fun tr r s' => Q tr r s' ∧ Q' tr r s') p s := by
  induction p generalizing s Q Q' with
  | ret a => exact ⟨h, h'⟩
  | raise e => exact ⟨h, h'⟩
  | read k ih => exact ih s h h'
  | write s₁ k ih => exact ih h h'
  | await l k ih =>
    exact ⟨h.1, fun s' hs' hh a ha => ih a (h.2 s' hs' hh a ha) (h'.2 s' hs' hh a ha)⟩

theorem wp_true (hholds : ∀ s, R.holds s) (p : Prog σ ι ρ ε α) (s : σ) :
    wp R (fun _ _ _ => True) p s := by
  induction p generalizing s with
  | ret a => trivial
  | raise e => trivial
  | read k ih => exact ih s s
  | write s₁ k ih => exact ih s₁
  | await l k ih => exact ⟨hholds s, fun s' _ _ a _ => ih a s'⟩

theorem wp_beside {R' : Rules σ ι ρ} {Q Q' : Trace ι ρ → Except ε α → σ → Prop}
    {p : Prog σ ι ρ ε α} {s : σ} (h : wp R Q p s) (h' : wp R' Q' p s)
    (hinterferes : ∀ s s', R.interferes s s' → R'.interferes s s')
    (hadmits : ∀ l a, R.admits l a → R'.admits l a) (hholds : ∀ s, R'.holds s) :
    wp R (fun tr r s' => Q tr r s' ∧ Q' tr r s') p s := by
  induction p generalizing s Q Q' with
  | ret a => exact ⟨h, h'⟩
  | raise e => exact ⟨h, h'⟩
  | read k ih => exact ih s h h'
  | write s₁ k ih => exact ih h h'
  | await l k ih =>
    refine ⟨h.1, fun s' hs' hh a ha => ?_⟩
    exact ih a (h.2 s' hs' hh a ha)
      (h'.2 s' (hinterferes s s' hs') (hholds s') a (hadmits l a ha))

/-- **The rule of sequencing.** -/
theorem wp_bind {Q : Trace ι ρ → Except ε β → σ → Prop} {p : Prog σ ι ρ ε α}
    {f : α → Prog σ ι ρ ε β} {s : σ} : wp R Q (p >>= f) s ↔
      wp R (fun tr r s' => match r with
        | .ok a => wp R (fun tr' => Q (tr ++ tr')) (f a) s'
        | .error e => Q tr (.error e) s') p s := by
  show wp R Q (p.bind f) s ↔ _
  induction p generalizing s Q with
  | ret a => rfl
  | raise e => rfl
  | read k ih => exact ih s
  | write s₁ k ih => exact ih
  | await l k ih =>
    refine and_congr_right fun _ => forall_congr' fun s' => forall_congr' fun _ =>
      forall_congr' fun _ => forall_congr' fun a => forall_congr' fun _ => ?_
    exact ih a

/-- **The rule of handlers.** -/
theorem wp_tryCatch {Q : Trace ι ρ → Except ε α → σ → Prop} {p : Prog σ ι ρ ε α}
    {h : ε → Prog σ ι ρ ε α} {s : σ} : wp R Q (p.tryCatch h) s ↔
      wp R (fun tr r s' => match r with
        | .ok a => Q tr (.ok a) s'
        | .error e => wp R (fun tr' => Q (tr ++ tr')) (h e) s') p s := by
  induction p generalizing s Q with
  | ret a => rfl
  | raise e => rfl
  | read k ih => exact ih s
  | write s₁ k ih => exact ih
  | await l k ih =>
    refine and_congr_right fun _ => forall_congr' fun s' => forall_congr' fun _ =>
      forall_congr' fun _ => forall_congr' fun a => forall_congr' fun _ => ?_
    exact ih a

/-- Sequencing, when only the runs to the end of `p` are of interest. -/
theorem wp_bind_of {Q : Trace ι ρ → Except ε β → σ → Prop} {p : Prog σ ι ρ ε α}
    {f : α → Prog σ ι ρ ε β} {s : σ} {P : Trace ι ρ → Except ε α → σ → Prop} (hp : wp R P p s)
    (hok : ∀ tr a s', P tr (.ok a) s' → wp R (fun tr' => Q (tr ++ tr')) (f a) s')
    (herr : ∀ tr e s', P tr (.error e) s' → Q tr (.error e) s') : wp R Q (p >>= f) s := by
  refine wp_bind.2 (wp_mono hp fun tr r s' h => ?_)
  cases r with
  | ok a => exact hok tr a s' h
  | error e => exact herr tr e s' h

theorem wp_gets_bind {Q : Trace ι ρ → Except ε β → σ → Prop} {f : σ → α}
    {k : α → Prog σ ι ρ ε β} {s : σ} : wp R Q (gets f >>= k) s ↔ wp R Q (k (f s)) s := Iff.rfl

theorem wp_modify_bind {Q : Trace ι ρ → Except ε β → σ → Prop} {f : σ → σ}
    {k : Unit → Prog σ ι ρ ε β} {s : σ} : wp R Q (modify f >>= k) s ↔ wp R Q (k ()) (f s) := Iff.rfl

theorem wp_perform_bind {Q : Trace ι ρ → Except ε β → σ → Prop} {l : ι}
    {k : ρ l → Prog σ ι ρ ε β} {s : σ} : wp R Q (perform l >>= k) s ↔
      R.holds s ∧ ∀ s', R.interferes s s' → R.holds s' → ∀ a, R.admits l a →
        wp R (fun tr => Q (⟨l, a⟩ :: tr)) (k a) s' := Iff.rfl

theorem wp_ofExcept_bind {Q : Trace ι ρ → Except ε β → σ → Prop} {x : Except ε α}
    {f : α → Prog σ ι ρ ε β} {s : σ} (hok : ∀ a, x = .ok a → wp R Q (f a) s)
    (herr : ∀ e, x = .error e → Q [] (.error e) s) : wp R Q (ofExcept x >>= f) s := by
  cases x with
  | ok a => exact hok a rfl
  | error e => exact herr e rfl

theorem wp_forM {f : β → Prog σ ι ρ ε PUnit} {Q : Trace ι ρ → Except ε PUnit → σ → Prop}
    (Inv : Trace ι ρ → List β → σ → Prop)
    (hturn : ∀ tr b l s, Inv tr (b :: l) s →
      wp R (fun tr' r s' => match r with
        | .ok _ => Inv (tr ++ tr') l s'
        | .error e => Q (tr ++ tr') (.error e) s') (f b) s)
    (hdone : ∀ tr s, Inv tr [] s → Q tr (.ok ⟨⟩) s)
    {tr : Trace ι ρ} {l : List β} {s : σ} (h : Inv tr l s) :
    wp R (fun tr' => Q (tr ++ tr')) (l.forM f) s := by
  induction l generalizing tr s with
  | nil =>
    show Q (tr ++ []) (.ok ⟨⟩) s
    rw [List.append_nil]
    exact hdone tr s h
  | cons b l ih =>
    show wp R _ (f b >>= fun _ => l.forM f) s
    refine wp_bind_of (hturn tr b l s h) (fun tr' _ s' hc => ?_) (fun tr' e s' he => he)
    have hrest := ih hc
    simpa only [List.append_assoc] using hrest

/-- a program ends with a value and in a state that satisfy `A`, or raises in one that satisfies
`E` -/
def ends (A : α → σ → Prop) (E : σ → Prop) (_ : Trace ι ρ) (r : Except ε α) (s : σ) : Prop :=
  match r with
  | .ok a => A a s
  | .error _ => E s

/-- Loops whose invariant does not look back. -/
theorem wp_foldlM_ends {f : γ → β → Prog σ ι ρ ε γ} {A : γ → σ → Prop} {E : σ → Prop}
    (hturn : ∀ c b s, A c s → wp R (ends A E) (f c b) s) {l : List β} {c : γ} {s : σ}
    (h : A c s) : wp R (ends A E) (l.foldlM f c) s := by
  induction l generalizing c s with
  | nil => exact h
  | cons b l ih =>
    rw [List.foldlM_cons]
    exact wp_bind_of (hturn c b s h) (fun _ _ _ hc => ih hc) (fun _ _ _ he => he)

/-- Loops whose invariant speaks of what is left of the list. -/
theorem wp_foldlM_rest {f : γ → β → Prog σ ι ρ ε γ} {A : List β → γ → σ → Prop} {E : σ → Prop}
    (hturn : ∀ c b l s, A (b :: l) c s → wp R (ends (A l) E) (f c b) s) {l : List β} {c : γ} {s : σ}
    (h : A l c s) : wp R (ends (A []) E) (l.foldlM f c) s := by
  induction l generalizing c s with
  | nil => exact h
  | cons b l ih =>
    rw [List.foldlM_cons]
    exact wp_bind_of (hturn c b l s h) (fun _ _ _ hc => ih hc) (fun _ _ _ he => he)

/-- Loops without an accumulator, whose invariant speaks of what is left of the list. -/
theorem wp_forM_ends {f : β → Prog σ ι ρ ε PUnit} {A : List β → σ → Prop} {E : σ → Prop}
    (hturn : ∀ b l s, A (b :: l) s → wp R (ends (fun _ => A l) E) (f b) s) {l : List β} {s : σ}
    (h : A l s) : wp R (ends (fun _ => A []) E) (l.forM f) s := by
  induction l generalizing s with
  | nil => exact h
  | cons b l ih =>
    exact wp_bind_of (hturn b l s h) (fun _ _ _ hc => ih hc) (fun _ _ _ he => he)

/-- **What a weakest precondition says of an undisturbed run.** -/
theorem wp_outcome {Q : Trace ι ρ → Except ε α → σ → Prop} {p : Prog σ ι ρ ε α} {s s' : σ}
    {tr : Trace ι ρ} {r : Except ε α} (h : wp R Q p s) (hrun : p.Outcome s tr r s')
    (hrefl : ∀ s, R.interferes s s) (hadm : ∀ a ∈ tr, R.admits a.1 a.2) : Q tr r s' := by
  induction p generalizing s tr Q with
  | ret a =>
    obtain ⟨rfl, rfl, rfl⟩ := hrun
    exact h
  | raise e =>
    obtain ⟨rfl, rfl, rfl⟩ := hrun
    exact h
  | read k ih => exact ih s h hrun hadm
  | write s₁ k ih => exact ih h hrun hadm
  | await l k ih =>
    obtain ⟨a, tr', rfl, hrun⟩ := hrun
    have hnow := h.2 s (hrefl s) h.1 a (hadm _ List.mem_cons_self)
    exact @ih a (fun tr => Q (⟨l, a⟩ :: tr)) s tr' hnow hrun
      fun x hx => hadm x (List.mem_cons_of_mem _ hx)

/-- what holds of the runs that nothing disturbs -/
theorem wp_alone {Q : Trace ι ρ → Except ε α → σ → Prop} {p : Prog σ ι ρ ε α} {s s' : σ}
    {tr : Trace ι ρ} {r : Except ε α} (h : wp .alone Q p s) (hrun : p.Outcome s tr r s') :
    Q tr r s' := wp_outcome h hrun (fun _ => rfl) fun _ _ => trivial

theorem wp_of_outcome {Q : Trace ι ρ → Except ε α → σ → Prop} {p : Prog σ ι ρ ε α} {s : σ}
    (h : ∀ tr r s', p.Outcome s tr r s' → Q tr r s') : wp .alone Q p s := by
  induction p generalizing s Q with
  | ret a => exact h [] _ s ⟨rfl, rfl, rfl⟩
  | raise e => exact h [] _ s ⟨rfl, rfl, rfl⟩
  | read k ih => exact ih s h
  | write s₁ k ih => exact ih h
  | await l k ih =>
    refine ⟨trivial, fun s' he _ a _ => ?_⟩
    obtain rfl : s' = s := he
    exact ih a fun tr r s'' hrun => h _ r s'' ⟨a, tr, rfl, hrun⟩

/-! ## among more operations -/

section
variable {κ : Type} {ρ' : κ → Type}

/-- the same program, where more can be awaited -/
def embed : Prog σ ι ρ ε α → Prog σ (ι ⊕ κ) (Sum.elim ρ ρ') ε α
  | .ret a => .ret a
  | .raise e => .raise e
  | .read k => .read fun s => (k s).embed
  | .write s k => .write s k.embed
  | .await l k => .await (.inl l) fun a => (k a).embed

end
end Prog

section
variable {σ ι κ : Type} {ρ : ι → Type} {ρ' : κ → Type} {ε α : Type}

def Rules.part (R : Rules σ (ι ⊕ κ) (Sum.elim ρ ρ')) : Rules σ ι ρ where
  interferes := R.interferes
  admits := fun l a => R.admits (.inl l) a
  holds := R.holds

def Trace.embed (tr : Trace ι ρ) : Trace (ι ⊕ κ) (Sum.elim ρ ρ') :=
  tr.map fun x => ⟨.inl x.1, x.2⟩

/-- **The rule of embedding.** -/
theorem Prog.wp_embed {R : Rules σ (ι ⊕ κ) (Sum.elim ρ ρ')}
    {Q : Trace (ι ⊕ κ) (Sum.elim ρ ρ') → Except ε α → σ → Prop} {p : Prog σ ι ρ ε α} {s : σ} :
    wp R Q p.embed s ↔ wp R.part (fun tr => Q tr.embed) p s := by
  induction p generalizing s Q with
  | ret a => rfl
  | raise e => rfl
  | read k ih => exact ih s
  | write s₁ k ih => exact ih
  | await l k ih =>
    refine and_congr_right fun _ => forall_congr' fun s' => forall_congr' fun _ =>
      forall_congr' fun _ => forall_congr' fun a => forall_congr' fun _ => ?_
    exact ih a

end
end Coop
