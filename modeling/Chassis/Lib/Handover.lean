import Chassis.Lib.Monitor

/-!
# Handing over to a new invariant

What a system keeps may be settled only in the course of a run, in the middle of a job: from some
point on it keeps one of a family of invariants, and which one is not known before.

* `Prog.Until`         a program keeps to its rules until it hands over to others of a family;
* `Prog.until_of_wp`, `Prog.Until.bind`   its rules;
* `Prog.Until.advance` where such a program is at its next await;
* `Handing`            what the tasks owe to each other before the handover, and after it;
* `Handing.run`        every configuration of a run is before the handover, or sound after it.
-/

namespace Coop
variable {σ ι τ κ : Type} {ρ : ι → Type} {ε α β : Type}

/-- `p` keeps to `R` up to a point from which some `R' k` and `P' k` are kept to; if it never comes
to one, it ends in `P`. -/
inductive Prog.Until (R : Rules σ ι ρ) (R' : κ → Rules σ ι ρ) (P : Except ε α → σ → Prop)
    (P' : κ → Except ε α → σ → Prop) : Prog σ ι ρ ε α → σ → Prop
  | now {p : Prog σ ι ρ ε α} {s : σ} (k : κ) : p.wp (R' k) (fun _ => P' k) s → Until R R' P P' p s
  | ret {a : α} {s : σ} : P (.ok a) s → Until R R' P P' (.ret a) s
  | raise {e : ε} {s : σ} : P (.error e) s → Until R R' P P' (.raise e) s
  | read {q : σ → Prog σ ι ρ ε α} {s : σ} : Until R R' P P' (q s) s → Until R R' P P' (.read q) s
  | write {q : Prog σ ι ρ ε α} {s s' : σ} : Until R R' P P' q s' → Until R R' P P' (.write s' q) s
  | await {l : ι} {q : ρ l → Prog σ ι ρ ε α} {s : σ} : R.holds s →
    (∀ s', R.interferes s s' → R.holds s' → ∀ a, R.admits l a → Until R R' P P' (q a) s') →
    Until R R' P P' (.await l q) s

variable {R : Rules σ ι ρ} {R' : κ → Rules σ ι ρ}

theorem Prog.until_of_wp {P : Except ε α → σ → Prop} {P' : κ → Except ε α → σ → Prop}
    {p : Prog σ ι ρ ε α} {s : σ} (h : p.wp R (fun _ => P) s) : p.Until R R' P P' s := by
  induction p generalizing s with
  | ret a => exact .ret h
  | raise e => exact .raise h
  | read q ih => exact .read (ih s h)
  | write s₁ q ih => exact .write (ih h)
  | await l q ih => exact .await h.1 fun s' hs' hh a ha => ih a (h.2 s' hs' hh a ha)

/-- **The rule of sequencing**: the handover comes in the first part, or later. -/
theorem Prog.Until.bind {A : Except ε α → σ → Prop} {A' : κ → Except ε α → σ → Prop}
    {P : Except ε β → σ → Prop} {P' : κ → Except ε β → σ → Prop} {p : Prog σ ι ρ ε α}
    {f : α → Prog σ ι ρ ε β} {s : σ} (h : p.Until R R' A A' s)
    (hok : ∀ a s', A (.ok a) s' → (f a).Until R R' P P' s')
    (herr : ∀ e s', A (.error e) s' → P (.error e) s')
    (hok' : ∀ k a s', A' k (.ok a) s' → (f a).wp (R' k) (fun _ => P' k) s')
    (herr' : ∀ k e s', A' k (.error e) s' → P' k (.error e) s') :
    (p >>= f).Until R R' P P' s := by
  show (p.bind f).Until R R' P P' s
  induction h with
  | now k h => exact .now k (Prog.wp_bind_of h (fun _ => hok' k) fun _ => herr' k)
  | ret ha => exact hok _ _ ha
  | raise he => exact .raise (herr _ _ he)
  | read _ ih => exact .read ih
  | write _ ih => exact .write ih
  | await hs _ ih => exact .await hs ih

theorem Prog.Until.advance {P : Except ε α → σ → Prop} {P' : κ → Except ε α → σ → Prop}
    {p : Prog σ ι ρ ε α} {s : σ} (h : p.Until R R' P P' s) : match p.advance s with
      | (.done r, s') => P r s' ∨ ∃ k, P' k r s'
      | (.waiting l q, s') => (R.holds s' ∧ ∀ s'', R.interferes s' s'' → R.holds s'' →
          ∀ a, R.admits l a → (q a).Until R R' P P' s'') ∨
          ∃ k, (Prog.await l q).wp (R' k) (fun _ => P' k) s' := by
  induction h with
  | @now p s k h =>
    have hstop := Prog.wp_advance h
    rcases hadv : p.advance s with ⟨r | ⟨l, q⟩, s'⟩
    · rw [hadv] at hstop
      exact Or.inr ⟨k, hstop⟩
    · rw [hadv] at hstop
      exact Or.inr ⟨k, hstop⟩
  | ret ha => exact Or.inl ha
  | raise he => exact Or.inl he
  | read _ ih => exact ih
  | write _ ih => exact ih
  | await hs h _ => exact Or.inl ⟨hs, h⟩

/-- Idle, the state satisfies `I`; else the job that has the lock has yet to hand over, if it does,
and was only interfered with since it was left. -/
def Config.Before (R : Rules σ ι ρ) (R' : κ → Rules σ ι ρ) (I : σ → Prop) (I' : κ → σ → Prop)
    (c : Config σ ι τ ρ ε) : Prop :=
  match c.running with
  | none => I c.state
  | some w => R.holds c.state ∧ ∃ s₁, R.interferes s₁ c.state ∧ ∀ s', R.interferes s₁ s' →
      R.holds s' → ∀ a, R.admits w.operation a →
        (w.next a).Until R R' (fun _ => I) (fun k _ => I' k) s'

/-- What the tasks without the lock owe to those with it before the handover, what every job does
by itself, and that all is well after the handover, whatever it was to. -/
structure Handing (R : Rules σ ι ρ) (R' : κ → Rules σ ι ρ) (acts : σ → σ → Prop)
    (jobs : τ → Prog σ ι ρ ε Unit) (I : σ → Prop) (I' : κ → σ → Prop) : Prop where
  refl : ∀ s, R.interferes s s
  trans : ∀ s s' s'', R.interferes s s' → R.holds s' → acts s' s'' → R.interferes s s''
  admits : ∀ l a, R.admits l a
  idle : ∀ s s', I s → acts s s' → I s'
  held : ∀ s s', R.holds s → acts s s' → R.holds s'
  job : ∀ j s, I s → (jobs j).Until R R' (fun _ => I) (fun k _ => I' k) s
  after : ∀ k, Monitored (R' k) acts jobs (I' k) fun _ _ => I' k

section
variable {acts : σ → σ → Prop} {jobs : τ → Prog σ ι ρ ε Unit} {I : σ → Prop} {I' : κ → σ → Prop}
  (hm : Handing R R' acts jobs I I')
include hm

theorem Handing.settle {j : τ} {p : Prog σ ι ρ ε Unit} {s : σ}
    (hp : p.Until R R' (fun _ => I) (fun k _ => I' k) s) {ev : Event τ ε}
    {c : Config σ ι τ ρ ε} (hc : settle j (p.advance s) = (ev, c)) :
    c.Before R R' I I' ∨ ∃ k, c.Sound (R' k) (I' k) fun _ _ => I' k := by
  have hstop := hp.advance
  rcases hadv : p.advance s with ⟨r | ⟨l, q⟩, s'⟩
  · rw [hadv] at hc hstop
    cases hc
    exact hstop
  · rw [hadv] at hc hstop
    cases hc
    refine hstop.imp (fun h => ⟨h.1, s', hm.refl s', h.2⟩) ?_
    rintro ⟨k, hk⟩
    exact ⟨k, hk.1, s', (hm.after k).refl s', hk⟩

theorem Handing.step {c c' : Config σ ι τ ρ ε} {ev : Event τ ε}
    (hc : c.Before R R' I I' ∨ ∃ k, c.Sound (R' k) (I' k) fun _ _ => I' k)
    (hstep : Step acts jobs c ev c') :
    c'.Before R R' I I' ∨ ∃ k, c'.Sound (R' k) (I' k) fun _ _ => I' k := by
  rcases hc with hc | ⟨k, hc⟩
  · cases hstep with
    | @act s s' r hact =>
      refine Or.inl ?_
      cases r with
      | none => exact hm.idle s s' hc hact
      | some w =>
        obtain ⟨hheld, s₁, hint, hnext⟩ := hc
        exact ⟨hm.held s s' hheld hact, s₁, hm.trans s₁ s s' hint hheld hact, hnext⟩
    | @start j s ev c' hset => exact hm.settle (hm.job j s hc) hset
    | @resume s w a ev c' _ hset =>
      obtain ⟨hheld, s₁, hint, hnext⟩ := hc
      exact hm.settle (hnext s hint hheld a (hm.admits _ a)) hset
  · exact Or.inr ⟨k, ((hm.after k).step hc hstep).2 fun _ _ _ hI => hI⟩

/-- **Before the handover or after it**: in every run from a state that satisfies `I`. -/
theorem Handing.run {s₀ : σ} (h₀ : I s₀) {c : Config σ ι τ ρ ε}
    {history : List (Event τ ε × Config σ ι τ ρ ε)} (hrun : Run acts jobs ⟨s₀, none⟩ history c) :
    c.Before R R' I I' ∨ ∃ k, c.Sound (R' k) (I' k) fun _ _ => I' k := by
  induction hrun with
  | refl => exact Or.inl h₀
  | tail _ hstep ih => exact hm.step ih hstep

end

end Coop
