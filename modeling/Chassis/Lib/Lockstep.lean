import Chassis.Lib.Task

/-!
# Two runs against one environment

Two programs run in two states, and whoever answers them answers what is the same question to both
in the same way.

* `Dialogue`         which operations are put to the environment, and which are the same question;
* `Agreed`           two lists of answers differ only after the questions did;
* `Lockstep`         from related states, both programs end alike, and with related values;
* `lockstep_bind`, `lockstep_foldlM`, `lockstep_await`   its rules.
-/

namespace Coop

/-- what is put to the environment, and what is the same question -/
structure Dialogue (ι : Type) where
  asks : ι → Bool
  same : ι → ι → Prop

namespace Dialogue
variable {ι : Type} {ρ : ι → Type} (D : Dialogue ι)

/-- what the environment answered -/
def heard (tr : Trace ι ρ) : Trace ι ρ := tr.filter fun a => D.asks a.1

@[simp] theorem heard_append (tr tr' : Trace ι ρ) :
    D.heard (tr ++ tr') = D.heard tr ++ D.heard tr' := List.filter_append tr tr'

theorem heard_cons {a : (l : ι) × ρ l} (h : D.asks a.1 = true) (tr : Trace ι ρ) :
    D.heard (a :: tr) = a :: D.heard tr := List.filter_cons_of_pos h

/-- as long as the questions are the same, so are the answers -/
def Agreed : Trace ι ρ → Trace ι ρ → Prop
  | a :: tr, b :: tr' => D.same a.1 b.1 → HEq a.2 b.2 ∧ Agreed tr tr'
  | [], _ | _, [] => True

end Dialogue

namespace Prog
variable {σ ι : Type} {ρ : ι → Type} {ε α β γ δ κ : Type}

/-- both values, related, or the same error -/
inductive Alike (A : α → β → Prop) : Except ε α → Except ε β → Prop
  | ok {a : α} {b : β} (related : A a b) : Alike A (.ok a) (.ok b)
  | error (e : ε) : Alike A (.error e) (.error e)

/-- From states related by `E`, both programs end in such states, and `Alike`; what was agreed
before is agreed of what follows. -/
structure Lockstep (D : Dialogue ι) (E : σ → σ → Prop) (A : α → β → Prop)
    (p : Prog σ ι ρ ε α) (q : Prog σ ι ρ ε β) : Prop where
  run : ∀ {s s' tr tr' r r' t t'}, E s s' → p.Outcome s tr r t → q.Outcome s' tr' r' t' →
    ∀ {u u' : Trace ι ρ}, D.Agreed (D.heard (tr ++ u)) (D.heard (tr' ++ u')) →
      Alike A r r' ∧ E t t' ∧ D.Agreed (D.heard u) (D.heard u')

variable {D : Dialogue ι} {E : σ → σ → Prop}

/-- what becomes of two whole runs -/
theorem Lockstep.alike {A : α → β → Prop} {p : Prog σ ι ρ ε α} {q : Prog σ ι ρ ε β}
    (h : Lockstep D E A p q) {s s' t t' : σ} {tr tr' : Trace ι ρ} {r : Except ε α}
    {r' : Except ε β} (hE : E s s') (hp : p.Outcome s tr r t) (hq : q.Outcome s' tr' r' t')
    (hagreed : D.Agreed (D.heard tr) (D.heard tr')) : Alike A r r' := by
  rw [← List.append_nil tr, ← List.append_nil tr'] at hagreed
  exact (h.run hE hp hq hagreed).1

theorem lockstep_pure {A : α → β → Prop} {a : α} {b : β} (h : A a b) :
    Lockstep D E A (.ret a : Prog σ ι ρ ε α) (.ret b) := by
  refine ⟨fun {s s' tr tr' r r' t t'} hE hp hq {u u'} hu => ?_⟩
  obtain ⟨rfl, rfl, rfl⟩ := hp
  obtain ⟨rfl, rfl, rfl⟩ := hq
  exact ⟨.ok h, hE, hu⟩

theorem lockstep_raise {A : α → β → Prop} (e : ε) :
    Lockstep D E A (.raise e : Prog σ ι ρ ε α) (.raise e) := by
  refine ⟨fun {s s' tr tr' r r' t t'} hE hp hq {u u'} hu => ?_⟩
  obtain ⟨rfl, rfl, rfl⟩ := hp
  obtain ⟨rfl, rfl, rfl⟩ := hq
  exact ⟨.error e, hE, hu⟩

theorem lockstep_ofExcept (x : Except ε α) :
    Lockstep D E Eq (ofExcept x : Prog σ ι ρ ε α) (ofExcept x) := by
  cases x with
  | ok a => exact lockstep_pure rfl
  | error e => exact lockstep_raise e

theorem lockstep_await {A : α → β → Prop} {l l' : ι} {k : ρ l → Prog σ ι ρ ε α}
    {k' : ρ l' → Prog σ ι ρ ε β} (hl : D.asks l = true) (hl' : D.asks l' = true)
    (hsame : D.same l l') (hk : ∀ a b, HEq a b → Lockstep D E A (k a) (k' b)) :
    Lockstep D E A (.await l k) (.await l' k') := by
  refine ⟨fun {s s' tr tr' r r' t t'} hE hp hq {u u'} hu => ?_⟩
  obtain ⟨a, tr, rfl, hp⟩ := hp
  obtain ⟨b, tr', rfl, hq⟩ := hq
  rw [List.cons_append, List.cons_append, D.heard_cons hl, D.heard_cons hl'] at hu
  obtain ⟨hab, hu⟩ := hu hsame
  exact (hk a b hab).run hE hp hq hu

theorem lockstep_read {A : α → β → Prop} {k : σ → Prog σ ι ρ ε α} {k' : σ → Prog σ ι ρ ε β}
    (hk : ∀ s s', E s s' → Lockstep D E A (k s) (k' s')) :
    Lockstep D E A (.read k) (.read k') :=
  ⟨fun hE hp hq _ _ hu => (hk _ _ hE).run hE hp hq hu⟩

theorem lockstep_ask {A : α → β → Prop} {l l' : ι} {k : ρ l → Prog σ ι ρ ε α}
    {k' : ρ l' → Prog σ ι ρ ε β} (hl : D.asks l = true) (hl' : D.asks l' = true)
    (hsame : D.same l l') (hk : ∀ a b, HEq a b → Lockstep D E A (k a) (k' b)) :
    Lockstep D E A (perform l >>= k) (perform l' >>= k') := lockstep_await hl hl' hsame hk

theorem lockstep_look {A : α → β → Prop} {f : σ → γ} {k : γ → Prog σ ι ρ ε α}
    {k' : γ → Prog σ ι ρ ε β} (hk : ∀ s s', E s s' → Lockstep D E A (k (f s)) (k' (f s'))) :
    Lockstep D E A (gets f >>= k) (gets f >>= k') := lockstep_read hk

theorem lockstep_modify {f g : σ → σ} (h : ∀ s s', E s s' → E (f s) (g s')) :
    Lockstep D E Eq (modify f : Prog σ ι ρ ε Unit) (modify g) := by
  refine ⟨fun {s s' tr tr' r r' t t'} hE hp hq {u u'} hu => ?_⟩
  obtain ⟨rfl, rfl, rfl⟩ := hp
  obtain ⟨rfl, rfl, rfl⟩ := hq
  exact ⟨.ok rfl, h s s' hE, hu⟩

/-- **The rule of sequencing.** -/
theorem lockstep_bind {A : α → β → Prop} {B : γ → δ → Prop} {p : Prog σ ι ρ ε α}
    {q : Prog σ ι ρ ε β} {f : α → Prog σ ι ρ ε γ} {g : β → Prog σ ι ρ ε δ}
    (hpq : Lockstep D E A p q) (hfg : ∀ a b, A a b → Lockstep D E B (f a) (g b)) :
    Lockstep D E B (p >>= f) (q >>= g) := by
  refine ⟨fun {s s' tr tr' r r' t t'} hE hp hq {u u'} hu => ?_⟩
  rcases outcome_bind hp with ⟨tr₁, a, s₁, tr₂, rfl, hp₁, hp₂⟩ | ⟨e, rfl, hp₁⟩
  · rcases outcome_bind hq with ⟨tr₁', b, s₁', tr₂', rfl, hq₁, hq₂⟩ | ⟨e, rfl, hq₁⟩
    · rw [List.append_assoc, List.append_assoc] at hu
      obtain ⟨hab, hE₁, hu⟩ := hpq.run hE hp₁ hq₁ hu
      cases hab with
      | ok hab => exact (hfg a b hab).run hE₁ hp₂ hq₂ hu
    · rw [List.append_assoc] at hu
      cases (hpq.run hE hp₁ hq₁ hu).1
  · rcases outcome_bind hq with ⟨tr₁', b, s₁', tr₂', rfl, hq₁, hq₂⟩ | ⟨e', rfl, hq₁⟩
    · rw [List.append_assoc] at hu
      cases (hpq.run hE hp₁ hq₁ hu).1
    · obtain ⟨hee, hE₁, hu⟩ := hpq.run hE hp₁ hq₁ hu
      cases hee with
      | error => exact ⟨.error e, hE₁, hu⟩

/-- **The rule of loops**, over one list. -/
theorem lockstep_foldlM {A : α → β → Prop} {f : α → κ → Prog σ ι ρ ε α}
    {g : β → κ → Prog σ ι ρ ε β} (hfg : ∀ a b k, A a b → Lockstep D E A (f a k) (g b k))
    (l : List κ) {a : α} {b : β} (h : A a b) :
    Lockstep D E A (l.foldlM f a) (l.foldlM g b) := by
  induction l generalizing a b with
  | nil => exact lockstep_pure h
  | cons k l ih =>
    rw [List.foldlM_cons, List.foldlM_cons]
    exact lockstep_bind (hfg a b k h) fun a' b' h' => ih h'

end Prog
end Coop
