import Chassis.Lib.Task

/-!
# One lock, many tasks

A system in which the jobs that take a lock run one at a time, and everything else happens at
their awaits or between them.

* `Config`         the state, and the job that holds the lock, if one does;
* `StepGiven`      another task acts, a job takes the lock, or the job that has it goes on with one
                   of the answers that may be given;
* `RunGiven`       sequences of steps, with their history;
* `Step`, `Run`    the same with any answers;
* `RunGiven.holds_iff_kept`   what holds throughout a run iff its acts keep to something;
* `MonitoredGiven` what the tasks owe to each other, and every job achieves by itself;
* `MonitoredGiven.run`, `MonitoredGiven.ended`   what holds, then, in every configuration of a run and at
                   every end of a job;
* `Course`         concrete runs, computed.
-/

namespace Coop
variable {σ ι τ : Type} {ρ : ι → Type} {ε α : Type}

/-- where a program stops next -/
inductive Stop (σ ι : Type) (ρ : ι → Type) (ε α : Type)
  | done (r : Except ε α)
  | waiting (l : ι) (k : ρ l → Prog σ ι ρ ε α)

/-- runs a program up to its next await, or to its end -/
def Prog.advance : Prog σ ι ρ ε α → σ → Stop σ ι ρ ε α × σ
  | .ret a, s => (.done (.ok a), s)
  | .raise e, s => (.done (.error e), s)
  | .read k, s => (k s).advance s
  | .write s' k, _ => k.advance s'
  | .await l k, s => (.waiting l k, s)

/-- a job that holds the lock and waits for an answer -/
structure Suspended (σ ι τ : Type) (ρ : ι → Type) (ε : Type) where
  job : τ
  operation : ι
  next : ρ operation → Prog σ ι ρ ε Unit

structure Config (σ ι τ : Type) (ρ : ι → Type) (ε : Type) where
  state : σ
  running : Option (Suspended σ ι τ ρ ε)

/-- what a step comes to -/
inductive Event (τ ε : Type)
  | acted
  | suspended
  | ended (job : τ) (r : Except ε Unit)

/-- the configuration after the job `j` stopped, and what happened -/
def settle (j : τ) : Stop σ ι ρ ε Unit × σ → Event τ ε × Config σ ι τ ρ ε
  | (.done r, s) => (.ended j r, ⟨s, none⟩)
  | (.waiting l k, s) => (.suspended, ⟨s, some ⟨j, l, k⟩⟩)

/-- One step of the system: `acts` is what the tasks without the lock do, `jobs` what those with
it run, and `gives` the answers these may be given. -/
inductive StepGiven (gives : (l : ι) → ρ l → Prop) (acts : σ → σ → Prop)
    (jobs : τ → Prog σ ι ρ ε Unit) : Config σ ι τ ρ ε → Event τ ε → Config σ ι τ ρ ε → Prop
  | act {s s' : σ} {r : Option (Suspended σ ι τ ρ ε)} :
    acts s s' → StepGiven gives acts jobs ⟨s, r⟩ .acted ⟨s', r⟩
  | start (j : τ) {s : σ} {ev : Event τ ε} {c : Config σ ι τ ρ ε} :
    settle j ((jobs j).advance s) = (ev, c) → StepGiven gives acts jobs ⟨s, none⟩ ev c
  | resume {s : σ} {w : Suspended σ ι τ ρ ε} (a : ρ w.operation) {ev : Event τ ε}
      {c : Config σ ι τ ρ ε} : gives w.operation a →
    settle w.job ((w.next a).advance s) = (ev, c) → StepGiven gives acts jobs ⟨s, some w⟩ ev c

/-- The runs from `c₀`, each with its history: what its steps came to and the configurations they
led to, the latest first. -/
inductive RunGiven (gives : (l : ι) → ρ l → Prop) (acts : σ → σ → Prop)
    (jobs : τ → Prog σ ι ρ ε Unit) (c₀ : Config σ ι τ ρ ε) :
    List (Event τ ε × Config σ ι τ ρ ε) → Config σ ι τ ρ ε → Prop
  | refl : RunGiven gives acts jobs c₀ [] c₀
  | tail {history : List (Event τ ε × Config σ ι τ ρ ε)} {c c' : Config σ ι τ ρ ε}
    {ev : Event τ ε} : RunGiven gives acts jobs c₀ history c → StepGiven gives acts jobs c ev c' →
    RunGiven gives acts jobs c₀ ((ev, c') :: history) c'

/-- steps after any answer -/
abbrev Step (acts : σ → σ → Prop) (jobs : τ → Prog σ ι ρ ε Unit) :
    Config σ ι τ ρ ε → Event τ ε → Config σ ι τ ρ ε → Prop := StepGiven (fun _ _ => True) acts jobs

/-- runs with any answers -/
abbrev Run (acts : σ → σ → Prop) (jobs : τ → Prog σ ι ρ ε Unit) (c₀ : Config σ ι τ ρ ε) :
    List (Event τ ε × Config σ ι τ ρ ε) → Config σ ι τ ρ ε → Prop :=
  RunGiven (fun _ _ => True) acts jobs c₀

variable {gives : (l : ι) → ρ l → Prop}

theorem StepGiven.ended_idle {acts : σ → σ → Prop} {jobs : τ → Prog σ ι ρ ε Unit}
    {c c' : Config σ ι τ ρ ε} {j : τ} {r : Except ε Unit}
    (h : StepGiven gives acts jobs c (.ended j r) c') : c'.running = none := by
  have hsettle : ∀ {j' : τ} {x : Stop σ ι ρ ε Unit × σ}, settle j' x = (.ended j r, c') →
      c'.running = none := by
    rintro j' ⟨r' | ⟨l, k⟩, s⟩ hx
    · cases hx
      rfl
    · cases hx
  cases h with
  | start j' hx => exact hsettle hx
  | resume a _ hx => exact hsettle hx

theorem StepGiven.mono {acts acts' : σ → σ → Prop} {jobs : τ → Prog σ ι ρ ε Unit}
    (hacts : ∀ s s', acts s s' → acts' s s') {c c' : Config σ ι τ ρ ε} {ev : Event τ ε}
    (h : StepGiven gives acts jobs c ev c') : StepGiven gives acts' jobs c ev c' := by
  cases h with
  | act ha => exact .act (hacts _ _ ha)
  | start j hx => exact .start j hx
  | resume a ha hx => exact .resume a ha hx

theorem RunGiven.mono {acts acts' : σ → σ → Prop} {jobs : τ → Prog σ ι ρ ε Unit}
    (hacts : ∀ s s', acts s s' → acts' s s') {c₀ c : Config σ ι τ ρ ε}
    {history : List (Event τ ε × Config σ ι τ ρ ε)} (hrun : RunGiven gives acts jobs c₀ history c) :
    RunGiven gives acts' jobs c₀ history c := by
  induction hrun with
  | refl => exact .refl
  | tail _ hstep ih => exact ih.tail (hstep.mono hacts)

/-- every step of a run is the last one of a shorter run -/
theorem RunGiven.mem {acts : σ → σ → Prop} {jobs : τ → Prog σ ι ρ ε Unit} {c₀ c : Config σ ι τ ρ ε}
    {history : List (Event τ ε × Config σ ι τ ρ ε)} (hrun : RunGiven gives acts jobs c₀ history c)
    {ev : Event τ ε} {c' : Config σ ι τ ρ ε} (h : (ev, c') ∈ history) :
    ∃ before c'', RunGiven gives acts jobs c₀ before c'' ∧ StepGiven gives acts jobs c'' ev c' ∧
      (ev, c') :: before ⊆ history := by
  induction hrun with
  | refl => cases h
  | tail hrun hstep ih =>
    rcases List.mem_cons.1 h with heq | h
    · cases heq
      exact ⟨_, _, hrun, hstep, fun _ hx => hx⟩
    · obtain ⟨before, c'', hrun', hstep', hsub⟩ := ih h
      exact ⟨before, c'', hrun', hstep', fun x hx => List.mem_cons_of_mem _ (hsub hx)⟩

theorem RunGiven.through {acts : σ → σ → Prop} {jobs : τ → Prog σ ι ρ ε Unit} {c₀ c : Config σ ι τ ρ ε}
    {history : List (Event τ ε × Config σ ι τ ρ ε)} (hrun : RunGiven gives acts jobs c₀ history c)
    {step : Event τ ε × Config σ ι τ ρ ε} (h : step ∈ history) :
    ∃ before after, RunGiven gives acts jobs c₀ before step.2 ∧ RunGiven gives acts jobs step.2 after c := by
  induction hrun with
  | refl => cases h
  | tail hrun hstep ih =>
    rcases List.mem_cons.1 h with heq | h
    · subst heq
      exact ⟨_, [], hrun.tail hstep, .refl⟩
    · obtain ⟨before, after, h₁, h₂⟩ := ih h
      exact ⟨before, _, h₁, h₂.tail hstep⟩

/-- what holds between two configurations, the later reached from the earlier, holds between all
that a run goes through -/
theorem RunGiven.pairwise {acts : σ → σ → Prop} {jobs : τ → Prog σ ι ρ ε Unit} {c₀ c : Config σ ι τ ρ ε}
    {T : Config σ ι τ ρ ε → Config σ ι τ ρ ε → Prop}
    (hT : ∀ {before c₁ after c₂}, RunGiven gives acts jobs c₀ before c₁ →
      RunGiven gives acts jobs c₁ after c₂ → T c₁ c₂)
    {history : List (Event τ ε × Config σ ι τ ρ ε)} (hrun : RunGiven gives acts jobs c₀ history c) :
    history.Pairwise fun later earlier => T earlier.2 later.2 := by
  induction hrun with
  | refl => exact List.Pairwise.nil
  | tail hrun hstep ih =>
    refine List.Pairwise.cons (fun earlier h => ?_) ih
    obtain ⟨before, after, h₁, h₂⟩ := hrun.through h
    exact hT h₁ (h₂.tail hstep)

/-- Where acts that are kept to keep `I`, and one that is not breaks `P`, `P` holds in every state
of a run iff all its acts are kept to. -/
theorem RunGiven.holds_iff_kept {acts kept : σ → σ → Prop} {jobs : τ → Prog σ ι ρ ε Unit}
    {c₀ c : Config σ ι τ ρ ε} {I P : σ → Prop}
    (hkept : ∀ {history c}, RunGiven gives kept jobs c₀ history c → I c.state) (hI : ∀ s, I s → P s)
    (hact : ∀ s s', I s → acts s s' → P s' → kept s s')
    {history : List (Event τ ε × Config σ ι τ ρ ε)} (hrun : RunGiven gives acts jobs c₀ history c) :
    (∀ step ∈ history, P step.2.state) ↔ RunGiven gives kept jobs c₀ history c := by
  constructor
  · intro hall
    induction hrun with
    | refl => exact .refl
    | @tail history c c' ev _ hstep ih =>
      rw [List.forall_mem_cons] at hall
      have hbefore := ih hall.2
      refine hbefore.tail ?_
      cases hstep with
      | act ha => exact .act (hact _ _ (hkept hbefore) ha hall.1)
      | start j hset => exact .start j hset
      | resume a ha hset => exact .resume a ha hset
  · rintro hall ⟨ev, c'⟩ hstep
    obtain ⟨before, c'', hbefore, hlast, -⟩ := hall.mem hstep
    exact hI _ (hkept (hbefore.tail hlast))

variable {R : Rules σ ι ρ}

theorem Prog.wp_advance {P : Except ε α → σ → Prop} {p : Prog σ ι ρ ε α} {s : σ}
    (h : p.wp R (fun _ => P) s) : match p.advance s with
      | (.done r, s') => P r s'
      | (.waiting l k, s') => (Prog.await l k).wp R (fun _ => P) s' := by
  induction p generalizing s with
  | ret a => exact h
  | raise e => exact h
  | read k ih => exact ih s h
  | write s₁ k ih => exact ih h
  | await l k => exact h

/-- Idle, the state satisfies `I`; else the job that has the lock was left in a state from which it
ends in `P`, and was only interfered with since. -/
def Config.Sound (R : Rules σ ι ρ) (I : σ → Prop) (P : τ → Except ε Unit → σ → Prop)
    (c : Config σ ι τ ρ ε) : Prop :=
  match c.running with
  | none => I c.state
  | some w => R.holds c.state ∧ ∃ s₁, R.interferes s₁ c.state ∧
      (Prog.await w.operation w.next).wp R (fun _ => P w.job) s₁

/-- A step from a sound configuration: the job that ends in it ends in `P`, and the configuration
is sound again if that is enough for `I`. -/
theorem settle_sound {I : σ → Prop} {P : τ → Except ε Unit → σ → Prop}
    (hrefl : ∀ s, R.interferes s s) {j : τ} {p : Prog σ ι ρ ε Unit} {s : σ}
    (hp : p.wp R (fun _ => P j) s) {ev : Event τ ε} {c : Config σ ι τ ρ ε}
    (hc : settle j (p.advance s) = (ev, c)) :
    (∀ j' r, ev = .ended j' r → P j' r c.state) ∧
      ((∀ j' r, ev = .ended j' r → P j' r c.state → I c.state) → c.Sound R I P) := by
  have hstop := Prog.wp_advance hp
  rcases hadv : p.advance s with ⟨r | ⟨l, k⟩, s'⟩
  · rw [hadv] at hc hstop
    cases hc
    refine ⟨?_, fun hend => hend j r rfl hstop⟩
    intro j' r' he
    cases he
    exact hstop
  · rw [hadv] at hc hstop
    cases hc
    refine ⟨?_, fun _ => ⟨hstop.1, s', hrefl s', hstop⟩⟩
    intro j' r' he
    cases he

/-- What the tasks without the lock owe to those with it, and what every job does by itself:
started in a state that satisfies `I`, it ends in `P`. -/
structure MonitoredGiven (gives : (l : ι) → ρ l → Prop) (R : Rules σ ι ρ) (acts : σ → σ → Prop)
    (jobs : τ → Prog σ ι ρ ε Unit) (I : σ → Prop) (P : τ → Except ε Unit → σ → Prop) : Prop where
  refl : ∀ s, R.interferes s s
  trans : ∀ s s' s'', R.interferes s s' → R.holds s' → acts s' s'' → R.interferes s s''
  admits : ∀ l a, gives l a → R.admits l a
  idle : ∀ s s', I s → acts s s' → I s'
  held : ∀ s s', R.holds s → acts s s' → R.holds s'
  job : ∀ j s, I s → (jobs j).wp R (fun _ => P j) s

/-- what is owed whatever is answered -/
abbrev Monitored (R : Rules σ ι ρ) (acts : σ → σ → Prop) (jobs : τ → Prog σ ι ρ ε Unit)
    (I : σ → Prop) (P : τ → Except ε Unit → σ → Prop) : Prop :=
  MonitoredGiven (fun _ _ => True) R acts jobs I P

section
variable {acts : σ → σ → Prop} {jobs : τ → Prog σ ι ρ ε Unit} {I : σ → Prop}
  {P : τ → Except ε Unit → σ → Prop} (hm : MonitoredGiven gives R acts jobs I P)
include hm

theorem MonitoredGiven.step {c c' : Config σ ι τ ρ ε} {ev : Event τ ε} (hc : c.Sound R I P)
    (hstep : StepGiven gives acts jobs c ev c') : (∀ j r, ev = .ended j r → P j r c'.state) ∧
      ((∀ j r, ev = .ended j r → P j r c'.state → I c'.state) → c'.Sound R I P) := by
  cases hstep with
  | @act s s' r hact =>
    refine ⟨fun j r' he => (by cases he), fun _ => ?_⟩
    cases r with
    | none => exact hm.idle s s' hc hact
    | some w =>
      obtain ⟨hheld, s₁, hint, hwp⟩ := hc
      exact ⟨hm.held s s' hheld hact, s₁, hm.trans s₁ s s' hint hheld hact, hwp⟩
  | @start j s ev c' hset => exact settle_sound hm.refl (hm.job j s hc) hset
  | @resume s w a ev c' ha hset =>
    obtain ⟨hheld, s₁, hint, hwp⟩ := hc
    exact settle_sound hm.refl (hwp.2 s hint hheld a (hm.admits _ a ha)) hset

/-- **Invariants of a system with a lock.**  The idle states satisfy `I` and the suspended ones
`R.holds`, in every run in which the end of a job always restores `I`. -/
theorem MonitoredGiven.run {s₀ : σ} (h₀ : I s₀) {c : Config σ ι τ ρ ε}
    {history : List (Event τ ε × Config σ ι τ ρ ε)} (hrun : RunGiven gives acts jobs ⟨s₀, none⟩ history c)
    (hend : ∀ j r c', (.ended j r, c') ∈ history → P j r c'.state → I c'.state) : c.Sound R I P := by
  induction hrun with
  | refl => exact h₀
  | tail _ hstep ih =>
    have hc := ih fun j r c' hin => hend j r c' (List.mem_cons_of_mem _ hin)
    refine (hm.step hc hstep).2 fun j r he hP => hend j r _ ?_ hP
    rw [he]
    exact List.mem_cons_self

theorem MonitoredGiven.onward (hP : ∀ j r s, P j r s → I s) {c c' : Config σ ι τ ρ ε}
    (hc : c.Sound R I P) {history : List (Event τ ε × Config σ ι τ ρ ε)}
    (hrun : RunGiven gives acts jobs c history c') : c'.Sound R I P := by
  induction hrun with
  | refl => exact hc
  | tail _ hstep ih => exact (hm.step ih hstep).2 fun j r _ => hP j r _

/-- **Every end of a job** in such a run satisfies `P`. -/
theorem MonitoredGiven.ended {s₀ : σ} (h₀ : I s₀) {c : Config σ ι τ ρ ε}
    {history : List (Event τ ε × Config σ ι τ ρ ε)} (hrun : RunGiven gives acts jobs ⟨s₀, none⟩ history c)
    (hend : ∀ j r c', (.ended j r, c') ∈ history → P j r c'.state → I c'.state) {j : τ}
    {r : Except ε Unit} {c' : Config σ ι τ ρ ε}
    (h : (.ended j r, c') ∈ history) : P j r c'.state := by
  obtain ⟨before, c'', hrun', hstep, hsub⟩ := hrun.mem h
  have hc := hm.run h₀ hrun' fun j r c' hin => hend j r c' (hsub (List.mem_cons_of_mem _ hin))
  exact (hm.step hc hstep).1 j r rfl

end

/-! ## concrete runs -/

/-- a run, computed -/
structure Course (σ ι τ : Type) (ρ : ι → Type) (ε : Type) where
  history : List (Event τ ε × Config σ ι τ ρ ε)
  config : Config σ ι τ ρ ε

namespace Course

def begin (s : σ) : Course σ ι τ ρ ε := ⟨[], ⟨s, none⟩⟩

def append (c : Course σ ι τ ρ ε) (step : Event τ ε × Config σ ι τ ρ ε) : Course σ ι τ ρ ε :=
  ⟨step :: c.history, step.2⟩

def act (f : σ → σ) (c : Course σ ι τ ρ ε) : Course σ ι τ ρ ε :=
  c.append (.acted, { c.config with state := f c.config.state })

/-- a job takes the lock, if it is free -/
def start (jobs : τ → Prog σ ι ρ ε Unit) (j : τ) (c : Course σ ι τ ρ ε) : Course σ ι τ ρ ε :=
  match c.config.running with
  | none => c.append (settle j ((jobs j).advance c.config.state))
  | some _ => c

/-- the job that has the lock, if one does, goes on with the answer it is given -/
def resume (answer : (l : ι) → ρ l) (c : Course σ ι τ ρ ε) : Course σ ι τ ρ ε :=
  match c.config.running with
  | none => c
  | some w => c.append (settle w.job ((w.next (answer w.operation)).advance c.config.state))

variable {acts : σ → σ → Prop} {jobs : τ → Prog σ ι ρ ε Unit} {c₀ : Config σ ι τ ρ ε}
  {c : Course σ ι τ ρ ε}

theorem act_run (hrun : RunGiven gives acts jobs c₀ c.history c.config) {f : σ → σ}
    (h : acts c.config.state (f c.config.state)) :
    RunGiven gives acts jobs c₀ (c.act f).history (c.act f).config := by
  obtain ⟨history, s, r⟩ := c
  exact hrun.tail (.act h)

theorem start_run (hrun : RunGiven gives acts jobs c₀ c.history c.config) (j : τ) :
    RunGiven gives acts jobs c₀ (c.start jobs j).history (c.start jobs j).config := by
  obtain ⟨history, s, _ | w⟩ := c
  · exact hrun.tail (.start j rfl)
  · exact hrun

theorem resume_run (hrun : RunGiven gives acts jobs c₀ c.history c.config)
    {answer : (l : ι) → ρ l} (hanswer : ∀ l, gives l (answer l)) :
    RunGiven gives acts jobs c₀ (c.resume answer).history (c.resume answer).config := by
  obtain ⟨history, s, _ | w⟩ := c
  · exact hrun
  · exact hrun.tail (.resume (answer w.operation) (hanswer w.operation) rfl)

end Course

end Coop
