import Chassis.Lib.Custody
import Mathlib.Data.List.Nodup
import Mathlib.Logic.Function.Basic

/-!
# Unwinding nested scopes

A scope calls what was registered in it when it closes, the newest first, and waits for what it
called.  What is registered may be another scope, which closes when it is called, if nobody closed
it before.

* `Nest`            the scopes, what each has to call and has called, and what it waits for;
* `Step`            what can happen, one thing at a time;
* `Sound`           what was registered is called or still to be called, the newest first, and what
                    was called has ended, or is waited for;
* `Sound.step`      every step keeps that;
* `closed_below`    when a scope has closed, so has all that is in it;
* `opened_below`    what is in an open scope is open, if nobody asked any of it to close.
-/

set_option linter.unusedSectionVars false

namespace Py
open Function (update)

/-- `ε` is what can be registered, `σ` are the scopes -/
structure Nest (ε σ : Type*) where
  phase : σ → Option Phase
  /-- what it will call, the newest first -/
  stack : σ → List ε
  waiting : σ → Option ε
  /-- whatever was registered in it, the oldest first -/
  registered : σ → List ε
  /-- what it called, in this order -/
  called : σ → List ε
  /-- somebody asked it to close, other than the scope it is in -/
  asked : σ → Prop

namespace Nest
variable {ε σ : Type*} [DecidableEq σ] {scopeOf : ε → Option σ} {c c' : Nest ε σ}

def push (c : Nest ε σ) (s : σ) (e : ε) : Nest ε σ :=
  { c with
    stack := update c.stack s (e :: c.stack s)
    registered := update c.registered s (c.registered s ++ [e]) }

def setPhase (c : Nest ε σ) (s : σ) (p : Phase) : Nest ε σ :=
  { c with phase := update c.phase s (some p) }

/-- it begins to close, if it is open -/
def close (c : Nest ε σ) (s : σ) : Nest ε σ :=
  if c.phase s = some .opened then c.setPhase s .closing else c

/-- the newest entry is called, and perhaps waited for -/
def call (c : Nest ε σ) (s : σ) (e : ε) (rest : List ε) (wait : Option ε) : Nest ε σ :=
  { c with
    stack := update c.stack s rest
    called := update c.called s (c.called s ++ [e])
    waiting := update c.waiting s wait }

/-- one thing that happens -/
inductive Step (scopeOf : ε → Option σ) (c : Nest ε σ) : Nest ε σ → Prop
  | still : Step scopeOf c c
  | create (s : σ) : c.phase s = none → Step scopeOf c (c.setPhase s .opened)
  | register (s : σ) (e : ε) : c.phase s = some .opened → scopeOf e = none →
    Step scopeOf c (c.push s e)
  /-- a new scope is registered in an open one -/
  | adopt (s d : σ) (e : ε) : c.phase s = some .opened → c.phase d = none → scopeOf e = some d →
    Step scopeOf c ((c.setPhase d .opened).push s e)
  | ask (s : σ) : Step scopeOf c { c.close s with asked := update c.asked s True }
  | call (s : σ) (e : ε) (rest : List ε) (wait : Option ε) : c.phase s = some .closing →
    c.waiting s = none → c.stack s = e :: rest → scopeOf e = none → (∀ a ∈ wait, a = e) →
    Step scopeOf c (c.call s e rest wait)
  | enter (s d : σ) (e : ε) (rest : List ε) : c.phase s = some .closing → c.waiting s = none →
    c.stack s = e :: rest → scopeOf e = some d → Step scopeOf c ((c.call s e rest (some e)).close d)
  | ended (s : σ) (e : ε) : c.waiting s = some e →
    (∀ d, scopeOf e = some d → c.phase d = some .closed ∨ c.phase d = none) →
    Step scopeOf c { c with waiting := update c.waiting s none }
  | finish (s : σ) : c.phase s = some .closing → c.waiting s = none → c.stack s = [] →
    Step scopeOf c (c.setPhase s .closed)

/-- it has begun to close -/
def Begun (c : Nest ε σ) (s : σ) : Prop := c.phase s = some .closing ∨ c.phase s = some .closed

structure Sound (scopeOf : ε → Option σ) (c : Nest ε σ) : Prop where
  ledger : ∀ s, (c.registered s).reverse = c.called s ++ c.stack s
  idle : ∀ {s}, ¬ c.Begun s → c.called s = [] ∧ c.waiting s = none
  unknown : ∀ {s}, c.phase s = none → c.registered s = []
  drained : ∀ {s}, c.phase s = some .closed → c.stack s = [] ∧ c.waiting s = none
  waits : ∀ {s e}, c.waiting s = some e → e ∈ c.called s
  known : ∀ {s e d}, e ∈ c.registered s → scopeOf e = some d → c.phase d ≠ none
  /-- a scope is registered at most once -/
  single : ∀ s, ((c.registered s).filterMap scopeOf).Nodup
  apart : ∀ {s s' e e' d}, e ∈ c.registered s → scopeOf e = some d → e' ∈ c.registered s' →
    scopeOf e' = some d → s = s'
  /-- a scope that was called has closed, or is waited for -/
  done : ∀ {s e d}, e ∈ c.called s → scopeOf e = some d →
    c.phase d = some .closed ∨ c.waiting s = some e ∧ c.Begun d
  untouched : ∀ {s e d}, e ∈ c.stack s → scopeOf e = some d → c.phase d = some .opened ∨ c.asked d

/-! ## what every step keeps -/

theorem phase_setPhase (s : σ) (p : Phase) (s' : σ) :
    (c.setPhase s p).phase s' = if s' = s then some p else c.phase s' :=
  Function.update_apply c.phase s (some p) s'

theorem begun_iff {s : σ} : c.Begun s ↔ c.phase s ≠ none ∧ c.phase s ≠ some .opened := by
  unfold Begun
  rcases c.phase s with _ | _ | _ | _
  · exact iff_of_false (fun h => h.elim (nomatch ·) (nomatch ·)) fun h => h.1 rfl
  · exact iff_of_false (fun h => h.elim (nomatch ·) (nomatch ·)) fun h => h.2 rfl
  · exact iff_of_true (.inl rfl) ⟨fun h => (nomatch h), fun h => nomatch h⟩
  · exact iff_of_true (.inr rfl) ⟨fun h => (nomatch h), fun h => nomatch h⟩

theorem close_eq (s : σ) : ∃ phase, c.close s = { c with phase := phase } ∧
    ∀ s', phase s' = if s' = s ∧ c.phase s = some .opened then some .closing else c.phase s' := by
  unfold close
  by_cases hopen : c.phase s = some .opened
  · refine ⟨update c.phase s (some .closing), if_pos hopen, fun s' => ?_⟩
    rw [Function.update_apply]
    simp only [hopen, and_true]
  · exact ⟨c.phase, if_neg hopen, fun s' => (if_neg fun h => hopen h.2).symm⟩

theorem close_registered (s : σ) : (c.close s).registered = c.registered := by
  obtain ⟨phase, heq, -⟩ := c.close_eq s
  rw [heq]

namespace Sound
variable (hs : c.Sound scopeOf)
include hs

theorem mem_registered {s : σ} {e : ε} : e ∈ c.registered s ↔ e ∈ c.called s ∨ e ∈ c.stack s := by
  rw [← List.mem_reverse, hs.ledger, List.mem_append]

theorem setPhase {s : σ} {p : Phase} (hopens : p = .opened → ¬ c.Begun s)
    (hclosed : c.phase s ≠ some .closed)
    (hcloses : p = .closed → c.stack s = [] ∧ c.waiting s = none)
    (hasked : p ≠ .opened → c.phase s = some .opened → c.asked s) :
    (c.setPhase s p).Sound scopeOf := by
  have hbegun : ∀ {s'}, c.Begun s' → (c.setPhase s p).Begun s' := by
    intro s' hb
    rw [begun_iff, phase_setPhase]
    split
    · rename_i heq
      refine ⟨fun h => (nomatch h), fun h => ?_⟩
      exact hopens (Option.some.inj h) (heq ▸ hb)
    · exact begun_iff.1 hb
  refine ⟨hs.ledger, fun h => hs.idle fun hb => h (hbegun hb), fun {s'} h => ?_, fun {s'} h => ?_,
    hs.waits, fun {s' e d} he hd => ?_, hs.single, hs.apart, fun {s' e d} he hd => ?_,
    fun {s' e d} he hd => ?_⟩
  · rw [phase_setPhase] at h
    split at h
    · cases h
    · exact hs.unknown h
  · rw [phase_setPhase] at h
    split at h
    · rename_i heq
      rw [heq]
      exact hcloses (Option.some.inj h)
    · exact hs.drained h
  · rw [phase_setPhase]
    split
    · exact fun h => nomatch h
    · exact hs.known he hd
  · rcases hs.done he hd with hdone | ⟨hwait, hb⟩
    · refine .inl ?_
      rw [phase_setPhase, if_neg]
      · exact hdone
      · rintro rfl
        exact hclosed hdone
    · exact .inr ⟨hwait, hbegun hb⟩
  · rw [phase_setPhase]
    split
    · rename_i heq
      by_cases hp : p = .opened
      · exact .inl (congrArg some hp)
      · rcases hs.untouched he hd with hopen | hask
        · exact .inr (heq ▸ hasked hp (heq ▸ hopen))
        · exact .inr hask
    · exact hs.untouched he hd

theorem mark (s : σ) : Sound scopeOf { c with asked := update c.asked s True } := by
  refine ⟨hs.ledger, hs.idle, hs.unknown, hs.drained, hs.waits, hs.known, hs.single, hs.apart,
    hs.done, fun {s' e d} he hd => ?_⟩
  rcases hs.untouched he hd with hopen | hask
  · exact .inl hopen
  · refine .inr ?_
    show update c.asked s True d
    rw [Function.update_apply]
    split
    · trivial
    · exact hask

theorem push {s : σ} {e : ε} (hopen : c.phase s = some .opened)
    (hnew : ∀ d, scopeOf e = some d → c.phase d = some .opened ∧
      ∀ s' e', e' ∈ c.registered s' → scopeOf e' ≠ some d) : (c.push s e).Sound scopeOf := by
  have hregistered : ∀ s', (c.push s e).registered s' =
      if s' = s then c.registered s ++ [e] else c.registered s' :=
    fun s' => Function.update_apply c.registered s _ s'
  have hstack : ∀ s', (c.push s e).stack s' = if s' = s then e :: c.stack s else c.stack s' :=
    fun s' => Function.update_apply c.stack s _ s'
  have hmem : ∀ {s' e'}, e' ∈ (c.push s e).registered s' →
      e' ∈ c.registered s' ∨ e' = e ∧ s' = s := by
    intro s' e' he'
    rw [hregistered] at he'
    split at he'
    · rename_i heq
      rw [heq]
      rcases List.mem_append.1 he' with he' | he'
      · exact .inl he'
      · exact .inr ⟨List.mem_singleton.1 he', rfl⟩
    · exact .inl he'
  refine ⟨fun s' => ?_, hs.idle, fun {s'} h => ?_, fun {s'} h => ?_, hs.waits,
    fun {s' e' d} he hd => ?_, fun s' => ?_, fun {s₁ s₂ e₁ e₂ d} h₁ hd₁ h₂ hd₂ => ?_, hs.done,
    fun {s' e' d} he hd => ?_⟩
  · show ((c.push s e).registered s').reverse = c.called s' ++ (c.push s e).stack s'
    rw [hregistered, hstack]
    split
    · rename_i heq
      have hidle := (hs.idle (s := s) (fun hb => (begun_iff.1 hb).2 hopen)).1
      have hledger := hs.ledger s
      rw [hidle, List.nil_append] at hledger
      rw [List.reverse_append, hledger, heq, hidle]
      rfl
    · exact hs.ledger s'
  · rw [hregistered, if_neg]
    · exact hs.unknown h
    · rintro rfl
      have hnone : c.phase s' = none := h
      rw [hopen] at hnone
      cases hnone
  · show (c.push s e).stack s' = [] ∧ c.waiting s' = none
    rw [hstack, if_neg]
    · exact hs.drained h
    · rintro rfl
      have hclosed : c.phase s' = some .closed := h
      rw [hopen] at hclosed
      cases hclosed
  · rcases hmem he with he | ⟨rfl, -⟩
    · exact hs.known he hd
    · show c.phase d ≠ none
      rw [(hnew d hd).1]
      exact fun h => nomatch h
  · rw [hregistered]
    split
    · rw [List.filterMap_append]
      refine List.nodup_append.2 ⟨hs.single s, ?_, fun d hd d' hd' hdd => ?_⟩
      · rw [List.filterMap_cons, List.filterMap_nil]
        split
        · exact List.nodup_nil
        · exact List.nodup_singleton _
      · obtain ⟨e', he', hscope'⟩ := List.mem_filterMap.1 hd
        obtain ⟨e'', he'', hscope''⟩ := List.mem_filterMap.1 hd'
        rw [List.mem_singleton.1 he'', ← hdd] at hscope''
        exact (hnew d hscope'').2 s e' he' hscope'
    · exact hs.single s'
  · rcases hmem h₁ with hold₁ | ⟨rfl, rfl⟩
    · rcases hmem h₂ with hold₂ | ⟨rfl, rfl⟩
      · exact hs.apart hold₁ hd₁ hold₂ hd₂
      · exact absurd hd₁ ((hnew d hd₂).2 s₁ e₁ hold₁)
    · rcases hmem h₂ with hold₂ | ⟨-, rfl⟩
      · exact absurd hd₂ ((hnew d hd₁).2 s₂ e₂ hold₂)
      · rfl
  · show c.phase d = some .opened ∨ c.asked d
    rw [hstack] at he
    split at he
    · rcases List.mem_cons.1 he with rfl | he
      · exact .inl (hnew d hd).1
      · exact hs.untouched he hd
    · exact hs.untouched he hd

/-- the newest entry is called, and a scope that is registered by it may begin to close -/
theorem call {s : σ} {e : ε} {rest : List ε} {wait : Option ε} {phase : σ → Option Phase}
    (hclosing : c.phase s = some .closing) (hidle : c.waiting s = none)
    (htop : c.stack s = e :: rest)
    (hself : ∀ a ∈ wait, a = e) (hphase : ∀ s', phase s' = c.phase s' ∨
      phase s' = some .closing ∧ c.phase s' = some .opened ∧ scopeOf e = some s')
    (hwait : ∀ d, scopeOf e = some d → wait = some e ∧ (phase d = some .closing ∨
      phase d = some .closed)) :
    Sound scopeOf { c.call s e rest wait with phase := phase } := by
  have hstack : ∀ s', (c.call s e rest wait).stack s' = if s' = s then rest else c.stack s' :=
    fun s' => Function.update_apply c.stack s _ s'
  have hcalled : ∀ s', (c.call s e rest wait).called s' =
      if s' = s then c.called s ++ [e] else c.called s' :=
    fun s' => Function.update_apply c.called s _ s'
  have hwaiting : ∀ s', (c.call s e rest wait).waiting s' = if s' = s then wait else c.waiting s' :=
    fun s' => Function.update_apply c.waiting s _ s'
  have hbegun : ∀ {s'}, c.Begun s' → phase s' = some .closing ∨ phase s' = some .closed := by
    intro s' hb
    rcases hphase s' with heq | ⟨heq, -, -⟩
    · rw [heq]
      exact hb
    · exact .inl heq
  have hclosed : ∀ {s'}, phase s' = some .closed ↔ c.phase s' = some .closed := by
    intro s'
    rcases hphase s' with heq | ⟨heq, hopen, -⟩
    · rw [heq]
    · rw [heq, hopen]
      exact iff_of_false (fun h => nomatch h) fun h => nomatch h
  refine ⟨fun s' => ?_, fun {s'} h => ?_, fun {s'} h => ?_, fun {s'} h => ?_, fun {s' e'} h => ?_,
    fun {s' e' d} he hd => ?_, hs.single, hs.apart, fun {s' e' d} he hd => ?_,
    fun {s' e' d} he hd => ?_⟩
  · show (c.registered s').reverse = (c.call s e rest wait).called s' ++
      (c.call s e rest wait).stack s'
    rw [hcalled, hstack]
    split
    · rename_i heq
      rw [heq, hs.ledger, htop, List.append_assoc]
      rfl
    · exact hs.ledger s'
  · have hnot : ¬ c.Begun s' := fun hb => h (hbegun hb)
    have hne : s' ≠ s := by
      rintro rfl
      exact hnot (.inl hclosing)
    show (c.call s e rest wait).called s' = [] ∧ (c.call s e rest wait).waiting s' = none
    rw [hcalled, hwaiting, if_neg hne, if_neg hne]
    exact hs.idle hnot
  · rcases hphase s' with heq | ⟨heq, -, -⟩
    · exact hs.unknown (heq.symm.trans h)
    · have hnone : phase s' = none := h
      rw [heq] at hnone
      cases hnone
  · have hclosed' : c.phase s' = some .closed := hclosed.1 h
    have hne : s' ≠ s := by
      rintro rfl
      rw [hclosing] at hclosed'
      cases hclosed'
    show (c.call s e rest wait).stack s' = [] ∧ (c.call s e rest wait).waiting s' = none
    rw [hstack, hwaiting, if_neg hne, if_neg hne]
    exact hs.drained hclosed'
  · show e' ∈ (c.call s e rest wait).called s'
    have hwaits : (c.call s e rest wait).waiting s' = some e' := h
    rw [hwaiting] at hwaits
    rw [hcalled]
    split
    · rename_i heq
      rw [if_pos heq] at hwaits
      rw [hself e' hwaits]
      exact List.mem_append_right _ List.mem_cons_self
    · rename_i hne
      rw [if_neg hne] at hwaits
      exact hs.waits hwaits
  · show phase d ≠ none
    rcases hphase d with heq | ⟨heq, -, -⟩
    · rw [heq]
      exact hs.known he hd
    · rw [heq]
      exact fun h => nomatch h
  · show phase d = some .closed ∨ (c.call s e rest wait).waiting s' = some e' ∧
      (phase d = some .closing ∨ phase d = some .closed)
    have hmem : e' ∈ (c.call s e rest wait).called s' := he
    rw [hcalled] at hmem
    rw [hwaiting]
    split at hmem
    · rename_i heq
      rw [if_pos heq]
      rcases List.mem_append.1 hmem with hmem | hmem
      · rcases hs.done hmem hd with hdone | ⟨hwait', -⟩
        · exact .inl (hclosed.2 hdone)
        · rw [hidle] at hwait'
          cases hwait'
      · rw [List.mem_singleton.1 hmem] at hd ⊢
        exact .inr (hwait d hd)
    · rename_i hne
      rw [if_neg hne]
      rcases hs.done hmem hd with hdone | ⟨hwait', hb⟩
      · exact .inl (hclosed.2 hdone)
      · exact .inr ⟨hwait', hbegun hb⟩
  · show phase d = some .opened ∨ c.asked d
    have hmem : e' ∈ (c.call s e rest wait).stack s' := he
    rw [hstack] at hmem
    have hhead : e ∈ c.stack s := htop ▸ List.mem_cons_self
    have hin : e' ∈ c.stack s' := by
      split at hmem
      · rename_i heq
        rw [heq, htop]
        exact List.mem_cons_of_mem e hmem
      · exact hmem
    rcases hs.untouched hin hd with hopen | hask
    · rcases hphase d with heq | ⟨-, -, hscope⟩
      · exact .inl (heq.trans hopen)
      · -- the scope that is called is registered nowhere else
        have hss := hs.apart (hs.mem_registered.2 (.inr hin)) hd
          (hs.mem_registered.2 (.inr hhead)) hscope
        rw [if_pos hss] at hmem
        have hnodup := List.nodup_reverse.2 (hs.single s)
        rw [← List.filterMap_reverse, hs.ledger, htop, List.filterMap_append,
          List.filterMap_cons_some hscope] at hnodup
        have hrest := (List.nodup_cons.1 (List.nodup_append.1 hnodup).2.1).1
        exact absurd (List.mem_filterMap.2 ⟨e', hmem, hd⟩) hrest
    · exact .inr hask

theorem ended {s : σ} {e : ε} (hwait : c.waiting s = some e)
    (hdone : ∀ d, scopeOf e = some d → c.phase d = some .closed ∨ c.phase d = none) :
    Sound scopeOf { c with waiting := update c.waiting s none } := by
  have hwaiting : ∀ s', update c.waiting s none s' = if s' = s then none else c.waiting s' :=
    fun s' => Function.update_apply c.waiting s _ s'
  have hnone : ∀ {s'}, c.waiting s' = none → update c.waiting s none s' = none := by
    intro s' h
    rw [hwaiting, h, ite_self]
  refine ⟨hs.ledger, fun h => ⟨(hs.idle h).1, hnone (hs.idle h).2⟩, hs.unknown,
    fun h => ⟨(hs.drained h).1, hnone (hs.drained h).2⟩, fun {s' e'} h => ?_, hs.known, hs.single,
    hs.apart, fun {s' e' d} he hd => ?_, hs.untouched⟩
  · have hwaits : update c.waiting s none s' = some e' := h
    rw [hwaiting] at hwaits
    split at hwaits
    · cases hwaits
    · exact hs.waits hwaits
  rcases hs.done he hd with hclosed | ⟨hwait', hb⟩
  · exact .inl hclosed
  · by_cases heq : s' = s
    · rw [heq, hwait] at hwait'
      rw [← Option.some.inj hwait'] at hd he
      exact .inl ((hdone d hd).resolve_right (hs.known (hs.mem_registered.2 (.inl he)) hd))
    · refine .inr ⟨?_, hb⟩
      show update c.waiting s none s' = some e'
      rw [hwaiting, if_neg heq]
      exact hwait'

theorem step (h : Step scopeOf c c') : c'.Sound scopeOf := by
  cases h with
  | still => exact hs
  | create s hnone =>
    refine hs.setPhase (fun _ hb => (begun_iff.1 hb).1 hnone) ?_ (fun h => nomatch h)
      fun hne => absurd rfl hne
    rw [hnone]
    exact fun h => nomatch h
  | register s e hopen hscope =>
    refine hs.push hopen fun d hd => ?_
    rw [hscope] at hd
    cases hd
  | adopt s d e hopen hnone hscope =>
    have hcreated : (c.setPhase d .opened).Sound scopeOf := by
      refine hs.setPhase (fun _ hb => (begun_iff.1 hb).1 hnone) ?_ (fun h => nomatch h)
        fun hne => absurd rfl hne
      rw [hnone]
      exact fun h => nomatch h
    refine hcreated.push ?_ fun d' hd' => ?_
    · rw [phase_setPhase]
      split
      · rfl
      · exact hopen
    · rw [hscope] at hd'
      cases hd'
      refine ⟨?_, fun s' e' he' hscope' => hs.known he' hscope' hnone⟩
      rw [phase_setPhase, if_pos rfl]
  | ask s =>
    have hmarked := hs.mark s
    unfold close
    split
    · rename_i hopen
      refine hmarked.setPhase (s := s) (p := .closing) (fun h => nomatch h) ?_ (fun h => nomatch h)
        fun _ _ => ?_
      · show c.phase s ≠ some .closed
        rw [hopen]
        exact fun h => nomatch h
      · show update c.asked s True s
        rw [Function.update_self]
        trivial
    · exact hmarked
  | call s e rest wait hclosing hidle htop hscope hself =>
    refine hs.call hclosing hidle htop hself (fun s' => .inl rfl) fun d hd => ?_
    rw [hscope] at hd
    cases hd
  | enter s d e rest hclosing hidle htop hscope =>
    obtain ⟨phase, heq, hphase⟩ := close_eq (c := c.call s e rest (some e)) d
    rw [heq]
    have hsame : ∀ s', (c.call s e rest (some e)).phase s' = c.phase s' := fun _ => rfl
    refine hs.call hclosing hidle htop (fun a ha => (Option.some.inj ha).symm) (fun s' => ?_)
      fun d' hd' => ⟨rfl, ?_⟩
    · rw [hphase]
      split
      · rename_i hd
        obtain ⟨rfl, hopen⟩ := hd
        exact .inr ⟨rfl, hopen, hscope⟩
      · exact .inl rfl
    · rw [hscope] at hd'
      cases hd'
      rw [hphase]
      split
      · exact .inl rfl
      · rename_i hne
        have hknown := hs.known (hs.mem_registered.2 (.inr (htop ▸ List.mem_cons_self))) hscope
        exact begun_iff.2 ⟨hknown, fun hopen => hne ⟨rfl, hopen⟩⟩
  | ended s e hwait hdone => exact hs.ended hwait hdone
  | finish s hclosing hidle hempty =>
    refine hs.setPhase (fun h => nomatch h) ?_ (fun _ => ⟨hempty, hidle⟩) fun _ hopen => ?_
    · rw [hclosing]
      exact fun h => nomatch h
    · rw [hclosing] at hopen
      cases hopen

end Sound

theorem Step.begun (h : Step scopeOf c c') {s : σ} (hb : c.Begun s) : c'.Begun s := by
  have hclose : ∀ d, (c.close d).Begun s := by
    intro d
    obtain ⟨phase, heq, hphase⟩ := c.close_eq d
    rw [heq, begun_iff]
    show phase s ≠ none ∧ phase s ≠ some .opened
    rw [hphase]
    split
    · exact ⟨fun h => (nomatch h), fun h => nomatch h⟩
    · exact begun_iff.1 hb
  cases h with
  | still => exact hb
  | create d hnone =>
    rw [begun_iff, phase_setPhase, if_neg]
    · exact begun_iff.1 hb
    · rintro rfl
      exact (begun_iff.1 hb).1 hnone
  | register => exact hb
  | adopt s' d e _ hnone _ =>
    show (c.setPhase d .opened).Begun s
    rw [begun_iff, phase_setPhase, if_neg]
    · exact begun_iff.1 hb
    · rintro rfl
      exact (begun_iff.1 hb).1 hnone
  | ask d => exact hclose d
  | call => exact hb
  | enter s' d e rest =>
    obtain ⟨phase, heq, hphase⟩ := (c.call s' e rest (some e)).close_eq d
    rw [heq, begun_iff]
    show phase s ≠ none ∧ phase s ≠ some .opened
    rw [hphase]
    split
    · exact ⟨fun h => (nomatch h), fun h => nomatch h⟩
    · exact begun_iff.1 hb
  | ended => exact hb
  | finish s' =>
    rw [begun_iff, phase_setPhase]
    split
    · exact ⟨fun h => (nomatch h), fun h => nomatch h⟩
    · exact begun_iff.1 hb

theorem Step.registered_begun (h : Step scopeOf c c') {s : σ} (hb : c.Begun s) :
    c'.registered s = c.registered s := by
  have hpush : ∀ {s' e}, c.phase s' = some .opened →
      update c.registered s' (c.registered s' ++ [e]) s = c.registered s := by
    intro s' e hopen
    refine Function.update_of_ne ?_ _ _
    rintro rfl
    exact (begun_iff.1 hb).2 hopen
  cases h with
  | register s' e hopen _ => exact hpush hopen
  | adopt s' d e hopen _ _ => exact hpush hopen
  | ask s' => exact congrFun (close_registered s') s
  | enter s' d e rest => exact congrFun (close_registered d) s
  | still => rfl
  | create => rfl
  | call => rfl
  | ended => rfl
  | finish => rfl

/-- scopes are registered in others, never the other way round -/
def Ranked (scopeOf : ε → Option σ) (c : Nest ε σ) : Prop :=
  ∃ rank : σ → ℕ, ∀ s e d, e ∈ c.registered s → scopeOf e = some d → rank s < rank d

theorem Ranked.step (hr : Ranked scopeOf c) (hs : c.Sound scopeOf) (h : Step scopeOf c c') :
    Ranked scopeOf c' := by
  obtain ⟨rank, hrank⟩ := hr
  have hpush : ∀ {s e s' e'}, e' ∈ update c.registered s (c.registered s ++ [e]) s' →
      e' ∈ c.registered s' ∨ e' = e ∧ s' = s := by
    intro s e s' e' he'
    rw [Function.update_apply] at he'
    split at he'
    · rename_i heq
      rw [heq]
      rcases List.mem_append.1 he' with he' | he'
      · exact .inl he'
      · exact .inr ⟨List.mem_singleton.1 he', rfl⟩
    · exact .inl he'
  cases h with
  | still => exact ⟨rank, hrank⟩
  | create => exact ⟨rank, hrank⟩
  | register s e _ hleaf =>
    refine ⟨rank, fun s' e' d he' hd => ?_⟩
    rcases hpush he' with he' | ⟨rfl, rfl⟩
    · exact hrank s' e' d he' hd
    · rw [hleaf] at hd
      cases hd
  | adopt s d e hopen hnone hscope =>
    have hne : s ≠ d := by
      rintro rfl
      rw [hopen] at hnone
      cases hnone
    refine ⟨update rank d (rank s + 1), fun s' e' d' he' hd => ?_⟩
    rcases hpush he' with hold | ⟨rfl, rfl⟩
    · have hs' : s' ≠ d := by
        rintro rfl
        have hold' : e' ∈ c.registered s' := hold
        rw [hs.unknown hnone] at hold'
        cases hold'
      have hd' : d' ≠ d := by
        rintro rfl
        exact hs.known hold hd hnone
      rw [Function.update_of_ne hs', Function.update_of_ne hd']
      exact hrank s' e' d' hold hd
    · rw [hscope] at hd
      cases hd
      rw [Function.update_of_ne hne, Function.update_self]
      exact Nat.lt_succ_self _
  | ask s =>
    refine ⟨rank, ?_⟩
    show ∀ s' e d, e ∈ (c.close s).registered s' → _
    rw [close_registered]
    exact hrank
  | call => exact ⟨rank, hrank⟩
  | enter s d =>
    refine ⟨rank, ?_⟩
    rw [close_registered]
    exact hrank
  | ended => exact ⟨rank, hrank⟩
  | finish => exact ⟨rank, hrank⟩

/-! ## the scopes in a scope -/

/-- a scope, those registered in it, in these, and so on -/
inductive Below (scopeOf : ε → Option σ) (c : Nest ε σ) (r : σ) : σ → Prop
  | self : Below scopeOf c r r
  | inside {s d : σ} {e : ε} : Below scopeOf c r s → e ∈ c.registered s → scopeOf e = some d →
    Below scopeOf c r d

namespace Sound
variable (hs : c.Sound scopeOf)
include hs

theorem called_closed {s : σ} (h : c.phase s = some .closed) :
    c.called s = (c.registered s).reverse := by
  rw [hs.ledger, (hs.drained h).1, List.append_nil]

/-- **When a scope has closed, so has all that is in it.** -/
theorem closed_below {r s : σ} (h : c.phase r = some .closed) (hb : Below scopeOf c r s) :
    c.phase s = some .closed := by
  induction hb with
  | self => exact h
  | @inside s d e _ he hd ih =>
    have hcalled : e ∈ c.called s := by
      rw [hs.called_closed ih]
      exact List.mem_reverse.2 he
    rcases hs.done hcalled hd with hdone | ⟨hwait, -⟩
    · exact hdone
    · rw [(hs.drained ih).2] at hwait
      cases hwait

/-- What is in a scope that is open, or was asked to close, is open, if nothing in it was asked to
close. -/
theorem opened_below {r s : σ} (h : c.phase r = some .opened ∨ c.asked r)
    (hb : Below scopeOf c r s) (hasked : ∀ d, Below scopeOf c r d → ¬ c.asked d) :
    c.phase s = some .opened := by
  induction hb with
  | self => exact h.resolve_right (hasked r .self)
  | @inside s d e hin he hd ih =>
    have hidle := hs.idle (s := s) fun hb => (begun_iff.1 hb).2 ih
    have hstack : e ∈ c.stack s := by
      rcases hs.mem_registered.1 he with hcalled | hstack
      · rw [hidle.1] at hcalled
        cases hcalled
      · exact hstack
    exact (hs.untouched hstack hd).resolve_right (hasked d (.inside hin he hd))

end Sound

end Nest
end Py
