import Chassis.Core.Nested
import Mathlib.Data.Finset.Max

/-!
# Scopes unwind the newest first

* `outstanding`      what is still to be done by the scopes;
* `closing_ends`     whatever disposers raise, the close of a scope comes to its end;
* `unwinding_lifo`   a closed scope has called whatever was registered in it, or in a scope in it,
                     once, the newest first.
-/

set_option linter.unusedSectionVars false

namespace Chassis
open Py

namespace Scopes
variable {w w' : Scopes}

/-! ## the close of a scope ends -/

/-- calls that are to be made, and to end, and closes that are -/
def weight (sc : Scope) : Nat :=
  2 * sc.stack.length + (if sc.waiting.isSome then 1 else 0) + (if sc.state = .closed then 0 else 1)

def outstanding (w : Scopes) : Nat := (w.scopes.values.map weight).sum

theorem outstanding_set {s : String} {sc sc' : Scope} (hget : w.scopes.get? s = some sc)
    (hset : w'.scopes = w.scopes.set s sc') :
    outstanding w' + weight sc = outstanding w + weight sc' := by
  unfold outstanding
  rw [hset]
  exact Dict.sum_set weight hget sc'

theorem outstanding_aclose (w : Scopes) (c : String) : outstanding (w.aclose c) = outstanding w := by
  unfold aclose
  rcases hget : w.scopes.get? c with _ | sc
  · rfl
  · simp only
    split
    · rename_i hopen
      have hset : outstanding { w with scopes := w.scopes.set c { sc with state := .closing } } +
          weight sc = outstanding w + weight { sc with state := .closing } :=
        outstanding_set hget rfl
      have hweight : weight { sc with state := .closing } = weight sc := by
        unfold weight
        rw [hopen]
        rfl
      omega
    · rfl

theorem lowers {s : String} {sc sc' : Scope} (hget : w.scopes.get? s = some sc)
    (hset : w'.scopes = w.scopes.set s sc') (hweight : weight sc' < weight sc) :
    outstanding w' < outstanding w := by
  have hsum := outstanding_set hget hset
  omega

theorem unwind_calls {s : String} {sc : Scope} (outcome : Option Err)
    (hget : w.scopes.get? s = some sc) (hclosing : sc.state = .closing) (hidle : sc.waiting = none)
    (hstack : sc.stack ≠ []) : outstanding (w.unwind s outcome) < outstanding w := by
  obtain ⟨⟨record, d⟩, rest, htop⟩ := List.exists_cons_of_ne_nil hstack
  have hless : ∀ sc' : Scope, sc'.state = .closing → sc'.stack = rest → weight sc' < weight sc := by
    intro sc' hstate hrest
    have hwait : (if sc'.waiting.isSome then 1 else 0) ≤ 1 := by split <;> decide
    unfold weight
    rw [htop, hidle, hclosing, hstate, hrest]
    simp only [List.length_cons, Option.isSome_none]
    simp
    omega
  unfold unwind
  rw [hget]
  simp only [hclosing, hidle, htop]
  cases d with
  | withdraw id => exact lowers hget rfl (hless _ rfl rfl)
  | releaseTool id => exact lowers hget rfl (hless _ rfl rfl)
  | unregisterHook id => exact lowers hget rfl (hless _ rfl rfl)
  | releaseAgent id => exact lowers hget rfl (hless _ rfl rfl)
  | callback => exact lowers hget rfl (hless _ rfl rfl)
  | closeChild c =>
    rw [outstanding_aclose]
    exact lowers hget rfl (hless _ rfl rfl)

section
variable [Platform]

theorem unwind_ends {s : String} {sc : Scope} {e : Entry} (outcome : Option Err)
    (hget : w.scopes.get? s = some sc) (hclosing : sc.state = .closing) (hwait : sc.waiting = some e)
    (hdone : ∀ c, e.child = some c → ∀ child, w.scopes.get? c = some child → child.state = .closed) :
    outstanding (w.unwind s outcome) < outstanding w := by
  obtain ⟨record, d⟩ := e
  have hless : ∀ (sc₀ : Scope) (raised : Option Err), sc₀.state = .closing → sc₀.stack = sc.stack →
      sc₀.waiting = none → weight (sc₀.recorded record raised) < weight sc := by
    intro sc₀ raised hstate hstack hidle
    obtain ⟨-, hstate', hstack'⟩ := Scope.recorded_same sc₀ record raised
    unfold weight
    rw [hstate', hstack', recorded_waiting, hidle, hwait, hstate, hstack, hclosing]
    simp
  unfold unwind
  rw [hget]
  simp only [hclosing, hwait]
  cases d with
  | closeChild c =>
    simp only
    rcases hchild : w.scopes.get? c with _ | child
    · exact lowers hget rfl (hless _ none rfl rfl rfl)
    · simp only [hdone c rfl child hchild, if_true]
      exact lowers hget rfl (hless _ child.raised rfl rfl rfl)
  | withdraw id => exact lowers hget rfl (hless _ outcome rfl rfl rfl)
  | releaseTool id => exact lowers hget rfl (hless _ outcome rfl rfl rfl)
  | unregisterHook id => exact lowers hget rfl (hless _ outcome rfl rfl rfl)
  | releaseAgent id => exact lowers hget rfl (hless _ outcome rfl rfl rfl)
  | callback => exact lowers hget rfl (hless _ outcome rfl rfl rfl)

theorem finish_ends {s : String} {sc : Scope} (hget : w.scopes.get? s = some sc)
    (hclosing : sc.state = .closing) (hidle : sc.waiting = none) (hempty : sc.stack = []) :
    outstanding (w.finish s) < outstanding w := by
  have hless : ∀ sc' : Scope, sc'.state = .closed → sc'.stack = sc.stack →
      sc'.waiting = sc.waiting → weight sc' < weight sc := by
    intro sc' hclosed hstack hwaiting
    unfold weight
    rw [hclosed, hstack, hwaiting, hclosing]
    simp
  unfold finish
  rw [hget]
  simp only [hclosing, hidle, hempty]
  exact lowers hget rfl (hless _ rfl hempty.symm hidle.symm)

section
variable [Packaging]

/-- a step of the unwind of a scope, in which disposers raise what they are said to raise -/
def Follows (raises : EffectRecord → Option Err) (w : Scopes) : ScopeOp → Prop
  | .unwind s outcome => ∀ sc record, w.scopes.get? s = some sc →
    sc.waiting = some (record, .callback) → outcome = raises record
  | .finish _ => True
  | _ => False

theorem nest_ranked (ops : List ScopeOp) : (nest ops).Ranked Entry.child := by
  induction ops using List.reverseRecOn with
  | nil => exact ⟨fun _ => 0, fun _ _ _ he => nomatch he⟩
  | append_singleton ops op ih => exact ih.step (nest_sound ops) (nest_step ops op)

/-- **While a scope closes, there is something to do**, and it brings the end nearer. -/
theorem closing_advances (raises : EffectRecord → Option Err) {ops : List ScopeOp} {s : String}
    (h : (nest ops).phase s = some .closing) :
    ∃ op, Follows raises (after ops) op ∧ outstanding ((after ops).step op) < outstanding (after ops) := by
  obtain ⟨rank, hrank⟩ := nest_ranked ops
  -- the innermost scope that closes waits for no other one
  obtain ⟨s', hs', hlast⟩ := Finset.exists_max_image
    ((after ops).scopes.keys.toFinset.filter fun s => (nest ops).phase s = some .closing) rank (by
      refine ⟨s, Finset.mem_filter.2 ⟨List.mem_toFinset.2 ?_, h⟩⟩
      obtain ⟨sc, hget, -⟩ := Option.map_eq_some_iff.1 h
      exact Dict.mem_keys.2 ⟨sc, hget⟩)
  obtain ⟨-, hclosing'⟩ := Finset.mem_filter.1 hs'
  obtain ⟨sc, hget, hclosing⟩ := Option.map_eq_some_iff.1 hclosing'
  rcases hwait : sc.waiting with _ | e
  · rcases hstack : sc.stack with _ | ⟨e, rest⟩
    · exact ⟨.finish s', trivial, finish_ends hget hclosing hwait hstack⟩
    · refine ⟨.unwind s' none, fun sc' record hget' hwait' => ?_,
        unwind_calls none hget hclosing hwait (hstack ▸ List.cons_ne_nil e rest)⟩
      rw [hget] at hget'
      cases hget'
      rw [hwait] at hwait'
      cases hwait'
  · refine ⟨.unwind s' (raises e.1), fun sc' record hget' hwait' => ?_,
      unwind_ends (raises e.1) hget hclosing hwait fun c hc child hchild => ?_⟩
    · rw [hget] at hget'
      cases hget'
      rw [hwait] at hwait'
      cases hwait'
      rfl
    · have hwait' : (nest ops).waiting s' = some e := (waiting_of hget).trans hwait
      have hcalled := (nest_sound ops).waits hwait'
      have hregistered := (nest_sound ops).mem_registered.2 (.inl hcalled)
      rcases (nest_sound ops).done hcalled hc with hclosed | ⟨-, hc' | hc'⟩
      · rw [phase_of hchild] at hclosed
        exact Option.some.inj hclosed
      · have hin := hlast c (Finset.mem_filter.2
          ⟨List.mem_toFinset.2 (Dict.mem_keys.2 ⟨child, hchild⟩), hc'⟩)
        have hlater := hrank s' e c hregistered hc
        omega
      · rw [phase_of hchild] at hc'
        exact Option.some.inj hc'

/-- **The close of a scope comes to its end**, whatever disposers raise. -/
theorem closing_ends (raises : EffectRecord → Option Err) (ops : List ScopeOp) {s : String}
    (h : (nest ops).Begun s) : ∃ closing, Calls.Throughout step (after ops) (Follows raises) closing ∧
      (after (ops ++ closing)).Closed s := by
  induction hn : outstanding (after ops) using Nat.strong_induction_on generalizing ops with
  | _ n ih =>
    rcases h with hclosing | hclosed
    · obtain ⟨op, hfollows, hless⟩ := closing_advances raises hclosing
      rw [← after_concat] at hless
      obtain ⟨closing, hall, hdone⟩ := ih _ (hn ▸ hless) (ops ++ [op])
        ((nest_step ops op).begun (.inl hclosing)) rfl
      refine ⟨op :: closing, Calls.throughout_cons.2 ⟨hfollows, ?_⟩, ?_⟩
      · rw [after_concat] at hall
        exact hall
      · rw [List.append_assoc] at hdone
        exact hdone
    · refine ⟨[], Calls.throughout_nil, ?_⟩
      rw [List.append_nil]
      exact hclosed

/-! ## in which order -/

theorem registered_append (ops more : List ScopeOp) {s : String} (h : (nest ops).Begun s) :
    (nest (ops ++ more)).Begun s ∧ registered (ops ++ more) s = registered ops s := by
  induction more using List.reverseRecOn with
  | nil =>
    rw [List.append_nil]
    exact ⟨h, rfl⟩
  | append_singleton more op ih =>
    rw [← List.append_assoc]
    have hstep := nest_step (ops ++ more) op
    exact ⟨hstep.begun ih.1, (hstep.registered_begun ih.1).trans ih.2⟩

theorem below_append {before more : List ScopeOp} {c d : String}
    (h : (nest before).phase c = some .closed)
    (hb : (nest (before ++ more)).Below Entry.child c d) : (nest before).Below Entry.child c d := by
  induction hb with
  | self => exact .self
  | @inside s d e _ he hd ih =>
    have hclosed := (nest_sound before).closed_below h ih
    refine .inside ih ?_ hd
    show e ∈ registered before s
    rw [← (registered_append before more (.inr hclosed)).2]
    exact he

theorem calls_eq {op : ScopeOp} {s : String} {e : Entry} (h : w.calls op s = [e]) :
    ∃ sc rest, w.scopes.get? s = some sc ∧ sc.state = .closing ∧ sc.waiting = none ∧
      sc.stack = e :: rest := by
  cases op with
  | unwind s' outcome =>
    have hcalls : (if s = s' then ((w.scopes.get? s').map callNext).getD [] else []) = [e] := h
    split at hcalls
    · rename_i heq
      subst heq
      rcases hget : w.scopes.get? s with _ | sc
      · rw [hget] at hcalls
        cases hcalls
      · rw [hget] at hcalls
        have hnext : callNext sc = [e] := hcalls
        unfold callNext at hnext
        split at hnext
        · rename_i e' rest hclosing hidle htop
          cases hnext
          exact ⟨sc, rest, rfl, hclosing, hidle, htop⟩
        · cases hnext
    · cases hcalls
  | _ => cases h

/-- A disposer is called when those registered later have been, scopes and whatever is in them
included, and those registered earlier have not, in no scope in which nobody closed one before. -/
structure InTurn (ops before : List ScopeOp) (s : String) (e : Entry) (earlier later : List Entry) :
    Prop where
  order : registered ops s = earlier ++ e :: later
  called : called before s = later.reverse
  done : ∀ e' ∈ later, ∀ c, e'.child = some c → ∀ d, (nest ops).Below Entry.child c d →
    (after before).Closed d ∧ Scopes.called before d = (registered ops d).reverse
  ahead : ∀ e' ∈ e :: earlier, ∀ c, e'.child = some c →
    (∀ d, (nest before).Below Entry.child c d → .aclose d ∉ before) →
    ∀ d, (nest before).Below Entry.child c d → Scopes.called before d = []

theorem inTurn {before more : List ScopeOp} {op : ScopeOp} {s : String} {e : Entry}
    (h : (after before).calls op s = [e]) :
    ∃ earlier later, InTurn (before ++ [op] ++ more) before s e earlier later := by
  obtain ⟨sc, rest, hget, hclosing, hidle, htop⟩ := calls_eq h
  have hs := nest_sound before
  have hbegun : (nest before).Begun s := .inl ((phase_of hget).trans (congrArg some hclosing))
  have hstack : (nest before).stack s = e :: rest := (entries_of_get hget).trans htop
  have hledger := hs.ledger s
  rw [hstack] at hledger
  refine ⟨rest.reverse, (called before s).reverse, ?_, (List.reverse_reverse _).symm, ?_, ?_⟩
  · rw [List.append_assoc, (registered_append before _ hbegun).2, ← List.reverse_reverse
      (registered before s)]
    refine (congrArg List.reverse hledger).trans ?_
    rw [List.reverse_append, List.reverse_cons, List.append_assoc]
    rfl
  · intro e' he' c hc d hd
    have hclosed : (nest before).phase c = some .closed := by
      rcases hs.done (List.mem_reverse.1 he') hc with hclosed | ⟨hwait, -⟩
      · exact hclosed
      · rw [waiting_of hget, hidle] at hwait
        cases hwait
    rw [List.append_assoc] at hd ⊢
    have hd' := hs.closed_below hclosed (below_append hclosed hd)
    refine ⟨hd', ?_⟩
    rw [(registered_append before _ (.inr hd')).2]
    exact hs.called_closed hd'
  · intro e' he' c hc hasked d hd
    have hin : e' ∈ (nest before).stack s := by
      rw [hstack]
      rcases List.mem_cons.1 he' with rfl | he'
      · exact List.mem_cons_self
      · exact List.mem_cons_of_mem e (List.mem_reverse.1 he')
    have hopen := hs.opened_below (hs.untouched hin hc) hd hasked
    exact (hs.idle fun hb => (Nest.begun_iff.1 hb).2 hopen).1

/-- a scope has closed, called whatever was registered in it once, the newest first, and owns none
of these effects -/
structure Unwound (ops : List ScopeOp) (s : String) : Prop where
  closed : (after ops).Closed s
  lifo : called ops s = (registered ops s).reverse
  disowned : ∀ sc, (after ops).scopes.get? s = some sc → ∀ e ∈ registered ops s,
    e.1.effectId ∉ sc.effects.keys

theorem unwound_of_closed {ops : List ScopeOp} {s : String} (h : (after ops).Closed s) :
    Unwound ops s := by
  have hs := nest_sound ops
  refine ⟨h, hs.called_closed h, fun sc hget e he => ?_⟩
  refine (lends_after ops hget).closed ?_ he
  rw [← entries_of_get hget]
  exact (hs.drained h).1

/-- **Scopes unwind the newest first.**  Whatever was called, by whatever tasks: when a scope has
closed, so has every scope in it, each having called whatever was registered in it once, in reverse,
and owning none of these effects; every disposer was called in its turn; and a scope that is there
can be closed, whatever disposers raise. -/
theorem unwinding_lifo (ops : List ScopeOp) :
    (∀ r, (after ops).Closed r → ∀ s, (nest ops).Below Entry.child r s → Unwound ops s) ∧
    (∀ before op s e, before ++ [op] <+: ops → (after before).calls op s = [e] →
      ∃ earlier later, InTurn ops before s e earlier later) ∧
    ∀ r, (after ops).scopes.get? r ≠ none → ∀ raises : EffectRecord → Option Err,
      ∃ closing, Calls.Throughout step (after (ops ++ [.aclose r])) (Follows raises) closing ∧
        (after (ops ++ [.aclose r] ++ closing)).Closed r := by
  refine ⟨fun r hr s hs => unwound_of_closed ((nest_sound ops).closed_below hr hs), ?_, ?_⟩
  · rintro before op s e ⟨more, rfl⟩ h
    exact inTurn h
  · intro r hr raises
    refine closing_ends raises _ (Nest.begun_iff.2 ?_)
    rw [nest_asked]
    obtain ⟨phase, heq, hphase⟩ := (nest ops).close_eq r
    rw [heq]
    show phase r ≠ none ∧ phase r ≠ some .opened
    rw [hphase]
    split
    · exact ⟨fun h => (nomatch h), fun h => nomatch h⟩
    · rename_i hne
      refine ⟨fun hnone => hr (Option.map_eq_none_iff.1 hnone), fun hopen => hne ⟨rfl, hopen⟩⟩

end

end

section
open Plain

/-- a scope with a child between two disposers; the child is closed first, and its disposer fails -/
def familyCloses : List ScopeOp :=
  let root := freshId "scope" 0
  let web := freshId "scope" 2
  let failure : Err := { kind := .Base, message := "interrupted" }
  [.construct "app", .cleanup root "database" "callback", .child root "web",
    .enter root "lock", .cleanup web "listener" "callback", .entered root (freshId "fx" 4) false,
    .aclose web, .unwind web none, .unwind web (some failure), .finish web,
    .aclose root, .aclose root, .unwind root none, .unwind root (some failure),
    .unwind root none, .unwind root none, .unwind root none, .unwind root none, .finish root]

theorem unwinding_lifo_family :
    Unwound familyCloses (freshId "scope" 0) ∧ Unwound familyCloses (freshId "scope" 2) ∧
    (called familyCloses (freshId "scope" 0)).map (fun e => e.1.description) =
      ["lock", "child scope 'web'", "database"] := by
  have hclosed : (after familyCloses).Closed (freshId "scope" 0) := by decide +kernel
  have hchild : ((⟨freshId "fx" 3, "child", "child scope 'web'"⟩, .closeChild (freshId "scope" 2)) :
      Entry) ∈ registered familyCloses (freshId "scope" 0) := by decide +kernel
  have hall := (unwinding_lifo familyCloses).1 _ hclosed
  exact ⟨hall _ .self, hall _ (.inside .self hchild rfl), by decide +kernel⟩

end

end Scopes
end Chassis
