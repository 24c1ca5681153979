import Chassis.Core.Custody
import Chassis.Lib.Nesting

/-!
# Scopes as nested scopes

* `calls`, `registers`   the disposer that a step calls, and the one it registers;
* `Change`, `step_change`   what a call can do to the scopes;
* `nest_step`            seen from outside it is a step of nested scopes, so that `nest_sound`;
* `lends_after`          what is registered in a scope that has closed is none of its effects.
-/

set_option linter.unusedSectionVars false

namespace Chassis
open Py
open Function (update)

/-- an effect and its inverse -/
abbrev Entry := EffectRecord × Disposer

/-- the scope that is closed by it -/
def Entry.child (e : Entry) : Option String :=
  match e.2 with
  | .closeChild c => some c
  | _ => none

namespace Scopes
variable {w w' : Scopes}

def entries (w : Scopes) (s : String) : List Entry := ((w.scopes.get? s).map Scope.stack).getD []

/-- what a scope would call next -/
def callNext (sc : Scope) : List Entry :=
  match sc.state, sc.waiting, sc.stack with
  | .closing, none, e :: _ => [e]
  | _, _, _ => []

def calls (w : Scopes) : ScopeOp → String → List Entry
  | .unwind s _, s' => if s' = s then ((w.scopes.get? s).map callNext).getD [] else []
  | _, _ => []

theorem recorded_waiting (sc : Scope) (record : EffectRecord) (raised : Option Err) :
    (sc.recorded record raised).waiting = sc.waiting := by
  cases raised with
  | none => rfl
  | some e =>
    unfold Chassis.Scope.recorded
    simp only
    split <;> rfl

theorem recorded_effects (sc : Scope) (record : EffectRecord) (raised : Option Err) :
    (sc.recorded record raised).effects = sc.effects ∧
      (sc.recorded record raised).entering = sc.entering := by
  cases raised with
  | none => exact ⟨rfl, rfl⟩
  | some e =>
    unfold Chassis.Scope.recorded
    simp only
    split <;> exact ⟨rfl, rfl⟩

/-- what ends as it is called: the inverses of registrations -/
def endsAtOnce (e : Entry) : List (Entry × Option Err) :=
  match e.2 with
  | .callback => []
  | .closeChild _ => []
  | _ => [(e, none)]

/-- the disposer of a scope that ends next, with what it raises -/
def endNext (w : Scopes) (outcome : Option Err) (sc : Scope) : List (Entry × Option Err) :=
  match sc.state, sc.waiting, sc.stack with
  | .closing, some (record, .closeChild c), _ =>
    match w.scopes.get? c with
    | none => [((record, .closeChild c), none)]
    | some child => if child.state = .closed then [((record, .closeChild c), child.raised)] else []
  | .closing, some e, _ => [(e, outcome)]
  | .closing, none, e :: _ => endsAtOnce e
  | _, _, _ => []

/-- the disposer of a scope that ends in a step, with what it raises -/
def ends (w : Scopes) : ScopeOp → String → List (Entry × Option Err)
  | .unwind s outcome, s' =>
    if s' = s then ((w.scopes.get? s).map (endNext w outcome)).getD [] else []
  | _, _ => []

/-- no disposer is called or ends, and nobody asks a scope to close -/
def Quiet (w : Scopes) (op : ScopeOp) : Prop :=
  (∀ s, w.calls op s = [] ∧ w.ends op s = []) ∧ ∀ s, op ≠ .aclose s

section
variable [Platform]

inductive Change (w : Scopes) (op : ScopeOp) (w' : Scopes) : Prop
  | same : Quiet w op → w'.scopes = w.scopes → Change w op w'
  | create (name : String) (parent : Option String) : Quiet w op →
    w.scopes.get? (freshId "scope" w.drawn) = none →
    w'.scopes = w.scopes.set (freshId "scope" w.drawn)
      { id := freshId "scope" w.drawn, name := name, parent := parent } → Change w op w'
  | adopt (s name : String) (sc : Scope) (u : Scopes) : Quiet w op → w.scopes.get? s = some sc →
    sc.state = .opened → w.scopes.get? (freshId "scope" w.drawn) = none → w.drawn ≤ u.drawn →
    u.drawn < w'.drawn →
    w'.scopes = (w.scopes.set (freshId "scope" w.drawn)
      { id := freshId "scope" w.drawn, name := name, parent := some s }).set s
      (u.pushed { sc with children := sc.children ++ [freshId "scope" w.drawn] }
        ("child scope " ++ quoted name) "child" (.closeChild (freshId "scope" w.drawn))) →
    Change w op w'
  | push (s description kind : String) (sc : Scope) (u : Scopes) (d : Disposer) : Quiet w op →
    w.scopes.get? s = some sc → sc.state = .opened → Entry.child (⟨"", "", ""⟩, d) = none →
    w.drawn ≤ u.drawn → u.drawn < w'.drawn →
    w'.scopes = w.scopes.set s (u.pushed sc description kind d) → Change w op w'
  | release (s effectId : String) (sc : Scope) : Quiet w op → w.scopes.get? s = some sc →
    w'.scopes = w.scopes.set s { sc with effects := sc.effects.erase effectId } → Change w op w'
  | enter (s description : String) (sc : Scope) : Quiet w op → w.scopes.get? s = some sc →
    w'.scopes = w.scopes.set s (w.beginning sc description) → w.drawn < w'.drawn → Change w op w'
  | leave (s effectId : String) (sc : Scope) : Quiet w op → w.scopes.get? s = some sc →
    w'.scopes = w.scopes.set s { sc with
      effects := sc.effects.erase effectId
      entering := sc.entering.filter fun record => record.effectId ≠ effectId } → Change w op w'
  | entered (s : String) (record : EffectRecord) (sc : Scope) : Quiet w op →
    w.scopes.get? s = some sc → sc.state = .opened → record ∈ sc.entering →
    w'.scopes = w.scopes.set s { sc with
      entering := sc.entering.filter fun record' => record'.effectId ≠ record.effectId
      stack := (record, .callback) :: sc.stack } → Change w op w'
  | ask (s : String) : op = .aclose s → w' = w.aclose s → Change w op w'
  | call (s : String) (outcome : Option Err) (sc : Scope) (e : Entry) (rest : List Entry)
    (wait : Option Entry) : op = .unwind s outcome → w.scopes.get? s = some sc →
    sc.state = .closing → sc.waiting = none → sc.stack = e :: rest → e.child = none →
    (∀ a ∈ wait, a = e) →
    (∀ s', w.ends op s' = if s' = s ∧ wait = none then [(e, none)] else []) →
    w'.scopes = w.scopes.set s { sc with
      effects := sc.effects.erase e.1.effectId
      stack := rest
      waiting := wait } → Change w op w'
  | callChild (s c : String) (outcome : Option Err) (sc : Scope) (record : EffectRecord)
    (rest : List Entry) : op = .unwind s outcome → w.scopes.get? s = some sc →
    sc.state = .closing → sc.waiting = none → sc.stack = (record, .closeChild c) :: rest →
    (∀ s', w.ends op s' = []) →
    w'.scopes = (aclose { w with scopes := w.scopes.set s { sc with
      effects := sc.effects.erase record.effectId
      stack := rest
      waiting := some (record, .closeChild c) } } c).scopes → Change w op w'
  | ended (s : String) (outcome raised : Option Err) (sc : Scope) (e : Entry) :
    op = .unwind s outcome → w.scopes.get? s = some sc → sc.state = .closing →
    sc.waiting = some e →
    (∀ c, e.child = some c → ∀ child, w.scopes.get? c = some child → child.state = .closed) →
    (∀ s', w.ends op s' = if s' = s then [(e, raised)] else []) →
    w'.scopes = w.scopes.set s (Scope.recorded { sc with waiting := none } e.1 raised) →
    Change w op w'
  | finish (s : String) (sc sc' : Scope) : op = .finish s → w.scopes.get? s = some sc →
    sc.state = .closing → sc.waiting = none → sc.stack = [] → w'.scopes = w.scopes.set s sc' →
    sc' = { sc with
      state := .closed
      failures := sc.failures ++ sc.unwindError.toList.map fun e => e.recorded "effect unwind"
      raised :=
        if sc.failures ++ (sc.unwindError.toList.map fun e => e.recorded "effect unwind") = [] then
          none
        else some (EffectCleanupError sc.name
          (sc.failures ++ sc.unwindError.toList.map fun e => e.recorded "effect unwind")) } →
    Change w op w'

theorem child_change (hk : w.Kept) {op : ScopeOp} (hq : Quiet w op) (s name : String) :
    Change w op (w.child s name).2 := by
  unfold Scopes.child
  rcases hopen : w.assertOpen s ("create child scope " ++ quoted name) with e | sc
  · exact .same hq rfl
  · obtain ⟨hget, hstate⟩ := assertOpen_ok.1 hopen
    have hget₂ := Dict.get?_set_self (w.construct name (some s)).2.scopes s
      { sc with children := sc.children ++ [freshId "scope" w.drawn] }
    have hclean := cleanup_open (w := { (w.construct name (some s)).2 with
      scopes := (w.construct name (some s)).2.scopes.set s
        { sc with children := sc.children ++ [freshId "scope" w.drawn] } }) hget₂ hstate
      ("child scope " ++ quoted name) "child" (.closeChild (freshId "scope" w.drawn))
    simp only [Scopes.construct] at hclean ⊢
    rw [hclean]
    refine .adopt s name sc { w with drawn := w.drawn + 1 } hq hget hstate (hk.unknown (le_refl _))
      (Nat.le_succ _) (Nat.lt_succ_self _) ?_
    exact Dict.set_set _ _ _ _

theorem entered_change {op : ScopeOp} (hq : Quiet w op) (s effectId : String) (failed : Bool) :
    Change w op (w.entered s effectId failed) := by
  unfold Scopes.entered
  rcases hget : w.scopes.get? s with _ | sc
  · exact .same hq rfl
  · simp only
    split
    · exact .same hq rfl
    · rename_i record hrecord
      have hid : record.effectId = effectId := by simpa using List.find?_some hrecord
      split
      · exact .leave s effectId sc hq hget rfl
      · rename_i hopen
        refine .entered s record sc hq hget ?_ (List.mem_of_find?_eq_some hrecord) ?_
        · by_contra hstate
          exact hopen (.inr hstate)
        · rw [hid]

theorem ends_unwind {s : String} {sc : Scope} {outcome : Option Err} {l : List (Entry × Option Err)}
    (hget : w.scopes.get? s = some sc) (h : endNext w outcome sc = l) (s' : String) :
    w.ends (.unwind s outcome) s' = if s' = s then l else [] := by
  show (if s' = s then ((w.scopes.get? s).map (endNext w outcome)).getD [] else []) = _
  rw [hget, Option.map_some, h]
  rfl

theorem unwind_change (w : Scopes) (s : String) (outcome : Option Err) :
    Change w (.unwind s outcome) (w.unwind s outcome) := by
  unfold Scopes.unwind
  rcases hget : w.scopes.get? s with _ | sc
  · refine .same ⟨fun s' => ⟨?_, ?_⟩, fun _ heq => by cases heq⟩ rfl
    · show (if s' = s then _ else _) = _
      rw [hget]
      exact ite_self _
    · show (if s' = s then _ else _) = _
      rw [hget]
      exact ite_self _
  · have hquiet : callNext sc = [] → endNext w outcome sc = [] → Quiet w (.unwind s outcome) := by
      intro hcall hend
      refine ⟨fun s' => ⟨?_, ?_⟩, fun _ heq => by cases heq⟩
      · show (if s' = s then ((w.scopes.get? s).map callNext).getD [] else []) = _
        rw [hget, Option.map_some, hcall]
        exact ite_self _
      · rw [ends_unwind hget hend]
        exact ite_self _
    simp only
    split
    · rename_i record d hclosing hwaiting
      have hcall : callNext sc = [] := by
        unfold callNext
        rw [hclosing, hwaiting]
      have hended : ∀ {u : Scopes} (raised : Option Err),
          (∀ c, Entry.child (record, d) = some c → ∀ child, w.scopes.get? c = some child →
            child.state = .closed) → endNext w outcome sc = [((record, d), raised)] →
          u.scopes = w.scopes.set s (Scope.recorded { sc with waiting := none } record raised) →
          Change w (.unwind s outcome) u :=
        fun raised hchild hend heq => .ended s outcome raised sc (record, d) rfl hget hclosing hwaiting
          hchild (ends_unwind hget hend) heq
      split
      · rename_i c
        split
        · rename_i hchild
          refine hended none (fun c' hc' child hget' => ?_) ?_ rfl
          · cases hc'
            rw [hchild] at hget'
            cases hget'
          · unfold endNext
            rw [hclosing, hwaiting]
            simp only [hchild]
        · rename_i child hchild
          split
          · rename_i hclosed
            refine hended child.raised (fun c' hc' child' hget' => ?_) ?_ rfl
            · cases hc'
              rw [hchild] at hget'
              cases hget'
              exact hclosed
            · unfold endNext
              rw [hclosing, hwaiting]
              simp only [hchild]
              exact if_pos hclosed
          · rename_i hopen
            refine .same (hquiet hcall ?_) rfl
            unfold endNext
            rw [hclosing, hwaiting]
            simp only [hchild]
            exact if_neg hopen
      · rename_i hleaf
        refine hended outcome (fun c hc => ?_) ?_ rfl
        · cases d with
          | closeChild c' => exact absurd rfl (hleaf c')
          | _ => cases hc
        · unfold endNext
          rw [hclosing, hwaiting]
          cases d with
          | closeChild c' => exact absurd rfl (hleaf c')
          | _ => rfl
    · rename_i record d rest hclosing hwaiting htop
      have hcall : ∀ {u : Scopes} (wait : Option Entry), Entry.child (record, d) = none →
          (∀ a ∈ wait, a = (record, d)) →
          endNext w outcome sc = (if wait = none then [((record, d), none)] else []) →
          u.scopes = w.scopes.set s { sc with
            effects := sc.effects.erase record.effectId
            stack := rest
            waiting := wait } → Change w (.unwind s outcome) u := by
        intro u wait hleaf hwait hend heq
        refine .call s outcome sc (record, d) rest _ rfl hget hclosing hwaiting htop hleaf hwait
          (fun s' => ?_) heq
        rw [ends_unwind hget hend, ite_and]
      have hpop : ∀ {u : Scopes}, Entry.child (record, d) = none →
          endNext w outcome sc = [((record, d), none)] → u.scopes = w.scopes.set s { sc with
            effects := sc.effects.erase record.effectId
            stack := rest } → Change w (.unwind s outcome) u := by
        intro u hleaf hend heq
        refine hcall none hleaf (fun a ha => by cases ha) hend ?_
        rw [heq, ← hwaiting]
      have hend : endNext w outcome sc = endsAtOnce (record, d) := by
        unfold endNext
        rw [hclosing, hwaiting, htop]
      cases d with
      | withdraw id => exact hpop rfl hend rfl
      | releaseTool id => exact hpop rfl hend rfl
      | unregisterHook id => exact hpop rfl hend rfl
      | releaseAgent id => exact hpop rfl hend rfl
      | callback => exact hcall _ rfl (fun a ha => (Option.some.inj ha).symm) hend rfl
      | closeChild c =>
        refine .callChild s c outcome sc record rest rfl hget hclosing hwaiting htop (fun s' => ?_) rfl
        rw [ends_unwind hget hend]
        exact ite_self _
    · rename_i hwaits hcalls
      refine .same (hquiet ?_ ?_) rfl
      · unfold callNext
        split
        · rename_i e rest hclosing hwaiting htop
          exact (hcalls e.1 e.2 rest hclosing hwaiting htop).elim
        · rfl
      · unfold endNext
        split
        · rename_i record c hclosing hwaiting
          exact (hwaits record _ hclosing hwaiting).elim
        · rename_i e _ hclosing hwaiting
          exact (hwaits e.1 e.2 hclosing hwaiting).elim
        · rename_i e rest hclosing hwaiting htop
          exact (hcalls e.1 e.2 rest hclosing hwaiting htop).elim
        · rfl

theorem finish_change (s : String) : Change w (.finish s) (w.finish s) := by
  have hquiet : Quiet w (.finish s) := ⟨fun _ => ⟨rfl, rfl⟩, fun _ heq => nomatch heq⟩
  unfold Scopes.finish
  rcases hget : w.scopes.get? s with _ | sc
  · exact .same hquiet rfl
  · simp only
    split
    · rename_i hclosing hwaiting hempty
      exact .finish s sc _ rfl hget hclosing hwaiting hempty rfl rfl
    · exact .same hquiet rfl

section
variable [Packaging]

/-- **What a call does to the scopes.** -/
theorem step_change (hk : w.Kept) (op : ScopeOp) : Change w op (w.step op) := by
  have hpush : ∀ {op : ScopeOp} {w' u : Scopes} {s description kind : String} {sc : Scope}
      {d : Disposer}, Quiet w op → u.drawn = w.drawn + 1 → w.scopes.get? s = some sc →
      sc.state = .opened → Entry.child (⟨"", "", ""⟩, d) = none → w'.drawn = w.drawn + 2 →
      w'.scopes = w.scopes.set s (u.pushed sc description kind d) → Change w op w' := by
    intro op w' u s description kind sc d hq hu hget hopen hleaf hw' hscopes
    exact .push s description kind sc u d hq hget hopen hleaf (by omega) (by omega) hscopes
  cases op with
  | construct name =>
    have hq : Quiet w (.construct name) := ⟨fun _ => ⟨rfl, rfl⟩, fun _ h => by cases h⟩
    exact .create name none hq (hk.unknown (le_refl _)) rfl
  | child s name =>
    have hq : Quiet w (.child s name) := ⟨fun _ => ⟨rfl, rfl⟩, fun _ h => by cases h⟩
    exact child_change hk hq s name
  | releaseEffect s effectId =>
    have hq : Quiet w (.releaseEffect s effectId) := ⟨fun _ => ⟨rfl, rfl⟩, fun _ h => by cases h⟩
    show Change w _ (w.releaseEffect s effectId)
    unfold Scopes.releaseEffect
    rcases hget : w.scopes.get? s with _ | sc
    · exact .same hq rfl
    · exact .release s effectId sc hq hget rfl
  | cleanup s description kind =>
    have hq : Quiet w (.cleanup s description kind) := ⟨fun _ => ⟨rfl, rfl⟩, fun _ h => by cases h⟩
    rw [step_cleanup]
    rcases hclean : w.cleanup s description kind .callback with e | w'
    · exact .same hq rfl
    · obtain ⟨sc, hopen, -⟩ := bind_ok.1 hclean
      obtain ⟨hget, hstate⟩ := assertOpen_ok.1 hopen
      rw [cleanup_open hget hstate] at hclean
      cases hclean
      exact .push s description kind sc w .callback hq hget hstate rfl (le_refl _)
        (Nat.lt_succ_self _) rfl
  | enter s description =>
    have hq : Quiet w (.enter s description) := ⟨fun _ => ⟨rfl, rfl⟩, fun _ h => by cases h⟩
    rw [step_enter]
    rcases henter : w.enter s description with e | w'
    · exact .same hq rfl
    · obtain ⟨sc, hopen, -⟩ := bind_ok.1 henter
      obtain ⟨hget, hstate⟩ := assertOpen_ok.1 hopen
      rw [enter_open hget hstate] at henter
      cases henter
      exact .enter s description sc hq hget rfl (Nat.lt_succ_self _)
  | entered s effectId failed =>
    have hq : Quiet w (.entered s effectId failed) := ⟨fun _ => ⟨rfl, rfl⟩, fun _ h => by cases h⟩
    exact entered_change hq s effectId failed
  | provide s key version providerId providerName =>
    have hq : Quiet w (.provide s key version providerId providerName) :=
      ⟨fun _ => ⟨rfl, rfl⟩, fun _ h => by cases h⟩
    rcases w.provide_cases s key version providerId providerName with
      heq | ⟨sc, b, u, description, heq, hu, hget, hopen, -⟩
    · exact .same hq (congrArg scopes heq)
    · exact hpush hq hu hget hopen rfl (congrArg drawn heq) (congrArg scopes heq)
  | withdraw registrationId => exact .same ⟨fun _ => ⟨rfl, rfl⟩, fun _ h => by cases h⟩ rfl
  | withdrawProvider providerId => exact .same ⟨fun _ => ⟨rfl, rfl⟩, fun _ h => by cases h⟩ rfl
  | clear => exact .same ⟨fun _ => ⟨rfl, rfl⟩, fun _ h => by cases h⟩ rfl
  | registerTool s t isTool isAsync ownerId ownerName =>
    have hq : Quiet w (.registerTool s t isTool isAsync ownerId ownerName) :=
      ⟨fun _ => ⟨rfl, rfl⟩, fun _ h => by cases h⟩
    rcases w.registerTool_cases s t isTool isAsync ownerId ownerName with
      heq | ⟨sc, b, u, description, heq, hu, hget, hopen, -⟩
    · exact .same hq (congrArg scopes heq)
    · exact hpush hq hu hget hopen rfl (congrArg drawn heq) (congrArg scopes heq)
  | unregisterTool name ownerId => exact .same ⟨fun _ => ⟨rfl, rfl⟩, fun _ h => by cases h⟩ rfl
  | registerHook s d ownerId =>
    have hq : Quiet w (.registerHook s d ownerId) := ⟨fun _ => ⟨rfl, rfl⟩, fun _ h => by cases h⟩
    rcases w.registerHook_cases s d ownerId with
      heq | ⟨sc, b, u, description, heq, hu, hget, hopen, -⟩
    · exact .same hq (congrArg scopes heq)
    · exact hpush hq hu hget hopen rfl (congrArg drawn heq) (congrArg scopes heq)
  | unregisterHook registrationId => exact .same ⟨fun _ => ⟨rfl, rfl⟩, fun _ h => by cases h⟩ rfl
  | registerAgent runtime scopeId replace binder =>
    have hq : Quiet w (.registerAgent runtime scopeId replace binder) :=
      ⟨fun _ => ⟨rfl, rfl⟩, fun _ h => by cases h⟩
    rcases w.registerAgent_cases runtime scopeId replace binder with
      ⟨n, -, heq⟩ | ⟨b, heq, -⟩ | ⟨s, sc, b, u, description, heq, hu, hget, hopen, -⟩
    · exact .same hq (congrArg Scopes.scopes heq :)
    · exact .same hq (congrArg Scopes.scopes heq :)
    · exact hpush hq hu hget hopen rfl (congrArg drawn heq) (congrArg scopes heq)
  | unregisterAgent name scopeId => exact .same ⟨fun _ => ⟨rfl, rfl⟩, fun _ h => by cases h⟩ rfl
  | aclose s => exact .ask s rfl rfl
  | unwind s outcome => exact unwind_change w s outcome
  | finish s => exact finish_change s

end

/-! ## seen from outside -/

section
variable [Packaging]

/-- the entry that a call registers in a scope: the newest, where there was one less before -/
def registers (w : Scopes) (op : ScopeOp) (s : String) : List Entry :=
  ((w.step op).entries s).take (((w.step op).entries s).length - (w.entries s).length)

/-- what was registered in a scope in the course of these calls, the oldest first -/
def registered (ops : List ScopeOp) (s : String) : List Entry :=
  Calls.events step (fun w op => registers w op s) {} ops

/-- what a scope called in the course of these calls, in this order -/
def called (ops : List ScopeOp) (s : String) : List Entry :=
  Calls.events step (fun w op => calls w op s) {} ops

/-- the scopes after these calls, as nested scopes -/
def nest (ops : List ScopeOp) : Nest Entry String where
  phase s := ((after ops).scopes.get? s).map Scope.state
  stack := (after ops).entries
  waiting s := ((after ops).scopes.get? s).bind Scope.waiting
  registered := registered ops
  called := called ops
  asked s := .aclose s ∈ ops

theorem after_concat (ops : List ScopeOp) (op : ScopeOp) :
    after (ops ++ [op]) = (after ops).step op := Calls.run_concat step {} ops op

theorem registered_concat (ops : List ScopeOp) (op : ScopeOp) (s : String) :
    registered (ops ++ [op]) s = registered ops s ++ registers (after ops) op s :=
  Calls.events_concat step _ {} ops op

theorem called_concat (ops : List ScopeOp) (op : ScopeOp) (s : String) :
    called (ops ++ [op]) s = called ops s ++ calls (after ops) op s :=
  Calls.events_concat step _ {} ops op

theorem registers_same {op : ScopeOp} {s : String} (h : (w.step op).entries s = w.entries s) :
    registers w op s = [] := by
  unfold registers
  rw [h, Nat.sub_self, List.take_zero]

theorem registers_push {op : ScopeOp} {s : String} {e : Entry}
    (h : (w.step op).entries s = e :: w.entries s) : registers w op s = [e] := by
  unfold registers
  rw [h, List.length_cons, Nat.add_sub_cancel_left]
  rfl

theorem registers_pop {op : ScopeOp} {s : String} {e : Entry} (h : w.entries s = e :: (w.step op).entries s) :
    registers w op s = [] := by
  unfold registers
  rw [h, List.length_cons, Nat.sub_eq_zero_of_le (Nat.le_succ _), List.take_zero]

theorem entries_of_get {s : String} {sc : Scope} (h : w.scopes.get? s = some sc) :
    w.entries s = sc.stack := by
  unfold entries
  rw [h]
  rfl

theorem entries_set {s : String} {sc : Scope} (h : w'.scopes = w.scopes.set s sc) :
    w'.entries = update w.entries s sc.stack := by
  funext s'
  unfold entries
  rw [h, Dict.get?_set, Function.update_apply]
  split <;> rfl

theorem phases_set {s : String} {sc : Scope} (h : w'.scopes = w.scopes.set s sc) :
    (fun s' => (w'.scopes.get? s').map Scope.state) =
      update (fun s' => (w.scopes.get? s').map Scope.state) s (some sc.state) := by
  funext s'
  rw [h, Dict.get?_set, Function.update_apply]
  split <;> rfl

theorem waiting_set {s : String} {sc : Scope} (h : w'.scopes = w.scopes.set s sc) :
    (fun s' => (w'.scopes.get? s').bind Scope.waiting) =
      update (fun s' => (w.scopes.get? s').bind Scope.waiting) s sc.waiting := by
  funext s'
  rw [h, Dict.get?_set, Function.update_apply]
  split <;> rfl

variable {ops : List ScopeOp} {op : ScopeOp}

theorem nest_concat {phase : String → Option Phase} {stack : String → List Entry}
    {waiting : String → Option Entry} {new old : String → List Entry} {asked : String → Prop}
    (hphase : (nest (ops ++ [op])).phase = phase) (hstack : (nest (ops ++ [op])).stack = stack)
    (hwaiting : (nest (ops ++ [op])).waiting = waiting)
    (hnew : ∀ s, registered ops s ++ registers (after ops) op s = new s)
    (hold : ∀ s, called ops s ++ calls (after ops) op s = old s)
    (hasked : ∀ s, (.aclose s ∈ ops ∨ op = .aclose s) ↔ asked s) :
    nest (ops ++ [op]) = ⟨phase, stack, waiting, new, old, asked⟩ := by
  have hregistered : (nest (ops ++ [op])).registered = new :=
    funext fun s => (registered_concat ops op s).trans (hnew s)
  have hcalled : (nest (ops ++ [op])).called = old :=
    funext fun s => (called_concat ops op s).trans (hold s)
  have hask : (nest (ops ++ [op])).asked = asked := by
    funext s
    refine propext (Iff.trans ?_ (hasked s))
    show .aclose s ∈ ops ++ [op] ↔ _
    rw [List.mem_append, List.mem_singleton]
    exact or_congr_right eq_comm
  rw [← hphase, ← hstack, ← hwaiting, ← hregistered, ← hcalled, ← hask]

theorem after_scopes {sc : Scope} {s : String}
    (h : ((after ops).step op).scopes = (after ops).scopes.set s sc) :
    (after (ops ++ [op])).scopes = (after ops).scopes.set s sc := by
  rw [after_concat]
  exact h

theorem phase_of {s : String} {sc : Scope} (h : (after ops).scopes.get? s = some sc) :
    (nest ops).phase s = some sc.state := congrArg (Option.map Scope.state) h

theorem waiting_of {s : String} {sc : Scope} (h : (after ops).scopes.get? s = some sc) :
    (nest ops).waiting s = sc.waiting := congrArg (Option.bind · Scope.waiting) h

theorem asked_quiet (hq : Quiet (after ops) op) (s : String) :
    (.aclose s ∈ ops ∨ op = .aclose s) ↔ (nest ops).asked s :=
  or_iff_left (hq.2 s)

theorem called_quiet (hq : Quiet (after ops) op) (s : String) :
    called ops s ++ calls (after ops) op s = called ops s := by
  rw [(hq.1 s).1, List.append_nil]

theorem nest_noted (hq : Quiet (after ops) op) {s : String} {sc sc' : Scope}
    (hget : (after ops).scopes.get? s = some sc)
    (hset : ((after ops).step op).scopes = (after ops).scopes.set s sc')
    (hstate : sc'.state = sc.state) (hstack : sc'.stack = sc.stack)
    (hwaiting : sc'.waiting = sc.waiting) : nest (ops ++ [op]) = nest ops := by
  have hentries : ((after ops).step op).entries = (after ops).entries := by
    rw [entries_set hset, hstack, ← entries_of_get hget, Function.update_eq_self]
  refine nest_concat ?_ ?_ ?_ (fun s' => ?_) (called_quiet hq) (asked_quiet hq)
  · refine (phases_set (after_scopes hset)).trans ?_
    rw [hstate, ← phase_of hget]
    exact Function.update_eq_self s _
  · show (after (ops ++ [op])).entries = _
    rw [after_concat]
    exact hentries
  · refine (waiting_set (after_scopes hset)).trans ?_
    rw [hwaiting, ← waiting_of hget]
    exact Function.update_eq_self s _
  · rw [registers_same (congrFun hentries s'), List.append_nil]

theorem nest_pushed (hq : Quiet (after ops) op) {s : String} {e : Entry}
    {phase : String → Option Phase} (hphase : (nest (ops ++ [op])).phase = phase)
    (hentries : ((after ops).step op).entries =
      update (after ops).entries s (e :: (after ops).entries s))
    (hwaiting : (nest (ops ++ [op])).waiting = (nest ops).waiting) :
    nest (ops ++ [op]) = { (nest ops).push s e with phase := phase } := by
  refine nest_concat hphase ?_ hwaiting (fun s' => ?_) (called_quiet hq) (asked_quiet hq)
  · show (after (ops ++ [op])).entries = _
    rw [after_concat]
    exact hentries
  · show _ = update (registered ops) s (registered ops s ++ [e]) s'
    rw [Function.update_apply]
    split
    · rename_i heq
      rw [heq, registers_push]
      rw [hentries, Function.update_self]
    · rename_i hne
      rw [registers_same, List.append_nil]
      rw [hentries, Function.update_of_ne hne]

theorem nest_pushed_one (hq : Quiet (after ops) op) {s : String} {sc sc' : Scope} {e : Entry}
    (hget : (after ops).scopes.get? s = some sc)
    (hset : ((after ops).step op).scopes = (after ops).scopes.set s sc')
    (hstate : sc'.state = sc.state) (hstack : sc'.stack = e :: sc.stack)
    (hwaiting : sc'.waiting = sc.waiting) : nest (ops ++ [op]) = (nest ops).push s e := by
  have hphase : (nest (ops ++ [op])).phase = (nest ops).phase := by
    refine (phases_set (after_scopes hset)).trans ?_
    rw [hstate, ← phase_of hget]
    exact Function.update_eq_self s _
  refine nest_pushed hq hphase ?_ ?_
  · rw [entries_set hset, hstack, entries_of_get hget]
  · refine (waiting_set (after_scopes hset)).trans ?_
    rw [hwaiting, ← waiting_of hget]
    exact Function.update_eq_self s _

theorem nest_adopted (hq : Quiet (after ops) op) {s c : String} {sc sc' new : Scope} {e : Entry}
    (hget : (after ops).scopes.get? s = some sc) (hnone : (after ops).scopes.get? c = none)
    (hset : ((after ops).step op).scopes = ((after ops).scopes.set c new).set s sc')
    (hstate : sc'.state = sc.state) (hstack : sc'.stack = e :: sc.stack)
    (hwaiting : sc'.waiting = sc.waiting)
    (hnew : new.state = .opened ∧ new.stack = [] ∧ new.waiting = none) :
    nest (ops ++ [op]) = ((nest ops).setPhase c .opened).push s e := by
  have hne : s ≠ c := by
    rintro rfl
    rw [hnone] at hget
    cases hget
  obtain ⟨between, hbetween⟩ : ∃ v : Scopes, v.scopes = (after ops).scopes.set c new :=
    ⟨{ after ops with scopes := (after ops).scopes.set c new }, rfl⟩
  rw [← hbetween] at hset
  have hset' : (after (ops ++ [op])).scopes = between.scopes.set s sc' := by
    rw [after_concat]
    exact hset
  have hempty : (after ops).entries c = [] := by
    unfold entries
    rw [hnone]
    rfl
  have hidle : (nest ops).waiting c = none := congrArg (Option.bind · Scope.waiting) hnone
  refine nest_pushed hq ?_ ?_ ?_
  · refine (phases_set hset').trans ?_
    rw [phases_set hbetween, hstate, hnew.1]
    refine (congrArg (update _ s) ?_).trans (Function.update_eq_self s _)
    rw [Function.update_of_ne hne]
    exact (phase_of hget).symm
  · rw [entries_set hset, entries_set hbetween, hstack, hnew.2.1, ← hempty,
      Function.update_eq_self, entries_of_get hget]
  · refine (waiting_set hset').trans ?_
    rw [waiting_set hbetween, hwaiting, hnew.2.2]
    have hsame : update (nest ops).waiting c none = (nest ops).waiting := by
      rw [← hidle]
      exact Function.update_eq_self c _
    show update (update (nest ops).waiting c none) s sc.waiting = _
    rw [hsame, ← waiting_of hget]
    exact Function.update_eq_self s _

theorem nest_called {s : String} {sc : Scope} {e : Entry} {rest : List Entry} (outcome : Option Err)
    (wait : Option Entry) {phase : String → Option Phase}
    (hget : (after ops).scopes.get? s = some sc) (hclosing : sc.state = .closing)
    (hidle : sc.waiting = none) (htop : sc.stack = e :: rest)
    (hphase : (nest (ops ++ [.unwind s outcome])).phase = phase)
    (hentries : ((after ops).step (.unwind s outcome)).entries = update (after ops).entries s rest)
    (hwaiting : (nest (ops ++ [.unwind s outcome])).waiting = update (nest ops).waiting s wait) :
    nest (ops ++ [.unwind s outcome]) = { (nest ops).call s e rest wait with phase := phase } := by
  have hcalls : ∀ s', calls (after ops) (.unwind s outcome) s' = if s' = s then [e] else [] := by
    intro s'
    have hnext : callNext sc = [e] := by
      unfold callNext
      rw [hclosing, hidle, htop]
    show (if s' = s then (((after ops).scopes.get? s).map callNext).getD [] else []) = _
    rw [hget, Option.map_some, hnext]
    rfl
  refine nest_concat hphase ?_ hwaiting (fun s' => ?_) (fun s' => ?_) fun s' => ?_
  · show (after (ops ++ [.unwind s outcome])).entries = _
    rw [after_concat]
    exact hentries
  · have hnone : registers (after ops) (.unwind s outcome) s' = [] := by
      by_cases hs : s' = s
      · rw [hs]
        refine registers_pop (e := e) ?_
        rw [hentries, Function.update_self, entries_of_get hget, htop]
      · refine registers_same ?_
        rw [hentries, Function.update_of_ne hs]
    rw [hnone, List.append_nil]
    rfl
  · show _ = update (called ops) s (called ops s ++ [e]) s'
    rw [hcalls, Function.update_apply]
    split
    · rename_i hs
      rw [hs]
    · rw [List.append_nil]
  · exact or_iff_left fun heq => nomatch heq

theorem aclose_seen (w : Scopes) (c : String) :
    (w.aclose c).entries = w.entries ∧
    (fun s => ((w.aclose c).scopes.get? s).bind Scope.waiting) =
      (fun s => (w.scopes.get? s).bind Scope.waiting) ∧
    ∀ s, ((w.aclose c).scopes.get? s).map Scope.state =
      if s = c ∧ (w.scopes.get? c).map Scope.state = some .opened then some .closing
      else (w.scopes.get? s).map Scope.state := by
  unfold aclose
  rcases hget : w.scopes.get? c with _ | sc
  · exact ⟨rfl, rfl, fun s => (if_neg fun h => nomatch h.2).symm⟩
  · simp only
    split
    · rename_i hopen
      refine ⟨?_, ?_, fun s => ?_⟩
      · rw [entries_set rfl, ← entries_of_get hget]
        exact Function.update_eq_self c _
      · have hwaiting : sc.waiting = (fun s => (w.scopes.get? s).bind Scope.waiting) c := by
          show _ = (w.scopes.get? c).bind Scope.waiting
          rw [hget]
          rfl
        rw [waiting_set rfl, hwaiting]
        exact Function.update_eq_self c _
      · rw [Dict.get?_set]
        simp only [Option.map_some, hopen, and_true]
        split
        · rfl
        · rfl
    · rename_i hopen
      refine ⟨rfl, rfl, fun s => (if_neg ?_).symm⟩
      rintro ⟨-, h⟩
      exact hopen (Option.some.inj h)

theorem nest_same (hq : Quiet (after ops) op)
    (hscopes : ((after ops).step op).scopes = (after ops).scopes) :
    nest (ops ++ [op]) = nest ops := by
  have hentries : ((after ops).step op).entries = (after ops).entries := by
    unfold entries
    rw [hscopes]
  refine nest_concat ?_ ?_ ?_ (fun s' => ?_) (called_quiet hq) (asked_quiet hq)
  · show (fun s' => ((after (ops ++ [op])).scopes.get? s').map Scope.state) = _
    rw [after_concat, hscopes]
  · show (after (ops ++ [op])).entries = _
    rw [after_concat]
    exact hentries
  · show (fun s' => ((after (ops ++ [op])).scopes.get? s').bind Scope.waiting) = _
    rw [after_concat, hscopes]
  · rw [registers_same (congrFun hentries s'), List.append_nil]

theorem nest_created (hq : Quiet (after ops) op) {c : String} {new : Scope}
    (hnone : (after ops).scopes.get? c = none)
    (hset : ((after ops).step op).scopes = (after ops).scopes.set c new)
    (hnew : new.state = .opened ∧ new.stack = [] ∧ new.waiting = none) :
    nest (ops ++ [op]) = (nest ops).setPhase c .opened := by
  have hempty : (after ops).entries c = [] := by
    unfold entries
    rw [hnone]
    rfl
  have hidle : (nest ops).waiting c = none := congrArg (Option.bind · Scope.waiting) hnone
  have hentries : ((after ops).step op).entries = (after ops).entries := by
    rw [entries_set hset, hnew.2.1, ← hempty, Function.update_eq_self]
  refine nest_concat ?_ ?_ ?_ (fun s' => ?_) (called_quiet hq) (asked_quiet hq)
  · refine (phases_set (after_scopes hset)).trans ?_
    rw [hnew.1]
    rfl
  · show (after (ops ++ [op])).entries = _
    rw [after_concat]
    exact hentries
  · refine (waiting_set (after_scopes hset)).trans ?_
    rw [hnew.2.2, ← hidle]
    exact Function.update_eq_self _ _
  · rw [registers_same (congrFun hentries s'), List.append_nil]
    rfl

theorem nest_asked (ops : List ScopeOp) (s : String) : nest (ops ++ [.aclose s]) =
    { (nest ops).close s with asked := update (nest ops).asked s True } := by
  obtain ⟨hseen, hwaiting, hphase⟩ := aclose_seen (after ops) s
  have hentries : ((after ops).step (.aclose s)).entries = (after ops).entries := hseen
  obtain ⟨phase, hclose, hphase'⟩ := (nest ops).close_eq s
  rw [hclose]
  refine nest_concat ?_ ?_ ?_ (fun s' => ?_) (fun s' => ?_) fun s' => ?_
  · funext s'
    show ((after (ops ++ [.aclose s])).scopes.get? s').map Scope.state = _
    rw [after_concat]
    exact (hphase s').trans (hphase' s').symm
  · show (after (ops ++ [.aclose s])).entries = _
    rw [after_concat]
    exact hentries
  · show (fun s' => ((after (ops ++ [.aclose s])).scopes.get? s').bind Scope.waiting) = _
    rw [after_concat]
    exact hwaiting
  · rw [registers_same (congrFun hentries s'), List.append_nil]
    rfl
  · exact List.append_nil _
  · rw [Function.update_apply]
    split
    · rename_i heq
      exact iff_of_true (.inr (congrArg ScopeOp.aclose heq.symm)) trivial
    · rename_i hne
      exact or_iff_left fun heq => hne (ScopeOp.aclose.inj heq).symm

theorem nest_entered {s c : String} (outcome : Option Err) {sc sc' : Scope} {record : EffectRecord}
    {rest : List Entry} {between : Scopes} (hget : (after ops).scopes.get? s = some sc)
    (hclosing : sc.state = .closing) (hidle : sc.waiting = none)
    (htop : sc.stack = (record, .closeChild c) :: rest)
    (hscopes : ((after ops).step (.unwind s outcome)).scopes = (between.aclose c).scopes)
    (hset : between.scopes = (after ops).scopes.set s sc') (hstate : sc'.state = sc.state)
    (hrest : sc'.stack = rest) (hwait : sc'.waiting = some (record, .closeChild c)) :
    nest (ops ++ [.unwind s outcome]) = ((nest ops).call s (record, .closeChild c) rest
      (some (record, .closeChild c))).close c := by
  obtain ⟨hentries, hwaiting, hphase⟩ := aclose_seen between c
  have hsame : (fun s' => (between.scopes.get? s').map Scope.state) = (nest ops).phase := by
    rw [phases_set hset, hstate, ← phase_of hget]
    exact Function.update_eq_self s _
  obtain ⟨phase, hclose, hphase'⟩ :=
    ((nest ops).call s (record, .closeChild c) rest (some (record, .closeChild c))).close_eq c
  have hscopes' : (after (ops ++ [.unwind s outcome])).scopes = (between.aclose c).scopes := by
    rw [after_concat]
    exact hscopes
  rw [hclose]
  refine nest_called outcome _ hget hclosing hidle htop ?_ ?_ ?_
  · funext s'
    show ((after (ops ++ [.unwind s outcome])).scopes.get? s').map Scope.state = _
    rw [hscopes', hphase, hphase']
    simp only [congrFun hsame]
    rfl
  · rw [← hrest, ← entries_set hset, ← hentries]
    unfold entries
    rw [hscopes]
  · show (fun s' => ((after (ops ++ [.unwind s outcome])).scopes.get? s').bind Scope.waiting) = _
    rw [hscopes', hwaiting, waiting_set hset, hwait]
    rfl

theorem nest_ended {s : String} (outcome : Option Err) {sc sc' : Scope} {e : Entry}
    (hget : (after ops).scopes.get? s = some sc) (hclosing : sc.state = .closing)
    (hwait : sc.waiting = some e)
    (hset : ((after ops).step (.unwind s outcome)).scopes = (after ops).scopes.set s sc')
    (hstate : sc'.state = sc.state) (hstack : sc'.stack = sc.stack) (hidle : sc'.waiting = none) :
    nest (ops ++ [.unwind s outcome]) =
      { nest ops with waiting := update (nest ops).waiting s none } := by
  have hcalls : ∀ s', calls (after ops) (.unwind s outcome) s' = [] := by
    intro s'
    have hnext : callNext sc = [] := by
      unfold callNext
      rw [hclosing, hwait]
    show (if s' = s then (((after ops).scopes.get? s).map callNext).getD [] else []) = _
    rw [hget, Option.map_some, hnext, Option.getD_some, ite_self]
  have hentries : ((after ops).step (.unwind s outcome)).entries = (after ops).entries := by
    rw [entries_set hset, hstack, ← entries_of_get hget, Function.update_eq_self]
  refine nest_concat ?_ ?_ ?_ (fun s' => ?_) (fun s' => ?_)
    fun s' => or_iff_left fun heq => nomatch heq
  · refine (phases_set (after_scopes hset)).trans ?_
    rw [hstate, ← phase_of hget]
    exact Function.update_eq_self s _
  · show (after (ops ++ [.unwind s outcome])).entries = _
    rw [after_concat]
    exact hentries
  · refine (waiting_set (after_scopes hset)).trans ?_
    rw [hidle]
    rfl
  · rw [registers_same (congrFun hentries s'), List.append_nil]
    rfl
  · rw [hcalls, List.append_nil]
    rfl

theorem nest_finished {s : String} {sc sc' : Scope} (hget : (after ops).scopes.get? s = some sc)
    (hidle : sc.waiting = none) (hempty : sc.stack = [])
    (hset : ((after ops).step (.finish s)).scopes = (after ops).scopes.set s sc')
    (hclosed : sc'.state = .closed) (hstack : sc'.stack = []) (hwaiting : sc'.waiting = none) :
    nest (ops ++ [.finish s]) = (nest ops).setPhase s .closed := by
  have hentries : ((after ops).step (.finish s)).entries = (after ops).entries := by
    rw [entries_set hset, hstack, ← hempty, ← entries_of_get hget, Function.update_eq_self]
  refine nest_concat ?_ ?_ ?_ (fun s' => ?_) (fun s' => List.append_nil _)
    fun s' => or_iff_left fun heq => nomatch heq
  · refine (phases_set (after_scopes hset)).trans ?_
    rw [hclosed]
    rfl
  · show (after (ops ++ [.finish s])).entries = _
    rw [after_concat]
    exact hentries
  · refine (waiting_set (after_scopes hset)).trans ?_
    rw [hwaiting, ← hidle, ← waiting_of hget]
    exact Function.update_eq_self s _
  · rw [registers_same (congrFun hentries s'), List.append_nil]
    rfl

theorem nest_called_leaf {s : String} (outcome : Option Err) {sc sc' : Scope} {e : Entry}
    {rest : List Entry} (hget : (after ops).scopes.get? s = some sc) (hclosing : sc.state = .closing)
    (hidle : sc.waiting = none) (htop : sc.stack = e :: rest)
    (hset : ((after ops).step (.unwind s outcome)).scopes = (after ops).scopes.set s sc')
    (hstate : sc'.state = sc.state) (hrest : sc'.stack = rest) :
    nest (ops ++ [.unwind s outcome]) = (nest ops).call s e rest sc'.waiting := by
  refine nest_called outcome sc'.waiting hget hclosing hidle htop ?_ ?_ ?_
  · refine (phases_set (after_scopes hset)).trans ?_
    rw [hstate, ← phase_of hget]
    exact Function.update_eq_self s _
  · rw [entries_set hset, hrest]
  · exact waiting_set (after_scopes hset)

/-- **A call is a step of the nested scopes.** -/
theorem nest_step (ops : List ScopeOp) (op : ScopeOp) :
    Nest.Step Entry.child (nest ops) (nest (ops ++ [op])) := by
  cases step_change (kept_after ops) op with
  | same hq hscopes =>
    rw [nest_same hq hscopes]
    exact .still
  | create name parent hq hnone hscopes =>
    rw [nest_created hq hnone hscopes ⟨rfl, rfl, rfl⟩]
    exact .create _ (congrArg (Option.map Scope.state) hnone)
  | adopt s name sc u hq hget hopen hnone _ _ hscopes =>
    rw [nest_adopted hq hget hnone hscopes rfl rfl rfl ⟨rfl, rfl, rfl⟩]
    refine .adopt s _ _ ?_ (congrArg (Option.map Scope.state) hnone) rfl
    rw [phase_of hget, hopen]
  | push s description kind sc u d hq hget hopen hleaf _ _ hscopes =>
    rw [nest_pushed_one hq hget hscopes rfl rfl rfl]
    refine .register s _ ?_ hleaf
    rw [phase_of hget, hopen]
  | release s effectId sc hq hget hscopes =>
    rw [nest_noted hq hget hscopes rfl rfl rfl]
    exact .still
  | enter s description sc hq hget hscopes _ =>
    rw [nest_noted hq hget hscopes rfl rfl rfl]
    exact .still
  | leave s effectId sc hq hget hscopes =>
    rw [nest_noted hq hget hscopes rfl rfl rfl]
    exact .still
  | entered s record sc hq hget hopen _ hscopes =>
    rw [nest_pushed_one hq hget hscopes rfl rfl rfl]
    refine .register s _ ?_ rfl
    rw [phase_of hget, hopen]
  | ask s hop _ =>
    subst hop
    rw [nest_asked]
    exact .ask s
  | call s outcome sc e rest wait hop hget hclosing hidle htop hleaf hwait _ hscopes =>
    subst hop
    rw [nest_called_leaf outcome hget hclosing hidle htop hscopes rfl rfl]
    refine .call s e rest wait ?_ ?_ ?_ hleaf hwait
    · rw [phase_of hget, hclosing]
    · rw [waiting_of hget, hidle]
    · rw [← htop]
      exact entries_of_get hget
  | callChild s c outcome sc record rest hop hget hclosing hidle htop _ hscopes =>
    subst hop
    rw [nest_entered outcome hget hclosing hidle htop hscopes rfl rfl rfl rfl]
    refine .enter s c _ rest ?_ ?_ ?_ rfl
    · rw [phase_of hget, hclosing]
    · rw [waiting_of hget, hidle]
    · rw [← htop]
      exact entries_of_get hget
  | ended s outcome raised sc e hop hget hclosing hwait hdone _ hscopes =>
    subst hop
    obtain ⟨-, hstate, hstack⟩ := Scope.recorded_same { sc with waiting := none } e.1 raised
    rw [nest_ended outcome hget hclosing hwait hscopes hstate hstack
      (recorded_waiting { sc with waiting := none } e.1 raised)]
    refine .ended s e ?_ fun c hc => ?_
    · rw [waiting_of hget, hwait]
    · rcases hchild : (after ops).scopes.get? c with _ | child
      · exact .inr (congrArg (Option.map Scope.state) hchild)
      · refine .inl ?_
        rw [phase_of hchild, hdone c hc child hchild]
  | finish s sc sc' hop hget hclosing hidle hempty hscopes hsc' =>
    subst hop hsc'
    rw [nest_finished hget hidle hempty hscopes rfl hempty hidle]
    refine .finish s ?_ ?_ ?_
    · rw [phase_of hget, hclosing]
    · rw [waiting_of hget, hidle]
    · rw [← hempty]
      exact entries_of_get hget

theorem nest_sound (ops : List ScopeOp) : (nest ops).Sound Entry.child := by
  induction ops using List.reverseRecOn with
  | nil =>
    exact ⟨fun _ => rfl, fun _ => ⟨rfl, rfl⟩, fun _ => rfl, fun _ => ⟨rfl, rfl⟩,
      fun h => (nomatch h), fun h => (nomatch h), fun _ => List.nodup_nil,
      fun h => (nomatch h), fun h => (nomatch h), fun h => nomatch h⟩
  | append_singleton ops op ih => exact ih.step (nest_step ops op)

/-! ## the effects that scopes own -/

theorem aclose_drawn (w : Scopes) (s : String) : (w.aclose s).drawn = w.drawn := by
  unfold aclose
  split
  · split <;> rfl
  · rfl

theorem drawn_le (w : Scopes) (op : ScopeOp) : w.drawn ≤ (w.step op).drawn := by
  have hnext : w.drawn ≤ w.drawn + 2 := Nat.le_add_right _ _
  cases op with
  | construct name => exact Nat.le_succ _
  | child s name =>
    show w.drawn ≤ (w.child s name).2.drawn
    unfold child construct cleanup
    rcases w.assertOpen s ("create child scope " ++ quoted name) with e | sc
    · exact le_refl _
    · simp only
      split
      · exact Nat.le_succ _
      · rename_i hclean
        obtain ⟨_, -, heq⟩ := bind_ok.1 hclean
        cases heq
        exact hnext
  | releaseEffect s effectId =>
    show w.drawn ≤ (w.releaseEffect s effectId).drawn
    unfold releaseEffect
    split <;> exact le_refl _
  | cleanup s description kind =>
    rw [step_cleanup]
    rcases hclean : w.cleanup s description kind .callback with e | w'
    · exact le_refl _
    · obtain ⟨_, -, heq⟩ := bind_ok.1 hclean
      cases heq
      exact Nat.le_succ _
  | enter s description =>
    rw [step_enter]
    rcases henter : w.enter s description with e | w'
    · exact le_refl _
    · obtain ⟨_, -, heq⟩ := bind_ok.1 henter
      cases heq
      exact Nat.le_succ _
  | entered s effectId failed =>
    show w.drawn ≤ (w.entered s effectId failed).drawn
    unfold entered
    split
    · exact le_refl _
    · split
      · exact le_refl _
      · simp only
        split <;> exact le_refl _
  | provide s key version providerId providerName =>
    rcases w.provide_cases s key version providerId providerName with heq | ⟨_, _, _, _, heq, -⟩
    · exact le_of_eq (congrArg drawn heq).symm
    · exact hnext.trans (le_of_eq (congrArg drawn heq).symm)
  | withdraw registrationId => exact le_refl _
  | withdrawProvider providerId => exact le_refl _
  | clear => exact le_refl _
  | registerTool s t isTool isAsync ownerId ownerName =>
    rcases w.registerTool_cases s t isTool isAsync ownerId ownerName with
      heq | ⟨_, _, _, _, heq, -⟩
    · exact le_of_eq (congrArg drawn heq).symm
    · exact hnext.trans (le_of_eq (congrArg drawn heq).symm)
  | unregisterTool name ownerId => exact le_refl _
  | registerHook s d ownerId =>
    rcases w.registerHook_cases s d ownerId with heq | ⟨_, _, _, _, heq, -⟩
    · exact le_of_eq (congrArg drawn heq).symm
    · exact hnext.trans (le_of_eq (congrArg drawn heq).symm)
  | unregisterHook registrationId => exact le_refl _
  | registerAgent runtime scopeId replace binder =>
    rcases w.registerAgent_cases runtime scopeId replace binder with
      ⟨n, hn, heq⟩ | ⟨_, heq, -⟩ | ⟨_, _, _, _, _, heq, -⟩
    · exact hn.trans (le_of_eq (congrArg drawn heq :).symm)
    · exact (Nat.le_succ _).trans (le_of_eq (congrArg drawn heq :).symm)
    · exact hnext.trans (le_of_eq (congrArg drawn heq :).symm)
  | unregisterAgent name scopeId => exact le_refl _
  | aclose s => exact le_of_eq (aclose_drawn w s).symm
  | unwind s outcome =>
    show w.drawn ≤ (w.unwind s outcome).drawn
    unfold unwind
    split
    · exact le_refl _
    · split
      · split
        · split
          · exact le_refl _
          · split <;> exact le_refl _
        · exact le_refl _
      · simp only
        split
        · exact le_refl _
        · exact le_refl _
        · exact le_refl _
        · exact le_refl _
        · exact le_refl _
        · rw [aclose_drawn]
      · exact le_refl _
  | finish s =>
    show w.drawn ≤ (w.finish s).drawn
    unfold finish
    split
    · exact le_refl _
    · split <;> exact le_refl _

/-- identifiers of effects are drawn, the effects a scope owns are still to be disposed of, or of
contexts that are being entered, and of these nothing was registered yet -/
structure Lends (n : Nat) (sc : Scope) (l : List Entry) : Prop where
  owned : ∀ id ∈ sc.effects.keys, (∃ e ∈ sc.stack, e.1.effectId = id) ∨
    ∃ r ∈ sc.entering, r.effectId = id
  drawn : ∀ e ∈ l, ∃ m < n, e.1.effectId = freshId "fx" m
  entering : ∀ r ∈ sc.entering, ∃ m < n, r.effectId = freshId "fx" m
  apart : ∀ r ∈ sc.entering, ∀ e ∈ l, r.effectId ≠ e.1.effectId

namespace Lends
variable {n m : Nat} {sc sc' : Scope} {l : List Entry} (h : Lends n sc l)
include h

theorem same (hnm : n ≤ m) (heffects : sc'.effects = sc.effects) (hstack : sc'.stack = sc.stack)
    (hentering : sc'.entering = sc.entering) : Lends m sc' l where
  owned := by
    rw [heffects, hstack, hentering]
    exact h.owned
  drawn e he := by
    obtain ⟨k, hk, hid⟩ := h.drawn e he
    exact ⟨k, hk.trans_le hnm, hid⟩
  entering r hr := by
    rw [hentering] at hr
    obtain ⟨k, hk, hid⟩ := h.entering r hr
    exact ⟨k, hk.trans_le hnm, hid⟩
  apart := by
    rw [hentering]
    exact h.apart

theorem erase (hnm : n ≤ m) (id : String) (heffects : sc'.effects = sc.effects.erase id)
    (hstack : ∀ e ∈ sc.stack, e ∈ sc'.stack ∨ e.1.effectId = id)
    (hentering : ∀ r, r ∈ sc'.entering → r ∈ sc.entering)
    (hkept : ∀ r ∈ sc.entering, r ∈ sc'.entering ∨ r.effectId = id) : Lends m sc' l where
  owned := by
    intro id' hid'
    rw [heffects, Dict.keys_erase, List.mem_filter, decide_eq_true_eq] at hid'
    rcases h.owned id' hid'.1 with ⟨e, he, hid⟩ | ⟨r, hr, hid⟩
    · exact .inl ⟨e, (hstack e he).resolve_right fun heq => hid'.2 (hid.symm.trans heq), hid⟩
    · exact .inr ⟨r, (hkept r hr).resolve_right fun heq => hid'.2 (hid.symm.trans heq), hid⟩
  drawn e he := by
    obtain ⟨k, hk, hid⟩ := h.drawn e he
    exact ⟨k, hk.trans_le hnm, hid⟩
  entering r hr := by
    obtain ⟨k, hk, hid⟩ := h.entering r (hentering r hr)
    exact ⟨k, hk.trans_le hnm, hid⟩
  apart r hr := h.apart r (hentering r hr)

theorem push {k : Nat} {kind description : String} {d : Disposer} (hnk : n ≤ k) (hkm : k < m)
    (heffects : sc'.effects = sc.effects.set (freshId "fx" k) ⟨freshId "fx" k, kind, description⟩)
    (hstack : sc'.stack = (⟨freshId "fx" k, kind, description⟩, d) :: sc.stack)
    (hentering : sc'.entering = sc.entering) :
    Lends m sc' (l ++ [(⟨freshId "fx" k, kind, description⟩, d)]) where
  owned := by
    intro id hid
    obtain ⟨v, hv⟩ := Dict.mem_keys.1 hid
    rw [heffects, Dict.get?_set] at hv
    rw [hstack, hentering]
    split at hv
    · rename_i heq
      exact .inl ⟨_, List.mem_cons_self, heq.symm⟩
    · rcases h.owned id (Dict.mem_keys.2 ⟨v, hv⟩) with ⟨e, he, heq⟩ | hr
      · exact .inl ⟨e, List.mem_cons_of_mem _ he, heq⟩
      · exact .inr hr
  drawn e he := by
    rcases List.mem_append.1 he with he | he
    · obtain ⟨j, hj, hid⟩ := h.drawn e he
      exact ⟨j, by omega, hid⟩
    · rw [List.mem_singleton.1 he]
      exact ⟨k, hkm, rfl⟩
  entering r hr := by
    rw [hentering] at hr
    obtain ⟨j, hj, hid⟩ := h.entering r hr
    exact ⟨j, by omega, hid⟩
  apart r hr e he := by
    rw [hentering] at hr
    rcases List.mem_append.1 he with he | he
    · exact h.apart r hr e he
    · obtain ⟨j, hj, hid⟩ := h.entering r hr
      rw [List.mem_singleton.1 he, hid]
      intro heq
      have hjk := freshId_injective "fx" heq
      omega

theorem enter {description : String} (hnm : n < m)
    (heffects : sc'.effects =
      sc.effects.set (freshId "fx" n) ⟨freshId "fx" n, "context", description⟩)
    (hstack : sc'.stack = sc.stack)
    (hentering : sc'.entering = ⟨freshId "fx" n, "context", description⟩ :: sc.entering) :
    Lends m sc' l where
  owned := by
    intro id hid
    obtain ⟨v, hv⟩ := Dict.mem_keys.1 hid
    rw [heffects, Dict.get?_set] at hv
    rw [hstack, hentering]
    split at hv
    · rename_i heq
      exact .inr ⟨_, List.mem_cons_self, heq.symm⟩
    · rcases h.owned id (Dict.mem_keys.2 ⟨v, hv⟩) with he | ⟨r, hr, heq⟩
      · exact .inl he
      · exact .inr ⟨r, List.mem_cons_of_mem _ hr, heq⟩
  drawn e he := by
    obtain ⟨k, hk, hid⟩ := h.drawn e he
    exact ⟨k, hk.trans hnm, hid⟩
  entering r hr := by
    rw [hentering] at hr
    rcases List.mem_cons.1 hr with rfl | hr
    · exact ⟨n, hnm, rfl⟩
    · obtain ⟨k, hk, hid⟩ := h.entering r hr
      exact ⟨k, hk.trans hnm, hid⟩
  apart r hr e he := by
    rw [hentering] at hr
    rcases List.mem_cons.1 hr with rfl | hr
    · obtain ⟨k, hk, hid⟩ := h.drawn e he
      rw [hid]
      intro heq
      have hkn := freshId_injective "fx" heq
      omega
    · exact h.apart r hr e he

theorem entered {record : EffectRecord} {d : Disposer} (hnm : n ≤ m) (hrecord : record ∈ sc.entering)
    (heffects : sc'.effects = sc.effects) (hstack : sc'.stack = (record, d) :: sc.stack)
    (hentering : sc'.entering = sc.entering.filter fun r => r.effectId ≠ record.effectId) :
    Lends m sc' (l ++ [(record, d)]) where
  owned := by
    intro id hid
    rw [heffects] at hid
    rw [hstack, hentering]
    rcases h.owned id hid with ⟨e, he, heq⟩ | ⟨r, hr, heq⟩
    · exact .inl ⟨e, List.mem_cons_of_mem _ he, heq⟩
    · by_cases hsame : r.effectId = record.effectId
      · exact .inl ⟨_, List.mem_cons_self, hsame.symm.trans heq⟩
      · exact .inr ⟨r, List.mem_filter.2 ⟨hr, decide_eq_true hsame⟩, heq⟩
  drawn e he := by
    rcases List.mem_append.1 he with he | he
    · obtain ⟨k, hk, hid⟩ := h.drawn e he
      exact ⟨k, hk.trans_le hnm, hid⟩
    · rw [List.mem_singleton.1 he]
      obtain ⟨k, hk, hid⟩ := h.entering record hrecord
      exact ⟨k, hk.trans_le hnm, hid⟩
  entering r hr := by
    rw [hentering] at hr
    obtain ⟨k, hk, hid⟩ := h.entering r (List.mem_filter.1 hr).1
    exact ⟨k, hk.trans_le hnm, hid⟩
  apart r hr e he := by
    rw [hentering] at hr
    obtain ⟨hr, hne⟩ := List.mem_filter.1 hr
    rcases List.mem_append.1 he with he | he
    · exact h.apart r hr e he
    · rw [List.mem_singleton.1 he]
      exact of_decide_eq_true hne

omit h in
theorem new (heffects : sc.effects = Dict.empty) (hentering : sc.entering = []) : Lends n sc [] where
  owned := by
    rw [heffects]
    exact fun _ hid => nomatch hid
  drawn := fun _ he => nomatch he
  entering := by
    rw [hentering]
    exact fun _ hr => nomatch hr
  apart := fun _ _ _ he => nomatch he

theorem closed (hclosed : sc.stack = []) {e : Entry} (he : e ∈ l) :
    e.1.effectId ∉ sc.effects.keys := by
  intro hid
  rcases h.owned _ hid with ⟨e', he', -⟩ | ⟨r, hr, heq⟩
  · rw [hclosed] at he'
    cases he'
  · exact h.apart r hr e he heq

end Lends

theorem aclose_get {c s : String} {sc : Scope} (h : (w.aclose c).scopes.get? s = some sc) :
    ∃ sc₀, w.scopes.get? s = some sc₀ ∧ sc.effects = sc₀.effects ∧ sc.stack = sc₀.stack ∧
      sc.entering = sc₀.entering := by
  unfold aclose at h
  split at h
  · rename_i sc₀ hget
    split at h
    · have hset : (w.scopes.set c { sc₀ with state := .closing }).get? s = some sc := h
      rw [Dict.get?_set] at hset
      split at hset
      · rename_i heq
        cases hset
        exact ⟨sc₀, heq ▸ hget, rfl, rfl, rfl⟩
      · exact ⟨sc, hset, rfl, rfl, rfl⟩
    · exact ⟨sc, h, rfl, rfl, rfl⟩
  · exact ⟨sc, h, rfl, rfl, rfl⟩

theorem lends_after (ops : List ScopeOp) {s : String} {sc : Scope}
    (h : (after ops).scopes.get? s = some sc) : Lends (after ops).drawn sc (registered ops s) := by
  induction ops using List.reverseRecOn generalizing s sc with
  | nil => cases h
  | append_singleton ops op ih =>
    rw [after_concat] at h ⊢
    have hle := drawn_le (after ops) op
    have hone : ∀ {s₁ sc₁}, ((after ops).step op).scopes = (after ops).scopes.set s₁ sc₁ →
        (∀ s₂, s₂ ≠ s₁ → registered (ops ++ [op]) s₂ = registered ops s₂) →
        Lends ((after ops).step op).drawn sc₁ (registered (ops ++ [op]) s₁) →
        Lends ((after ops).step op).drawn sc (registered (ops ++ [op]) s) := by
      intro s₁ sc₁ hset hothers hl
      rw [hset, Dict.get?_set] at h
      split at h
      · rename_i heq
        cases h
        rw [heq]
        exact hl
      · rename_i hne
        rw [hothers s hne]
        exact (ih h).same hle rfl rfl rfl
    have hnoted : ∀ {s₁ sc₁}, ((after ops).step op).scopes = (after ops).scopes.set s₁ sc₁ →
        registered (ops ++ [op]) = registered ops →
        Lends ((after ops).step op).drawn sc₁ (registered ops s₁) →
        Lends ((after ops).step op).drawn sc (registered (ops ++ [op]) s) := by
      intro s₁ sc₁ hset hsame hl
      refine hone hset (fun s₂ _ => congrFun hsame s₂) ?_
      rw [hsame]
      exact hl
    have hpushed : ∀ {s₁ sc₁ e}, ((after ops).step op).scopes = (after ops).scopes.set s₁ sc₁ →
        nest (ops ++ [op]) = (nest ops).push s₁ e →
        Lends ((after ops).step op).drawn sc₁ (registered ops s₁ ++ [e]) →
        Lends ((after ops).step op).drawn sc (registered (ops ++ [op]) s) := by
      intro s₁ sc₁ e hset hnest hl
      have hregistered : registered (ops ++ [op]) =
          update (registered ops) s₁ (registered ops s₁ ++ [e]) := congrArg Nest.registered hnest
      refine hone hset (fun s₂ hne => ?_) ?_
      · rw [hregistered, Function.update_of_ne hne]
      · rw [hregistered, Function.update_self]
        exact hl
    cases step_change (kept_after ops) op with
    | same hq hscopes =>
      have hsame : registered (ops ++ [op]) = registered ops :=
        congrArg Nest.registered (nest_same hq hscopes)
      rw [hscopes] at h
      rw [hsame]
      exact (ih h).same hle rfl rfl rfl
    | create name parent hq hnone hscopes =>
      have hsame : registered (ops ++ [op]) = registered ops :=
        congrArg Nest.registered (nest_created hq hnone hscopes ⟨rfl, rfl, rfl⟩)
      have hnothing : registered ops (freshId "scope" (after ops).drawn) = [] :=
        (nest_sound ops).unknown (congrArg (Option.map Scope.state) hnone)
      refine hnoted hscopes hsame ?_
      rw [hnothing]
      exact Lends.new rfl rfl
    | adopt s₁ name sc₁ u hq hget hopen hnone hu hu' hscopes =>
      have hregistered := congrArg Nest.registered
        (nest_adopted hq hget hnone hscopes rfl rfl rfl ⟨rfl, rfl, rfl⟩)
      have hothers : ∀ s₂, s₂ ≠ s₁ → registered (ops ++ [op]) s₂ = registered ops s₂ := by
        intro s₂ hne
        refine (congrFun hregistered s₂).trans ?_
        exact Function.update_of_ne hne _ _
      rw [hscopes, Dict.get?_set] at h
      split at h
      · rename_i heq
        cases h
        have hself : registered (ops ++ [op]) s₁ = registered ops s₁ ++ [_] :=
          (congrFun hregistered s₁).trans (Function.update_self s₁ _ _)
        rw [heq, hself]
        exact (ih hget).push hu hu' rfl rfl rfl
      · rename_i hne
        rw [hothers s hne]
        rw [Dict.get?_set] at h
        split at h
        · rename_i heq
          cases h
          have hnothing : registered ops (freshId "scope" (after ops).drawn) = [] :=
            (nest_sound ops).unknown (congrArg (Option.map Scope.state) hnone)
          rw [heq, hnothing]
          exact Lends.new rfl rfl
        · exact (ih h).same hle rfl rfl rfl
    | push s₁ description kind sc₁ u d hq hget hopen hleaf hu hu' hscopes =>
      refine hpushed hscopes (nest_pushed_one hq hget hscopes rfl rfl rfl) ?_
      exact (ih hget).push hu hu' rfl rfl rfl
    | release s₁ effectId sc₁ hq hget hscopes =>
      refine hnoted hscopes (congrArg Nest.registered (nest_noted hq hget hscopes rfl rfl rfl)) ?_
      exact (ih hget).erase hle effectId rfl (fun e he => .inl he) (fun r hr => hr) fun r hr => .inl hr
    | enter s₁ description sc₁ hq hget hscopes hdrawn =>
      refine hnoted hscopes (congrArg Nest.registered (nest_noted hq hget hscopes rfl rfl rfl)) ?_
      exact (ih hget).enter hdrawn rfl rfl rfl
    | leave s₁ effectId sc₁ hq hget hscopes =>
      refine hnoted hscopes (congrArg Nest.registered (nest_noted hq hget hscopes rfl rfl rfl)) ?_
      refine (ih hget).erase hle effectId rfl (fun e he => .inl he)
        (fun r hr => (List.mem_filter.1 hr).1) fun r hr => ?_
      by_cases hid : r.effectId = effectId
      · exact .inr hid
      · exact .inl (List.mem_filter.2 ⟨hr, decide_eq_true hid⟩)
    | entered s₁ record sc₁ hq hget hopen hrecord hscopes =>
      refine hpushed hscopes (nest_pushed_one hq hget hscopes rfl rfl rfl) ?_
      exact (ih hget).entered hle hrecord rfl rfl rfl
    | ask s₁ hop hw =>
      subst hop
      have hsame : registered (ops ++ [.aclose s₁]) = registered ops := by
        refine (congrArg Nest.registered (nest_asked ops s₁)).trans ?_
        exact Nest.close_registered s₁
      rw [hw] at h
      obtain ⟨sc₀, hget, heffects, hstack, hentering⟩ := aclose_get h
      rw [hsame]
      exact (ih hget).same hle heffects hstack hentering
    | call s₁ outcome sc₁ e rest wait hop hget hclosing hidle htop hleaf hwait _ hscopes =>
      subst hop
      refine hnoted hscopes (congrArg Nest.registered
        (nest_called_leaf outcome hget hclosing hidle htop hscopes rfl rfl)) ?_
      refine (ih hget).erase hle e.1.effectId rfl (fun e' he' => ?_) (fun r hr => hr)
        fun r hr => .inl hr
      rw [htop] at he'
      rcases List.mem_cons.1 he' with rfl | he'
      · exact .inr rfl
      · exact .inl he'
    | callChild s₁ c outcome sc₁ record rest hop hget hclosing hidle htop _ hscopes =>
      subst hop
      have hsame : registered (ops ++ [.unwind s₁ outcome]) = registered ops := by
        refine (congrArg Nest.registered
          (nest_entered outcome hget hclosing hidle htop hscopes rfl rfl rfl rfl)).trans ?_
        exact Nest.close_registered c
      rw [hscopes] at h
      obtain ⟨sc₀, hget₀, heffects, hstack, hentering⟩ := aclose_get h
      rw [hsame]
      have hset : ((after ops).scopes.set s₁ _).get? s = some sc₀ := hget₀
      rw [Dict.get?_set] at hset
      split at hset
      · rename_i heq
        cases hset
        rw [heq]
        refine (ih hget).erase hle record.effectId heffects (fun e he => ?_) (fun r hr => ?_)
          fun r hr => .inl ?_
        · rw [htop] at he
          rw [hstack]
          rcases List.mem_cons.1 he with rfl | he
          · exact .inr rfl
          · exact .inl he
        · rw [hentering] at hr
          exact hr
        · rw [hentering]
          exact hr
      · exact (ih hset).same hle heffects hstack hentering
    | ended s₁ outcome raised sc₁ e hop hget hclosing hwait hdone _ hscopes =>
      subst hop
      obtain ⟨-, hstate, hstack⟩ := Scope.recorded_same { sc₁ with waiting := none } e.1 raised
      refine hnoted hscopes (congrArg Nest.registered (nest_ended outcome hget hclosing hwait hscopes
        hstate hstack (recorded_waiting { sc₁ with waiting := none } e.1 raised))) ?_
      obtain ⟨heffects, hentering⟩ := recorded_effects { sc₁ with waiting := none } e.1 raised
      exact (ih hget).same hle heffects hstack hentering
    | finish s₁ sc₁ sc₂ hop hget hclosing hidle hempty hscopes hsc₂ =>
      subst hop hsc₂
      refine hnoted hscopes (congrArg Nest.registered
        (nest_finished hget hidle hempty hscopes rfl hempty hidle)) ?_
      exact (ih hget).same hle rfl rfl rfl

end

end

end Scopes
end Chassis
