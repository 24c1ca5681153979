import Chassis.Core.Nested

/-!
# What the close of a scope reports

* `ended`, `raisedIn`    the disposers that ended, and those of them that raised;
* `Progress`             what a call makes of what a scope will report;
* `reports_after`        a closed scope reports what its disposers raised, but of what is no
                         `Exception` only the last;
* `close_reports_iff`    so it reports each failure iff at most one is none.
-/

set_option linter.unusedSectionVars false

namespace Chassis
open Py
open Function (update)

namespace Scopes
variable {w w' : Scopes}

def raisedIn (l : List (Entry × Option Err)) : List (EffectRecord × Err) :=
  l.filterMap fun x => x.2.map fun e => (x.1.1, e)

/-- what `except Exception` caught of it, recorded under the description of the effect -/
def caught (l : List (Entry × Option Err)) : List CleanupFailure :=
  ((raisedIn l).filter fun x => x.2.kind.isException).map fun x => x.2.recorded x.1.description

def escaped (l : List (Entry × Option Err)) : List Err :=
  ((raisedIn l).filter fun x => !x.2.kind.isException).map Prod.snd

/-- of the rest the last, that replaced the others on its way out of the exit stack -/
def unwindFailure (l : List (Entry × Option Err)) : List CleanupFailure :=
  (escaped l).getLast?.toList.map fun e => e.recorded "effect unwind"

theorem raisedIn_append (l l' : List (Entry × Option Err)) :
    raisedIn (l ++ l') = raisedIn l ++ raisedIn l' := List.filterMap_append

theorem raisedIn_silent {l : List (Entry × Option Err)} (h : ∀ x ∈ l, x.2 = none) :
    raisedIn l = [] := by
  refine List.filterMap_eq_nil_iff.2 fun x hx => ?_
  rw [h x hx]
  rfl

/-! ## while it closes -/

/-- what a scope records of the disposers that ended -/
structure Reports (l : List (Entry × Option Err)) (sc : Scope) : Prop where
  failures : sc.failures = caught l ++ if sc.state = .closed then unwindFailure l else []
  unwindError : sc.unwindError = (escaped l).getLast?
  raised : sc.raised =
    if sc.state = .closed ∧ sc.failures ≠ [] then some (EffectCleanupError sc.name sc.failures)
    else none

theorem Reports.iff_open {l : List (Entry × Option Err)} {sc : Scope} (hopen : sc.state ≠ .closed) :
    Reports l sc ↔
      sc.failures = caught l ∧ sc.unwindError = (escaped l).getLast? ∧ sc.raised = none := by
  constructor
  · intro h
    refine ⟨?_, h.unwindError, ?_⟩
    · rw [h.failures, if_neg hopen, List.append_nil]
    · rw [h.raised, if_neg fun hc => hopen hc.1]
  · rintro ⟨hfailures, hunwind, hraised⟩
    refine ⟨?_, hunwind, ?_⟩
    · rw [hfailures, if_neg hopen, List.append_nil]
    · rw [hraised, if_neg fun hc => hopen hc.1]

/-- what a call makes of what a scope will report, where these disposers end -/
inductive Progress (sc sc' : Scope) (l : List (Entry × Option Err)) : Prop
  | same : sc'.failures = sc.failures → sc'.unwindError = sc.unwindError → sc'.raised = sc.raised →
    sc'.name = sc.name → (sc'.state = .closed ↔ sc.state = .closed) → (∀ x ∈ l, x.2 = none) →
    Progress sc sc' l
  | raises (e : Entry) (raised : Err) : sc.state = .closing →
    sc' = Scope.recorded { sc with waiting := none } e.1 (some raised) → l = [(e, some raised)] →
    Progress sc sc' l
  | finish : sc.state = .closing → sc'.state = .closed →
    sc'.failures = sc.failures ++ sc.unwindError.toList.map (fun e => e.recorded "effect unwind") →
    sc'.unwindError = sc.unwindError →
    sc'.raised = (if sc'.failures = [] then none else some (EffectCleanupError sc'.name sc'.failures)) →
    l = [] → Progress sc sc' l

section
variable [Platform]

theorem Reports.step {l l' : List (Entry × Option Err)} {sc sc' : Scope} (h : Reports l sc)
    (hp : Progress sc sc' l') : Reports (l ++ l') sc' := by
  cases hp with
  | same hfailures hunwind hraised hname hclosed hsilent =>
    have hnone : raisedIn (l ++ l') = raisedIn l := by
      rw [raisedIn_append, raisedIn_silent hsilent, List.append_nil]
    refine ⟨?_, ?_, ?_⟩
    · unfold caught unwindFailure escaped
      rw [hnone, hfailures, h.failures]
      simp only [hclosed]
      rfl
    · unfold escaped
      rw [hnone, hunwind, h.unwindError]
      rfl
    · rw [hraised, h.raised, hfailures, hname]
      simp only [hclosed]
  | raises e raised hclosing heq hl =>
    subst heq hl
    have hopen : sc.state ≠ .closed := by
      rw [hclosing]
      exact fun hc => nomatch hc
    obtain ⟨hfailures, hunwind, hraised⟩ := (Reports.iff_open hopen).1 h
    have hmore : raisedIn (l ++ [(e, some raised)]) = raisedIn l ++ [(e.1, raised)] :=
      raisedIn_append _ _
    obtain ⟨-, hstate, -⟩ := Scope.recorded_same { sc with waiting := none } e.1 (some raised)
    refine (Reports.iff_open fun hc => hopen (hstate.symm.trans hc)).2 ?_
    unfold caught escaped
    rw [hmore, List.filter_append, List.filter_append, List.map_append, List.map_append]
    unfold Chassis.Scope.recorded
    rcases hkind : raised.kind.isException with _ | _
    · simp only [hkind]
      refine ⟨?_, ?_, hraised⟩
      · simp [hkind, hfailures, caught]
      · simp [hkind]
    · simp only [hkind]
      refine ⟨?_, ?_, hraised⟩
      · simp [hkind, hfailures, caught]
      · simp [hkind, hunwind, escaped]
  | finish hclosing hclosed hfailures hunwind hraised hl =>
    subst hl
    have hopen : sc.state ≠ .closed := by
      rw [hclosing]
      exact fun hc => nomatch hc
    obtain ⟨hbefore, hescaped, -⟩ := (Reports.iff_open hopen).1 h
    rw [List.append_nil]
    refine ⟨?_, hunwind.trans hescaped, ?_⟩
    · rw [hfailures, hbefore, hescaped, if_pos hclosed]
      rfl
    · rw [hraised]
      by_cases hnil : sc'.failures = []
      · rw [if_pos hnil, if_neg fun hc => hc.2 hnil]
      · rw [if_neg hnil, if_pos ⟨hclosed, hnil⟩]

theorem Reports.new {sc : Scope} (hopen : sc.state = .opened) (hfailures : sc.failures = [])
    (hunwind : sc.unwindError = none) (hraised : sc.raised = none) : Reports [] sc where
  failures := by
    rw [hfailures, hopen]
    rfl
  unwindError := hunwind
  raised := by
    rw [hraised, hopen]
    rfl

theorem Progress.still (sc : Scope) : Progress sc sc [] :=
  .same rfl rfl rfl rfl Iff.rfl fun _ hx => nomatch hx

theorem aclose_progress {c s : String} {sc' : Scope} (h : (w.aclose c).scopes.get? s = some sc') :
    ∃ sc, w.scopes.get? s = some sc ∧ Progress sc sc' [] := by
  unfold aclose at h
  split at h
  · rename_i sc hget
    split at h
    · rename_i hopen
      have hset : (w.scopes.set c { sc with state := .closing }).get? s = some sc' := h
      rw [Dict.get?_set] at hset
      split at hset
      · rename_i heq
        cases hset
        refine ⟨sc, heq ▸ hget, .same rfl rfl rfl rfl (iff_of_false (fun hc => by cases hc) ?_)
          fun _ hx => by cases hx⟩
        rw [hopen]
        exact fun hc => by cases hc
      · exact ⟨sc', hset, .still sc'⟩
    · exact ⟨sc', h, .still sc'⟩
  · exact ⟨sc', h, .still sc'⟩

section
variable [Packaging]

/-- **What a call makes of what a scope will report.** -/
theorem step_progress (hk : w.Kept) (op : ScopeOp) {s : String} {sc' : Scope}
    (h : (w.step op).scopes.get? s = some sc') :
    w.scopes.get? s = none ∧ w.ends op s = [] ∧ Reports [] sc' ∨
    ∃ sc, w.scopes.get? s = some sc ∧ Progress sc sc' (w.ends op s) := by
  have hone : ∀ {s₁ sc₁ sc₂}, w.scopes.get? s₁ = some sc₁ →
      (w.step op).scopes = w.scopes.set s₁ sc₂ → (∀ s₂, s₂ ≠ s₁ → w.ends op s₂ = []) →
      Progress sc₁ sc₂ (w.ends op s₁) →
      ∃ sc, w.scopes.get? s = some sc ∧ Progress sc sc' (w.ends op s) := by
    intro s₁ sc₁ sc₂ hget hset hothers hp
    rw [hset, Dict.get?_set] at h
    split at h
    · rename_i heq
      cases h
      rw [heq]
      exact ⟨sc₁, hget, hp⟩
    · rename_i hne
      rw [hothers s hne]
      exact ⟨sc', h, .still sc'⟩
  have hnoted : ∀ {s₁ sc₁ sc₂}, Quiet w op → w.scopes.get? s₁ = some sc₁ →
      (w.step op).scopes = w.scopes.set s₁ sc₂ → sc₂.failures = sc₁.failures →
      sc₂.unwindError = sc₁.unwindError → sc₂.raised = sc₁.raised → sc₂.name = sc₁.name →
      sc₂.state = sc₁.state → ∃ sc, w.scopes.get? s = some sc ∧ Progress sc sc' (w.ends op s) := by
    intro s₁ sc₁ sc₂ hq hget hset hfailures hunwind hraised hname hstate
    refine hone hget hset (fun s₂ _ => (hq.1 s₂).2) ?_
    rw [(hq.1 s₁).2]
    refine .same hfailures hunwind hraised hname ?_ fun _ hx => by cases hx
    rw [hstate]
  cases step_change hk op with
  | same hq hscopes =>
    rw [hscopes] at h
    rw [(hq.1 s).2]
    exact .inr ⟨sc', h, .still sc'⟩
  | create name parent hq hnone hscopes =>
    rw [(hq.1 s).2]
    rw [hscopes, Dict.get?_set] at h
    split at h
    · rename_i heq
      cases h
      exact .inl ⟨heq ▸ hnone, rfl, .new rfl rfl rfl rfl⟩
    · exact .inr ⟨sc', h, .still sc'⟩
  | adopt s₁ name sc₁ u hq hget hopen hnone _ _ hscopes =>
    rw [(hq.1 s).2]
    rw [hscopes, Dict.get?_set] at h
    split at h
    · rename_i heq
      cases h
      exact .inr ⟨sc₁, heq ▸ hget, .same rfl rfl rfl rfl Iff.rfl fun _ hx => by cases hx⟩
    · rw [Dict.get?_set] at h
      split at h
      · rename_i heq
        cases h
        exact .inl ⟨heq ▸ hnone, rfl, .new rfl rfl rfl rfl⟩
      · exact .inr ⟨sc', h, .still sc'⟩
  | push s₁ description kind sc₁ u d hq hget _ _ _ _ hscopes =>
    exact .inr (hnoted hq hget hscopes rfl rfl rfl rfl rfl)
  | release s₁ effectId sc₁ hq hget hscopes =>
    exact .inr (hnoted hq hget hscopes rfl rfl rfl rfl rfl)
  | enter s₁ description sc₁ hq hget hscopes _ =>
    exact .inr (hnoted hq hget hscopes rfl rfl rfl rfl rfl)
  | leave s₁ effectId sc₁ hq hget hscopes =>
    exact .inr (hnoted hq hget hscopes rfl rfl rfl rfl rfl)
  | entered s₁ record sc₁ hq hget _ _ hscopes =>
    exact .inr (hnoted hq hget hscopes rfl rfl rfl rfl rfl)
  | ask s₁ hop hw =>
    subst hop
    rw [hw] at h
    exact .inr (aclose_progress h)
  | call s₁ outcome sc₁ e rest wait _ hget _ _ _ _ _ hends hscopes =>
    refine .inr (hone hget hscopes (fun s₂ hne => ?_) ?_)
    · rw [hends, if_neg fun hc => hne hc.1]
    · refine .same rfl rfl rfl rfl Iff.rfl fun x hx => ?_
      rw [hends] at hx
      split at hx
      · rw [List.mem_singleton.1 hx]
      · cases hx
  | callChild s₁ c outcome sc₁ record rest _ hget _ _ _ hends hscopes =>
    rw [hends]
    rw [hscopes] at h
    obtain ⟨sc, hget', hp⟩ := aclose_progress h
    have hset : (w.scopes.set s₁ _).get? s = some sc := hget'
    rw [Dict.get?_set] at hset
    split at hset
    · rename_i heq
      cases hset
      refine .inr ⟨sc₁, heq ▸ hget, ?_⟩
      cases hp with
      | same hfailures hunwind hraised hname hclosed hsilent =>
        exact .same hfailures hunwind hraised hname hclosed hsilent
      | raises e raised hclosing heq hl => cases hl
      | finish hclosing hclosed hfailures hunwind hraised hl =>
        exact .finish hclosing hclosed hfailures hunwind hraised hl
    · exact .inr ⟨sc, hset, hp⟩
  | ended s₁ outcome raised sc₁ e _ hget hclosing _ _ hends hscopes =>
    refine .inr (hone hget hscopes (fun s₂ hne => ?_) ?_)
    · rw [hends, if_neg hne]
    · rw [hends, if_pos rfl]
      rcases raised with _ | raised
      · refine .same rfl rfl rfl rfl Iff.rfl fun x hx => ?_
        rw [List.mem_singleton.1 hx]
      · exact .raises e raised hclosing rfl rfl
  | finish s₁ sc₁ sc₂ hop hget hclosing _ _ hscopes hsc₂ =>
    subst hop hsc₂
    exact .inr (hone hget hscopes (fun _ _ => rfl) (.finish hclosing rfl rfl rfl rfl rfl))

/-! ## after any sequence of calls -/

/-- the disposers of a scope that ended in the course of these calls, with what they raised -/
def ended (ops : List ScopeOp) (s : String) : List (Entry × Option Err) :=
  Calls.events step (fun w op => ends w op s) {} ops

theorem ended_concat (ops : List ScopeOp) (op : ScopeOp) (s : String) :
    ended (ops ++ [op]) s = ended ops s ++ ends (after ops) op s :=
  Calls.events_concat step _ {} ops op

theorem ended_called (ops : List ScopeOp) (s : String) :
    (ended ops s).map Prod.fst ++ ((nest ops).waiting s).toList = called ops s := by
  induction ops using List.reverseRecOn with
  | nil => rfl
  | append_singleton ops op ih =>
    rw [ended_concat, List.map_append]
    have hstill : ∀ {n : Nest Entry String}, ends (after ops) op s = [] → nest (ops ++ [op]) = n →
        n.waiting = (nest ops).waiting → n.called = (nest ops).called →
        (ended ops s).map Prod.fst ++ (ends (after ops) op s).map Prod.fst ++
          ((nest (ops ++ [op])).waiting s).toList = called (ops ++ [op]) s := by
      rintro n hends rfl hwaiting hcalled
      rw [hends, List.map_nil, List.append_nil, hwaiting, ih]
      exact (congrFun hcalled s).symm
    cases step_change (kept_after ops) op with
    | same hq hscopes =>
      exact hstill (hq.1 s).2 (nest_same hq hscopes) rfl rfl
    | create name parent hq hnone hscopes =>
      exact hstill (hq.1 s).2 (nest_created hq hnone hscopes ⟨rfl, rfl, rfl⟩) rfl rfl
    | adopt s₁ name sc u hq hget hopen hnone _ _ hscopes =>
      exact hstill (hq.1 s).2 (nest_adopted hq hget hnone hscopes rfl rfl rfl ⟨rfl, rfl, rfl⟩) rfl rfl
    | push s₁ description kind sc u d hq hget hopen hleaf _ _ hscopes =>
      exact hstill (hq.1 s).2 (nest_pushed_one hq hget hscopes rfl rfl rfl) rfl rfl
    | release s₁ effectId sc hq hget hscopes =>
      exact hstill (hq.1 s).2 (nest_noted hq hget hscopes rfl rfl rfl) rfl rfl
    | enter s₁ description sc hq hget hscopes _ =>
      exact hstill (hq.1 s).2 (nest_noted hq hget hscopes rfl rfl rfl) rfl rfl
    | leave s₁ effectId sc hq hget hscopes =>
      exact hstill (hq.1 s).2 (nest_noted hq hget hscopes rfl rfl rfl) rfl rfl
    | entered s₁ record sc hq hget hopen _ hscopes =>
      exact hstill (hq.1 s).2 (nest_pushed_one hq hget hscopes rfl rfl rfl) rfl rfl
    | ask s₁ hop hw =>
      subst hop
      obtain ⟨phase, hclose, -⟩ := (nest ops).close_eq s₁
      have hnest := nest_asked ops s₁
      rw [hclose] at hnest
      exact hstill rfl hnest rfl rfl
    | call s₁ outcome sc e rest wait hop hget hclosing hidle htop hleaf hwait hends hscopes =>
      subst hop
      have hnest := nest_called_leaf outcome hget hclosing hidle htop hscopes rfl rfl
      have hwaiting : (nest (ops ++ [.unwind s₁ outcome])).waiting = update (nest ops).waiting s₁ wait :=
        congrArg Nest.waiting hnest
      have hcalled : (nest (ops ++ [.unwind s₁ outcome])).called =
          update (called ops) s₁ (called ops s₁ ++ [e]) := congrArg Nest.called hnest
      rw [hwaiting, hends]
      refine Eq.trans ?_ (congrFun hcalled s).symm
      by_cases hs : s = s₁
      · subst hs
        rw [waiting_of hget, hidle] at ih
        rw [Function.update_self, Function.update_self, ← ih]
        rcases wait with _ | a
        · simp
        · rw [hwait a rfl]
          simp
      · rw [if_neg fun hc => hs hc.1, Function.update_of_ne hs, Function.update_of_ne hs, List.map_nil,
          List.append_nil, ih]
    | callChild s₁ c outcome sc record rest hop hget hclosing hidle htop hends hscopes =>
      subst hop
      have hnest := nest_entered outcome hget hclosing hidle htop hscopes rfl rfl rfl rfl
      obtain ⟨phase, hclose, -⟩ := ((nest ops).call s₁ (record, .closeChild c) rest
        (some (record, .closeChild c))).close_eq c
      rw [hclose] at hnest
      have hwaiting : (nest (ops ++ [.unwind s₁ outcome])).waiting =
          update (nest ops).waiting s₁ (some (record, .closeChild c)) := congrArg Nest.waiting hnest
      have hcalled : (nest (ops ++ [.unwind s₁ outcome])).called =
          update (called ops) s₁ (called ops s₁ ++ [(record, .closeChild c)]) :=
        congrArg Nest.called hnest
      rw [hwaiting, hends, List.map_nil, List.append_nil]
      refine Eq.trans ?_ (congrFun hcalled s).symm
      by_cases hs : s = s₁
      · subst hs
        rw [waiting_of hget, hidle] at ih
        rw [Function.update_self, Function.update_self, ← ih]
        simp
      · rw [Function.update_of_ne hs, Function.update_of_ne hs, ih]
    | ended s₁ outcome raised sc e hop hget hclosing hwait hdone hends hscopes =>
      subst hop
      obtain ⟨-, hstate, hstack⟩ := Scope.recorded_same { sc with waiting := none } e.1 raised
      have hnest := nest_ended outcome hget hclosing hwait hscopes hstate hstack
        (recorded_waiting { sc with waiting := none } e.1 raised)
      have hwaiting : (nest (ops ++ [.unwind s₁ outcome])).waiting = update (nest ops).waiting s₁ none :=
        congrArg Nest.waiting hnest
      have hcalled : (nest (ops ++ [.unwind s₁ outcome])).called = called ops :=
        congrArg Nest.called hnest
      rw [hwaiting, hends]
      refine Eq.trans ?_ (congrFun hcalled s).symm
      by_cases hs : s = s₁
      · subst hs
        rw [waiting_of hget, hwait] at ih
        rw [Function.update_self, if_pos rfl, ← ih]
        simp
      · rw [if_neg hs, Function.update_of_ne hs, List.map_nil, List.append_nil, ih]
    | finish s₁ sc sc' hop hget hclosing hidle hempty hscopes hsc' =>
      subst hop hsc'
      exact hstill rfl (nest_finished hget hidle hempty hscopes rfl hempty hidle) rfl rfl

/-- **What a scope records** after any sequence of calls. -/
theorem reports_after (ops : List ScopeOp) {s : String} {sc : Scope}
    (h : (after ops).scopes.get? s = some sc) : Reports (ended ops s) sc := by
  induction ops using List.reverseRecOn generalizing s sc with
  | nil => cases h
  | append_singleton ops op ih =>
    rw [after_concat] at h
    rw [ended_concat]
    rcases step_progress (kept_after ops) op h with ⟨hnone, hends, hnew⟩ | ⟨sc₀, hget, hp⟩
    · have hbegun : ¬ (nest ops).Begun s := by
        intro hb
        exact (Nest.begun_iff.1 hb).1 (congrArg (Option.map Scope.state) hnone)
      have hcalled := ended_called ops s
      have hnothing : called ops s = [] := ((nest_sound ops).idle hbegun).1
      rw [hnothing] at hcalled
      rw [hends, List.map_eq_nil_iff.1 (List.append_eq_nil_iff.1 hcalled).1]
      exact hnew
    · exact (ih hget).step hp

/-! ## which failures are named -/

/-- the failures that the close raised, each by its error -/
def reported (sc : Scope) : List (ErrorKind × String) :=
  ((sc.raised.map Err.failures).getD []).map fun f => (f.kind, f.message)

/-- the close raised one failure for each disposer that raised, with its error, and no other -/
def NamesEach (l : List (Entry × Option Err)) (sc : Scope) : Prop :=
  (reported sc).Perm ((raisedIn l).map fun x => (x.2.kind, x.2.message))

theorem reported_closed {l : List (Entry × Option Err)} {sc : Scope} (h : Reports l sc)
    (hclosed : sc.state = .closed) :
    (sc.raised.map Err.failures).getD [] = caught l ++ unwindFailure l := by
  have hfailures := h.failures
  rw [if_pos hclosed] at hfailures
  rw [h.raised, ← hfailures]
  by_cases hnil : sc.failures = []
  · rw [if_neg fun hc => hc.2 hnil, hnil]
    rfl
  · rw [if_pos ⟨hclosed, hnil⟩]
    rfl

theorem namesEach_iff {l : List (Entry × Option Err)} {sc : Scope} (h : Reports l sc)
    (hclosed : sc.state = .closed) : NamesEach l sc ↔ (escaped l).length ≤ 1 := by
  have hsplit : ((caught l).map (fun f => (f.kind, f.message)) ++
      (escaped l).map fun e => (e.kind, e.message)).Perm
      ((raisedIn l).map fun x => (x.2.kind, x.2.message)) := by
    have hperm := (List.filter_append_perm (fun x => x.2.kind.isException) (raisedIn l)).map
      fun x => (x.2.kind, x.2.message)
    rw [List.map_append] at hperm
    unfold caught escaped
    rw [List.map_map, List.map_map]
    exact hperm
  unfold NamesEach reported
  rw [reported_closed h hclosed, List.map_append]
  constructor
  · intro hnames
    have hlength := (hnames.trans hsplit.symm).length_eq
    have hlast : (unwindFailure l).length ≤ 1 := by
      unfold unwindFailure
      rw [List.length_map]
      cases (escaped l).getLast? <;> simp
    simp only [List.length_append, List.length_map] at hlength
    omega
  · intro hone
    refine List.Perm.trans (List.Perm.of_eq ?_) hsplit
    congr 1
    unfold unwindFailure
    rcases hescaped : escaped l with _ | ⟨e, _ | ⟨e', rest⟩⟩
    · rfl
    · rfl
    · rw [hescaped] at hone
      simp at hone

/-- **The close of a scope names every failure iff at most one disposer raises what is no
`Exception`**: whatever was called, by whatever tasks, all that was registered in a closed scope has
been called and has ended, and of what is no `Exception` only the last is in the report. -/
theorem close_reports_iff (ops : List ScopeOp) {s : String} {sc : Scope}
    (hget : (after ops).scopes.get? s = some sc) (hclosed : sc.state = .closed) :
    (ended ops s).map Prod.fst = (registered ops s).reverse ∧
    (NamesEach (ended ops s) sc ↔ (escaped (ended ops s)).length ≤ 1) := by
  have hphase : (nest ops).phase s = some .closed := (phase_of hget).trans (congrArg some hclosed)
  have hs := nest_sound ops
  refine ⟨?_, namesEach_iff (reports_after ops hget) hclosed⟩
  have hcalled := ended_called ops s
  rw [(hs.drained hphase).2] at hcalled
  exact (List.append_nil _).symm.trans (hcalled.trans (hs.called_closed hphase))

end

end

section
open Plain

/-- a scope with two disposers, of which the first that is called raises the first of these and the
other one the other -/
def pairCloses (first second : Err) : List ScopeOp :=
  let root := freshId "scope" 0
  [.construct "app", .cleanup root "database" "callback", .cleanup root "listener" "callback",
    .aclose root, .unwind root none, .unwind root (some first), .unwind root none,
    .unwind root (some second), .finish root]

def interrupted (message : String) : Err := { kind := .Base, message := message }

theorem close_reports_iff_pair : ∃ sc,
    (after (pairCloses (interrupted "ctrl-c") { kind := .Other, message := "lost" })).scopes.get?
      (freshId "scope" 0) = some sc ∧ sc.state = .closed ∧
    NamesEach (ended (pairCloses (interrupted "ctrl-c") { kind := .Other, message := "lost" })
      (freshId "scope" 0)) sc := by
  have hsome : ((after (pairCloses (interrupted "ctrl-c") { kind := .Other, message := "lost" })).scopes.get?
      (freshId "scope" 0)).map Scope.state = some .closed := by decide +kernel
  obtain ⟨sc, hget, hclosed⟩ := Option.map_eq_some_iff.1 hsome
  exact ⟨sc, hget, hclosed, (close_reports_iff _ hget hclosed).2.2 (by decide +kernel)⟩

/-- of two that are no `Exception` the close names the second only -/
theorem close_forgets : ∃ sc,
    (after (pairCloses (interrupted "ctrl-c") (interrupted "exit"))).scopes.get? (freshId "scope" 0) =
      some sc ∧ sc.state = .closed ∧ reported sc = [(.Base, "exit")] ∧
    ¬ NamesEach (ended (pairCloses (interrupted "ctrl-c") (interrupted "exit")) (freshId "scope" 0))
      sc := by
  have hsome : ((after (pairCloses (interrupted "ctrl-c") (interrupted "exit"))).scopes.get?
      (freshId "scope" 0)).map (fun sc => (sc.state, reported sc)) =
      some (.closed, [(.Base, "exit")]) := by decide +kernel
  obtain ⟨sc, hget, hsc⟩ := Option.map_eq_some_iff.1 hsome
  obtain ⟨hclosed, hreported⟩ := Prod.mk.inj hsc
  refine ⟨sc, hget, hclosed, hreported, fun hnames => ?_⟩
  have hlength := hnames.length_eq
  rw [hreported] at hlength
  have htwo : ((raisedIn (ended (pairCloses (interrupted "ctrl-c") (interrupted "exit"))
      (freshId "scope" 0))).map fun x => (x.2.kind, x.2.message)).length = 2 := by decide +kernel
  rw [htwo] at hlength
  cases hlength

end

end Scopes
end Chassis
