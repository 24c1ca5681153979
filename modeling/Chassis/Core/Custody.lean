import Chassis.Capabilities.Plain
import Chassis.Core.Scope

/-!
# Registrations never outlive their scope

* `custody`       the scopes and what they own, of all four registries at once;
* `Kept`          custody is sound, every id was drawn, and the indexes of names are consistent;
* `Kept.step`     every call keeps that;
* `TakesOnly`     what the steps that close some scopes took was owned by these;
* `registrations_kept`   what holds after any sequence of calls.
-/

set_option linter.unusedSectionVars false

namespace Chassis
open Py

namespace Scopes
variable {w w' : Scopes}

/-! ## what scopes own -/

/-- of the registration a disposer is for, if that is live, the scope that owns it, if one does -/
def holder (w : Scopes) : Disposer → Option (Option String)
  | .withdraw id => (w.capabilities.byId.get? id).map fun c => some c.scopeId
  | .releaseTool id => (w.tools.store.byId.get? id).map fun t => some t.scopeId
  | .unregisterHook id => (w.hooks.byId.get? id).map fun h => some h.scopeId
  | .releaseAgent id => (w.agents.store.byId.get? id).map RuntimeRegistration.scopeId
  | .closeChild _ => none
  | .callback => none

def disposers (w : Scopes) (s : String) : List Disposer :=
  ((w.scopes.get? s).map fun sc => sc.stack.map Prod.snd).getD []

def custody (w : Scopes) : Custody Disposer String :=
  ⟨fun d => (w.holder d).join, fun s => (w.scopes.get? s).map Scope.state, w.disposers⟩

section
variable [Platform]

/-- its id is one of the first `n` drawn -/
def DrawnBefore (n : Nat) : Disposer → Prop
  | .withdraw id => ∃ m < n, id = freshId "cap" m
  | .releaseTool id => ∃ m < n, id = freshId "tool" m
  | .unregisterHook id => ∃ m < n, id = freshId "hook" m
  | .releaseAgent id => ∃ m < n, id = freshId "agent" m
  | .closeChild _ => True
  | .callback => True

theorem DrawnBefore.mono {m n : Nat} {d : Disposer} (h : DrawnBefore m d) (hmn : m ≤ n) :
    DrawnBefore n d := by
  cases d with
  | closeChild s => trivial
  | callback => trivial
  | withdraw id =>
    obtain ⟨k, hk, hid⟩ := h
    exact ⟨k, hk.trans_le hmn, hid⟩
  | releaseTool id =>
    obtain ⟨k, hk, hid⟩ := h
    exact ⟨k, hk.trans_le hmn, hid⟩
  | unregisterHook id =>
    obtain ⟨k, hk, hid⟩ := h
    exact ⟨k, hk.trans_le hmn, hid⟩
  | releaseAgent id =>
    obtain ⟨k, hk, hid⟩ := h
    exact ⟨k, hk.trans_le hmn, hid⟩

theorem not_drawn (kind : String) (n : Nat) : ¬ ∃ m < n, freshId kind n = freshId kind m := by
  rintro ⟨m, hm, heq⟩
  rw [freshId_injective kind heq] at hm
  exact lt_irrefl _ hm

/-- custody is sound, every id was drawn, and the name indexes are consistent -/
structure Kept (w : Scopes) : Prop where
  sound : w.custody.Sound
  live : ∀ {d}, w.holder d ≠ none → DrawnBefore w.drawn d
  stacked : ∀ {s d}, d ∈ w.disposers s → DrawnBefore w.drawn d
  /-- no scope disposes of what no scope owns -/
  homed : ∀ {s d}, d ∈ w.disposers s → w.holder d ≠ some none
  keyed : ∀ {s sc}, w.scopes.get? s = some sc → sc.id = s ∧ ∃ n < w.drawn, s = freshId "scope" n
  tools : w.tools.Consistent
  agents : w.agents.Consistent

/-! ## one scope changes -/

theorem Scope.recorded_same (sc : Scope) (record : EffectRecord) (raised : Option Err) :
    (sc.recorded record raised).id = sc.id ∧ (sc.recorded record raised).state = sc.state ∧
      (sc.recorded record raised).stack = sc.stack := by
  cases raised with
  | none => exact ⟨rfl, rfl, rfl⟩
  | some e =>
    rcases he : e.kind.isException with _ | _
    · simp [Chassis.Scope.recorded, he]
    · simp [Chassis.Scope.recorded, he]

theorem phase_set {s : String} {sc : Scope} (h : w'.scopes = w.scopes.set s sc) (s' : String) :
    w'.custody.phase s' = if s' = s then some sc.state else w.custody.phase s' := by
  show (w'.scopes.get? s').map Scope.state = _
  rw [h, Dict.get?_set]
  split <;> rfl

theorem disposers_set {s : String} {sc : Scope} (h : w'.scopes = w.scopes.set s sc) (s' : String) :
    w'.disposers s' = if s' = s then sc.stack.map Prod.snd else w.disposers s' := by
  unfold disposers
  rw [h, Dict.get?_set]
  split <;> rfl

theorem disposers_of_get {s : String} {sc : Scope} (h : w.scopes.get? s = some sc) :
    w.disposers s = sc.stack.map Prod.snd := by
  unfold disposers
  rw [h]
  rfl

theorem phase_of_get {s : String} {sc : Scope} (h : w.scopes.get? s = some sc) :
    w.custody.phase s = some sc.state := by
  show (w.scopes.get? s).map Scope.state = _
  rw [h]
  rfl

theorem custody_set {s : String} {sc sc' : Scope} (hget : w.scopes.get? s = some sc)
    (h : w'.scopes = w.scopes.set s sc') (hstate : sc'.state = sc.state)
    (hstack : sc'.stack = sc.stack) :
    w'.custody.phase = w.custody.phase ∧ w'.custody.stack = w.custody.stack := by
  constructor
  · funext s'
    rw [phase_set h]
    split
    · rename_i hss
      rw [hss, phase_of_get hget, hstate]
    · rfl
  · funext s'
    show w'.disposers s' = w.disposers s'
    rw [disposers_set h]
    split
    · rename_i hss
      rw [hss, disposers_of_get hget, hstack]
    · rfl

theorem assertOpen_ok {s operation : String} {sc : Scope} :
    w.assertOpen s operation = .ok sc ↔ w.scopes.get? s = some sc ∧ sc.state = .opened := by
  unfold assertOpen
  rcases w.scopes.get? s with _ | sc'
  · exact iff_of_false (fun h => nomatch h) fun h => nomatch h.1
  · simp only
    split
    · rename_i hopen
      constructor
      · intro h
        cases h
        exact ⟨rfl, hopen⟩
      · rintro ⟨h, -⟩
        cases h
        rfl
    · rename_i hopen
      refine iff_of_false (fun h => nomatch h) ?_
      rintro ⟨h, hopen'⟩
      cases h
      exact hopen hopen'

def pushed (w : Scopes) (sc : Scope) (description kind : String) (d : Disposer) : Scope :=
  { sc with
    effects := sc.effects.set (freshId "fx" w.drawn) ⟨freshId "fx" w.drawn, kind, description⟩
    stack := (⟨freshId "fx" w.drawn, kind, description⟩, d) :: sc.stack }

/-- the scope while one more context is entered -/
def beginning (w : Scopes) (sc : Scope) (description : String) : Scope :=
  { sc with
    effects := sc.effects.set (freshId "fx" w.drawn) ⟨freshId "fx" w.drawn, "context", description⟩
    entering := ⟨freshId "fx" w.drawn, "context", description⟩ :: sc.entering }

theorem enter_open {s : String} {sc : Scope} (hget : w.scopes.get? s = some sc)
    (hopen : sc.state = .opened) (description : String) :
    w.enter s description = .ok { w with
      scopes := w.scopes.set s (w.beginning sc description)
      drawn := w.drawn + 1 } :=
  bind_ok.2 ⟨sc, assertOpen_ok.2 ⟨hget, hopen⟩, rfl⟩

theorem cleanup_open {s : String} {sc : Scope} (hget : w.scopes.get? s = some sc)
    (hopen : sc.state = .opened) (description kind : String) (d : Disposer) :
    w.cleanup s description kind d = .ok { w with
      scopes := w.scopes.set s (w.pushed sc description kind d)
      drawn := w.drawn + 1 } :=
  bind_ok.2 ⟨sc, assertOpen_ok.2 ⟨hget, hopen⟩, rfl⟩

/-! ## one registration more -/

theorem lookup_add {β γ : Type} [Registration β] (r : Owned β) (b : β) (f : β → γ)
    {mk : String → Disposer} (hmk : ∀ i j, mk i = mk j → i = j) (id : String) :
    ((r.add b).byId.get? id).map f =
      if mk id = mk (Registration.id b) then some (f b) else (r.byId.get? id).map f := by
  rw [Owned.get?_add]
  by_cases hid : id = Registration.id b
  · rw [if_pos hid, if_pos (congrArg mk hid)]
    rfl
  · rw [if_neg hid, if_neg fun h => hid (hmk _ _ h)]

theorem lookup_pop {β γ : Type} [Registration β] (r : Owned β) (id : String) (f : β → γ)
    {mk : String → Disposer} (hmk : ∀ i j, mk i = mk j → i = j) (id' : String) :
    ((r.pop id).byId.get? id').map f = if mk id' = mk id then none else (r.byId.get? id').map f := by
  rw [Owned.get?_pop]
  by_cases hid : id' = id
  · rw [if_pos hid, if_pos (congrArg mk hid)]
    rfl
  · rw [if_neg hid, if_neg fun h => hid (hmk _ _ h)]

theorem holder_missing {d : Disposer} (h : w.holder d = none) (d' : Disposer) :
    w.holder d' = if d' = d then none else w.holder d' := by
  split
  · rename_i hd
    rw [hd, h]
  · rfl

theorem unlisted {β γ : Type} [Registration β] {r : Owned β} {id : String} {f : β → γ}
    (h : (r.byId.get? id).map f = none) : ∀ b ∈ r.all, Registration.id b ≠ id := by
  intro b hb hid
  rw [Owned.get?_eq_some.2 ⟨hb, hid⟩] at h
  cases h

/-- what `provide` does: nothing, or it adds a registration of an open scope -/
theorem provide_cases [Packaging] (w : Scopes) (s : String) (key : CapabilityKey)
    (version : Option String) (providerId providerName : String) :
    (w.provide s key version providerId providerName).2 = w ∨
    ∃ sc b u description, (w.provide s key version providerId providerName).2 = { w with
        capabilities := w.capabilities.add b
        scopes := w.scopes.set s
          (pushed u sc description "capability" (.withdraw b.registrationId))
        drawn := w.drawn + 2 } ∧
      u.drawn = w.drawn + 1 ∧ w.scopes.get? s = some sc ∧ sc.state = .opened ∧
      b.registrationId = freshId "cap" w.drawn ∧ b.scopeId = sc.id := by
  unfold provide
  rcases hopen : w.assertOpen s ("provide capability " ++ key.str) with e | sc
  · exact Or.inl rfl
  · obtain ⟨hget, hstate⟩ := assertOpen_ok.1 hopen
    simp only
    split
    · exact Or.inl rfl
    · rcases registrationVersion key version with e | parsed
      · exact Or.inl rfl
      · simp only
        rw [cleanup_open (by exact hget) hstate]
        refine Or.inr ⟨sc, ⟨freshId "cap" w.drawn, key, parsed, providerId,
          if providerName = "" then providerId else providerName, sc.id⟩, _, _, rfl, rfl, hget, hstate,
          ?_, ?_⟩
        · rfl
        · rfl

theorem registerTool_cases (w : Scopes) (s : String) (t : ToolDeclaration) (isTool isAsync : Bool)
    (ownerId ownerName : String) : (w.registerTool s t isTool isAsync ownerId ownerName).2 = w ∨
    ∃ sc b u description, (w.registerTool s t isTool isAsync ownerId ownerName).2 = { w with
        tools := w.tools.insert b
        scopes := w.scopes.set s (pushed u sc description "tool" (.releaseTool b.registrationId))
        drawn := w.drawn + 2 } ∧
      u.drawn = w.drawn + 1 ∧ w.scopes.get? s = some sc ∧ sc.state = .opened ∧
      b.registrationId = freshId "tool" w.drawn ∧ b.scopeId = sc.id := by
  unfold registerTool
  rcases hopen : w.assertOpen s ("register tool " ++ t.name) with e | sc
  · exact Or.inl rfl
  · obtain ⟨hget, hstate⟩ := assertOpen_ok.1 hopen
    simp only
    split
    · exact Or.inl rfl
    · split
      · exact Or.inl rfl
      · rw [cleanup_open (by exact hget) hstate]
        refine Or.inr ⟨sc, ⟨freshId "tool" w.drawn, t.name, t.description, t.inputSchema, ownerId,
          if ownerName = "" then ownerId else ownerName, sc.id, t.policy⟩, _, _, rfl, rfl, hget,
          hstate, ?_, ?_⟩
        · rfl
        · rfl

theorem registerHook_cases (w : Scopes) (s : String) (d : HookDeclaration) (ownerId : String) :
    (w.registerHook s d ownerId).2 = w ∨
    ∃ sc b u description, (w.registerHook s d ownerId).2 = { w with
        hooks := w.hooks.add b
        hookSequence := w.hookSequence + 1
        scopes := w.scopes.set s (pushed u sc description "hook" (.unregisterHook b.registrationId))
        drawn := w.drawn + 2 } ∧
      u.drawn = w.drawn + 1 ∧ w.scopes.get? s = some sc ∧ sc.state = .opened ∧
      b.registrationId = freshId "hook" w.drawn ∧ b.scopeId = sc.id := by
  unfold registerHook
  rcases hopen : w.assertOpen s ("register hook for " ++ d.event.value) with e | sc
  · exact Or.inl rfl
  · obtain ⟨hget, hstate⟩ := assertOpen_ok.1 hopen
    simp only
    rw [cleanup_open (by exact hget) hstate]
    refine Or.inr ⟨sc, ⟨freshId "hook" w.drawn, d.event, d.handlerName, d.mode, d.priority,
      d.errorPolicy, w.hookSequence + 1, ownerId, sc.id⟩, _, _, rfl, rfl, hget, hstate, ?_, ?_⟩
    · rfl
    · rfl

/-- what `registerAgent` does: nothing but draw an id, or it adds a registration of an open scope,
or one that no scope owns -/
theorem registerAgent_cases (w : Scopes) (runtime : AgentRuntime) (scopeId : Option String)
    (replace : Bool) (binder : Option Err) :
    (∃ n, w.drawn ≤ n ∧
      (w.registerAgent runtime scopeId replace binder).2 = { w with drawn := n }) ∨
    (∃ b, (w.registerAgent runtime scopeId replace binder).2 = { w with
        agents := w.agents.insert b
        drawn := w.drawn + 1 } ∧
      b.registrationId = freshId "agent" w.drawn ∧ b.scopeId = none) ∨
    ∃ s sc b u description, (w.registerAgent runtime scopeId replace binder).2 = { w with
        agents := w.agents.insert b
        scopes := w.scopes.set s (pushed u sc description "agent" (.releaseAgent b.registrationId))
        drawn := w.drawn + 2 } ∧
      u.drawn = w.drawn + 1 ∧ w.scopes.get? s = some sc ∧ sc.state = .opened ∧
      b.registrationId = freshId "agent" w.drawn ∧ b.scopeId = some sc.id := by
  have hself : ∃ n, w.drawn ≤ n ∧ w = { w with drawn := n } := ⟨w.drawn, le_refl _, rfl⟩
  unfold registerAgent
  split
  · exact Or.inl hself
  · cases scopeId with
    | none =>
      show _ ∨ _
      simp only [Option.mapM_none, pure, Except.pure]
      split
      · exact Or.inl hself
      · cases binder with
        | some e => exact Or.inl ⟨_, Nat.le_succ _, rfl⟩
        | none => exact Or.inr (Or.inl ⟨_, rfl, rfl, rfl⟩)
    | some s =>
      simp only [Option.mapM_some]
      rcases hopen : w.assertOpen s ("register agent " ++ quoted runtime.name) with e | sc
      · exact Or.inl hself
      · obtain ⟨hget, hstate⟩ := assertOpen_ok.1 hopen
        simp only [Functor.map, Except.map]
        split
        · exact Or.inl hself
        · cases binder with
          | some e => exact Or.inl ⟨_, Nat.le_succ _, rfl⟩
          | none =>
            simp only
            rw [cleanup_open (by exact hget) hstate]
            refine Or.inr (Or.inr ⟨s, sc,
              ⟨freshId "agent" w.drawn, runtime.name, runtime, some sc.id⟩, _, _, rfl, rfl, hget, hstate,
              ?_, ?_⟩)
            · rfl
            · rfl

/-! ## what keeps it -/

namespace Kept
variable (hk : w.Kept)
include hk

/-- a registration is as it was, or withdrawn, or a new one that no scope owns -/
theorem fewer (hscopes : w'.scopes = w.scopes) (hdrawn : w.drawn ≤ w'.drawn)
    (heach : ∀ d, w'.holder d = w.holder d ∨ w'.holder d = none ∨
      w'.holder d = some none ∧ DrawnBefore w'.drawn d ∧ ¬ DrawnBefore w.drawn d)
    (htools : w'.tools.Consistent) (hagents : w'.agents.Consistent) : w'.Kept where
  sound := by
    refine hk.sound.step (.withdraw (fun d => ?_) (by unfold custody; rw [hscopes])
      (by unfold custody disposers; rw [hscopes]))
    show (w'.holder d).join = (w.holder d).join ∨ (w'.holder d).join = none
    rcases heach d with hsame | hnone | ⟨hnobody, -⟩
    · rw [hsame]
      exact Or.inl rfl
    · rw [hnone]
      exact Or.inr rfl
    · rw [hnobody]
      exact Or.inr rfl
  live := by
    intro d hd
    rcases heach d with hsame | hnone | ⟨-, hnew, -⟩
    · rw [hsame] at hd
      exact (hk.live hd).mono hdrawn
    · exact absurd hnone hd
    · exact hnew
  stacked := by
    intro s d hd
    unfold disposers at hd
    rw [hscopes] at hd
    exact (hk.stacked hd).mono hdrawn
  homed := by
    intro s d hin
    unfold disposers at hin
    rw [hscopes] at hin
    rcases heach d with hsame | hnone | ⟨-, -, hnew⟩
    · rw [hsame]
      exact hk.homed hin
    · rw [hnone]
      exact fun h => nomatch h
    · exact absurd (hk.stacked hin) hnew
  keyed := by
    intro s sc hsc
    rw [hscopes] at hsc
    obtain ⟨hid, n, hn, hs⟩ := hk.keyed hsc
    exact ⟨hid, n, hn.trans_le hdrawn, hs⟩
  tools := htools
  agents := hagents

theorem register {s description kind : String} {sc : Scope} {d : Disposer} {u : Scopes}
    (hget : w.scopes.get? s = some sc) (hopen : sc.state = .opened)
    (hnew : ¬ DrawnBefore w.drawn d) (hnext : DrawnBefore w'.drawn d)
    (hholder : ∀ d', w'.holder d' = if d' = d then some (some s) else w.holder d')
    (hscopes : w'.scopes = w.scopes.set s (u.pushed sc description kind d))
    (hdrawn : w.drawn ≤ w'.drawn) (htools : w'.tools.Consistent) (hagents : w'.agents.Consistent) :
    w'.Kept where
  sound := by
    have hphase := phase_of_get hget
    rw [hopen] at hphase
    refine hk.sound.step (.register s d hphase (fun s' hin => hnew (hk.stacked hin)) ?_ ?_ ?_)
    · intro d'
      show (w'.holder d').join = if d' = d then some s else (w.holder d').join
      rw [hholder]
      split <;> rfl
    · funext s'
      rw [phase_set hscopes]
      split
      · rename_i hss
        rw [hss, phase_of_get hget]
        rfl
      · rfl
    · intro s'
      show w'.disposers s' = if s' = s then d :: w.disposers s else w.disposers s'
      rw [disposers_set hscopes, disposers_of_get hget]
      rfl
  live := by
    intro d' hd'
    rw [hholder] at hd'
    split at hd'
    · rename_i hd
      rw [hd]
      exact hnext
    · exact (hk.live hd').mono hdrawn
  stacked := by
    intro s' d' hd'
    rw [disposers_set hscopes] at hd'
    split at hd'
    · rcases List.mem_cons.1 hd' with rfl | hin
      · exact hnext
      · exact (hk.stacked (disposers_of_get hget ▸ hin)).mono hdrawn
    · exact (hk.stacked hd').mono hdrawn
  homed := by
    intro s' d' hin
    rw [hholder]
    split
    · exact fun h => nomatch h
    · rename_i hne
      rw [disposers_set hscopes] at hin
      split at hin
      · refine hk.homed (s := s) ?_
        rw [disposers_of_get hget]
        exact (List.mem_cons.1 hin).resolve_left hne
      · exact hk.homed hin
  keyed := by
    intro s' sc' hsc'
    rw [hscopes, Dict.get?_set] at hsc'
    split at hsc'
    · rename_i hss
      cases hsc'
      obtain ⟨hid, n, hn, hs⟩ := hk.keyed hget
      exact ⟨hid.trans hss.symm, n, hn.trans_le hdrawn, hss.trans hs⟩
    · obtain ⟨hid, n, hn, hs⟩ := hk.keyed hsc'
      exact ⟨hid, n, hn.trans_le hdrawn, hs⟩
  tools := htools
  agents := hagents

theorem rescope {s : String} {sc sc' : Scope} (hget : w.scopes.get? s = some sc)
    (hw : w' = { w with scopes := w.scopes.set s sc', drawn := w'.drawn })
    (hdrawn : w.drawn ≤ w'.drawn) (hid : sc'.id = sc.id)
    (hstack : ∀ d ∈ sc'.stack.map Prod.snd, d ∈ sc.stack.map Prod.snd ∨
      DrawnBefore w'.drawn d ∧ w.holder d = none)
    (hstep : Custody.Step w.custody w'.custody) : w'.Kept := by
  have hscopes : w'.scopes = w.scopes.set s sc' := by rw [hw]
  have hholder : ∀ d, w'.holder d = w.holder d := by
    intro d
    rw [hw]
    cases d <;> rfl
  refine ⟨hk.sound.step hstep, ?_, ?_, ?_, ?_, ?_, ?_⟩
  · intro d hd
    rw [hholder] at hd
    exact (hk.live hd).mono hdrawn
  · intro s' d hd
    rw [disposers_set hscopes] at hd
    split at hd
    · rcases hstack d hd with hin | hnew
      · exact (hk.stacked (disposers_of_get hget ▸ hin)).mono hdrawn
      · exact hnew.1
    · exact (hk.stacked hd).mono hdrawn
  · intro s' d hin
    rw [hholder]
    rw [disposers_set hscopes] at hin
    split at hin
    · rcases hstack d hin with hin | hnew
      · exact hk.homed (disposers_of_get hget ▸ hin)
      · rw [hnew.2]
        exact fun h => nomatch h
    · exact hk.homed hin
  · intro s' sc₂ hsc
    rw [hscopes, Dict.get?_set] at hsc
    split at hsc
    · rename_i hss
      cases hsc
      obtain ⟨hid', n, hn, hs⟩ := hk.keyed hget
      exact ⟨hid.trans (hid'.trans hss.symm), n, hn.trans_le hdrawn, hss.trans hs⟩
    · obtain ⟨hid', n, hn, hs⟩ := hk.keyed hsc
      exact ⟨hid', n, hn.trans_le hdrawn, hs⟩
  · rw [hw]
    exact hk.tools
  · rw [hw]
    exact hk.agents

theorem annotate {s : String} {sc sc' : Scope} (hget : w.scopes.get? s = some sc)
    (hid : sc'.id = sc.id) (hstate : sc'.state = sc.state) (hstack : sc'.stack = sc.stack) :
    ({ w with scopes := w.scopes.set s sc' } : Scopes).Kept := by
  refine hk.rescope hget rfl (le_refl _) hid (fun d hd => Or.inl (hstack ▸ hd)) ?_
  obtain ⟨hphase, hstack'⟩ := custody_set hget
    (rfl : ({ w with scopes := w.scopes.set s sc' } : Scopes).scopes = _) hstate hstack
  exact .withdraw (fun d => Or.inl rfl) hphase hstack'

theorem push {s : String} {sc : Scope} (hget : w.scopes.get? s = some sc)
    (hopen : sc.state = .opened) (description kind : String) {d : Disposer}
    (hnew : w.holder d = none) (hd : DrawnBefore (w.drawn + 1) d) :
    ({ w with
      scopes := w.scopes.set s (w.pushed sc description kind d)
      drawn := w.drawn + 1 } : Scopes).Kept := by
  have hphase := phase_of_get hget
  rw [hopen] at hphase
  refine hk.rescope hget rfl (Nat.le_succ _) rfl (fun d' hd' => ?_)
    (.push s d hphase (by show (w.holder d).join = none; rw [hnew]; rfl) rfl ?_ ?_)
  · rcases List.mem_cons.1 hd' with rfl | hin
    · exact Or.inr ⟨hd, hnew⟩
    · exact Or.inl hin
  · funext s'
    rw [phase_set rfl]
    split
    · rename_i hss
      rw [hss, phase_of_get hget]
      rfl
    · rfl
  · intro s'
    show disposers _ s' = if s' = s then d :: w.disposers s else w.disposers s'
    rw [disposers_set rfl, disposers_of_get hget]
    rfl

/-! ### scopes -/

theorem unknown {n : Nat} (hn : w.drawn ≤ n) : w.scopes.get? (freshId "scope" n) = none := by
  rcases hget : w.scopes.get? (freshId "scope" n) with _ | sc
  · rfl
  · obtain ⟨-, m, hm, heq⟩ := hk.keyed hget
    rw [freshId_injective "scope" heq] at hn
    omega

theorem construct (name : String) (parent : Option String) : (w.construct name parent).2.Kept := by
  have hnone := hk.unknown (le_refl w.drawn)
  have hphase : w.custody.phase (freshId "scope" w.drawn) = none := by
    show (w.scopes.get? _).map Scope.state = none
    rw [hnone]
    rfl
  have hempty : w.disposers (freshId "scope" w.drawn) = [] := hk.sound.drained (Or.inr hphase)
  have hstack : ∀ s, (w.construct name parent).2.disposers s = w.disposers s := by
    intro s
    rw [disposers_set (rfl : (w.construct name parent).2.scopes = _)]
    split
    · rename_i hss
      rw [hss, hempty]
      rfl
    · rfl
  refine ⟨hk.sound.step (.create _ hphase hempty rfl ?_ (funext hstack)), ?_, ?_, ?_, ?_, hk.tools,
    hk.agents⟩
  · exact phase_set (rfl : (w.construct name parent).2.scopes = _)
  · exact fun hd => (hk.live hd).mono (Nat.le_succ _)
  · intro s d hd
    rw [hstack] at hd
    exact (hk.stacked hd).mono (Nat.le_succ _)
  · intro s d hin
    rw [hstack] at hin
    exact hk.homed hin
  · intro s sc hsc
    have hsc' : (w.scopes.set (freshId "scope" w.drawn) _).get? s = some sc := hsc
    rw [Dict.get?_set] at hsc'
    split at hsc'
    · rename_i hss
      cases hsc'
      exact ⟨hss.symm, w.drawn, Nat.lt_succ_self _, hss⟩
    · obtain ⟨hid, n, hn, hs⟩ := hk.keyed hsc'
      exact ⟨hid, n, hn.trans (Nat.lt_succ_self _), hs⟩

theorem releaseEffect (s effectId : String) : (w.releaseEffect s effectId).Kept := by
  unfold Scopes.releaseEffect
  rcases hget : w.scopes.get? s with _ | sc
  · exact hk
  · exact hk.annotate hget rfl rfl rfl

theorem child (s name : String) : (w.child s name).2.Kept := by
  unfold Scopes.child
  rcases hopen : w.assertOpen s ("create child scope " ++ quoted name) with e | sc
  · exact hk
  · obtain ⟨hget, hstate⟩ := assertOpen_ok.1 hopen
    have hne : s ≠ freshId "scope" w.drawn := by
      rintro rfl
      rw [hk.unknown (le_refl _)] at hget
      cases hget
    have hget' : (w.construct name (some s)).2.scopes.get? s = some sc := by
      show (w.scopes.set _ _).get? s = some sc
      rw [Dict.get?_set_ne _ _ hne]
      exact hget
    have hlisted := (hk.construct name (some s)).annotate hget'
      (rfl : ({ sc with children := sc.children ++ [freshId "scope" w.drawn] } : Scope).id = sc.id)
      rfl rfl
    have hget₂ := Dict.get?_set_self (w.construct name (some s)).2.scopes s
      { sc with children := sc.children ++ [freshId "scope" w.drawn] }
    have hclean := cleanup_open (w := { (w.construct name (some s)).2 with
      scopes := (w.construct name (some s)).2.scopes.set s
        { sc with children := sc.children ++ [freshId "scope" w.drawn] } }) hget₂ hstate
      ("child scope " ++ quoted name) "child" (.closeChild (freshId "scope" w.drawn))
    simp only [Scopes.construct] at hclean ⊢
    rw [hclean]
    exact hlisted.push hget₂ hstate _ _ rfl trivial

theorem cleanup {s description kind : String} (h : w.cleanup s description kind .callback = .ok w') :
    w'.Kept := by
  obtain ⟨sc, hopen, -⟩ := bind_ok.1 h
  obtain ⟨hget, hstate⟩ := assertOpen_ok.1 hopen
  rw [cleanup_open hget hstate] at h
  cases h
  exact hk.push hget hstate description kind rfl trivial

theorem enter {s description : String} (h : w.enter s description = .ok w') : w'.Kept := by
  obtain ⟨sc, hopen, -⟩ := bind_ok.1 h
  obtain ⟨hget, hstate⟩ := assertOpen_ok.1 hopen
  rw [enter_open hget hstate] at h
  cases h
  refine hk.rescope hget rfl (Nat.le_succ _) rfl (fun d hd => Or.inl hd) ?_
  obtain ⟨hphase, hstack⟩ := custody_set hget
    (rfl : ({ w with
      scopes := w.scopes.set s (w.beginning sc description)
      drawn := w.drawn + 1 } : Scopes).scopes = _) rfl rfl
  exact .withdraw (fun d => Or.inl rfl) hphase hstack

theorem entered (s effectId : String) (failed : Bool) : (w.entered s effectId failed).Kept := by
  unfold Scopes.entered
  rcases hget : w.scopes.get? s with _ | sc
  · exact hk
  · simp only
    split
    · exact hk
    · rename_i record hrecord
      split
      · exact hk.annotate hget rfl rfl rfl
      · rename_i hopen
        have hstate : sc.state = .opened := by
          by_contra hstate
          exact hopen (Or.inr hstate)
        have hphase := phase_of_get hget
        rw [hstate] at hphase
        refine hk.rescope hget rfl (le_refl _) rfl (fun d hd => ?_)
          (.push s .callback hphase rfl rfl ?_ ?_)
        · rcases List.mem_cons.1 hd with rfl | hin
          · exact Or.inr ⟨trivial, rfl⟩
          · exact Or.inl hin
        · funext s'
          rw [phase_set rfl]
          split
          · rename_i hss
            rw [hss, phase_of_get hget]
          · rfl
        · intro s'
          show disposers _ s' = if s' = s then .callback :: w.disposers s else w.disposers s'
          rw [disposers_set rfl, disposers_of_get hget]
          rfl

/-! ### the registries -/

theorem fresh {d : Disposer} (hnew : ¬ DrawnBefore w.drawn d) : w.holder d = none := by
  by_contra h
  exact hnew (hk.live h)

theorem provide [Packaging] (s : String) (key : CapabilityKey) (version : Option String)
    (providerId providerName : String) :
    (w.provide s key version providerId providerName).2.Kept := by
  rcases w.provide_cases s key version providerId providerName with
    heq | ⟨sc, b, u, description, heq, -, hget, hopen, hid, hscope⟩
  · rw [heq]
    exact hk
  · rw [heq]
    refine hk.register (d := .withdraw b.registrationId) hget hopen ?_
      ⟨w.drawn, by simp, hid⟩ ?_ rfl (Nat.le_add_right _ _) hk.tools hk.agents
    · rw [hid]
      exact not_drawn "cap" w.drawn
    · intro d'
      cases d' with
      | withdraw id =>
        rw [← (hk.keyed hget).1, ← hscope]
        exact lookup_add w.capabilities b _ (fun _ _ h => Disposer.withdraw.inj h) id
      | releaseTool id => rfl
      | unregisterHook id => rfl
      | releaseAgent id => rfl
      | closeChild c => rfl
      | callback => rfl

theorem registerTool (s : String) (t : ToolDeclaration) (isTool isAsync : Bool)
    (ownerId ownerName : String) :
    (w.registerTool s t isTool isAsync ownerId ownerName).2.Kept := by
  rcases w.registerTool_cases s t isTool isAsync ownerId ownerName with
    heq | ⟨sc, b, u, description, heq, -, hget, hopen, hid, hscope⟩
  · rw [heq]
    exact hk
  · rw [heq]
    have hnew : ¬ DrawnBefore w.drawn (.releaseTool b.registrationId) := by
      rw [hid]
      exact not_drawn "tool" w.drawn
    refine hk.register (d := .releaseTool b.registrationId) hget hopen hnew
      ⟨w.drawn, by simp, hid⟩ ?_ rfl (Nat.le_add_right _ _)
      (hk.tools.insert (unlisted (hk.fresh hnew))) hk.agents
    intro d'
    cases d' with
    | releaseTool id =>
      rw [← (hk.keyed hget).1, ← hscope]
      exact lookup_add w.tools.store b _ (fun _ _ h => Disposer.releaseTool.inj h) id
    | withdraw id => rfl
    | unregisterHook id => rfl
    | releaseAgent id => rfl
    | closeChild c => rfl
    | callback => rfl

theorem registerHook (s : String) (d : HookDeclaration) (ownerId : String) :
    (w.registerHook s d ownerId).2.Kept := by
  rcases w.registerHook_cases s d ownerId with
    heq | ⟨sc, b, u, description, heq, -, hget, hopen, hid, hscope⟩
  · rw [heq]
    exact hk
  · rw [heq]
    refine hk.register (d := .unregisterHook b.registrationId) hget hopen ?_
      ⟨w.drawn, by simp, hid⟩ ?_ rfl (Nat.le_add_right _ _) hk.tools hk.agents
    · rw [hid]
      exact not_drawn "hook" w.drawn
    · intro d'
      cases d' with
      | unregisterHook id =>
        rw [← (hk.keyed hget).1, ← hscope]
        exact lookup_add w.hooks b _ (fun _ _ h => Disposer.unregisterHook.inj h) id
      | withdraw id => rfl
      | releaseTool id => rfl
      | releaseAgent id => rfl
      | closeChild c => rfl
      | callback => rfl

theorem registerAgent (runtime : AgentRuntime) (scopeId : Option String) (replace : Bool)
    (binder : Option Err) : (w.registerAgent runtime scopeId replace binder).2.Kept := by
  rcases w.registerAgent_cases runtime scopeId replace binder with
    ⟨n, hn, heq⟩ | ⟨b, heq, hid, hscope⟩ |
      ⟨s, sc, b, u, description, heq, -, hget, hopen, hid, hscope⟩
  · rw [heq]
    exact hk.fewer rfl hn (fun d => Or.inl (by cases d <;> rfl)) hk.tools hk.agents
  · rw [heq]
    have hnew : ¬ DrawnBefore w.drawn (.releaseAgent b.registrationId) := by
      rw [hid]
      exact not_drawn "agent" w.drawn
    refine hk.fewer rfl (Nat.le_succ _) (fun d => ?_) hk.tools
      (hk.agents.insert (unlisted (hk.fresh hnew)))
    cases d with
    | releaseAgent id =>
      have hadd := lookup_add w.agents.store b RuntimeRegistration.scopeId
        (fun _ _ h => Disposer.releaseAgent.inj h) id
      rw [hscope] at hadd
      by_cases hsame : Disposer.releaseAgent id = .releaseAgent (Registration.id b)
      · rw [if_pos hsame] at hadd
        refine Or.inr (Or.inr ⟨hadd, ?_⟩)
        rw [hsame]
        exact ⟨⟨w.drawn, Nat.lt_succ_self _, hid⟩, hnew⟩
      · rw [if_neg hsame] at hadd
        exact Or.inl hadd
    | withdraw id => exact Or.inl rfl
    | releaseTool id => exact Or.inl rfl
    | unregisterHook id => exact Or.inl rfl
    | closeChild c => exact Or.inl rfl
    | callback => exact Or.inl rfl
  · rw [heq]
    have hnew : ¬ DrawnBefore w.drawn (.releaseAgent b.registrationId) := by
      rw [hid]
      exact not_drawn "agent" w.drawn
    refine hk.register (d := .releaseAgent b.registrationId) hget hopen hnew
      ⟨w.drawn, by simp, hid⟩ ?_ rfl (Nat.le_add_right _ _) hk.tools
      (hk.agents.insert (unlisted (hk.fresh hnew)))
    intro d'
    cases d' with
    | releaseAgent id =>
      rw [← (hk.keyed hget).1, ← hscope]
      exact lookup_add w.agents.store b _ (fun _ _ h => Disposer.releaseAgent.inj h) id
    | withdraw id => rfl
    | releaseTool id => rfl
    | unregisterHook id => rfl
    | closeChild c => rfl
    | callback => rfl

theorem withdrawn (hscopes : w'.scopes = w.scopes) (hdrawn : w'.drawn = w.drawn)
    (hcapabilities : ∀ b ∈ w'.capabilities.all, b ∈ w.capabilities.all)
    (hhooks : ∀ b ∈ w'.hooks.all, b ∈ w.hooks.all)
    (htools : ∀ b ∈ w'.tools.store.all, b ∈ w.tools.store.all)
    (hagents : ∀ b ∈ w'.agents.store.all, b ∈ w.agents.store.all)
    (htools' : w'.tools.Consistent) (hagents' : w'.agents.Consistent) : w'.Kept := by
  refine hk.fewer hscopes hdrawn.ge (fun d => ?_) htools' hagents'
  have hmap : ∀ {β : Type} {x y : Option β} (f : β → Option String), x = y ∨ x = none →
      x.map f = y.map f ∨ x.map f = none ∨ x.map f = some none ∧ DrawnBefore w'.drawn d ∧
        ¬ DrawnBefore w.drawn d := by
    rintro β x y f (rfl | rfl)
    · exact Or.inl rfl
    · exact Or.inr (Or.inl rfl)
  cases d with
  | withdraw id => exact hmap _ (Owned.get?_of_subset hcapabilities id)
  | releaseTool id => exact hmap _ (Owned.get?_of_subset htools id)
  | unregisterHook id => exact hmap _ (Owned.get?_of_subset hhooks id)
  | releaseAgent id => exact hmap _ (Owned.get?_of_subset hagents id)
  | closeChild c => exact Or.inl rfl
  | callback => exact Or.inl rfl

/-! ### closing -/

theorem aclose (s : String) : (w.aclose s).Kept := by
  unfold Scopes.aclose
  rcases hget : w.scopes.get? s with _ | sc
  · exact hk
  · simp only
    split
    · rename_i hopen
      have hphase := phase_of_get hget
      rw [hopen] at hphase
      refine hk.rescope hget rfl (le_refl _) rfl (fun d hd => Or.inl hd)
        (.close s hphase rfl (fun s' => ?_) ?_)
      · show Option.map Scope.state ((w.scopes.set s _).get? s') = _
        rw [Dict.get?_set]
        split <;> rfl
      · funext s'
        show disposers _ s' = w.disposers s'
        rw [disposers_set rfl]
        split
        · rename_i hss
          rw [hss, disposers_of_get hget]
        · rfl
    · exact hk

theorem finish (s : String) : (w.finish s).Kept := by
  unfold Scopes.finish
  rcases hget : w.scopes.get? s with _ | sc
  · exact hk
  · simp only
    split
    · rename_i hclosing _ hempty
      have hphase := phase_of_get hget
      rw [hclosing] at hphase
      have hdisposers : w.disposers s = [] := by
        rw [disposers_of_get hget, hempty]
        rfl
      refine hk.rescope hget rfl (le_refl _) rfl (fun d hd => Or.inl hd)
        (.finish s hphase hdisposers rfl (fun s' => ?_) ?_)
      · show Option.map Scope.state ((w.scopes.set s _).get? s') = _
        rw [Dict.get?_set]
        split <;> rfl
      · funext s'
        show disposers _ s' = w.disposers s'
        rw [disposers_set rfl]
        split
        · rename_i hss
          rw [hss, disposers_of_get hget]
        · rfl
    · exact hk

theorem dispose {s : String} {sc sc' : Scope} {record : EffectRecord} {d : Disposer}
    {rest : List (EffectRecord × Disposer)} (hget : w.scopes.get? s = some sc)
    (hclosing : sc.state = .closing) (htop : sc.stack = (record, d) :: rest)
    (hscopes : w'.scopes = w.scopes.set s sc') (hid : sc'.id = sc.id)
    (hstate : sc'.state = .closing) (hstack : sc'.stack = rest) (hdrawn : w'.drawn = w.drawn)
    (hholder : ∀ d', w'.holder d' = if d' = d then none else w.holder d')
    (htools : w'.tools.Consistent) (hagents : w'.agents.Consistent) : w'.Kept where
  sound := by
    have hphase := phase_of_get hget
    rw [hclosing] at hphase
    have hdisposers : w.disposers s = d :: rest.map Prod.snd := by
      rw [disposers_of_get hget, htop]
      rfl
    refine hk.sound.step (.unwind s d _ hphase hdisposers ?_ ?_ ?_)
    · intro d'
      show (w'.holder d').join = if d' = d then none else (w.holder d').join
      rw [hholder]
      split <;> rfl
    · funext s'
      rw [phase_set hscopes]
      split
      · rename_i hss
        rw [hss, hphase, hstate]
      · rfl
    · intro s'
      show w'.disposers s' = _
      rw [disposers_set hscopes, hstack]
      rfl
  live := by
    intro d' hd'
    rw [hholder] at hd'
    rw [hdrawn]
    split at hd'
    · exact absurd rfl hd'
    · exact hk.live hd'
  stacked := by
    intro s' d' hd'
    rw [hdrawn]
    rw [disposers_set hscopes, hstack] at hd'
    split at hd'
    · refine hk.stacked (s := s) ?_
      rw [disposers_of_get hget, htop]
      exact List.mem_cons_of_mem _ hd'
    · exact hk.stacked hd'
  homed := by
    intro s' d' hin
    rw [hholder]
    split
    · exact fun h => nomatch h
    · rw [disposers_set hscopes, hstack] at hin
      split at hin
      · refine hk.homed (s := s) ?_
        rw [disposers_of_get hget, htop]
        exact List.mem_cons_of_mem _ hin
      · exact hk.homed hin
  keyed := by
    intro s' sc₂ hsc
    rw [hdrawn]
    rw [hscopes, Dict.get?_set] at hsc
    split at hsc
    · rename_i hss
      cases hsc
      obtain ⟨hid', hs⟩ := hk.keyed hget
      exact ⟨hid.trans (hid'.trans hss.symm), hss ▸ hs⟩
    · exact hk.keyed hsc
  tools := htools
  agents := hagents

theorem unwind (s : String) (outcome : Option Err) : (w.unwind s outcome).Kept := by
  unfold Scopes.unwind
  rcases hget : w.scopes.get? s with _ | sc
  · exact hk
  · simp only
    split
    · rename_i record d hclosing hwaiting
      have hended : ∀ raised, ({ w with
          scopes := w.scopes.set s
            (Scope.recorded { sc with waiting := none } record raised) } : Scopes).Kept := by
        intro raised
        obtain ⟨hid, hstate, hstack⟩ := Scope.recorded_same { sc with waiting := none } record raised
        exact hk.annotate hget hid hstate hstack
      split
      · split
        · exact hended none
        · split
          · exact hended _
          · exact hk
      · exact hended outcome
    · rename_i record d rest hclosing hwaiting htop
      cases d with
      | withdraw id =>
        refine hk.dispose hget hclosing htop rfl rfl hclosing rfl rfl (fun d' => ?_)
          hk.tools hk.agents
        cases d' with
        | withdraw id' =>
          exact lookup_pop w.capabilities id _ (fun _ _ h => Disposer.withdraw.inj h) id'
        | releaseTool id' => rfl
        | unregisterHook id' => rfl
        | releaseAgent id' => rfl
        | closeChild c => rfl
        | callback => rfl
      | releaseTool id =>
        have hstore := (hk.tools.release_store id).1
        refine hk.dispose hget hclosing htop rfl rfl hclosing rfl rfl (fun d' => ?_)
          (hk.tools.release id) hk.agents
        cases d' with
        | releaseTool id' =>
          show ((w.tools.release id).2.store.byId.get? id').map _ = _
          rw [hstore]
          exact lookup_pop w.tools.store id _ (fun _ _ h => Disposer.releaseTool.inj h) id'
        | withdraw id' => rfl
        | unregisterHook id' => rfl
        | releaseAgent id' => rfl
        | closeChild c => rfl
        | callback => rfl
      | unregisterHook id =>
        refine hk.dispose hget hclosing htop rfl rfl hclosing rfl rfl (fun d' => ?_)
          hk.tools hk.agents
        cases d' with
        | unregisterHook id' =>
          exact lookup_pop w.hooks id _ (fun _ _ h => Disposer.unregisterHook.inj h) id'
        | withdraw id' => rfl
        | releaseTool id' => rfl
        | releaseAgent id' => rfl
        | closeChild c => rfl
        | callback => rfl
      | releaseAgent id =>
        have hstore := (hk.agents.release_store id).1
        refine hk.dispose hget hclosing htop rfl rfl hclosing rfl rfl (fun d' => ?_)
          hk.tools (hk.agents.release id)
        cases d' with
        | releaseAgent id' =>
          show ((w.agents.release id).2.store.byId.get? id').map _ = _
          rw [hstore]
          exact lookup_pop w.agents.store id _ (fun _ _ h => Disposer.releaseAgent.inj h) id'
        | withdraw id' => rfl
        | releaseTool id' => rfl
        | unregisterHook id' => rfl
        | closeChild c => rfl
        | callback => rfl
      | callback =>
        exact hk.dispose hget hclosing htop rfl rfl hclosing rfl rfl
          (holder_missing rfl) hk.tools hk.agents
      | closeChild c =>
        refine Kept.aclose ?_ c
        exact hk.dispose hget hclosing htop rfl rfl hclosing rfl rfl
          (holder_missing rfl) hk.tools hk.agents
    · exact hk

end Kept

/-! ## any sequence of calls -/

section
variable [Packaging]

/-- **Every call keeps it.** -/
theorem Kept.step (hk : w.Kept) (op : ScopeOp) : (w.step op).Kept := by
  cases op with
  | construct name => exact hk.construct name none
  | child s name => exact hk.child s name
  | releaseEffect s effectId => exact hk.releaseEffect s effectId
  | cleanup s description kind =>
    rw [step_cleanup]
    rcases hclean : w.cleanup s description kind .callback with e | w'
    · exact hk
    · exact hk.cleanup hclean
  | enter s description =>
    rw [step_enter]
    rcases henter : w.enter s description with e | w'
    · exact hk
    · exact hk.enter henter
  | entered s effectId failed => exact hk.entered s effectId failed
  | provide s key version providerId providerName =>
    exact hk.provide s key version providerId providerName
  | withdraw registrationId =>
    exact hk.withdrawn rfl rfl (fun _ => Owned.mem_of_discard) (fun _ => id) (fun _ => id)
      (fun _ => id) hk.tools hk.agents
  | withdrawProvider providerId =>
    exact hk.withdrawn rfl rfl (fun _ => Owned.mem_of_discard) (fun _ => id) (fun _ => id)
      (fun _ => id) hk.tools hk.agents
  | clear =>
    exact hk.withdrawn rfl rfl (fun _ hb => by cases hb) (fun _ => id) (fun _ => id)
      (fun _ => id) hk.tools hk.agents
  | registerTool s t isTool isAsync ownerId ownerName =>
    exact hk.registerTool s t isTool isAsync ownerId ownerName
  | unregisterTool name ownerId =>
    obtain ⟨removed, tools, heq, hc, hsub⟩ := hk.tools.unregister_subset name
      (ownerId.map fun owner (t : RegisteredTool) => decide (t.ownerId = owner))
    show (w.unregisterTool name ownerId).2.Kept
    unfold unregisterTool
    rw [heq]
    exact hk.withdrawn rfl rfl (fun _ => id) (fun _ => id) hsub (fun _ => id) hc hk.agents
  | registerHook s d ownerId => exact hk.registerHook s d ownerId
  | unregisterHook registrationId =>
    exact hk.withdrawn rfl rfl (fun _ => id) (fun _ => Owned.mem_of_discard) (fun _ => id)
      (fun _ => id) hk.tools hk.agents
  | registerAgent runtime scopeId replace binder =>
    exact hk.registerAgent runtime scopeId replace binder
  | unregisterAgent name scopeId =>
    obtain ⟨removed, agents, heq, hc, hsub⟩ := hk.agents.unregister_subset name
      (scopeId.map fun s (r : RuntimeRegistration) => decide (r.scopeId = some s))
    show (w.unregisterAgent name scopeId).2.Kept
    unfold unregisterAgent
    rw [heq]
    exact hk.withdrawn rfl rfl (fun _ => id) (fun _ => id) (fun _ => id) hsub hk.tools hc
  | aclose s => exact hk.aclose s
  | unwind s outcome => exact hk.unwind s outcome
  | finish s => exact hk.finish s

theorem kept_new : ({} : Scopes).Kept where
  sound := by
    refine ⟨fun {d s} h => ?_, fun h => (nomatch h), fun _ => rfl⟩
    have hnone : ({} : Scopes).custody.owner d = none := by cases d <;> rfl
    rw [hnone] at h
    cases h
  live := fun {d} h => absurd (by cases d <;> rfl) h
  stacked := fun h => nomatch h
  homed := fun h => nomatch h
  keyed := fun h => nomatch h
  tools := Indexed.consistent_empty
  agents := Indexed.consistent_empty

theorem kept_after (ops : List ScopeOp) : (after ops).Kept := by
  have hall : Calls.Throughout Scopes.step {} (fun _ _ => True) ops := fun _ _ _ => trivial
  exact Calls.run_invariant kept_new (fun _ op hk _ => hk.step op) hall

/-! ## what closing takes away -/

/-- the step of the close of one of these scopes -/
def Closes (scopeIds : List String) : ScopeOp → Prop
  | .aclose s => s ∈ scopeIds
  | .unwind s _ => s ∈ scopeIds
  | .finish s => s ∈ scopeIds
  | _ => False

/-- nothing came, and what is not `own` stayed -/
structure Lost {β : Type} (own : β → Bool) (before after : List β) : Prop where
  fewer : after.Sublist before
  others : after.filter (fun b => !own b) = before.filter fun b => !own b

theorem Lost.refl {β : Type} (own : β → Bool) (l : List β) : Lost own l l :=
  ⟨List.Sublist.refl l, rfl⟩

theorem Lost.trans {β : Type} {own : β → Bool} {l₁ l₂ l₃ : List β} (h : Lost own l₁ l₂)
    (h' : Lost own l₂ l₃) : Lost own l₁ l₃ :=
  ⟨h'.fewer.trans h.fewer, h'.others.trans h.others⟩

theorem Lost.exact {β : Type} {own : β → Bool} {l l' : List β} (h : Lost own l l')
    (hnone : ∀ b ∈ l', own b = false) : l' = l.filter fun b => !own b := by
  rw [← h.others]
  refine (List.filter_eq_self.2 fun b hb => ?_).symm
  rw [hnone b hb]
  rfl

theorem lost_pop {β : Type} [Registration β] {own : β → Bool} (r : Owned β) {id : String}
    (h : ∀ b, r.byId.get? id = some b → own b = true) : Lost own r.all (r.pop id).all := by
  constructor
  · rw [Owned.pop, Owned.all_discard]
    exact List.filter_sublist
  · refine Owned.kept_discard fun b hb hid => ?_
    have hown := h b (Owned.get?_eq_some.2 ⟨hb, of_decide_eq_true hid⟩)
    rw [hown]
    rfl

/-- of the registries, these scopes lost some of their own registrations, and no other anything -/
structure TakesOnly (scopeIds : List String) (w w' : Scopes) : Prop where
  capabilities : Lost (fun c => decide (c.scopeId ∈ scopeIds)) w.capabilities.all w'.capabilities.all
  tools : Lost (fun t => decide (t.scopeId ∈ scopeIds)) w.tools.store.all w'.tools.store.all
  hooks : Lost (fun h => decide (h.scopeId ∈ scopeIds)) w.hooks.all w'.hooks.all
  agents : Lost (fun r => r.scopeId.any fun s => decide (s ∈ scopeIds)) w.agents.store.all
    w'.agents.store.all

theorem takesOnly_same {scopeIds : List String} (hcapabilities : w'.capabilities = w.capabilities)
    (htools : w'.tools = w.tools) (hhooks : w'.hooks = w.hooks) (hagents : w'.agents = w.agents) :
    TakesOnly scopeIds w w' := by
  constructor
  · rw [hcapabilities]
    exact Lost.refl _ _
  · rw [htools]
    exact Lost.refl _ _
  · rw [hhooks]
    exact Lost.refl _ _
  · rw [hagents]
    exact Lost.refl _ _

theorem TakesOnly.trans {scopeIds : List String} {w₁ w₂ w₃ : Scopes}
    (h : TakesOnly scopeIds w₁ w₂) (h' : TakesOnly scopeIds w₂ w₃) : TakesOnly scopeIds w₁ w₃ :=
  ⟨h.capabilities.trans h'.capabilities, h.tools.trans h'.tools, h.hooks.trans h'.hooks,
    h.agents.trans h'.agents⟩

theorem aclose_registries (w : Scopes) (s : String) :
    (w.aclose s).capabilities = w.capabilities ∧ (w.aclose s).tools = w.tools ∧
      (w.aclose s).hooks = w.hooks ∧ (w.aclose s).agents = w.agents := by
  unfold aclose
  split
  · split
    · exact ⟨rfl, rfl, rfl, rfl⟩
    · exact ⟨rfl, rfl, rfl, rfl⟩
  · exact ⟨rfl, rfl, rfl, rfl⟩

theorem finish_registries (w : Scopes) (s : String) :
    (w.finish s).capabilities = w.capabilities ∧ (w.finish s).tools = w.tools ∧
      (w.finish s).hooks = w.hooks ∧ (w.finish s).agents = w.agents := by
  unfold finish
  split
  · exact ⟨rfl, rfl, rfl, rfl⟩
  · split
    · exact ⟨rfl, rfl, rfl, rfl⟩
    · exact ⟨rfl, rfl, rfl, rfl⟩

theorem Kept.top_own (hk : w.Kept) {s : String} {o : Option String} {sc : Scope}
    {record : EffectRecord} {d : Disposer} {rest : List (EffectRecord × Disposer)}
    (hget : w.scopes.get? s = some sc) (htop : sc.stack = (record, d) :: rest)
    (ho : w.holder d = some o) : o = some s := by
  have hin : d ∈ w.disposers s := by
    rw [disposers_of_get hget, htop]
    exact List.mem_cons_self
  cases o with
  | none => exact absurd ho (hk.homed hin)
  | some s' =>
    have howner : w.custody.owner d = some s' := by
      show (w.holder d).join = some s'
      rw [ho]
      rfl
    rw [hk.sound.placed hin howner]

theorem Kept.unwind_takes (hk : w.Kept) {scopeIds : List String} {s : String} (hs : s ∈ scopeIds)
    (outcome : Option Err) : TakesOnly scopeIds w (w.unwind s outcome) := by
  have hsame : TakesOnly scopeIds w w := takesOnly_same rfl rfl rfl rfl
  unfold Scopes.unwind
  rcases hget : w.scopes.get? s with _ | sc
  · exact hsame
  · simp only
    split
    · split
      · split
        · exact takesOnly_same rfl rfl rfl rfl
        · split
          · exact takesOnly_same rfl rfl rfl rfl
          · exact hsame
      · exact takesOnly_same rfl rfl rfl rfl
    · rename_i record d rest hclosing hwaiting htop
      have hown : ∀ {β : Type} (f : β → Option String) {x : Option β} {b : β},
          w.holder d = x.map f → x = some b → f b = some s := by
        intro β f x b hd hx
        refine hk.top_own hget htop ?_
        rw [hd, hx]
        rfl
      cases d with
      | withdraw id =>
        refine ⟨lost_pop _ fun c hc => ?_, Lost.refl _ _, Lost.refl _ _, Lost.refl _ _⟩
        have hscope : some c.scopeId = some s := hown (fun c => some c.scopeId) rfl hc
        rw [Option.some.inj hscope]
        exact decide_eq_true hs
      | releaseTool id =>
        refine ⟨Lost.refl _ _, ?_, Lost.refl _ _, Lost.refl _ _⟩
        show Lost _ w.tools.store.all (w.tools.release id).2.store.all
        rw [(hk.tools.release_store id).1]
        refine lost_pop _ fun t ht => ?_
        have hscope : some t.scopeId = some s := hown (fun t => some t.scopeId) rfl ht
        rw [Option.some.inj hscope]
        exact decide_eq_true hs
      | unregisterHook id =>
        refine ⟨Lost.refl _ _, Lost.refl _ _, lost_pop _ fun h hh => ?_, Lost.refl _ _⟩
        have hscope : some h.scopeId = some s := hown (fun h => some h.scopeId) rfl hh
        rw [Option.some.inj hscope]
        exact decide_eq_true hs
      | releaseAgent id =>
        refine ⟨Lost.refl _ _, Lost.refl _ _, Lost.refl _ _, ?_⟩
        show Lost _ w.agents.store.all (w.agents.release id).2.store.all
        rw [(hk.agents.release_store id).1]
        refine lost_pop _ fun r hr => ?_
        have hscope : r.scopeId = some s := hown RuntimeRegistration.scopeId rfl hr
        rw [hscope]
        exact decide_eq_true hs
      | callback => exact takesOnly_same rfl rfl rfl rfl
      | closeChild c =>
        obtain ⟨hcapabilities, htools, hhooks, hagents⟩ := aclose_registries _ c
        exact takesOnly_same hcapabilities htools hhooks hagents
    · exact hsame

theorem Kept.close_takes (hk : w.Kept) {scopeIds : List String} {op : ScopeOp}
    (h : Closes scopeIds op) : TakesOnly scopeIds w (w.step op) := by
  cases op with
  | aclose s =>
    obtain ⟨hcapabilities, htools, hhooks, hagents⟩ := aclose_registries w s
    exact takesOnly_same hcapabilities htools hhooks hagents
  | unwind s outcome => exact hk.unwind_takes h outcome
  | finish s =>
    obtain ⟨hcapabilities, htools, hhooks, hagents⟩ := finish_registries w s
    exact takesOnly_same hcapabilities htools hhooks hagents
  | _ => exact absurd h not_false

theorem close_run_takes (ops : List ScopeOp) {scopeIds : List String} {closing : List ScopeOp}
    (h : ∀ op ∈ closing, Closes scopeIds op) :
    TakesOnly scopeIds (after ops) (after (ops ++ closing)) := by
  induction closing using List.reverseRecOn with
  | nil =>
    rw [List.append_nil]
    exact takesOnly_same rfl rfl rfl rfl
  | append_singleton closing op ih =>
    have hbefore := ih fun op' hop' => h op' (List.mem_append_left _ hop')
    have hop := h op (List.mem_append_right _ List.mem_cons_self)
    rw [← List.append_assoc]
    show TakesOnly scopeIds _ (Calls.run step {} (ops ++ closing ++ [op]))
    rw [Calls.run_concat]
    exact hbefore.trans ((kept_after _).close_takes hop)

structure OwnsNothing (w : Scopes) (s : String) : Prop where
  capabilities : ∀ c ∈ w.capabilities.all, c.scopeId ≠ s
  tools : ∀ t ∈ w.tools.store.all, t.scopeId ≠ s
  hooks : ∀ h ∈ w.hooks.all, h.scopeId ≠ s
  agents : ∀ r ∈ w.agents.store.all, r.scopeId ≠ some s

def Closed (w : Scopes) (s : String) : Prop := (w.scopes.get? s).map Scope.state = some .closed

instance (w : Scopes) (s : String) : Decidable (w.Closed s) := inferInstanceAs (Decidable (_ = _))

theorem Kept.closed_owns_nothing (hk : w.Kept) {s : String} (h : w.Closed s) : w.OwnsNothing s := by
  have hphase : w.custody.phase s = some .closed := h
  have hnone : ∀ d, w.holder d ≠ some (some s) := by
    intro d hd
    refine hk.sound.closed hphase d ?_
    show (w.holder d).join = some s
    rw [hd]
    rfl
  have hown : ∀ {β : Type} [Registration β] (r : Owned β) (f : β → Option String)
      (mk : String → Disposer), (∀ id, w.holder (mk id) = (r.byId.get? id).map f) →
      ∀ b ∈ r.all, f b ≠ some s := by
    intro β _ r f mk hmk b hb hf
    refine hnone (mk (Registration.id b)) ?_
    rw [hmk, Owned.get?_eq_some.2 ⟨hb, rfl⟩, ← hf]
    rfl
  constructor
  · intro c hc heq
    exact hown w.capabilities _ .withdraw (fun _ => rfl) c hc (congrArg some heq)
  · intro t ht heq
    exact hown w.tools.store _ .releaseTool (fun _ => rfl) t ht (congrArg some heq)
  · intro h hh heq
    exact hown w.hooks _ .unregisterHook (fun _ => rfl) h hh (congrArg some heq)
  · exact hown w.agents.store _ .releaseAgent fun _ => rfl

/-- what is left of the registries is exactly what these scopes do not own -/
structure TakesExactly (scopeIds : List String) (w w' : Scopes) : Prop where
  capabilities : w'.capabilities.all =
    w.capabilities.all.filter fun c => !decide (c.scopeId ∈ scopeIds)
  tools : w'.tools.store.all = w.tools.store.all.filter fun t => !decide (t.scopeId ∈ scopeIds)
  hooks : w'.hooks.all = w.hooks.all.filter fun h => !decide (h.scopeId ∈ scopeIds)
  agents : w'.agents.store.all =
    w.agents.store.all.filter fun r => !r.scopeId.any fun s => decide (s ∈ scopeIds)

theorem TakesOnly.exactly {scopeIds : List String} (h : TakesOnly scopeIds w w')
    (hnothing : ∀ s ∈ scopeIds, w'.OwnsNothing s) : TakesExactly scopeIds w w' := by
  constructor
  · exact h.capabilities.exact fun c hc =>
      decide_eq_false fun hin => (hnothing _ hin).capabilities c hc rfl
  · exact h.tools.exact fun t ht => decide_eq_false fun hin => (hnothing _ hin).tools t ht rfl
  · exact h.hooks.exact fun k hk => decide_eq_false fun hin => (hnothing _ hin).hooks k hk rfl
  · refine h.agents.exact fun r hr => ?_
    rcases hscope : r.scopeId with _ | s
    · rfl
    · exact decide_eq_false fun hin => (hnothing s hin).agents r hr hscope

/-- the index of names of a registry agrees with what is registered -/
structure Indexes {β : Type} [Registration β] [Named β] (r : Indexed β) : Prop where
  consistent : r.Consistent
  newest : ∀ name, r.newest name = .ok (r.named name).getLast?
  listed : ∀ name ∈ r.names.keys, ∃ b ∈ r.named name, r.newest name = .ok (some b)
  unregisters : ∀ name owns, ∃ removed, (r.unregister name owns).1 = .ok removed

theorem indexes_of_consistent {β : Type} [Registration β] [Named β] {r : Indexed β}
    (hc : r.Consistent) : Indexes r where
  consistent := hc
  newest := hc.newest_eq
  listed := by
    intro name h
    obtain ⟨b, hb⟩ := hc.newest_listed h
    refine ⟨b, ?_, hb⟩
    rw [hc.newest_eq] at hb
    exact List.mem_of_getLast? (Except.ok.inj hb)
  unregisters := by
    intro name owns
    obtain ⟨removed, r', heq, -⟩ := hc.unregister_eq name owns
    exact ⟨removed, by rw [heq]⟩

/-- **Registrations never outlive their scope.**  After any sequence of calls a closed scope owns
nothing; from there the steps that close some scopes take away nothing else than what these own, and
all of it when they have closed; and the tool and the agent registry find by name what is live. -/
theorem registrations_kept (ops : List ScopeOp) :
    (∀ s, (after ops).Closed s → (after ops).OwnsNothing s) ∧
    (∀ scopeIds closing, (∀ op ∈ closing, Closes scopeIds op) →
      TakesOnly scopeIds (after ops) (after (ops ++ closing)) ∧
      ((∀ s ∈ scopeIds, (after (ops ++ closing)).Closed s) →
        TakesExactly scopeIds (after ops) (after (ops ++ closing)))) ∧
    Indexes (after ops).tools ∧ Indexes (after ops).agents := by
  refine ⟨fun s => (kept_after ops).closed_owns_nothing, ?_,
    indexes_of_consistent (kept_after ops).tools, indexes_of_consistent (kept_after ops).agents⟩
  intro scopeIds closing h
  refine ⟨close_run_takes ops h, fun hclosed => (close_run_takes ops h).exactly fun s hs => ?_⟩
  exact (kept_after _).closed_owns_nothing (hclosed s hs)

end

end

section
open Plain

/-- a successor registers a tool of the same name before the scope of the first one closes -/
def succession : List ScopeOp :=
  let search : ToolDeclaration := { name := "search", description := "finds", inputSchema := .absent }
  [.construct "first",
    .registerTool (freshId "scope" 0) search true true "plugin" "",
    .cleanup (freshId "scope" 0) "connection" "callback",
    .construct "second",
    .registerTool (freshId "scope" 4) search true true "successor" ""]

/-- the connection of the first scope does not close as it should -/
def firstCloses : List ScopeOp :=
  [.aclose (freshId "scope" 0), .unwind (freshId "scope" 0) none,
    .unwind (freshId "scope" 0) (some { kind := .Other, message := "connection reset" }),
    .unwind (freshId "scope" 0) none, .finish (freshId "scope" 0)]

/-- Of two tools of one name, the one whose scope closed is gone. -/
theorem registrations_kept_succession :
    (after (succession ++ firstCloses)).Closed (freshId "scope" 0) ∧
    (after (succession ++ firstCloses)).OwnsNothing (freshId "scope" 0) ∧
    TakesExactly [freshId "scope" 0] (after succession) (after (succession ++ firstCloses)) ∧
    (∃ t ∈ (after succession).tools.named "search", t.scopeId = freshId "scope" 0) ∧
    ∃ t ∈ (after (succession ++ firstCloses)).tools.named "search",
      t.scopeId = freshId "scope" 4 := by
  have hclosed : (after (succession ++ firstCloses)).Closed (freshId "scope" 0) := by
    decide +kernel
  have hsteps : ∀ op ∈ firstCloses, Closes [freshId "scope" 0] op := by
    simp [firstCloses, Closes]
  refine ⟨hclosed, (registrations_kept _).1 _ hclosed, ?_, by decide +kernel, by decide +kernel⟩
  refine ((registrations_kept succession).2.1 _ _ hsteps).2 fun s hs => ?_
  rw [List.mem_singleton.1 hs]
  exact hclosed

end

end Scopes
end Chassis
