import Chassis.Replay.Session

/-!
# Every boundary is a queue

What a session has left for a boundary, `pending`, is a queue that starts with the records the
cursor has not reached: a replay takes its head, a captured fallback empties it, and no call for
another boundary touches it.

* `replay_pending`, `recordFallback_pending`   the calls, as operations on queues;
* `ReplayRun`       a session after some calls, with what its replays returned;
* `run_agree`       a boundary sees its own calls only;
* `replay_in_order` the order of replay, and what comes of a captured fallback.
-/

namespace Chassis
open Py

theorem BoundaryKind.value_no_colon (kind : BoundaryKind) : ':' ∉ kind.value.toList := by
  cases kind <;> decide

theorem split_at_colon {a b c d : List Char} (ha : ':' ∉ a) (hc : ':' ∉ c)
    (h : a ++ ':' :: b = c ++ ':' :: d) : a = c ∧ b = d := by
  induction a generalizing c with
  | nil =>
    cases c with
    | nil => exact ⟨rfl, (List.cons.inj h).2⟩
    | cons x c =>
      have hx : ':' = x := (List.cons.inj h).1
      exact absurd (hx ▸ List.mem_cons_self) hc
  | cons x a ih =>
    cases c with
    | nil =>
      have hx : x = ':' := (List.cons.inj h).1
      exact absurd (hx ▸ List.mem_cons_self) ha
    | cons y c =>
      obtain ⟨hxy, h⟩ := List.cons.inj h
      obtain ⟨hac, hbd⟩ := ih (fun h' => ha (List.mem_cons_of_mem x h'))
        (fun h' => hc (List.mem_cons_of_mem y h')) h
      exact ⟨by rw [hxy, hac], hbd⟩

/-- two boundaries never share a cursor -/
theorem cursorKey_injective {kind kind' : BoundaryKind} {key key' : String}
    (h : cursorKey kind key = cursorKey kind' key') : kind = kind' ∧ key = key' := by
  have htext : kind.value.toList ++ ':' :: key.toList =
      kind'.value.toList ++ ':' :: key'.toList := by
    have := congrArg String.toList h
    simpa [cursorKey, String.toList_append] using this
  obtain ⟨hkind, hkey⟩ := split_at_colon kind.value_no_colon kind'.value_no_colon htext
  refine ⟨?_, String.toList_inj.1 hkey⟩
  have hvalue : kind.value = kind'.value := String.toList_inj.1 hkind
  cases kind <;> cases kind' <;> first | rfl | exact absurd hvalue (by decide)

namespace ReplaySession
variable (s : ReplaySession)

/-- the records that later replays of the boundary return -/
def pending (kind : BoundaryKind) (key : String) : List ReplayRecord :=
  (s.matching kind key).drop (s.consumed kind key)

theorem peek_eq_head (kind : BoundaryKind) (key : String) :
    s.peek kind key = (s.pending kind key).head? := by
  unfold peek pending
  rw [List.head?_drop]

theorem consumed_set (kind kind' : BoundaryKind) (key key' : String) (n : Nat)
    (records : List ReplayRecord) :
    ({ s with records := records, cursor := s.cursor.set (cursorKey kind key) n } :
      ReplaySession).consumed kind' key' =
      if kind = kind' ∧ key = key' then n else s.consumed kind' key' := by
  unfold consumed
  by_cases h : kind = kind' ∧ key = key'
  · obtain ⟨rfl, rfl⟩ := h
    rw [if_pos ⟨rfl, rfl⟩, Dict.get?_set_self]
    rfl
  · rw [if_neg h, Dict.get?_set_ne]
    exact fun he => h (cursorKey_injective he.symm)

/-- **A replay takes the head of its queue**, and raises when there is none. -/
theorem replay_pending (kind : BoundaryKind) (key : String) :
    (s.pending kind key = [] ∧ ∃ e : Err, e.kind = .ReplayMismatch ∧
      s.replay kind key = (.error e, s)) ∨
    ∃ r rest s', s.pending kind key = r :: rest ∧ s.replay kind key = (.ok r, s') ∧
      s'.mode = s.mode ∧ s'.fallback = s.fallback ∧ s'.records = s.records ∧
      ∀ kind' key', s'.pending kind' key' =
        if kind = kind' ∧ key = key' then rest else s.pending kind' key' := by
  have hget : (s.matching kind key)[s.consumed kind key]? = (s.pending kind key).head? := by
    unfold pending
    rw [List.head?_drop]
  unfold replay
  simp only [hget]
  cases hp : s.pending kind key with
  | nil => exact Or.inl ⟨rfl, _, rfl, rfl⟩
  | cons r rest =>
    refine Or.inr ⟨r, rest, _, rfl, rfl, rfl, rfl, rfl, fun kind' key' => ?_⟩
    show (s.matching kind' key').drop _ = _
    rw [consumed_set]
    by_cases h : kind = kind' ∧ key = key'
    · obtain ⟨rfl, rfl⟩ := h
      rw [if_pos ⟨rfl, rfl⟩, if_pos ⟨rfl, rfl⟩, ← List.tail_drop]
      show (s.pending kind key).tail = rest
      rw [hp]
      rfl
    · rw [if_neg h, if_neg h]
      rfl

/-- whether a fallback of this boundary may be captured -/
def captures (kind : BoundaryKind) : Prop :=
  s.mode = .replay ∧ s.fallback = .live ∧ (kind = .tool ∨ kind = .model)

/-- **A captured fallback empties its queue**, and never enters one. -/
theorem recordFallback_pending (now : Rat) (kind : BoundaryKind) (key : String)
    (request : Document) (response : Value) (generationId runId : Option String) :
    (¬ s.captures kind ∧ ∃ e, s.recordFallback now kind key request response generationId runId =
      (.error e, s)) ∨
    (s.captures kind ∧ ∃ r s', s.recordFallback now kind key request response generationId runId =
        (.ok r, s') ∧ s'.mode = s.mode ∧ s'.fallback = s.fallback ∧
      ∀ kind' key', s'.pending kind' key' =
        if kind = kind' ∧ key = key' then [] else s.pending kind' key') := by
  unfold recordFallback captures
  by_cases hmode : ¬ s.isReplaying ∨ s.fallback ≠ .live
  · rw [if_pos hmode]
    refine Or.inl ⟨fun h => ?_, _, rfl⟩
    rcases hmode with hm | hf
    · exact hm (by simp [isReplaying, h.1])
    · exact hf h.2.1
  · rw [if_neg hmode]
    rw [not_or, not_not, not_not] at hmode
    have hreplay : s.mode = .replay := by simpa [isReplaying] using hmode.1
    by_cases hkind : kind ≠ .tool ∧ kind ≠ .model
    · rw [if_pos hkind]
      exact Or.inl ⟨fun h => h.2.2.elim hkind.1 hkind.2, _, rfl⟩
    · rw [if_neg hkind]
      refine Or.inr ⟨⟨hreplay, hmode.2, ?_⟩, _, _, rfl, rfl, rfl, fun kind' key' => ?_⟩
      · by_contra hno
        rw [not_or] at hno
        exact hkind hno
      · show ((s.records ++ [_]).filter _).drop _ = _
        rw [consumed_set]
        by_cases h : kind = kind' ∧ key = key'
        · obtain ⟨rfl, rfl⟩ := h
          rw [if_pos ⟨rfl, rfl⟩, if_pos ⟨rfl, rfl⟩]
          exact List.drop_length
        · rw [if_neg h, if_neg h, List.filter_append]
          have hnew : (decide ((s.newRecord now kind key request response generationId
              runId).kind = kind') && decide ((s.newRecord now kind key request response
              generationId runId).key = key')) = false := by
            rw [Bool.and_eq_false_iff, decide_eq_false_iff_not, decide_eq_false_iff_not]
            by_cases hk : kind = kind'
            · exact Or.inr fun hkey => h ⟨hk, hkey⟩
            · exact Or.inl hk
          rw [List.filter_cons, if_neg (by rw [hnew]; decide), List.filter_nil, List.append_nil]
          rfl

end ReplaySession

/-! ## runs -/

inductive ReplayCall
  | replay (kind : BoundaryKind) (key : String)
  | peek (kind : BoundaryKind) (key : String)
  | hasRemaining (kind : BoundaryKind) (key : String)
  | recordFallback (now : Rat) (kind : BoundaryKind) (key : String) (request : Document)
      (response : Value) (generationId runId : Option String)

def ReplayCall.boundary : ReplayCall → BoundaryKind × String
  | replay kind key | peek kind key | hasRemaining kind key => (kind, key)
  | recordFallback _ kind key _ _ _ _ => (kind, key)

/-- a session, and the records its replays returned, oldest first -/
structure ReplayRun where
  session : ReplaySession
  returned : List ((BoundaryKind × String) × ReplayRecord) := []

namespace ReplayRun

def step (t : ReplayRun) : ReplayCall → ReplayRun
  | .replay kind key =>
    match t.session.replay kind key with
    | (.ok r, s) => ⟨s, t.returned ++ [((kind, key), r)]⟩
    | (.error _, s) => ⟨s, t.returned⟩
  | .peek _ _ | .hasRemaining _ _ => t
  | .recordFallback now kind key request response generationId runId =>
    ⟨(t.session.recordFallback now kind key request response generationId runId).2, t.returned⟩

def run (t : ReplayRun) (calls : List ReplayCall) : ReplayRun := calls.foldl step t

/-- what the replays of one boundary returned -/
def returnedFor (t : ReplayRun) (kind : BoundaryKind) (key : String) : List ReplayRecord :=
  (t.returned.filter fun p => p.1 = (kind, key)).map Prod.snd

theorem returnedFor_append (s : ReplaySession) (l : List ((BoundaryKind × String) × ReplayRecord))
    (b : BoundaryKind × String) (r : ReplayRecord) (kind : BoundaryKind) (key : String) :
    (⟨s, l ++ [(b, r)]⟩ : ReplayRun).returnedFor kind key =
      (⟨s, l⟩ : ReplayRun).returnedFor kind key ++ if b = (kind, key) then [r] else [] := by
  unfold returnedFor
  rw [List.filter_append, List.map_append]
  by_cases h : b = (kind, key) <;> simp [h]

/-- everything a call does to one boundary -/
inductive Stepped (kind : BoundaryKind) (key : String) (t : ReplayRun) : ReplayRun → Prop
  | idle {t' : ReplayRun} (pending : t'.session.pending kind key = t.session.pending kind key)
      (returned : t'.returnedFor kind key = t.returnedFor kind key) : Stepped kind key t t'
  | taken {t' : ReplayRun} (r : ReplayRecord)
      (pending : t.session.pending kind key = r :: t'.session.pending kind key)
      (returned : t'.returnedFor kind key = t.returnedFor kind key ++ [r]) : Stepped kind key t t'
  | emptied {t' : ReplayRun} (pending : t'.session.pending kind key = [])
      (returned : t'.returnedFor kind key = t.returnedFor kind key) : Stepped kind key t t'

/-- two runs that look the same to one boundary -/
structure Agree (kind : BoundaryKind) (key : String) (t u : ReplayRun) : Prop where
  mode : u.session.mode = t.session.mode
  fallback : u.session.fallback = t.session.fallback
  pending : u.session.pending kind key = t.session.pending kind key
  returned : u.returnedFor kind key = t.returnedFor kind key

variable {kind : BoundaryKind} {key : String}

theorem Agree.refl (t : ReplayRun) : Agree kind key t t := ⟨rfl, rfl, rfl, rfl⟩

theorem Agree.symm {t u : ReplayRun} (h : Agree kind key t u) : Agree kind key u t :=
  ⟨h.mode.symm, h.fallback.symm, h.pending.symm, h.returned.symm⟩

theorem Agree.trans {t u w : ReplayRun} (h : Agree kind key t u) (h' : Agree kind key u w) :
    Agree kind key t w :=
  ⟨h'.mode.trans h.mode, h'.fallback.trans h.fallback, h'.pending.trans h.pending,
    h'.returned.trans h.returned⟩

theorem step_other (t : ReplayRun) {c : ReplayCall} (h : c.boundary ≠ (kind, key)) :
    Agree kind key t (t.step c) := by
  cases c with
  | peek kind' key' => exact .refl t
  | hasRemaining kind' key' => exact .refl t
  | replay kind' key' =>
    have hne : ¬ (kind' = kind ∧ key' = key) := fun he => h (Prod.ext he.1 he.2)
    rcases t.session.replay_pending kind' key' with
      ⟨_, e, _, hr⟩ | ⟨r, rest, s', _, hr, hm, hf, _, hall⟩
    · simp only [step, hr]
      exact .refl t
    · simp only [step, hr]
      refine ⟨hm, hf, ?_, ?_⟩
      · have := hall kind key
        rwa [if_neg hne] at this
      · rw [returnedFor_append, if_neg fun he => hne (Prod.mk.inj he), List.append_nil]
        rfl
  | recordFallback now kind' key' request response generationId runId =>
    have hne : ¬ (kind' = kind ∧ key' = key) := fun he => h (Prod.ext he.1 he.2)
    rcases t.session.recordFallback_pending now kind' key' request response generationId runId with
      ⟨_, e, hr⟩ | ⟨_, r, s', hr, hm, hf, hall⟩
    · simp only [step, hr]
      exact .refl t
    · simp only [step, hr]
      refine ⟨hm, hf, ?_, rfl⟩
      have := hall kind key
      rwa [if_neg hne] at this

theorem Agree.step {t u : ReplayRun} (h : Agree kind key t u) {c : ReplayCall}
    (hc : c.boundary = (kind, key)) : Agree kind key (t.step c) (u.step c) := by
  cases c with
  | peek kind' key' => exact h
  | hasRemaining kind' key' => exact h
  | replay kind' key' =>
    obtain ⟨rfl, rfl⟩ := Prod.mk.inj hc
    rcases t.session.replay_pending kind' key' with
      ⟨hp, e, _, hr⟩ | ⟨r, rest, s', hp, hr, hm, hf, _, hall⟩
    · rcases u.session.replay_pending kind' key' with
        ⟨_, e', _, hr'⟩ | ⟨r', rest', _, hp', _⟩
      · simp only [step, hr, hr']
        exact h
      · rw [h.pending, hp] at hp'
        cases hp'
    · rcases u.session.replay_pending kind' key' with
        ⟨hp', _⟩ | ⟨r', rest', u', hp', hr', hm', hf', _, hall'⟩
      · rw [h.pending, hp] at hp'
        cases hp'
      · rw [h.pending, hp] at hp'
        cases hp'
        simp only [step, hr, hr']
        refine ⟨hm'.trans (h.mode.trans hm.symm), hf'.trans (h.fallback.trans hf.symm), ?_, ?_⟩
        · show u'.pending kind' key' = s'.pending kind' key'
          rw [hall', hall, if_pos ⟨rfl, rfl⟩, if_pos ⟨rfl, rfl⟩]
        · rw [returnedFor_append, returnedFor_append]
          exact congrArg (· ++ _) h.returned
  | recordFallback now kind' key' request response generationId runId =>
    obtain ⟨rfl, rfl⟩ := Prod.mk.inj hc
    have hcap : u.session.captures kind' ↔ t.session.captures kind' := by
      unfold ReplaySession.captures
      rw [h.mode, h.fallback]
    rcases t.session.recordFallback_pending now kind' key' request response generationId runId with
      ⟨hno, e, hr⟩ | ⟨hyes, r, s', hr, hm, hf, hall⟩
    · rcases u.session.recordFallback_pending now kind' key' request response generationId runId
        with ⟨_, e', hr'⟩ | ⟨hyes', _⟩
      · simp only [step, hr, hr']
        exact h
      · exact absurd (hcap.1 hyes') hno
    · rcases u.session.recordFallback_pending now kind' key' request response generationId runId
        with ⟨hno', _⟩ | ⟨_, r', u', hr', hm', hf', hall'⟩
      · exact absurd (hcap.2 hyes) hno'
      · simp only [step, hr, hr']
        refine ⟨hm'.trans (h.mode.trans hm.symm), hf'.trans (h.fallback.trans hf.symm), ?_,
          h.returned⟩
        show u'.pending kind' key' = s'.pending kind' key'
        rw [hall', hall, if_pos ⟨rfl, rfl⟩, if_pos ⟨rfl, rfl⟩]

/-- **A boundary sees its own calls only.** -/
theorem Agree.run {t u : ReplayRun} (h : Agree kind key t u) (calls : List ReplayCall) :
    Agree kind key (t.run (calls.filter fun c => c.boundary = (kind, key))) (u.run calls) := by
  induction calls generalizing t u with
  | nil => exact h
  | cons c calls ih =>
    by_cases hc : c.boundary = (kind, key)
    · rw [List.filter_cons, if_pos (by simpa using hc)]
      exact ih (h.step hc)
    · rw [List.filter_cons, if_neg (by simpa using hc)]
      exact ih (h.trans (step_other u hc))

theorem run_agree {t u : ReplayRun} (h : Agree kind key t u) (calls : List ReplayCall) :
    Agree kind key (t.run calls) (u.run calls) :=
  ((Agree.refl t).run calls).symm.trans (h.run calls)

/-! ## order -/

/-- the records of a boundary are returned from the front of `l`, and the rest are still pending
or have been given up -/
def Follows (kind : BoundaryKind) (key : String) (l : List ReplayRecord) (t : ReplayRun) : Prop :=
  ∃ rest, l = t.returnedFor kind key ++ rest ∧
    (t.session.pending kind key = rest ∨ t.session.pending kind key = [])

theorem step_cases (t : ReplayRun) (c : ReplayCall) (kind : BoundaryKind) (key : String) :
    Stepped kind key t (t.step c) := by
  by_cases hc : c.boundary = (kind, key)
  · cases c with
    | peek kind' key' => exact .idle rfl rfl
    | hasRemaining kind' key' => exact .idle rfl rfl
    | replay kind' key' =>
      obtain ⟨rfl, rfl⟩ := Prod.mk.inj hc
      rcases t.session.replay_pending kind' key' with
        ⟨_, e, _, hr⟩ | ⟨r, rest, s', hp, hr, _, _, _, hall⟩
      · simp only [step, hr]
        exact .idle rfl rfl
      · simp only [step, hr]
        refine .taken r ?_ ?_
        · show _ = r :: s'.pending kind' key'
          rw [hall, if_pos ⟨rfl, rfl⟩, hp]
        · rw [returnedFor_append, if_pos rfl]
          rfl
    | recordFallback now kind' key' request response generationId runId =>
      obtain ⟨rfl, rfl⟩ := Prod.mk.inj hc
      rcases t.session.recordFallback_pending now kind' key' request response generationId runId
        with ⟨_, e, hr⟩ | ⟨_, r, s', hr, _, _, hall⟩
      · simp only [step, hr]
        exact .idle rfl rfl
      · simp only [step, hr]
        refine .emptied ?_ rfl
        show s'.pending kind' key' = []
        rw [hall, if_pos ⟨rfl, rfl⟩]
  · have h := step_other t hc
    exact .idle h.pending h.returned

theorem Follows.step {l : List ReplayRecord} {t : ReplayRun} (h : Follows kind key l t)
    (c : ReplayCall) : Follows kind key l (t.step c) := by
  obtain ⟨rest, hl, hp⟩ := h
  cases step_cases t c kind key with
  | idle pending returned => exact ⟨rest, by rw [returned, hl], by rwa [pending]⟩
  | emptied pending returned => exact ⟨rest, by rw [returned, hl], Or.inr pending⟩
  | taken r pending returned =>
    rcases hp with hp | hp
    · refine ⟨(t.step c).session.pending kind key, ?_, Or.inl rfl⟩
      rw [hl, returned, ← hp, pending, List.append_assoc]
      rfl
    · rw [hp] at pending
      cases pending

theorem Follows.run {l : List ReplayRecord} {t : ReplayRun} (h : Follows kind key l t)
    (calls : List ReplayCall) : Follows kind key l (t.run calls) := by
  induction calls generalizing t with
  | nil => exact h
  | cons c calls ih => exact ih (h.step c)

theorem Follows.start (s : ReplaySession) : Follows kind key (s.pending kind key) ⟨s, []⟩ :=
  ⟨s.pending kind key, rfl, Or.inl rfl⟩

theorem run_empty {t : ReplayRun} (h : t.session.pending kind key = []) (calls : List ReplayCall) :
    (t.run calls).session.pending kind key = [] ∧
      (t.run calls).returnedFor kind key = t.returnedFor kind key := by
  induction calls generalizing t with
  | nil => exact ⟨h, rfl⟩
  | cons c calls ih =>
    have hstep : (t.step c).session.pending kind key = [] ∧
        (t.step c).returnedFor kind key = t.returnedFor kind key := by
      cases step_cases t c kind key with
      | idle pending returned => exact ⟨pending.trans h, returned⟩
      | emptied pending returned => exact ⟨pending, returned⟩
      | taken r pending returned =>
        rw [h] at pending
        cases pending
    obtain ⟨hp, hr⟩ := ih hstep.1
    exact ⟨hp, hr.trans hstep.2⟩

/-- every fallback of the calls is captured when its boundary has nothing left -/
def CapturesExhausted (t : ReplayRun) : List ReplayCall → Prop
  | [] => True
  | c :: calls =>
    (match c with
      | .recordFallback _ kind key _ _ _ _ => t.session.peek kind key = none
      | .replay _ _ | .peek _ _ | .hasRemaining _ _ => True) ∧ CapturesExhausted (t.step c) calls

theorem returned_append_pending_step (t : ReplayRun) {c : ReplayCall}
    (hc : CapturesExhausted t [c]) (kind : BoundaryKind) (key : String) :
    (t.step c).returnedFor kind key ++ (t.step c).session.pending kind key =
      t.returnedFor kind key ++ t.session.pending kind key := by
  by_cases hb : c.boundary = (kind, key)
  · cases step_cases t c kind key with
    | idle pending returned => rw [pending, returned]
    | taken r pending returned =>
      rw [pending, returned, List.append_assoc]
      rfl
    | emptied pending returned =>
      cases c with
      | peek kind' key' => rfl
      | hasRemaining kind' key' => rfl
      | replay kind' key' =>
        obtain ⟨rfl, rfl⟩ := Prod.mk.inj hb
        rcases t.session.replay_pending kind' key' with
          ⟨hp, _⟩ | ⟨r, rest, s', hp, hr, _, _, _, hall⟩
        · rw [pending, returned, hp]
        · simp only [step, hr] at returned
          rw [returnedFor_append, if_pos rfl] at returned
          have hlen := congrArg List.length returned
          rw [List.length_append] at hlen
          change (t.returnedFor kind' key').length + 1 = _ at hlen
          omega
      | recordFallback now kind' key' request response generationId runId =>
        obtain ⟨rfl, rfl⟩ := Prod.mk.inj hb
        have hnone : t.session.peek kind' key' = none := hc.1
        rw [ReplaySession.peek_eq_head, List.head?_eq_none_iff] at hnone
        rw [pending, returned, hnone]
  · have h := step_other t hb
    rw [h.pending, h.returned]

theorem returned_append_pending {t : ReplayRun} {calls : List ReplayCall}
    (hc : CapturesExhausted t calls) (kind : BoundaryKind) (key : String) :
    (t.run calls).returnedFor kind key ++ (t.run calls).session.pending kind key =
      t.returnedFor kind key ++ t.session.pending kind key := by
  induction calls generalizing t with
  | nil => rfl
  | cons c calls ih =>
    have hone := returned_append_pending_step t (c := c) ⟨hc.1, trivial⟩ kind key
    exact (ih hc.2).trans hone

/-- **Replay is in recording order, boundary by boundary.**  After any calls: the `k`-th record a
boundary returned is the `k`-th of the records its cursor had not reached; its own calls alone
decide what it returned and returns next; a mismatch changes nothing; `peek` and `has_remaining`
say what the next replay returns; a fallback captured for a boundary that has nothing left is never
returned and takes no record from later replays; and if all fallbacks were captured so, what was
not returned yet is still pending. -/
theorem replay_in_order (s : ReplaySession) (calls : List ReplayCall) (kind : BoundaryKind)
    (key : String) :
    let start : ReplayRun := ⟨s, []⟩
    let t := start.run calls
    let own := start.run (calls.filter fun c => c.boundary = (kind, key))
    (∀ k r, (t.returnedFor kind key)[k]? = some r →
      (s.matching kind key)[s.consumed kind key + k]? = some r) ∧
    (t.returnedFor kind key = own.returnedFor kind key ∧
      t.session.peek kind key = own.session.peek kind key) ∧
    (∀ e, (t.session.replay kind key).1 = .error e →
      e.kind = .ReplayMismatch ∧ (t.session.replay kind key).2 = t.session) ∧
    (t.session.peek kind key = (t.session.replay kind key).1.toOption ∧
      t.session.hasRemaining kind key = (t.session.replay kind key).1.toOption.isSome) ∧
    (∀ now request response generationId runId r s', t.session.peek kind key = none →
      t.session.recordFallback now kind key request response generationId runId = (.ok r, s') →
      ∀ later kind' key', ((⟨s', []⟩ : ReplayRun).run later).returnedFor kind' key' =
          ((⟨t.session, []⟩ : ReplayRun).run later).returnedFor kind' key' ∧
        ((⟨s', []⟩ : ReplayRun).run later).returnedFor kind key = []) ∧
    (CapturesExhausted start calls →
      t.returnedFor kind key ++ t.session.pending kind key = s.pending kind key) := by
  intro start t own
  refine ⟨fun k r hk => ?_, ?_, fun e he => ?_, ?_, ?_,
    fun hc => returned_append_pending hc kind key⟩
  · have hfollows : Follows kind key (s.pending kind key) t := (Follows.start s).run calls
    obtain ⟨rest, hl, _⟩ := hfollows
    have hlt := (List.getElem?_eq_some_iff.1 hk).1
    rw [← List.getElem?_drop]
    show (s.pending kind key)[k]? = some r
    rw [hl, List.getElem?_append_left hlt, hk]
  · have h : Agree kind key own t := (Agree.refl start).run calls
    rw [ReplaySession.peek_eq_head, ReplaySession.peek_eq_head, h.pending]
    exact ⟨h.returned, rfl⟩
  · rcases t.session.replay_pending kind key with ⟨_, e', hkind, hr⟩ | ⟨r, _, s', _, hr, _⟩
    · rw [hr] at he ⊢
      cases he
      exact ⟨hkind, rfl⟩
    · rw [hr] at he
      cases he
  · have hpeek : t.session.peek kind key = (t.session.replay kind key).1.toOption := by
      rw [ReplaySession.peek_eq_head]
      rcases t.session.replay_pending kind key with ⟨hp, e, _, hr⟩ | ⟨r, rest, s', hp, hr, _⟩
      · rw [hp, hr]
        rfl
      · rw [hp, hr]
        rfl
    exact ⟨hpeek, congrArg Option.isSome hpeek⟩
  · intro now request response generationId runId r s' hnone hcap later kind' key'
    rw [ReplaySession.peek_eq_head, List.head?_eq_none_iff] at hnone
    rcases t.session.recordFallback_pending now kind key request response generationId runId with
      ⟨_, e, hr⟩ | ⟨_, r', s'', hr, hm, hf, hall⟩
    · rw [hcap] at hr
      cases hr
    · rw [hcap] at hr
      cases hr
      have hsame : ∀ kind' key', s'.pending kind' key' = t.session.pending kind' key' := by
        intro kind' key'
        rw [hall]
        by_cases h : kind = kind' ∧ key = key'
        · obtain ⟨rfl, rfl⟩ := h
          rw [if_pos ⟨rfl, rfl⟩, hnone]
        · rw [if_neg h]
      have hagree : Agree kind' key' ⟨t.session, []⟩ ⟨s', []⟩ := ⟨hm, hf, hsame kind' key', rfl⟩
      refine ⟨(run_agree hagree later).returned, ?_⟩
      have hempty : s'.pending kind key = [] := (hsame kind key).trans hnone
      exact (run_empty (t := ⟨s', []⟩) hempty later).2

end ReplayRun
end Chassis
