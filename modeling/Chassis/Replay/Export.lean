import Mathlib.Data.List.Induction
import Mathlib.Data.Option.Basic
import Chassis.Persistence.Rejection
import Chassis.Replay.Order

/-!
# The export of a recording

The redactor runs over the whole document of a record, the names of its fields and the key and the
kind of its boundary included, while the reader takes these as they are.

* `ReplaySession.toDict`, `bindRedactor`   the writer, and what attaching a session does;
* `Py.redact_eq_or`           a text that is redacted shows it;
* `Kept`                      the redactor leaves the structure of a record alone;
* `Survives`                  what is read back is what was recorded, redacted;
* `export_survives_iff`       a recording survives its export, exactly if all its records are kept.
-/

namespace Chassis
open Py

/-! ## what redaction leaves -/

theorem mem_replaceChars {c : Char} {old new : List Char} (hnew : c ∈ new) {n : Nat}
    {l : List Char} (h : c ∈ l) : c ∈ replaceChars old new n l := by
  induction n generalizing l with
  | zero => exact h
  | succ n ih =>
    cases l with
    | nil => exact h
    | cons d l =>
      unfold replaceChars
      split_ifs
      · exact List.mem_append_left _ hnew
      · rcases List.mem_cons.1 h with rfl | h
        · exact List.mem_cons_self
        · exact List.mem_cons_of_mem _ (ih h)

theorem replaceChars_eq_or {c : Char} (old : List Char) {new : List Char} (hnew : c ∈ new)
    (n : Nat) (l : List Char) : replaceChars old new n l = l ∨ c ∈ replaceChars old new n l := by
  induction n generalizing l with
  | zero => exact Or.inl rfl
  | succ n ih =>
    cases l with
    | nil => exact Or.inl rfl
    | cons d l =>
      unfold replaceChars
      split_ifs
      · exact Or.inr (List.mem_append_left _ hnew)
      · rcases ih l with h | h
        · exact Or.inl (by rw [h])
        · exact Or.inr (List.mem_cons_of_mem _ h)

namespace Redactor

/-- a text that is not left alone has a marker in it -/
theorem redact_eq_or (r : Redactor) (text : String) :
    r.redact text = text ∨ '<' ∈ (r.redact text).toList := by
  have hmarker : '<' ∈ redactedMarker.toList := by decide
  unfold redact
  generalize sortedBy (fun v => -(v.length : Int)) r = values
  induction values using List.reverseRecOn with
  | nil => exact Or.inl rfl
  | append_singleton values v ih =>
    rw [List.foldl_append, List.foldl_cons, List.foldl_nil]
    generalize List.foldl _ text values = t at ih ⊢
    unfold replace
    rw [String.toList_ofList]
    rcases ih with rfl | ht
    · rcases replaceChars_eq_or v.toList hmarker t.toList.length t.toList with h | h
      · rw [h]
        exact Or.inl (String.ofList_toList)
      · exact Or.inr h
    · exact Or.inr (mem_replaceChars hmarker ht)

theorem redact_eq_iff {r : Redactor} {text plain : String} (hplain : '<' ∉ plain.toList) :
    r.redact text = plain ↔ text = plain ∧ r.redact plain = plain := by
  constructor
  · intro h
    rcases r.redact_eq_or text with heq | hmark
    · rw [heq] at h
      subst h
      exact ⟨rfl, heq⟩
    · rw [h] at hmark
      exact absurd hmark hplain
  · rintro ⟨rfl, h⟩
    exact h

end Redactor

theorem getItems_redactFields (r : Redactor) {name : String} (hplain : '<' ∉ name.toList)
    {items : Document} (hkeys : (items.map Prod.fst).Nodup) (done : Document) :
    Dict.getItems name (redactFields r done items) =
      if r.redact name = name then
        ((Dict.getItems name items).map fun v =>
          if secretKey name then .str redactedMarker else redactValue r v).or
          (Dict.getItems name done)
      else Dict.getItems name done := by
  induction items generalizing done with
  | nil =>
    rw [redactFields]
    split_ifs <;> rfl
  | cons p items ih =>
    obtain ⟨k, v⟩ := p
    rw [List.map_cons, List.nodup_cons] at hkeys
    rw [redactFields, ih hkeys.2, Dict.getItems_setItems]
    have hset : name = r.redact k ↔ k = name ∧ r.redact name = name := by
      rw [eq_comm]
      exact Redactor.redact_eq_iff hplain
    by_cases hfix : r.redact name = name
    · rw [if_pos hfix, if_pos hfix]
      by_cases hk : k = name
      · subst hk
        have hnone : Dict.getItems k items = none :=
          Option.eq_none_iff_forall_ne_some.2 fun w hw => hkeys.1
            (List.mem_map.2 ⟨(k, w), (Dict.getItems_eq_some hkeys.2).1 hw, rfl⟩)
        rw [hnone, if_pos hfix.symm]
        simp [Dict.getItems]
      · rw [if_neg fun h => hk (hset.1 h).1]
        simp [Dict.getItems, hk]
    · rw [if_neg hfix, if_neg hfix, if_neg fun h => hfix (hset.1 h).2]

/-! ## the writer -/

def ReplayRecord.toDict (r : ReplayRecord) : Document :=
  [("kind", .str r.kind.value), ("sequence", .int r.sequence), ("key", .str r.key),
   ("request", .dict r.request), ("response", r.response),
   ("generation_id", .ofOption r.generationId), ("run_id", .ofOption r.runId),
   ("created_at", .float r.createdAt)]

namespace ReplaySession

def toDict (s : ReplaySession) : Value :=
  .dict [("format_version", .int REPLAY_FORMAT_VERSION), ("mode", .str s.mode.value),
    ("fallback", .str s.fallback.value), ("metadata", redactValue s.redactor (.dict s.metadata)),
    ("records", .list (s.records.map fun r => redactValue s.redactor (.dict r.toDict)))]

/-- adopts a redactor, and scrubs what is held -/
def bindRedactor (s : ReplaySession) (redactor : Redactor) : ReplaySession :=
  { s with
    redactor := redactor
    metadata := redactFields redactor [] s.metadata
    records := s.records.map fun r =>
      { r with
        request := redactFields redactor [] r.request
        response := redactValue redactor r.response } }

end ReplaySession

/-! ## one record -/

/-- the redactor leaves alone what the reader takes a record apart by, and loses no payload -/
structure Kept (redactor : Redactor) (r : ReplayRecord) : Prop where
  kind : redactor.redact "kind" = "kind" ∧ redactor.redact r.kind.value = r.kind.value
  sequence : redactor.redact "sequence" = "sequence"
  key : redactor.redact "key" = "key" ∧ redactor.redact r.key = r.key
  request : redactor.redact "request" = "request" ∨ r.request = []
  response : redactor.redact "response" = "response" ∨ r.response = .none

/-- `r'` is the interaction `r`, redacted -/
structure SameInteraction (redactor : Redactor) (r r' : ReplayRecord) : Prop where
  kind : r'.kind = r.kind
  sequence : r'.sequence = r.sequence
  key : r'.key = r.key
  request : r'.request = redactFields redactor [] r.request
  response : r'.response = redactValue redactor r.response

/-- a record as it is written -/
def ReplayRecord.exported (redactor : Redactor) (r : ReplayRecord) : Document :=
  redactFields redactor [] r.toDict

section
variable {redactor : Redactor} {r : ReplayRecord}

variable (redactor r) in
/-- a field of a written record is its redacted value, or is not found -/
theorem get?_exported (name : String) {v : Value} (hv : Dict.getItems name r.toDict = some v)
    (hplain : '<' ∉ name.toList) (hname : secretKey name = false) :
    Document.get? (r.exported redactor) name =
      if redactor.redact name = name then some (redactValue redactor v) else none := by
  have hkeys : (r.toDict.map Prod.fst).Nodup := by
    show ["kind", "sequence", "key", "request", "response", "generation_id", "run_id",
      "created_at"].Nodup
    decide
  rw [Document.get?, ReplayRecord.exported, getItems_redactFields redactor hplain hkeys, hv, hname]
  simp only [Bool.false_eq_true, if_false]
  rfl

theorem BoundaryKind.of_redacted (redactor : Redactor) (kind : BoundaryKind) :
    BoundaryKind.of (.str (redactor.redact kind.value)) =
      if redactor.redact kind.value = kind.value then some kind else none := by
  rcases redactor.redact_eq_or kind.value with h | h
  · rw [h, if_pos rfl]
    cases kind <;> decide
  · generalize redactor.redact kind.value = text at h ⊢
    have hne : ∀ k : BoundaryKind, k.value ≠ text := fun k hk => by
      rw [← hk] at h
      revert h
      cases k <;> decide
    rw [if_neg fun heq => hne kind heq.symm]
    simp [BoundaryKind.of, memberOf, hne]

theorem redactFields_eq_nil {done items : Document} :
    redactFields redactor done items = [] ↔ done = [] ∧ items = [] := by
  induction items generalizing done with
  | nil => simp [redactFields]
  | cons p items ih =>
    rw [redactFields, ih]
    have hset : Dict.setItems (redactor.redact p.1)
        (if secretKey p.1 then .str redactedMarker else redactValue redactor p.2) done ≠ [] := by
      intro h
      have hget := Dict.getItems_setItems (redactor.redact p.1) (redactor.redact p.1)
        (if secretKey p.1 then .str redactedMarker else redactValue redactor p.2) done
      rw [h, if_pos rfl] at hget
      cases hget
    simp [hset]

theorem redactValue_eq_none {v : Value} : redactValue redactor v = .none ↔ v = .none := by
  cases v <;> simp [redactValue]

variable [Platform]

theorem record_fields {items : Document} {r' : ReplayRecord}
    (h : ReplayRecord.fromDict items = .ok r') :
    (items.get? "sequence").bind asInteger = some r'.sequence ∧
      (items.get? "key").bind asText = some r'.key ∧
      (items.get? "kind").bind BoundaryKind.of = some r'.kind ∧
      requestOf items = some r'.request ∧ r'.response = (items.get? "response").getD .none := by
  rw [fromDict_eq] at h
  obtain ⟨⟨_, createdAt⟩, hhead, h⟩ := bind_ok.1 h
  obtain ⟨q, -, h⟩ := bind_ok.1 h
  cases h
  unfold recordHead at hhead
  obtain ⟨sequence, hsequence, h⟩ := bind_ok.1 hhead
  obtain ⟨key, hkey, h⟩ := bind_ok.1 h
  obtain ⟨n, hn, h⟩ := bind_ok.1 h
  obtain ⟨t, ht, h⟩ := bind_ok.1 h
  obtain ⟨request, hrequest, h⟩ := bind_ok.1 h
  obtain ⟨generationId, -, h⟩ := bind_ok.1 h
  obtain ⟨runId, -, h⟩ := bind_ok.1 h
  obtain ⟨number, -, h⟩ := bind_ok.1 h
  obtain ⟨rawKind, hraw, h⟩ := bind_ok.1 h
  obtain ⟨kind, hkind, h⟩ := bind_ok.1 h
  cases h
  rw [required_ok] at hsequence hkey hraw
  rw [orFault_ok] at hn ht hrequest hkind
  rw [hsequence, hkey, hraw]
  exact ⟨hn, ht, hkind, hrequest, rfl⟩

variable (redactor r) in
/-- **A record is read back as it was**, redacted, exactly if it is kept. -/
theorem exported_iff : (∃ r', ReplayRecord.fromDict (r.exported redactor) = .ok r' ∧
    SameInteraction redactor r r') ↔ Kept redactor r := by
  have hkind := get?_exported redactor r "kind" rfl (by decide) (by decide)
  have hsequence := get?_exported redactor r "sequence" rfl (by decide) (by decide)
  have hkey := get?_exported redactor r "key" rfl (by decide) (by decide)
  have hrequest := get?_exported redactor r "request" rfl (by decide) (by decide)
  have hresponse := get?_exported redactor r "response" rfl (by decide) (by decide)
  have hof := BoundaryKind.of_redacted redactor r.kind
  simp only [redactValue] at hkind hsequence hkey hrequest
  constructor
  · rintro ⟨r', hread, hsame⟩
    obtain ⟨h₁, h₂, h₃, h₄, h₅⟩ := record_fields hread
    rw [hsame.sequence, hsequence] at h₁
    rw [hsame.key, hkey] at h₂
    rw [hsame.kind, hkind] at h₃
    rw [hsame.request, requestOf, hrequest] at h₄
    rw [hsame.response, hresponse] at h₅
    refine ⟨?_, ?_, ?_, ?_, ?_⟩
    · split_ifs at h₃ with hname
      · refine ⟨hname, ?_⟩
        by_contra hvalue
        rw [Option.bind_some, hof, if_neg hvalue] at h₃
        cases h₃
      · cases h₃
    · split_ifs at h₁ with hname
      · exact hname
      · cases h₁
    · split_ifs at h₂ with hname
      · exact ⟨hname, Option.some.inj h₂⟩
      · cases h₂
    · split_ifs at h₄ with hname
      · exact Or.inl hname
      · exact Or.inr (redactFields_eq_nil.1 (Option.some.inj h₄).symm).2
    · split_ifs at h₅ with hname
      · exact Or.inl hname
      · exact Or.inr (redactValue_eq_none.1 h₅)
  · intro h
    rw [if_pos h.kind.1, h.kind.2] at hkind
    rw [if_pos h.sequence] at hsequence
    rw [if_pos h.key.1, h.key.2] at hkey
    have hrequestOf : requestOf (r.exported redactor) =
        some (redactFields redactor [] r.request) := by
      rw [requestOf, hrequest]
      rcases h.request with hname | hempty
      · rw [if_pos hname]
        rfl
      · rw [hempty]
        split_ifs <;> rfl
    have hresponseOf : ((r.exported redactor).get? "response").getD .none =
        redactValue redactor r.response := by
      rw [hresponse]
      rcases h.response with hname | hempty
      · rw [if_pos hname]
        rfl
      · rw [hempty]
        split_ifs <;> rfl
    have hcreated := get?_exported redactor r "created_at" rfl (by decide) (by decide)
    have hoptional : ∀ name (t : Option String), Dict.getItems name r.toDict = some (.ofOption t) →
        '<' ∉ name.toList → secretKey name = false →
        OptionalFits (r.exported redactor) name asText := by
      intro name t hv hplain hname found hfound hsome
      rw [get?_exported redactor r name hv hplain hname] at hfound
      split_ifs at hfound
      cases hfound
      cases t with
      | none => exact absurd rfl hsome
      | some t => rfl
    have hfields : RecordFields (r.exported redactor) := {
      sequence := fits_iff.2 ⟨_, r.sequence, hsequence, rfl⟩
      key := fits_iff.2 ⟨_, r.key, hkey, rfl⟩
      request := requestOf_isSome.1 (by rw [hrequestOf]; rfl)
      generationId := hoptional "generation_id" r.generationId rfl (by decide) (by decide)
      runId := hoptional "run_id" r.runId rfl (by decide) (by decide)
      createdAt := by
        intro found hfound
        rw [hcreated] at hfound
        split_ifs at hfound
        cases hfound
        rfl
      kind := fits_iff.2 ⟨_, r.kind, hkind, by cases r.kind <;> decide⟩ }
    have hsmall : ¬ CreatedTooLarge (r.exported redactor) := by
      rintro ⟨n, hn⟩
      have hn := hn.1
      rw [hcreated] at hn
      split_ifs at hn
      cases hn
    obtain ⟨r', hread⟩ := record_ok.2 ⟨hfields, hsmall⟩
    obtain ⟨h₁, h₂, h₃, h₄, h₅⟩ := record_fields hread
    rw [hsequence] at h₁
    rw [hkey] at h₂
    rw [hkind] at h₃
    rw [hrequestOf] at h₄
    rw [hresponseOf] at h₅
    refine ⟨r', hread, ?_, ?_, ?_, ?_, h₅⟩
    · rw [Option.bind_some, ← h.kind.2, hof, if_pos h.kind.2] at h₃
      exact (Option.some.inj h₃).symm
    · exact (Option.some.inj h₁).symm
    · exact (Option.some.inj h₂).symm
    · exact (Option.some.inj h₄).symm

variable (redactor r) in
theorem readRecord_exported (index : Nat) :
    (∃ r', readRecord (redactValue redactor (.dict r.toDict)) index = .ok r' ∧
      SameInteraction redactor r r') ↔ Kept redactor r := by
  rw [← exported_iff]
  show (∃ r', readRecord (.dict (r.exported redactor)) index = .ok r' ∧ _) ↔ _
  unfold readRecord
  simp only
  rcases ReplayRecord.fromDict (r.exported redactor) with fault | read
  · refine iff_of_false ?_ fun ⟨_, h, _⟩ => nomatch h
    cases fault <;> exact fun ⟨_, h, _⟩ => nomatch h
  · simp only [Except.ok.injEq]

/-- the records are read back one by one -/
theorem records_exported (records : List ReplayRecord) (start : Nat) :
    (∃ read, ((records.map fun r => redactValue redactor (.dict r.toDict)).zipIdx start).mapM
        (fun e => readRecord e.1 e.2) = .ok read ∧
      List.Forall₂ (SameInteraction redactor) records read) ↔ ∀ r ∈ records, Kept redactor r := by
  induction records generalizing start with
  | nil => exact iff_of_true ⟨[], rfl, .nil⟩ fun _ h => (nomatch h)
  | cons r records ih =>
    rw [List.map_cons, List.zipIdx_cons, List.mapM_cons, List.forall_mem_cons,
      ← readRecord_exported redactor r start, ← ih (start + 1)]
    constructor
    · rintro ⟨_, h, hsame⟩
      obtain ⟨r', hr, h⟩ := bind_ok.1 h
      obtain ⟨read, hread, h⟩ := bind_ok.1 h
      cases h
      obtain ⟨hfirst, hrest⟩ := List.forall₂_cons.1 hsame
      exact ⟨⟨r', hr, hfirst⟩, read, hread, hrest⟩
    · rintro ⟨⟨r', hr, hfirst⟩, read, hread, hrest⟩
      exact ⟨r' :: read, bind_ok.2 ⟨r', hr, bind_ok.2 ⟨read, hread, rfl⟩⟩, .cons hfirst hrest⟩

end

/-! ## a session -/

namespace ReplaySession

/-- what replays of these boundaries return, one after another -/
def replays (s : ReplaySession) : List (BoundaryKind × String) → List (Option ReplayRecord)
  | [] => []
  | (kind, key) :: calls =>
    (s.replay kind key).1.toOption :: (s.replay kind key).2.replays calls

/-- replay of what is recorded, from its beginning -/
def restarted (s : ReplaySession) : ReplaySession :=
  { s with mode := .replay, cursor := Dict.empty }

end ReplaySession

section
variable {redactor : Redactor} {s s' : ReplaySession}

theorem matching_same (h : List.Forall₂ (SameInteraction redactor) s.records s'.records)
    (kind : BoundaryKind) (key : String) :
    List.Forall₂ (SameInteraction redactor) (s.matching kind key) (s'.matching kind key) := by
  unfold ReplaySession.matching
  generalize s.records = records at h ⊢
  generalize s'.records = read at h ⊢
  induction h with
  | nil => exact .nil
  | @cons r r' records read hr _ ih =>
    rw [List.filter_cons, List.filter_cons, hr.kind, hr.key]
    split_ifs
    · exact .cons hr ih
    · exact ih

theorem forall₂_getElem? {α β : Type} {R : α → β → Prop} {l : List α} {l' : List β}
    (h : List.Forall₂ R l l') (n : Nat) : Option.Rel R l[n]? l'[n]? := by
  induction h generalizing n with
  | nil => exact .none
  | cons hr _ ih =>
    cases n with
    | zero => exact .some hr
    | succ n => exact ih n

theorem replay_same (hrecords : List.Forall₂ (SameInteraction redactor) s.records s'.records)
    (hcursor : s.cursor = s'.cursor) (kind : BoundaryKind) (key : String) :
    Option.Rel (SameInteraction redactor) (s.replay kind key).1.toOption
        (s'.replay kind key).1.toOption ∧
      List.Forall₂ (SameInteraction redactor) (s.replay kind key).2.records
        (s'.replay kind key).2.records ∧
      (s.replay kind key).2.cursor = (s'.replay kind key).2.cursor := by
  have hconsumed : s.consumed kind key = s'.consumed kind key := by
    unfold ReplaySession.consumed
    rw [hcursor]
  have hnext := forall₂_getElem? (matching_same hrecords kind key) (s.consumed kind key)
  simp only [ReplaySession.replay, ← hconsumed]
  rcases hfound : (s.matching kind key)[s.consumed kind key]? with _ | r
  · rcases hfound' : (s'.matching kind key)[s.consumed kind key]? with _ | r'
    · exact ⟨.none, hrecords, hcursor⟩
    · rw [hfound, hfound'] at hnext
      cases hnext
  · rcases hfound' : (s'.matching kind key)[s.consumed kind key]? with _ | r'
    · rw [hfound, hfound'] at hnext
      cases hnext
    · rw [hfound, hfound'] at hnext
      exact ⟨hnext, hrecords, by rw [hcursor]⟩

/-- they answer the same boundaries in the same order -/
theorem replays_same (hrecords : List.Forall₂ (SameInteraction redactor) s.records s'.records)
    (hcursor : s.cursor = s'.cursor) (calls : List (BoundaryKind × String)) :
    List.Forall₂ (Option.Rel (SameInteraction redactor)) (s.replays calls) (s'.replays calls) := by
  induction calls generalizing s s' with
  | nil => exact .nil
  | cons c calls ih =>
    obtain ⟨hnext, hrecords, hcursor⟩ := replay_same hrecords hcursor c.1 c.2
    exact .cons hnext (ih hrecords hcursor)

end

/-- `s'` is what `s` recorded, redacted -/
structure Survives (s s' : ReplaySession) : Prop where
  mode : s'.mode = s.mode
  fallback : s'.fallback = s.fallback
  records : List.Forall₂ (SameInteraction s.redactor) s.records s'.records
  answers : ∀ calls, List.Forall₂ (Option.Rel (SameInteraction s.redactor))
    (s.restarted.replays calls) (s'.restarted.replays calls)

section
variable [Platform]

theorem sessionHead_toDict (s : ReplaySession) (records : List Value) :
    sessionHead [("format_version", .int 1), ("mode", .str s.mode.value),
      ("fallback", .str s.fallback.value), ("metadata", redactValue s.redactor (.dict s.metadata)),
      ("records", .list records)] =
      .ok ({
        mode := s.mode
        fallback := s.fallback
        metadata := redactFields s.redactor [] s.metadata }, records) := by
  obtain ⟨mode, fallback, redactor, metadata, held, cursor⟩ := s
  cases mode <;> cases fallback <;> rfl

theorem session_toDict (s : ReplaySession) : ReplaySession.fromDict s.toDict = (do
    let records ← (s.records.map fun r => redactValue s.redactor (.dict r.toDict)).zipIdx.mapM
      fun e => readRecord e.1 e.2
    return {
      mode := s.mode
      fallback := s.fallback
      metadata := redactFields s.redactor [] s.metadata
      records := records }) := by
  unfold ReplaySession.toDict
  rw [session_eq]
  have hmigrated : ∀ document : Document,
      document.get? "format_version" = some (.int 1) →
      Dict.setItems "format_version" (.int 1) document = document →
      migratePayload document "replay" 1 replayMigrations = .ok document :=
    fun document hversion hset => migrate_replay.2 ⟨Or.inr hversion, hset.symm⟩
  refine Eq.trans (bind_congr_both (hmigrated _ rfl rfl) fun _ => rfl) ?_
  exact bind_congr_both (sessionHead_toDict s _) fun _ => rfl

/-- **A recording survives its export**, exactly if the redactor keeps all its records: every record
is read back, redacted, in its place, and replay answers the recorded boundaries in their order. -/
theorem export_survives_iff (s : ReplaySession) :
    (∃ s', ReplaySession.fromDict s.toDict = .ok s' ∧ Survives s s') ↔
      ∀ r ∈ s.records, Kept s.redactor r := by
  rw [← records_exported s.records 0, session_toDict]
  constructor
  · rintro ⟨s', h, hsurvives⟩
    obtain ⟨read, hread, h⟩ := bind_ok.1 h
    cases h
    exact ⟨read, hread, hsurvives.records⟩
  · rintro ⟨read, hread, hrecords⟩
    refine ⟨_, bind_ok.2 ⟨read, hread, rfl⟩, rfl, rfl, hrecords, fun calls => ?_⟩
    apply replays_same
    · exact hrecords
    · rfl

end

/-! ### a recording of a tool, where "tool" is secret -/

section
open Plain

/-- one call of a tool is recorded, and then the session is attached to a harness that knows the
secret -/
def toolRecording : ReplaySession :=
  (({ mode := .record } : ReplaySession).record 0 .tool "3f2a" [("x", .int 1)] (.int 2) none
    none).2.bindRedactor ["tool"]

/-- What is written of it is rejected. -/
theorem tool_recording_lost : ¬ ∃ s', ReplaySession.fromDict toolRecording.toDict = .ok s' ∧
    Survives toolRecording s' := by
  rintro ⟨s', h, -⟩
  have hraised : raised? (ReplaySession.fromDict toolRecording.toDict) =
      some (corrupt "record 0 is malformed ('<redacted>' is not a valid BoundaryKind)") := by
    decide +kernel
  rw [h] at hraised
  cases hraised

end

end Chassis
