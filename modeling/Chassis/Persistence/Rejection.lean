import Chassis.Capabilities.Plain
import Chassis.Lib.Escape
import Chassis.Persistence.Snapshots
import Chassis.Replay.Session

/-!
# What the readers of documents raise

Both readers are to raise a `FormatError` for whatever they do not read.

* `migrate_escapes`     what escapes the migration of a document;
* `head_ok_iff`         the fields of a snapshot that come before its time of creation;
* `SnapshotLegible`, `ReplayLegible`   the documents of which nothing else escapes;
* `decoders_reject_iff`   these, and no others.
-/

set_option linter.unusedSectionVars false

namespace Chassis
open Py

/-- a failure that is meant -/
def Meant (e : Err) : Prop := e.kind = .FormatError

theorem not_escapes_meant {α : Type} {e : Err} (h : Meant e) :
    ¬ Escapes Meant (.error e : Except Err α) := fun hescapes => escapes_error.1 hescapes h

/-! ## versions -/

/-- a version that is too new can be written into the message -/
def Textable (payload : Document) (supported : Nat) : Prop :=
  ∀ n, payload.get? "format_version" = some (.int n) → (supported : Int) < n → hasText n = true

/-- no version is declared, or version 0 -/
def Unversioned (payload : Document) : Prop :=
  payload.get? "format_version" = none ∨ payload.get? "format_version" = some (.int 0)

/-- a version that can be read is declared, or none -/
def KnownVersion (payload : Document) : Prop :=
  Unversioned payload ∨ payload.get? "format_version" = some (.int 1)

section
variable [Platform] {payload document : Document} {format : String}

theorem declared_escapes {supported : Nat} :
    Escapes Meant (declaredFormatVersion payload format supported) ↔ ¬ Textable payload supported := by
  unfold declaredFormatVersion Textable
  rcases payload.get? "format_version" with _ | found
  · exact iff_of_false escapes_ok fun h => h fun _ h => (nomatch h)
  · cases found with
    | int n =>
      simp only
      split
      · rename_i hneg
        refine iff_of_false (not_escapes_meant rfl) fun h => h ?_
        intro m hm hlt
        cases hm
        omega
      · split
        · rename_i hfuture
          split
          · rename_i htext
            refine iff_of_true (escapes_error.2 fun h => nomatch h) fun h => ?_
            rw [h n rfl hfuture] at htext
            cases htext
          · rename_i htext
            refine iff_of_false (not_escapes_meant rfl) fun h => h ?_
            intro m hm _
            cases hm
            simpa using htext
        · rename_i hold
          refine iff_of_false escapes_ok fun h => h ?_
          intro m hm hlt
          cases hm
          exact absurd hlt hold
    | _ =>
      simp only
      exact iff_of_false (not_escapes_meant rfl) fun h => h fun _ h => (nomatch h)

theorem declared_ok {version : Nat} :
    declaredFormatVersion payload format 1 = .ok version ↔
      version = 0 ∧ Unversioned payload ∨
      version = 1 ∧ payload.get? "format_version" = some (.int 1) := by
  unfold declaredFormatVersion Unversioned
  rcases payload.get? "format_version" with _ | found
  · simp [eq_comm]
  · cases found with
    | int n =>
      simp only
      split
      · simp
        omega
      · split
        · split
          · simp
            omega
          · simp
            omega
        · simp
          omega
    | _ => simp

section
variable {migrations : Nat → Option (Document → Except Err Document)}
  {step : Document → Except Err Document} (hstep : migrations 0 = some step)
include hstep

theorem migrateFrom_one : migrateFrom format 1 migrations 1 payload = step payload := by
  rw [migrateFrom, show 1 - (0 + 1) = 0 from rfl]
  simp only [hstep]
  show (step payload >>= Except.ok) = step payload
  rcases step payload with e | d
  · rfl
  · rfl

theorem migrate_ok : migratePayload payload format 1 migrations = .ok document ↔
    (∃ migrated, Unversioned payload ∧ step payload = .ok migrated ∧
      document = Dict.setItems "format_version" (.int 1) migrated) ∨
    payload.get? "format_version" = some (.int 1) ∧
      document = Dict.setItems "format_version" (.int 1) payload := by
  unfold migratePayload
  constructor
  · intro h
    obtain ⟨version, hversion, h⟩ := bind_ok.1 h
    obtain ⟨migrated, hmigrated, h⟩ := bind_ok.1 h
    cases h
    rcases declared_ok.1 hversion with ⟨rfl, hold⟩ | ⟨rfl, hcurrent⟩
    · exact Or.inl ⟨migrated, hold, (migrateFrom_one hstep).symm.trans hmigrated, rfl⟩
    · cases hmigrated
      exact Or.inr ⟨hcurrent, rfl⟩
  · rintro (⟨migrated, hold, hmigrated, rfl⟩ | ⟨hcurrent, rfl⟩)
    · refine bind_ok.2 ⟨0, declared_ok.2 (Or.inl ⟨rfl, hold⟩), bind_ok.2 ⟨migrated, ?_, rfl⟩⟩
      exact (migrateFrom_one hstep).trans hmigrated
    · exact bind_ok.2 ⟨1, declared_ok.2 (Or.inr ⟨rfl, hcurrent⟩), bind_ok.2 ⟨payload, rfl, rfl⟩⟩

/-- **What escapes the migration**: a version without a text, or what escapes its step. -/
theorem migrate_escapes : Escapes Meant (migratePayload payload format 1 migrations) ↔
    ¬ Textable payload 1 ∨ Unversioned payload ∧ Escapes Meant (step payload) := by
  unfold migratePayload
  rw [escapes_bind, declared_escapes]
  refine or_congr_right ?_
  constructor
  · rintro ⟨version, hversion, h⟩
    rcases declared_ok.1 hversion with ⟨rfl, hold⟩ | ⟨rfl, hcurrent⟩
    · refine ⟨hold, ?_⟩
      rcases escapes_bind.1 h with h | ⟨_, _, h⟩
      · exact migrateFrom_one hstep ▸ h
      · exact absurd h escapes_ok
    · rcases escapes_bind.1 h with h | ⟨_, _, h⟩
      · exact absurd h escapes_ok
      · exact absurd h escapes_ok
  · rintro ⟨hold, h⟩
    refine ⟨0, declared_ok.2 (Or.inl ⟨rfl, hold⟩), escapes_bind.2 (Or.inl ?_)⟩
    show Escapes Meant (migrateFrom format 1 migrations 1 payload)
    rw [migrateFrom_one hstep]
    exact h

end

end

/-! ## scopes that are recovered -/

/-- `list(value or [])` is a list -/
def Iterable : Value → Bool
  | .bool true => false
  | .int n => n = 0
  | .float q => q = 0
  | .object _ _ => false
  | _ => true

def iteratedFields : List String := ["children", "entries", "visible_tools", "selections"]

/-- the lists of the recorded scopes can be copied -/
def ScopesIterable (payload : Document) : Prop :=
  ∀ scope ∈ mappings (((recordedScopes payload).get? "scopes").getD .none),
    ∀ key ∈ iteratedFields, Iterable ((scope.get? key).getD .none) = true

theorem listOr_cases (v : Value) : (Iterable v = true ∧ ∃ l, listOr v = .ok l) ∨
    Iterable v = false ∧ ∃ e, listOr v = .error e ∧ ¬ Meant e := by
  have hother : ∀ message : String, ¬ Meant { kind := .Other, message := message } :=
    fun _ h => nomatch h
  cases v with
  | none => exact Or.inl ⟨rfl, _, rfl⟩
  | bool b =>
    cases b with
    | true => exact Or.inr ⟨rfl, _, rfl, hother _⟩
    | false => exact Or.inl ⟨rfl, _, rfl⟩
  | int n =>
    by_cases hn : n = 0
    · exact Or.inl ⟨decide_eq_true hn, _, if_pos hn⟩
    · exact Or.inr ⟨decide_eq_false hn, _, if_neg hn, hother _⟩
  | float q =>
    by_cases hq : q = 0
    · exact Or.inl ⟨decide_eq_true hq, _, if_pos hq⟩
    · exact Or.inr ⟨decide_eq_false hq, _, if_neg hq, hother _⟩
  | str t => exact Or.inl ⟨rfl, _, rfl⟩
  | list l => exact Or.inl ⟨rfl, _, rfl⟩
  | dict items => exact Or.inl ⟨rfl, _, rfl⟩
  | object typeName id => exact Or.inr ⟨rfl, _, rfl, hother _⟩

/-- it fails only as it is not meant to, and succeeds where `P` holds -/
structure Unguarded {α : Type} (x : Except Err α) (P : Prop) : Prop where
  fails : ∀ e, x = .error e → ¬ Meant e
  succeeds : (∃ a, x = .ok a) ↔ P

namespace Unguarded
variable {α β : Type} {P : Prop}

theorem escapes {x : Except Err α} (h : Unguarded x P) : Escapes Meant x ↔ ¬ P := by
  rw [← h.succeeds]
  cases x with
  | error e => exact iff_of_true (escapes_error.2 (h.fails e rfl)) fun ⟨_, ha⟩ => nomatch ha
  | ok a => exact iff_of_false escapes_ok fun hno => hno ⟨a, rfl⟩

theorem done {a : α} : Unguarded (.ok a) True :=
  ⟨fun _ h => (nomatch h), iff_of_true ⟨a, rfl⟩ trivial⟩

theorem copy {v : Value} {f : List Value → Except Err α} (hf : ∀ l, Unguarded (f l) P) :
    Unguarded (listOr v >>= f) (Iterable v = true ∧ P) := by
  rcases listOr_cases v with ⟨hv, l, hl⟩ | ⟨hv, e, he, hmeant⟩
  · rw [hl, hv]
    exact ⟨(hf l).fails, (hf l).succeeds.trans (by simp)⟩
  · rw [he, hv]
    refine ⟨fun e' he' => ?_, iff_of_false (fun ⟨_, h⟩ => nomatch h) (by simp)⟩
    cases he'
    exact hmeant

theorem bind {x : Except Err α} {f : α → Except Err β} (hx : Unguarded x P)
    (hf : ∀ a, ∃ b, f a = .ok b) : Unguarded (x >>= f) P := by
  cases x with
  | error e =>
    refine ⟨fun e' he' => ?_, (iff_of_false ?_ ?_)⟩
    · cases he'
      exact hx.fails e rfl
    · exact fun ⟨_, h⟩ => nomatch h
    · exact fun hp => nomatch (hx.succeeds.2 hp).choose_spec
  | ok a =>
    obtain ⟨b, hb⟩ := hf a
    show Unguarded (f a) P
    rw [hb]
    exact ⟨fun _ h => (nomatch h), iff_of_true ⟨b, rfl⟩ (hx.succeeds.1 ⟨a, rfl⟩)⟩

theorem mapM {f : α → Except Err β} {Q : α → Prop} (hf : ∀ a, Unguarded (f a) (Q a)) (l : List α) :
    Unguarded (l.mapM f) (∀ a ∈ l, Q a) := by
  induction l with
  | nil => exact ⟨fun _ h => (nomatch h), iff_of_true ⟨[], rfl⟩ fun _ h => (nomatch h)⟩
  | cons a l ih =>
    rw [List.mapM_cons, List.forall_mem_cons]
    rcases hfa : f a with e | b
    · refine ⟨fun e' he' => ?_, iff_of_false (fun ⟨_, h⟩ => nomatch h) fun h => ?_⟩
      · cases he'
        exact (hf a).fails e hfa
      · obtain ⟨b, hb⟩ := (hf a).succeeds.2 h.1
        rw [hfa] at hb
        cases hb
    · have hrest : Unguarded ((.ok b : Except Err β) >>= fun b => do
          return b :: (← l.mapM f)) (∀ a ∈ l, Q a) := ih.bind fun bs => ⟨b :: bs, rfl⟩
      have hq : Q a := (hf a).succeeds.1 ⟨b, hfa⟩
      exact ⟨hrest.fails, hrest.succeeds.trans ⟨fun h => ⟨hq, h⟩, And.right⟩⟩

end Unguarded

theorem reconstructedScope_unguarded (scope : Document) : Unguarded (reconstructedScope scope)
    (∀ key ∈ iteratedFields, Iterable ((scope.get? key).getD .none) = true) := by
  have hall : Unguarded (reconstructedScope scope)
      (Iterable ((scope.get? "children").getD .none) = true ∧
        Iterable ((scope.get? "entries").getD .none) = true ∧
        Iterable ((scope.get? "visible_tools").getD .none) = true ∧
        Iterable ((scope.get? "selections").getD .none) = true ∧ True) :=
    .copy fun _ => .copy fun _ => .copy fun _ => .copy fun _ => .done
  refine ⟨hall.fails, hall.succeeds.trans ?_⟩
  simp [iteratedFields]

theorem migrateSnapshotV0_unguarded (payload : Document) :
    Unguarded (migrateSnapshotV0 payload) (ScopesIterable payload) := by
  refine .bind ?_ fun _ => ⟨_, rfl⟩
  exact .bind (.mapM reconstructedScope_unguarded _) fun _ => ⟨_, rfl⟩

/-! ## the reader of snapshots -/

section
variable {α : Type} {document : Document} {key : String} {read : Value → Option α}

/-- there is such a field, and it can be read -/
def FieldFits (document : Document) (key : String) (read : Value → Option α) : Prop :=
  ((document.get? key).bind read).isSome

/-- the field is missing or `None`, or it can be read -/
def OptionalFits (document : Document) (key : String) (read : Value → Option α) : Prop :=
  ∀ found, document.get? key = some found → found ≠ .none → (read found).isSome

theorem field_ok_iff {a : α} : field document key read = .ok a ↔
    (document.get? key).bind read = some a := by
  unfold field
  rcases document.get? key with _ | found
  · simp
  · simp only [Option.bind_some]
    rcases read found with _ | b
    · simp
    · simp

theorem field_ok_of (h : FieldFits document key read) : ∃ a, field document key read = .ok a := by
  obtain ⟨a, ha⟩ := Option.isSome_iff_exists.1 h
  exact ⟨a, field_ok_iff.2 ha⟩

theorem fits_of_ok {a : α} (h : field document key read = .ok a) : FieldFits document key read :=
  Option.isSome_iff_exists.2 ⟨a, field_ok_iff.1 h⟩

theorem optionalField_ok_iff : (∃ a, optionalField document key read = .ok a) ↔
    OptionalFits document key read := by
  unfold OptionalFits
  rcases hget : document.get? key with _ | found
  · refine iff_of_true ⟨none, ?_⟩ fun _ h => (nomatch h)
    unfold optionalField
    rw [hget]
  · by_cases hnone : found = .none
    · subst hnone
      refine iff_of_true ⟨none, ?_⟩ fun v hv hne => absurd (Option.some.inj hv).symm hne
      unfold optionalField
      rw [hget]
    · rw [optionalField_found read hget hnone]
      rcases hread : read found with _ | a
      · refine iff_of_false (fun ⟨_, h⟩ => nomatch h) fun h => ?_
        have hsome := h found rfl hnone
        rw [hread] at hsome
        cases hsome
      · refine iff_of_true ⟨some a, rfl⟩ fun v hv _ => ?_
        cases hv
        rw [hread]
        rfl

theorem wellFormed_ok_iff {found : Option α} {detail : String} {a : α} :
    wellFormed found detail = .ok a ↔ found = some a := by
  cases found with
  | none => exact iff_of_false (fun h => nomatch h) fun h => nomatch h
  | some b => simp [wellFormed]

theorem field_not_escapes : ¬ Escapes Meant (field document key read) := by
  unfold field
  rcases document.get? key with _ | found
  · exact not_escapes_meant rfl
  · simp only
    rcases read found with _ | b
    · exact not_escapes_meant rfl
    · exact escapes_ok

theorem optionalField_not_escapes : ¬ Escapes Meant (optionalField document key read) := by
  unfold optionalField
  rcases document.get? key with _ | found
  · exact escapes_ok
  · cases found with
    | none => exact escapes_ok
    | _ =>
      simp only
      split
      · exact escapes_ok
      · exact not_escapes_meant rfl

theorem wellFormed_not_escapes {found : Option α} {detail : String} :
    ¬ Escapes Meant (wellFormed found detail) := by
  cases found with
  | none => exact not_escapes_meant rfl
  | some a => exact escapes_ok

end

theorem pluginEntriesOf_not_escapes {document : Document} :
    ¬ Escapes Meant (pluginEntriesOf document) := by
  unfold pluginEntriesOf
  split
  · exact escapes_ok
  · exact not_escapes_meant rfl
  · split
    · exact not_escapes_meant rfl
    · split
      · exact escapes_ok
      · exact not_escapes_meant rfl

/-- the entries of plugins are missing, or they are entries with ids of their own -/
def EntriesFit (document : Document) : Prop :=
  ∀ found, document.get? "plugin_entries" = some found →
    ∃ entries, ((asList found).bind fun l => l.mapM pluginEntry) = some entries ∧
      (entries.map fun entry => entry.get? "entry_id").Nodup

theorem pluginEntriesOf_ok_iff {document : Document} :
    (∃ entries, pluginEntriesOf document = .ok entries) ↔ EntriesFit document := by
  unfold EntriesFit
  rcases hget : document.get? "plugin_entries" with _ | found
  · refine iff_of_true ⟨none, ?_⟩ fun _ h => (by cases h)
    unfold pluginEntriesOf
    rw [hget]
  · by_cases hnone : found = .none
    · subst hnone
      refine iff_of_false ?_ fun h => ?_
      · unfold pluginEntriesOf
        rw [hget]
        rintro ⟨_, h⟩
        cases h
      · obtain ⟨entries, hentries, -⟩ := h .none rfl
        cases hentries
    · rw [pluginEntriesOf_found hget hnone]
      rcases hread : (asList found).bind fun l => l.mapM pluginEntry with _ | entries
      · refine iff_of_false (by rintro ⟨_, h⟩; cases h) fun h => ?_
        obtain ⟨entries, hentries, -⟩ := h found rfl
        rw [hread] at hentries
        cases hentries
      · simp only
        split
        · rename_i hids
          refine iff_of_true ⟨some entries, rfl⟩ fun v hv => ?_
          cases hv
          exact ⟨entries, hread, hids⟩
        · rename_i hids
          refine iff_of_false (by rintro ⟨_, h⟩; cases h) fun h => ?_
          obtain ⟨entries', hentries', hids'⟩ := h found rfl
          rw [hread] at hentries'
          cases hentries'
          exact hids hids'

/-- the fields of a document that are read before its time of creation is converted -/
structure HeadFits (document : Document) : Prop where
  plugins : FieldFits document "plugins" fun v => (asMapping v).bind textMapping
  entries : EntriesFit document
  capabilities : FieldFits document "capabilities" fun v => (asMapping v).bind textListMapping
  metadata : OptionalFits document "metadata" asMapping
  createdAt : OptionalFits document "created_at" asNumber
  sequence : FieldFits document "sequence" asInteger
  texts : ∀ key ∈ ["chassis_version", "generation_id", "agent_runtime", "config_hash",
    "plugin_graph_hash", "tool_schema_hash"], FieldFits document key asText
  optionalTexts : ∀ key ∈ ["graph_definition_hash", "prompt_hash", "agent", "agent_revision"],
    OptionalFits document key asText

theorem fits_mapping {α : Type} {document : Document} {key : String} {read : Document → Option α} :
    FieldFits document key (fun v => (asMapping v).bind read) ↔
      ∃ items a, field document key asMapping = .ok items ∧ read items = some a := by
  unfold FieldFits
  rw [← Option.bind_assoc, Option.isSome_iff_exists]
  constructor
  · rintro ⟨a, ha⟩
    obtain ⟨items, hitems, hread⟩ := Option.bind_eq_some_iff.1 ha
    exact ⟨items, a, field_ok_iff.2 hitems, hread⟩
  · rintro ⟨items, a, hitems, hread⟩
    exact ⟨a, Option.bind_eq_some_iff.2 ⟨items, field_ok_iff.1 hitems, hread⟩⟩

/-- **The head of a document** is read iff its fields fit. -/
theorem head_ok_iff {document : Document} {createdAt : Option (Int ⊕ Rat)} :
    (∃ s, RuntimeSnapshot.head document = .ok (s, createdAt)) ↔
      HeadFits document ∧ optionalField document "created_at" asNumber = .ok createdAt := by
  unfold RuntimeSnapshot.head
  constructor
  · rintro ⟨s, h⟩
    obtain ⟨plugins, hplugins, h⟩ := bind_ok.1 h
    obtain ⟨entries, hentries, h⟩ := bind_ok.1 h
    obtain ⟨capabilities, hcapabilities, h⟩ := bind_ok.1 h
    obtain ⟨metadata, hmetadata, h⟩ := bind_ok.1 h
    obtain ⟨names, hnames, h⟩ := bind_ok.1 h
    obtain ⟨versions, hversions, h⟩ := bind_ok.1 h
    obtain ⟨created, hcreated, h⟩ := bind_ok.1 h
    obtain ⟨sequence, hsequence, h⟩ := bind_ok.1 h
    obtain ⟨_, h₁, h⟩ := bind_ok.1 h
    obtain ⟨_, h₂, h⟩ := bind_ok.1 h
    obtain ⟨_, h₃, h⟩ := bind_ok.1 h
    obtain ⟨_, h₄, h⟩ := bind_ok.1 h
    obtain ⟨_, h₅, h⟩ := bind_ok.1 h
    obtain ⟨_, h₆, h⟩ := bind_ok.1 h
    obtain ⟨_, h₇, h⟩ := bind_ok.1 h
    obtain ⟨_, h₈, h⟩ := bind_ok.1 h
    obtain ⟨_, h₉, h⟩ := bind_ok.1 h
    obtain ⟨_, h₁₀, h⟩ := bind_ok.1 h
    cases h
    refine ⟨⟨?_, ?_, ?_, ?_, ?_, ?_, ?_, ?_⟩, hcreated⟩
    · exact fits_mapping.2 ⟨plugins, names, hplugins, wellFormed_ok_iff.1 hnames⟩
    · exact pluginEntriesOf_ok_iff.1 ⟨entries, hentries⟩
    · exact fits_mapping.2 ⟨capabilities, versions, hcapabilities, wellFormed_ok_iff.1 hversions⟩
    · exact optionalField_ok_iff.1 ⟨metadata, hmetadata⟩
    · exact optionalField_ok_iff.1 ⟨_, hcreated⟩
    · exact fits_of_ok hsequence
    · simp only [List.forall_mem_cons]
      exact ⟨fits_of_ok h₁, fits_of_ok h₂, fits_of_ok h₃, fits_of_ok h₄, fits_of_ok h₅,
        fits_of_ok h₆, fun _ h => (nomatch h)⟩
    · simp only [List.forall_mem_cons]
      exact ⟨optionalField_ok_iff.1 ⟨_, h₇⟩, optionalField_ok_iff.1 ⟨_, h₈⟩,
        optionalField_ok_iff.1 ⟨_, h₉⟩, optionalField_ok_iff.1 ⟨_, h₁₀⟩, fun _ h => (nomatch h)⟩
  · rintro ⟨hfits, hcreated⟩
    obtain ⟨plugins, names, hplugins, hnames⟩ := fits_mapping.1 hfits.plugins
    obtain ⟨entries, hentries⟩ := pluginEntriesOf_ok_iff.2 hfits.entries
    obtain ⟨capabilities, versions, hcapabilities, hversions⟩ := fits_mapping.1 hfits.capabilities
    obtain ⟨metadata, hmetadata⟩ := optionalField_ok_iff.2 hfits.metadata
    obtain ⟨sequence, hsequence⟩ := field_ok_of hfits.sequence
    have htexts := hfits.texts
    have hoptional := hfits.optionalTexts
    simp only [List.forall_mem_cons] at htexts hoptional
    obtain ⟨_, h₁⟩ := field_ok_of htexts.1
    obtain ⟨_, h₂⟩ := field_ok_of htexts.2.1
    obtain ⟨_, h₃⟩ := field_ok_of htexts.2.2.1
    obtain ⟨_, h₄⟩ := field_ok_of htexts.2.2.2.1
    obtain ⟨_, h₅⟩ := field_ok_of htexts.2.2.2.2.1
    obtain ⟨_, h₆⟩ := field_ok_of htexts.2.2.2.2.2.1
    obtain ⟨_, h₇⟩ := optionalField_ok_iff.2 hoptional.1
    obtain ⟨_, h₈⟩ := optionalField_ok_iff.2 hoptional.2.1
    obtain ⟨_, h₉⟩ := optionalField_ok_iff.2 hoptional.2.2.1
    obtain ⟨_, h₁₀⟩ := optionalField_ok_iff.2 hoptional.2.2.2.1
    apply Exists.intro
    refine bind_ok.2 ⟨_, hplugins, ?_⟩
    refine bind_ok.2 ⟨_, hentries, ?_⟩
    refine bind_ok.2 ⟨_, hcapabilities, ?_⟩
    refine bind_ok.2 ⟨_, hmetadata, ?_⟩
    refine bind_ok.2 ⟨_, wellFormed_ok_iff.2 hnames, ?_⟩
    refine bind_ok.2 ⟨_, wellFormed_ok_iff.2 hversions, ?_⟩
    refine bind_ok.2 ⟨_, hcreated, ?_⟩
    refine bind_ok.2 ⟨_, hsequence, ?_⟩
    refine bind_ok.2 ⟨_, h₁, ?_⟩
    refine bind_ok.2 ⟨_, h₂, ?_⟩
    refine bind_ok.2 ⟨_, h₃, ?_⟩
    refine bind_ok.2 ⟨_, h₄, ?_⟩
    refine bind_ok.2 ⟨_, h₅, ?_⟩
    refine bind_ok.2 ⟨_, h₆, ?_⟩
    refine bind_ok.2 ⟨_, h₇, ?_⟩
    refine bind_ok.2 ⟨_, h₈, ?_⟩
    refine bind_ok.2 ⟨_, h₉, ?_⟩
    exact bind_ok.2 ⟨_, h₁₀, rfl⟩

theorem head_not_escapes {document : Document} :
    ¬ Escapes Meant (RuntimeSnapshot.head document) := by
  refine not_escapes_bind field_not_escapes fun _ => ?_
  refine not_escapes_bind pluginEntriesOf_not_escapes fun _ => ?_
  refine not_escapes_bind field_not_escapes fun _ => ?_
  refine not_escapes_bind optionalField_not_escapes fun _ => ?_
  refine not_escapes_bind wellFormed_not_escapes fun _ => ?_
  refine not_escapes_bind wellFormed_not_escapes fun _ => ?_
  refine not_escapes_bind optionalField_not_escapes fun _ => ?_
  refine not_escapes_bind field_not_escapes fun _ => ?_
  iterate 6 refine not_escapes_bind field_not_escapes fun _ => ?_
  iterate 4 refine not_escapes_bind optionalField_not_escapes fun _ => ?_
  exact escapes_ok

/-- an integer that no float can stand for -/
def TooLarge (n : Int) : Prop := 2 ^ 1024 - 2 ^ 970 ≤ n.natAbs

theorem floatOfInt_none {n : Int} : floatOfInt n = none ↔ TooLarge n := by
  unfold floatOfInt TooLarge
  generalize 2 ^ 1024 - 2 ^ 970 = bound
  split
  · rename_i h
    exact iff_of_false (fun h => nomatch h) (not_le.2 h)
  · rename_i h
    exact iff_of_true rfl (not_lt.1 h)

/-- the time of creation is such an integer -/
def CreatedTooLarge (document : Document) : Prop :=
  ∃ n, document.get? "created_at" = some (.int n) ∧ TooLarge n

theorem createdAtOf_escapes {document : Document} :
    (∃ createdAt, optionalField document "created_at" asNumber = .ok createdAt ∧
      Escapes Meant (createdAtOf createdAt)) ↔ CreatedTooLarge document := by
  constructor
  · rintro ⟨createdAt, hfield, h⟩
    rcases createdAt with _ | n | q
    · exact absurd h escapes_ok
    · refine ⟨n, ?_, ?_⟩
      · rcases hget : document.get? "created_at" with _ | found
        · unfold optionalField at hfield
          rw [hget] at hfield
          cases hfield
        · unfold optionalField at hfield
          rw [hget] at hfield
          cases found <;> cases hfield
          rfl
      · rw [← floatOfInt_none]
        have hconverted : Escapes Meant (converted (floatOfInt n)) := h
        generalize floatOfInt n = float at hconverted ⊢
        rcases float with _ | q
        · rfl
        · exact absurd hconverted escapes_ok
    · exact absurd h escapes_ok
  · rintro ⟨n, h⟩
    refine ⟨some (.inl n), ?_, ?_⟩
    · unfold optionalField
      rw [h.1]
      rfl
    · show Escapes Meant (converted (floatOfInt n))
      rw [floatOfInt_none.2 h.2]
      exact escapes_error.2 fun h => nomatch h

/-- a document of which nothing escapes the reader of snapshots: its version can be named; where it
has none, the lists of its scopes can be copied; and where its head can be read, its time of
creation is not too large for a float -/
def SnapshotLegible (payload : Document) : Prop :=
  Textable payload 1 ∧ (Unversioned payload → ScopesIterable payload) ∧
    (KnownVersion payload → HeadFits payload → ¬ CreatedTooLarge payload)

section
variable [Platform] {payload document : Document}

/-- the fields a document is not migrated in -/
def migratedKeys : List String := ["format_version", "semantic_scopes"]

theorem get?_setItems {key key' : String} (v : Value) (d : Document) (h : key' ≠ key) :
    Document.get? (Dict.setItems key v d) key' = d.get? key' := by
  show Dict.getItems key' (Dict.setItems key v d) = Dict.getItems key' d
  rw [Dict.getItems_setItems, if_neg h]

theorem not_migrated {key : String} (h : key ∉ migratedKeys) :
    key ≠ "format_version" ∧ key ≠ "semantic_scopes" := by
  simpa [migratedKeys] using h

theorem migrated_fields (h : migratePayload payload "snapshot" 1 snapshotMigrations = .ok document) :
    KnownVersion payload ∧ ∀ key, key ∉ migratedKeys → document.get? key = payload.get? key := by
  rcases (migrate_ok (rfl : snapshotMigrations 0 = some migrateSnapshotV0)).1 h with
    ⟨migrated, hold, hmigrated, rfl⟩ | ⟨hcurrent, rfl⟩
  · refine ⟨Or.inl hold, fun key hkey => ?_⟩
    obtain ⟨scopes, -, h⟩ := bind_ok.1 hmigrated
    cases h
    obtain ⟨hversion, hscopes⟩ := not_migrated hkey
    rw [get?_setItems _ _ hversion, get?_setItems _ _ hscopes]
  · refine ⟨Or.inr hcurrent, fun key hkey => ?_⟩
    rw [get?_setItems _ _ (not_migrated hkey).1]

/-- the head of a document depends on no other fields -/
theorem head_congr (h : ∀ key, key ∉ migratedKeys → document.get? key = payload.get? key) :
    (HeadFits document ↔ HeadFits payload) ∧
      (CreatedTooLarge document ↔ CreatedTooLarge payload) := by
  have hfits : ∀ {α : Type} {key : String} {read : Value → Option α}, key ∉ migratedKeys →
      (FieldFits document key read ↔ FieldFits payload key read) ∧
        (OptionalFits document key read ↔ OptionalFits payload key read) := by
    intro α key read hkey
    unfold FieldFits OptionalFits
    rw [h key hkey]
    exact ⟨Iff.rfl, Iff.rfl⟩
  have hentries : EntriesFit document ↔ EntriesFit payload := by
    unfold EntriesFit
    rw [h "plugin_entries" (by decide)]
  have htexts : ∀ {l : List String}, (∀ key ∈ l, key ∉ migratedKeys) →
      ((∀ key ∈ l, FieldFits document key asText) ↔ ∀ key ∈ l, FieldFits payload key asText) ∧
        ((∀ key ∈ l, OptionalFits document key asText) ↔
          ∀ key ∈ l, OptionalFits payload key asText) := by
    intro l hl
    exact ⟨forall₂_congr fun key hkey => (hfits (hl key hkey)).1,
      forall₂_congr fun key hkey => (hfits (hl key hkey)).2⟩
  constructor
  · constructor
    · rintro ⟨h₁, h₂, h₃, h₄, h₅, h₆, h₇, h₈⟩
      exact ⟨(hfits (by decide)).1.1 h₁, hentries.1 h₂, (hfits (by decide)).1.1 h₃,
        (hfits (by decide)).2.1 h₄, (hfits (by decide)).2.1 h₅, (hfits (by decide)).1.1 h₆,
        (htexts (by decide)).1.1 h₇, (htexts (by decide)).2.1 h₈⟩
    · rintro ⟨h₁, h₂, h₃, h₄, h₅, h₆, h₇, h₈⟩
      exact ⟨(hfits (by decide)).1.2 h₁, hentries.2 h₂, (hfits (by decide)).1.2 h₃,
        (hfits (by decide)).2.2 h₄, (hfits (by decide)).2.2 h₅, (hfits (by decide)).1.2 h₆,
        (htexts (by decide)).1.2 h₇, (htexts (by decide)).2.2 h₈⟩
  · unfold CreatedTooLarge
    rw [h "created_at" (by decide)]

/-- **The reader of snapshots** raises nothing else iff the document is legible. -/
theorem snapshot_escapes : Escapes Meant (RuntimeSnapshot.fromDict payload) ↔
    ¬ SnapshotLegible payload := by
  have hstep : snapshotMigrations 0 = some migrateSnapshotV0 := rfl
  have hbody : ∀ document, Escapes Meant ((RuntimeSnapshot.head document >>= fun r => do
      let createdAt ← createdAtOf r.2
      let scopes ← field document "scopes" asMapping
      let ids ← field document "runtime_instance_ids" asList
      let runtimeInstanceIds ← wellFormed (ids.mapM asText)
        "'runtime_instance_ids' must contain strings"
      let semanticScopes ← field document "semantic_scopes" asMapping
      return { r.1 with
        createdAt := createdAt
        scopes := scopes
        runtimeInstanceIds := runtimeInstanceIds
        semanticScopes := semanticScopes } : Except Err RuntimeSnapshot)) ↔
      HeadFits document ∧ CreatedTooLarge document := by
    intro document
    rw [escapes_bind_of head_not_escapes, ← createdAtOf_escapes]
    constructor
    · rintro ⟨⟨s, createdAt⟩, hhead, h⟩
      obtain ⟨hfits, hcreated⟩ := head_ok_iff.1 ⟨s, hhead⟩
      refine ⟨hfits, createdAt, hcreated, (escapes_bind.1 h).resolve_right ?_⟩
      rintro ⟨_, -, hrest⟩
      refine absurd hrest ?_
      refine not_escapes_bind field_not_escapes fun _ => ?_
      refine not_escapes_bind field_not_escapes fun _ => ?_
      refine not_escapes_bind wellFormed_not_escapes fun _ => ?_
      exact not_escapes_bind field_not_escapes fun _ => escapes_ok
    · rintro ⟨hfits, createdAt, hcreated, h⟩
      obtain ⟨s, hhead⟩ := head_ok_iff.2 ⟨hfits, hcreated⟩
      exact ⟨(s, createdAt), hhead, escapes_bind.2 (Or.inl h)⟩
  unfold RuntimeSnapshot.fromDict SNAPSHOT_FORMAT_VERSION SnapshotLegible
  rw [escapes_bind, migrate_escapes hstep, (migrateSnapshotV0_unguarded payload).escapes]
  constructor
  · rintro ((htext | ⟨hold, hscopes⟩) | ⟨document, hmigrated, h⟩)
    · exact fun hlegible => htext hlegible.1
    · exact fun hlegible => hscopes (hlegible.2.1 hold)
    · obtain ⟨hknown, hfields⟩ := migrated_fields hmigrated
      obtain ⟨hfits, hlarge⟩ := (hbody document).1 h
      exact fun hlegible => hlegible.2.2 hknown ((head_congr hfields).1.1 hfits)
        ((head_congr hfields).2.1 hlarge)
  · intro h
    by_cases htext : Textable payload 1
    · by_cases hscopes : Unversioned payload → ScopesIterable payload
      · -- its version is known, its head is read, and its time of creation is too large
        have hlast : ¬ (KnownVersion payload → HeadFits payload → ¬ CreatedTooLarge payload) :=
          fun hlast => h ⟨htext, hscopes, hlast⟩
        push Not at hlast
        obtain ⟨hknown, hfits, hlarge⟩ := hlast
        have hmigrated : ∃ document,
            migratePayload payload "snapshot" 1 snapshotMigrations = .ok document := by
          rcases hknown with hold | hcurrent
          · obtain ⟨migrated, hstepped⟩ :=
              (migrateSnapshotV0_unguarded payload).succeeds.2 (hscopes hold)
            exact ⟨_, (migrate_ok hstep).2 (Or.inl ⟨migrated, hold, hstepped, rfl⟩)⟩
          · exact ⟨_, (migrate_ok hstep).2 (Or.inr ⟨hcurrent, rfl⟩)⟩
        obtain ⟨document, hmigrated⟩ := hmigrated
        have hfields := (migrated_fields hmigrated).2
        exact Or.inr ⟨document, hmigrated, (hbody document).2
          ⟨(head_congr hfields).1.2 hfits, (head_congr hfields).2.2 hlarge⟩⟩
      · push Not at hscopes
        exact Or.inl (Or.inr hscopes)
    · exact Or.inl (Or.inl htext)

end

/-! ## the reader of recordings -/

/-- what a record is read of, but for how large its time of creation is -/
structure RecordFields (items : Document) : Prop where
  sequence : FieldFits items "sequence" asInteger
  key : FieldFits items "key" asText
  request : OptionalFits items "request" asMapping
  generationId : OptionalFits items "generation_id" asText
  runId : OptionalFits items "run_id" asText
  createdAt : ∀ found, items.get? "created_at" = some found → (asNumber found).isSome
  kind : FieldFits items "kind" BoundaryKind.of

/-- what `_read_record` turns into a `FormatError` -/
def Caught : ReadFault → Prop
  | .overflowError _ => False
  | _ => True

section
variable [Platform] {items : Document}

theorem required_ok {key : String} {v : Value} :
    ReplayRecord.required items key = .ok v ↔ items.get? key = some v := by
  unfold ReplayRecord.required
  rcases items.get? key with _ | found
  · simp
  · simp

theorem required_caught {key : String} : ¬ Escapes Caught (ReplayRecord.required items key) := by
  unfold ReplayRecord.required
  split
  · exact escapes_ok
  · exact fun h => escapes_error.1 h trivial

theorem optionalString_caught {key : String} :
    ¬ Escapes Caught (ReplayRecord.optionalString items key) := by
  unfold ReplayRecord.optionalString
  split
  · exact escapes_ok
  · exact escapes_ok
  · exact escapes_ok
  · exact fun h => escapes_error.1 h trivial

theorem optionalString_ok {key : String} :
    (∃ t, ReplayRecord.optionalString items key = .ok t) ↔ OptionalFits items key asText := by
  unfold ReplayRecord.optionalString OptionalFits
  rcases items.get? key with _ | found
  · exact iff_of_true ⟨none, rfl⟩ fun _ h => (nomatch h)
  · cases found with
    | none => exact iff_of_true ⟨none, rfl⟩ fun v hv hne => absurd (Option.some.inj hv).symm hne
    | str t => exact iff_of_true ⟨some t, rfl⟩ fun v hv _ => by cases hv; rfl
    | _ =>
      refine iff_of_false (fun ⟨_, h⟩ => nomatch h) fun h => ?_
      cases h _ rfl fun h => nomatch h

/-- what was read, or the fault of a field that cannot be -/
def orFault {α ε : Type} (found : Option α) (fault : ε) : Except ε α :=
  match found with
  | some a => .ok a
  | none => .error fault

theorem orFault_ok {α ε : Type} {found : Option α} {fault : ε} {a : α} :
    orFault found fault = .ok a ↔ found = some a := by
  cases found with
  | none => exact iff_of_false (fun h => nomatch h) fun h => nomatch h
  | some b => simp [orFault]

/-- a request that is missing or `None` is empty -/
def requestOf (items : Document) : Option Document :=
  match items.get? "request" with
  | none | some .none => some []
  | some v => asMapping v

theorem requestOf_isSome : (requestOf items).isSome ↔ OptionalFits items "request" asMapping := by
  unfold requestOf OptionalFits
  rcases items.get? "request" with _ | found
  · exact iff_of_true rfl fun _ h => (nomatch h)
  · cases found with
    | none => exact iff_of_true rfl fun v hv hne => absurd (Option.some.inj hv).symm hne
    | dict l => exact iff_of_true rfl fun v hv _ => by cases hv; rfl
    | _ =>
      refine iff_of_false (fun h => nomatch h) fun h => ?_
      cases h _ rfl fun h => nomatch h

theorem bind_congr_both {α β ε : Type} {x y : Except ε α} {f g : α → Except ε β}
    (hx : x = y) (hf : ∀ a, f a = g a) : (x >>= f) = (y >>= g) := by
  rw [hx, funext hf]

/-- `float(created_at)` -/
def recordFloat : Int ⊕ Rat → Except ReadFault Rat
  | .inl n => orFault (floatOfInt n) (.overflowError "int too large to convert to float")
  | .inr q => .ok q

/-- a record, and its time of creation as it stands in the document -/
def recordHead (items : Document) : Except ReadFault (ReplayRecord × (Int ⊕ Rat)) := do
  let sequence ← ReplayRecord.required items "sequence"
  let key ← ReplayRecord.required items "key"
  let sequence ← orFault (asInteger sequence) (.typeError "record sequence is not an integer")
  let key ← orFault (asText key) (.typeError "record key is not a string")
  let request ← orFault (requestOf items) (.typeError "record request is not a mapping")
  let generationId ← ReplayRecord.optionalString items "generation_id"
  let runId ← ReplayRecord.optionalString items "run_id"
  let createdAt ← orFault (asNumber ((items.get? "created_at").getD (.float 0)))
    (.typeError "record created_at is not a number")
  let rawKind ← ReplayRecord.required items "kind"
  let kind ← orFault (BoundaryKind.of rawKind)
    (.valueError (reprValue rawKind ++ " is not a valid BoundaryKind"))
  return ({
    kind := kind
    sequence := sequence
    key := key
    request := request
    response := (items.get? "response").getD .none
    generationId := generationId
    runId := runId }, createdAt)

/-- the time of creation is converted last -/
theorem fromDict_eq : ReplayRecord.fromDict items = (do
    let (r, createdAt) ← recordHead items
    let createdAt ← recordFloat createdAt
    return { r with createdAt := createdAt }) := by
  unfold ReplayRecord.fromDict recordHead recordFloat requestOf
  -- `2 ^ 1024` is not to be evaluated
  generalize floatOfInt = float
  simp only [bind_assoc, pure_bind]
  refine bind_congr_both rfl fun sequence => bind_congr_both rfl fun key => ?_
  cases sequence with
  | int n => ?_
  | _ => rfl
  refine bind_congr_both rfl fun sequence => ?_
  cases key with
  | str t => ?_
  | _ => rfl
  refine bind_congr_both rfl fun key => ?_
  rcases items.get? "request" with _ | v
  on_goal 2 => cases v with
    | none => ?_
    | dict l => ?_
    | _ => rfl
  all_goals
    refine bind_congr_both rfl fun request => ?_
    refine bind_congr_both rfl fun generationId => bind_congr_both rfl fun runId => ?_
    generalize (items.get? "created_at").getD (.float 0) = v
    cases v with
    | int _ | float _ =>
      refine bind_congr_both rfl fun createdAt => bind_congr_both rfl fun rawKind => ?_
      cases BoundaryKind.of rawKind with
      | none => rfl
      | some kind =>
        refine bind_congr_both rfl fun kind => ?_
        cases createdAt with
        | inl n =>
          simp only
          cases float n <;> rfl
        | inr q => rfl
    | _ => rfl

theorem orFault_not_escapes {α ε : Type} {meant : ε → Prop} {found : Option α} {fault : ε}
    (h : meant fault) : ¬ Escapes meant (orFault found fault) := by
  cases found with
  | none => exact fun hescapes => escapes_error.1 hescapes h
  | some a => exact escapes_ok

theorem recordHead_caught : ¬ Escapes Caught (recordHead items) := by
  unfold recordHead
  refine not_escapes_bind required_caught fun _ => not_escapes_bind required_caught fun _ => ?_
  refine not_escapes_bind (orFault_not_escapes trivial) fun _ => ?_
  refine not_escapes_bind (orFault_not_escapes trivial) fun _ => ?_
  refine not_escapes_bind (orFault_not_escapes trivial) fun _ => ?_
  refine not_escapes_bind optionalString_caught fun _ => ?_
  refine not_escapes_bind optionalString_caught fun _ => ?_
  refine not_escapes_bind (orFault_not_escapes trivial) fun _ => ?_
  refine not_escapes_bind required_caught fun _ => ?_
  exact not_escapes_bind (orFault_not_escapes trivial) fun _ => escapes_ok

theorem numberOf_isSome : (asNumber ((items.get? "created_at").getD (.float 0))).isSome ↔
    ∀ found, items.get? "created_at" = some found → (asNumber found).isSome := by
  rcases items.get? "created_at" with _ | found
  · exact iff_of_true rfl fun _ h => (nomatch h)
  · simp

theorem fits_iff {α : Type} {key : String} {read : Value → Option α} :
    FieldFits items key read ↔ ∃ v a, items.get? key = some v ∧ read v = some a := by
  unfold FieldFits
  rw [Option.isSome_iff_exists]
  simp only [Option.bind_eq_some_iff]
  exact ⟨fun ⟨a, v, h⟩ => ⟨v, a, h⟩, fun ⟨v, a, h⟩ => ⟨a, v, h⟩⟩

theorem recordHead_ok_iff {createdAt : Int ⊕ Rat} : (∃ r, recordHead items = .ok (r, createdAt)) ↔
    RecordFields items ∧ asNumber ((items.get? "created_at").getD (.float 0)) = some createdAt := by
  unfold recordHead
  constructor
  · rintro ⟨r, h⟩
    obtain ⟨sequence, hsequence, h⟩ := bind_ok.1 h
    obtain ⟨key, hkey, h⟩ := bind_ok.1 h
    obtain ⟨n, hn, h⟩ := bind_ok.1 h
    obtain ⟨t, ht, h⟩ := bind_ok.1 h
    obtain ⟨request, hrequest, h⟩ := bind_ok.1 h
    obtain ⟨generationId, hgeneration, h⟩ := bind_ok.1 h
    obtain ⟨runId, hrun, h⟩ := bind_ok.1 h
    obtain ⟨number, hnumber, h⟩ := bind_ok.1 h
    obtain ⟨rawKind, hraw, h⟩ := bind_ok.1 h
    obtain ⟨kind, hkind, h⟩ := bind_ok.1 h
    cases h
    rw [orFault_ok] at hn ht hrequest hnumber hkind
    rw [required_ok] at hsequence hkey hraw
    exact ⟨{
      sequence := fits_iff.2 ⟨sequence, n, hsequence, hn⟩
      key := fits_iff.2 ⟨key, t, hkey, ht⟩
      request := requestOf_isSome.1 (by rw [hrequest]; rfl)
      generationId := optionalString_ok.1 ⟨generationId, hgeneration⟩
      runId := optionalString_ok.1 ⟨runId, hrun⟩
      createdAt := numberOf_isSome.1 (by rw [hnumber]; rfl)
      kind := fits_iff.2 ⟨rawKind, kind, hraw, hkind⟩ }, hnumber⟩
  · rintro ⟨h, hnumber⟩
    obtain ⟨sequence, n, hsequence, hn⟩ := fits_iff.1 h.sequence
    obtain ⟨key, t, hkey, ht⟩ := fits_iff.1 h.key
    obtain ⟨request, hrequest⟩ := Option.isSome_iff_exists.1 (requestOf_isSome.2 h.request)
    obtain ⟨generationId, hgeneration⟩ := optionalString_ok.2 h.generationId
    obtain ⟨runId, hrun⟩ := optionalString_ok.2 h.runId
    obtain ⟨rawKind, kind, hraw, hkind⟩ := fits_iff.1 h.kind
    apply Exists.intro
    refine bind_ok.2 ⟨sequence, required_ok.2 hsequence, bind_ok.2 ⟨key, required_ok.2 hkey, ?_⟩⟩
    refine bind_ok.2 ⟨n, orFault_ok.2 hn, bind_ok.2 ⟨t, orFault_ok.2 ht, ?_⟩⟩
    refine bind_ok.2 ⟨request, orFault_ok.2 hrequest, ?_⟩
    refine bind_ok.2 ⟨generationId, hgeneration, bind_ok.2 ⟨runId, hrun, ?_⟩⟩
    refine bind_ok.2 ⟨createdAt, orFault_ok.2 hnumber, ?_⟩
    exact bind_ok.2 ⟨rawKind, required_ok.2 hraw, bind_ok.2 ⟨kind, orFault_ok.2 hkind, rfl⟩⟩

theorem recordFloat_fails {createdAt : Int ⊕ Rat}
    (h : asNumber ((items.get? "created_at").getD (.float 0)) = some createdAt) :
    (Escapes Caught (recordFloat createdAt) ↔ CreatedTooLarge items) ∧
      ((∃ q, recordFloat createdAt = .ok q) ↔ ¬ CreatedTooLarge items) := by
  cases createdAt with
  | inl n =>
    have hn : items.get? "created_at" = some (.int n) := by
      rcases hget : items.get? "created_at" with _ | found
      · rw [hget] at h
        cases h
      · rw [hget] at h
        cases found <;> cases h
        rfl
    have hlarge : CreatedTooLarge items ↔ floatOfInt n = none := by
      rw [floatOfInt_none]
      constructor
      · rintro ⟨m, h⟩
        cases hn.symm.trans h.1
        exact h.2
      · exact fun hlarge => ⟨n, And.intro hn hlarge⟩
    rw [hlarge]
    unfold recordFloat
    simp only
    generalize floatOfInt n = float
    cases float with
    | none =>
      refine ⟨iff_of_true ⟨_, rfl, id⟩ rfl, iff_of_false ?_ fun h => h rfl⟩
      exact fun ⟨_, h⟩ => nomatch h
    | some q =>
      refine ⟨iff_of_false escapes_ok ?_, iff_of_true ⟨q, rfl⟩ ?_⟩
      · exact fun h => nomatch h
      · exact fun h => nomatch h
  | inr q =>
    have hlarge : ¬ CreatedTooLarge items := by
      rintro ⟨n, hn⟩
      rw [hn.1] at h
      cases h
    exact ⟨iff_of_false escapes_ok hlarge, iff_of_true ⟨q, rfl⟩ hlarge⟩

theorem record_escapes : Escapes Caught (ReplayRecord.fromDict items) ↔
    RecordFields items ∧ CreatedTooLarge items := by
  rw [fromDict_eq, escapes_bind_of recordHead_caught]
  constructor
  · rintro ⟨⟨r, createdAt⟩, hhead, h⟩
    obtain ⟨hfields, hnumber⟩ := recordHead_ok_iff.1 ⟨r, hhead⟩
    rcases escapes_bind.1 h with h | ⟨_, -, h⟩
    · exact ⟨hfields, (recordFloat_fails hnumber).1.1 h⟩
    · exact absurd h escapes_ok
  · rintro ⟨hfields, hlarge⟩
    obtain ⟨createdAt, hnumber⟩ := Option.isSome_iff_exists.1 (numberOf_isSome.2 hfields.createdAt)
    obtain ⟨r, hhead⟩ := recordHead_ok_iff.2 ⟨hfields, hnumber⟩
    exact ⟨(r, createdAt), hhead, escapes_bind.2 (Or.inl ((recordFloat_fails hnumber).1.2 hlarge))⟩

theorem record_ok : (∃ r, ReplayRecord.fromDict items = .ok r) ↔
    RecordFields items ∧ ¬ CreatedTooLarge items := by
  rw [fromDict_eq]
  constructor
  · rintro ⟨_, h⟩
    obtain ⟨⟨r, createdAt⟩, hhead, h⟩ := bind_ok.1 h
    obtain ⟨q, hfloat, -⟩ := bind_ok.1 h
    obtain ⟨hfields, hnumber⟩ := recordHead_ok_iff.1 ⟨r, hhead⟩
    exact ⟨hfields, (recordFloat_fails hnumber).2.1 ⟨q, hfloat⟩⟩
  · rintro ⟨hfields, hsmall⟩
    obtain ⟨createdAt, hnumber⟩ := Option.isSome_iff_exists.1 (numberOf_isSome.2 hfields.createdAt)
    obtain ⟨r, hhead⟩ := recordHead_ok_iff.2 ⟨hfields, hnumber⟩
    obtain ⟨q, hfloat⟩ := (recordFloat_fails hnumber).2.2 hsmall
    exact ⟨_, bind_ok.2 ⟨(r, createdAt), hhead, bind_ok.2 ⟨q, hfloat, rfl⟩⟩⟩

/-- an entry is a record that is read -/
def RecordFits : Value → Prop
  | .dict items => RecordFields items ∧ ¬ CreatedTooLarge items
  | _ => False

/-- an entry is a record but for its time of creation, which is too large -/
def RecordOverflows : Value → Prop
  | .dict items => RecordFields items ∧ CreatedTooLarge items
  | _ => False

theorem readRecord_ok {entry : Value} {index : Nat} :
    (∃ r, readRecord entry index = .ok r) ↔ RecordFits entry := by
  cases entry with
  | dict items =>
    refine Iff.trans ?_ record_ok
    unfold readRecord
    simp only
    rcases ReplayRecord.fromDict items with fault | r
    · refine iff_of_false ?_ fun ⟨_, h⟩ => nomatch h
      cases fault <;> exact fun ⟨_, h⟩ => nomatch h
    · exact iff_of_true ⟨r, rfl⟩ ⟨r, rfl⟩
  | _ => exact iff_of_false (fun ⟨_, h⟩ => nomatch h) id

theorem readRecord_escapes {entry : Value} {index : Nat} :
    Escapes Meant (readRecord entry index) ↔ RecordOverflows entry := by
  cases entry with
  | dict items =>
    refine Iff.trans ?_ record_escapes
    unfold readRecord
    simp only
    rcases ReplayRecord.fromDict items with fault | r
    · cases fault with
      | overflowError text =>
        exact iff_of_true (escapes_error.2 fun h => nomatch h) (escapes_error.2 id)
      | _ => exact iff_of_false (not_escapes_meant rfl) fun h => escapes_error.1 h trivial
    · exact iff_of_false escapes_ok escapes_ok
  | _ => exact iff_of_false (not_escapes_meant rfl) id

/-- the fields of a session, and its records before they are read -/
def sessionHead (document : Document) : Except Err (ReplaySession × List Value) := do
  let field (name : String) : Except Err Value :=
    orFault (document.get? name) (corrupt ("missing " ++ quoted name))
  let unknown (v : Value) (enum : String) : Err :=
    corrupt ("unknown mode or fallback: " ++ reprValue v ++ " is not a valid " ++ enum)
  let mode ← field "mode"
  let fallback ← field "fallback"
  let metadata ← field "metadata"
  let records ← field "records"
  let mode ← orFault (ReplayMode.of mode) (unknown mode "ReplayMode")
  let fallback ← orFault (ReplayFallback.of fallback) (unknown fallback "ReplayFallback")
  let metadata ← orFault (asMapping metadata) (corrupt "'metadata' is not a mapping")
  let records ← orFault (asList records) (corrupt "'records' is not a list")
  return ({ mode := mode, fallback := fallback, metadata := metadata }, records)

theorem session_eq {payload : Document} : ReplaySession.fromDict (.dict payload) = (do
    let document ← migratePayload payload "replay" REPLAY_FORMAT_VERSION replayMigrations
    let (s, entries) ← sessionHead document
    let records ← entries.zipIdx.mapM fun e => readRecord e.1 e.2
    return { s with records := records }) := by
  unfold ReplaySession.fromDict sessionHead
  simp only [bind_assoc, pure_bind]
  show (migratePayload payload "replay" REPLAY_FORMAT_VERSION replayMigrations >>= _) = _
  refine bind_congr_both rfl fun document => ?_
  refine bind_congr_both ?_ fun mode => bind_congr_both ?_ fun fallback => ?_
  · cases document.get? "mode" <;> rfl
  · cases document.get? "fallback" <;> rfl
  refine bind_congr_both ?_ fun metadata => bind_congr_both ?_ fun records => ?_
  · cases document.get? "metadata" <;> rfl
  · cases document.get? "records" <;> rfl
  cases ReplayMode.of mode with
  | none => rfl
  | some mode => ?_
  refine bind_congr_both rfl fun mode => ?_
  cases ReplayFallback.of fallback with
  | none => rfl
  | some fallback => ?_
  refine bind_congr_both rfl fun fallback => ?_
  cases metadata with
  | dict items => ?_
  | _ => rfl
  refine bind_congr_both rfl fun metadata => ?_
  cases records with
  | list l => rfl
  | _ => rfl

structure SessionFields (payload : Document) : Prop where
  mode : FieldFits payload "mode" ReplayMode.of
  fallback : FieldFits payload "fallback" ReplayFallback.of
  metadata : FieldFits payload "metadata" asMapping

variable {payload document : Document}

theorem sessionHead_not_escapes : ¬ Escapes Meant (sessionHead document) := by
  unfold sessionHead
  iterate 8 refine not_escapes_bind (orFault_not_escapes rfl) fun _ => ?_
  exact escapes_ok

theorem sessionHead_ok_iff {entries : List Value} :
    (∃ s, sessionHead document = .ok (s, entries)) ↔
      SessionFields document ∧ document.get? "records" = some (.list entries) := by
  unfold sessionHead
  constructor
  · rintro ⟨s, h⟩
    obtain ⟨mode, hmode, h⟩ := bind_ok.1 h
    obtain ⟨fallback, hfallback, h⟩ := bind_ok.1 h
    obtain ⟨metadata, hmetadata, h⟩ := bind_ok.1 h
    obtain ⟨records, hrecords, h⟩ := bind_ok.1 h
    obtain ⟨m, hm, h⟩ := bind_ok.1 h
    obtain ⟨f, hf, h⟩ := bind_ok.1 h
    obtain ⟨items, hitems, h⟩ := bind_ok.1 h
    obtain ⟨l, hl, h⟩ := bind_ok.1 h
    cases h
    rw [orFault_ok] at hmode hfallback hmetadata hrecords hm hf hitems hl
    refine ⟨{
      mode := fits_iff.2 ⟨mode, m, hmode, hm⟩
      fallback := fits_iff.2 ⟨fallback, f, hfallback, hf⟩
      metadata := fits_iff.2 ⟨metadata, items, hmetadata, hitems⟩ }, ?_⟩
    cases records <;> cases hl
    exact hrecords
  · rintro ⟨h, hrecords⟩
    obtain ⟨mode, m, hmode, hm⟩ := fits_iff.1 h.mode
    obtain ⟨fallback, f, hfallback, hf⟩ := fits_iff.1 h.fallback
    obtain ⟨metadata, items, hmetadata, hitems⟩ := fits_iff.1 h.metadata
    apply Exists.intro
    refine bind_ok.2 ⟨mode, orFault_ok.2 hmode, bind_ok.2 ⟨fallback, orFault_ok.2 hfallback, ?_⟩⟩
    refine bind_ok.2 ⟨metadata, orFault_ok.2 hmetadata, bind_ok.2 ⟨_, orFault_ok.2 hrecords, ?_⟩⟩
    refine bind_ok.2 ⟨m, orFault_ok.2 hm, bind_ok.2 ⟨f, orFault_ok.2 hf, ?_⟩⟩
    exact bind_ok.2 ⟨items, orFault_ok.2 hitems, bind_ok.2 ⟨entries, rfl, rfl⟩⟩

/-- a document of which nothing escapes the reader of recordings: its version can be named; and where
its fields can be read, no record before which all can be read has a time of creation that is too
large -/
def ReplayLegible (payload : Document) : Prop :=
  Textable payload 1 ∧ (KnownVersion payload → SessionFields payload →
    ∀ before entry after, payload.get? "records" = some (.list (before ++ entry :: after)) →
      (∀ r ∈ before, RecordFits r) → ¬ RecordOverflows entry)

theorem migrate_replay : migratePayload payload "replay" 1 replayMigrations = .ok document ↔
    KnownVersion payload ∧ document = Dict.setItems "format_version" (.int 1) payload := by
  rw [migrate_ok (rfl : replayMigrations 0 = some .ok)]
  constructor
  · rintro (⟨migrated, hold, hmigrated, rfl⟩ | ⟨hcurrent, rfl⟩)
    · cases hmigrated
      exact ⟨Or.inl hold, rfl⟩
    · exact ⟨Or.inr hcurrent, rfl⟩
  · rintro ⟨hold | hcurrent, rfl⟩
    · exact Or.inl ⟨payload, hold, rfl, rfl⟩
    · exact Or.inr ⟨hcurrent, rfl⟩

/-- the fields do not depend on the version -/
theorem sessionFields_congr (h : document = Dict.setItems "format_version" (.int 1) payload) :
    (SessionFields document ↔ SessionFields payload) ∧
      document.get? "records" = payload.get? "records" := by
  have hget : ∀ key, key ≠ "format_version" → document.get? key = payload.get? key := by
    intro key hkey
    rw [h, get?_setItems _ _ hkey]
  have hfits : ∀ {α : Type} {key : String} {read : Value → Option α}, key ≠ "format_version" →
      (FieldFits document key read ↔ FieldFits payload key read) := by
    intro α key read hkey
    unfold FieldFits
    rw [hget key hkey]
  refine ⟨⟨fun h => ?_, fun h => ?_⟩, hget _ (by decide)⟩
  · exact ⟨(hfits (by decide)).1 h.mode, (hfits (by decide)).1 h.fallback,
      (hfits (by decide)).1 h.metadata⟩
  · exact ⟨(hfits (by decide)).2 h.mode, (hfits (by decide)).2 h.fallback,
      (hfits (by decide)).2 h.metadata⟩

/-- **The reader of recordings** raises nothing else iff the document is legible. -/
theorem replay_escapes : Escapes Meant (ReplaySession.fromDict (.dict payload)) ↔
    ¬ ReplayLegible payload := by
  have hreads : ∀ {entries : List Value},
      Escapes Meant (entries.zipIdx.mapM fun e => readRecord e.1 e.2) ↔
        ∃ before entry after, entries = before ++ entry :: after ∧
          (∀ r ∈ before, RecordFits r) ∧ RecordOverflows entry :=
    escapes_mapM_zipIdx (f := readRecord) (fun _ _ => readRecord_ok) fun _ _ => readRecord_escapes
  have hbody : ∀ document, Escapes Meant ((sessionHead document >>= fun r => do
      let (s, entries) := r
      let records ← entries.zipIdx.mapM fun e => readRecord e.1 e.2
      return { s with records := records } : Except Err ReplaySession)) ↔
      SessionFields document ∧ ∃ before entry after,
        document.get? "records" = some (.list (before ++ entry :: after)) ∧
          (∀ r ∈ before, RecordFits r) ∧ RecordOverflows entry := by
    intro document
    rw [escapes_bind_of sessionHead_not_escapes]
    constructor
    · rintro ⟨⟨s, entries⟩, hhead, h⟩
      obtain ⟨hfields, hrecords⟩ := sessionHead_ok_iff.1 ⟨s, hhead⟩
      have hentries := (escapes_bind.1 h).resolve_right fun ⟨_, _, h⟩ => absurd h escapes_ok
      obtain ⟨before, entry, after, rfl, hbefore, hentry⟩ := hreads.1 hentries
      exact ⟨hfields, before, entry, after, hrecords, hbefore, hentry⟩
    · rintro ⟨hfields, before, entry, after, hrecords, hbefore, hentry⟩
      obtain ⟨s, hhead⟩ := sessionHead_ok_iff.2 ⟨hfields, hrecords⟩
      refine ⟨(s, before ++ entry :: after), hhead, escapes_bind.2 (Or.inl ?_)⟩
      exact hreads.2 ⟨before, entry, after, rfl, hbefore, hentry⟩
  have hstep : ¬ Escapes Meant (Except.ok payload : Except Err Document) := escapes_ok
  unfold ReplayLegible
  rw [session_eq, escapes_bind]
  unfold REPLAY_FORMAT_VERSION
  rw [migrate_escapes (rfl : replayMigrations 0 = some .ok)]
  constructor
  · rintro ((htext | ⟨-, hstepped⟩) | ⟨document, hmigrated, h⟩)
    · exact fun hlegible => htext hlegible.1
    · exact absurd hstepped hstep
    · obtain ⟨hknown, hdocument⟩ := migrate_replay.1 hmigrated
      obtain ⟨hfields, hrecords⟩ := sessionFields_congr hdocument
      obtain ⟨hread, before, entry, after, hentries, hbefore, hentry⟩ := (hbody document).1 h
      exact fun hlegible => hlegible.2 hknown (hfields.1 hread) before entry after
        (hrecords.symm.trans hentries) hbefore hentry
  · intro h
    by_cases htext : Textable payload 1
    · have hlast : ¬ _ := fun hlast => h ⟨htext, hlast⟩
      push Not at hlast
      obtain ⟨hknown, hread, before, entry, after, hentries, hbefore, hentry⟩ := hlast
      obtain ⟨document, hdocument⟩ : ∃ document,
          document = Dict.setItems "format_version" (.int 1) payload := ⟨_, rfl⟩
      obtain ⟨hfields, hrecords⟩ := sessionFields_congr hdocument
      exact Or.inr ⟨document, migrate_replay.2 ⟨hknown, hdocument⟩, (hbody document).2
        ⟨hfields.2 hread, before, entry, after, hrecords.trans hentries, hbefore, hentry⟩⟩
    · exact Or.inl (Or.inl htext)

/-- **The readers reject with `FormatError`** and nothing else iff the document is legible to them. -/
theorem decoders_reject_iff (payload : Document) :
    ((∀ e, RuntimeSnapshot.fromDict payload = .error e → e.kind = .FormatError) ↔
      SnapshotLegible payload) ∧
    ((∀ e, ReplaySession.fromDict (.dict payload) = .error e → e.kind = .FormatError) ↔
      ReplayLegible payload) := by
  constructor
  · rw [← not_not (a := SnapshotLegible payload), ← snapshot_escapes, not_escapes]
    exact Iff.rfl
  · rw [← not_not (a := ReplayLegible payload), ← replay_escapes, not_escapes]
    exact Iff.rfl

end

/-! ### a scope whose children are a number -/

section
open Plain

/-- a snapshot without a version, one of whose scopes has the number 1 for its children -/
def countedChildren : Document :=
  [("scopes", .dict [("scopes", .list [.dict [("children", .int 1)]])])]

/-- What the step from version 0 raises on it is no `FormatError`. -/
theorem counted_children_escape : ∃ e,
    RuntimeSnapshot.fromDict countedChildren = .error e ∧ e.kind ≠ .FormatError := by
  refine ⟨{ kind := .Other, message := "'int' object is not iterable" }, ?_, by decide⟩
  rw [← raised?_eq_some]
  decide +kernel

end

end Chassis
