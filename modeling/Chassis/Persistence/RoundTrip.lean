import Chassis.Capabilities.Plain
import Chassis.Lib.Fallible
import Chassis.Persistence.Snapshots

/-!
# A snapshot and its document

* `sortedEntries_eq`   entries of plugins that have their fields can be sorted;
* `fromDict_document`  what is read of a document is what was written;
* `round_trip`         a document is read as a snapshot with the same document and the same digests.
-/

namespace Chassis
open Py

/-! ## entries of plugins -/

/-- the entry has its fields, and no others -/
def IsEntry (entry : Dict String String) : Prop :=
  (∀ k ∈ entry.keys, k ∈ entryFields) ∧ ∀ k ∈ entryFields, k ∈ entry.keys

instance (entry : Dict String String) : Decidable (IsEntry entry) :=
  inferInstanceAs (Decidable (_ ∧ _))

/-- what an entry is ordered by, if it has its fields -/
def orderOf (entry : Dict String String) : List String :=
  entryFields.map fun key => (entry.get? key).getD ""

theorem entryOrder_eq {entry : Dict String String} (h : IsEntry entry) :
    entryOrder entry = .ok (orderOf entry) := by
  refine mapM_ok.2 ?_
  refine List.forall₂_map_right_iff.2 (List.forall₂_same.2 fun key hkey => ?_)
  obtain ⟨text, htext⟩ := Dict.mem_keys.1 (h.2 key hkey)
  rw [htext]
  rfl

theorem sortedBy_keyed {α κ : Type} [LinearOrder κ] (f : α → κ) (l : List α) :
    (sortedBy Prod.fst (l.map fun a => (f a, a))).map Prod.snd = sortedBy f l := by
  have hsort := List.map_insertionSort (fun p q : κ × α => p.1 ≤ q.1) (fun a b => f a ≤ f b)
    Prod.snd (l.map fun a => (f a, a)) fun p hp q hq => by
      obtain ⟨a, -, rfl⟩ := List.mem_map.1 hp
      obtain ⟨b, -, rfl⟩ := List.mem_map.1 hq
      exact Iff.rfl
  rw [List.map_map] at hsort
  exact hsort.trans (congrArg _ (List.map_id l))

theorem sortedEntries_eq {entries : List (Dict String String)} (h : ∀ e ∈ entries, IsEntry e) :
    sortedEntries entries = .ok (sortedBy orderOf entries) := by
  have hkeyed : (entries.mapM fun entry => do return (← entryOrder entry, entry)) =
      (.ok (entries.map fun e => (orderOf e, e)) : Except Err _) := by
    refine mapM_ok.2 (List.forall₂_map_right_iff.2 (List.forall₂_same.2 fun e he => ?_))
    rw [entryOrder_eq (h e he)]
    rfl
  unfold sortedEntries
  rw [hkeyed]
  exact congrArg Except.ok (sortedBy_keyed orderOf entries)

theorem ofList_items {κ ν : Type} [DecidableEq κ] (d : Dict κ ν) : Dict.ofList d.items = d := by
  have hitems := Dict.items_ofList d.nodup
  generalize Dict.ofList d.items = d' at hitems
  cases d
  cases d'
  cases hitems
  rfl

/-! ## what is read of what was written -/

theorem mapM_asText (l : List String) : (l.map Value.str).mapM asText = some l := by
  induction l with
  | nil => rfl
  | cons t l ih =>
    rw [List.map_cons, List.mapM_cons, ih]
    rfl

theorem textMapping_items (l : List (String × String)) :
    textMapping (l.map fun p => (p.1, .str p.2)) = some (Dict.ofList l) := by
  have hpairs : (l.map fun p => (p.1, Value.str p.2)).mapM
      (fun p => do return (p.1, ← asText p.2)) = some l := by
    induction l with
    | nil => rfl
    | cons p l ih =>
      rw [List.map_cons, List.mapM_cons, ih]
      rfl
  unfold textMapping
  rw [hpairs]
  rfl

theorem textListMapping_items (l : List (String × List String)) :
    textListMapping (l.map fun p => (p.1, .list (p.2.map .str))) = some (Dict.ofList l) := by
  have hpairs : (l.map fun p => (p.1, Value.list (p.2.map .str))).mapM
      (fun p => do return (p.1, ← (← asList p.2).mapM asText)) = some l := by
    induction l with
    | nil => rfl
    | cons p l ih =>
      rw [List.map_cons, List.mapM_cons, ih]
      show ((p.2.map Value.str).mapM asText >>= fun texts => some (p.1, texts)) >>= _ = _
      rw [mapM_asText]
      rfl
  unfold textListMapping
  rw [hpairs]
  rfl

theorem pluginEntry_items {entry : Dict String String} (h : IsEntry entry) :
    pluginEntry (textItems entry) = some entry := by
  have hread : ∀ items : Document, pluginEntry (.dict items) =
      if (∀ k ∈ items.map Prod.fst, k ∈ entryFields) ∧ ∀ k ∈ entryFields, k ∈ items.map Prod.fst then
        textMapping items else none := fun _ => rfl
  have hkeys : (entry.items.map fun p => (p.1, Value.str p.2)).map Prod.fst = entry.keys := by
    rw [List.map_map]
    rfl
  unfold textItems
  rw [hread, hkeys]
  show (if IsEntry entry then textMapping _ else none) = some entry
  rw [if_pos h, textMapping_items, ofList_items]

theorem mapM_pluginEntry {entries : List (Dict String String)} (h : ∀ e ∈ entries, IsEntry e) :
    (entries.map textItems).mapM pluginEntry = some entries := by
  induction entries with
  | nil => rfl
  | cons e entries ih =>
    rw [List.map_cons, List.mapM_cons, ih fun e' he' => h e' (List.mem_cons_of_mem _ he'),
      pluginEntry_items (h e List.mem_cons_self)]
    rfl

section
variable {α : Type} {document : Document} {key : String} {read : Value → Option α} {v : Value} {a : α}

theorem field_ok (hget : document.get? key = some v) (hread : read v = some a) :
    field document key read = .ok a := by
  unfold field
  rw [hget]
  simp only [hread]

theorem optionalField_ok (hget : document.get? key = some v) (hv : v ≠ .none)
    (hread : read v = some a) : optionalField document key read = .ok (some a) := by
  rw [optionalField_found read hget hv, hread]

theorem optionalField_missing (hget : document.get? key = none) :
    optionalField document key read = .ok none := by
  unfold optionalField
  rw [hget]

theorem optionalField_text {text : Option String} (hget : document.get? key = some (.ofOption text)) :
    optionalField document key asText = .ok text := by
  cases text with
  | none =>
    unfold optionalField
    rw [hget]
    rfl
  | some t => exact optionalField_ok hget (fun h => nomatch h) rfl

end

/-! ## the round trip -/

namespace RuntimeSnapshot
variable (s : RuntimeSnapshot)

/-- every entry of a plugin has its fields and no others, and no two have one id -/
def EntriesSound : Prop := ∀ entries, s.pluginEntries = some entries →
  (∀ e ∈ entries, IsEntry e) ∧ (entries.map fun e => e.get? "entry_id").Nodup

def writtenEntries : Document :=
  match s.pluginEntries with
  | none => []
  | some entries => [("plugin_entries", .list ((sortedBy orderOf entries).map textItems))]

/-- what is read: all that was written, in the order it was written -/
def restored : RuntimeSnapshot :=
  { s with
    plugins := Dict.ofList (sortedItems s.plugins)
    capabilities := Dict.ofList (sortedItems s.capabilities)
    createdAt := 0
    metadata := sortedBy Prod.fst s.metadata
    pluginEntries := s.pluginEntries.map (sortedBy orderOf) }

variable {s}

theorem toDict_eq (h : s.EntriesSound) : s.toDict = .ok (s.document s.writtenEntries) := by
  unfold toDict writtenEntries
  rcases hentries : s.pluginEntries with _ | entries
  · exact congrArg Except.ok (jsonableItems_self _)
  · simp only [Option.map_some, Option.getD_some]
    unfold entryItems
    rw [sortedEntries_eq (h entries hentries).1]
    exact congrArg Except.ok (jsonableItems_self _)

/-- what is found in a document under a key that is not that of the entries -/
theorem get?_document (entries : Document) (hentries : ∀ p ∈ entries, p.1 = "plugin_entries")
    {key : String} (hkey : key ≠ "plugin_entries") :
    (s.document entries).get? key = (s.document []).get? key := by
  have hskip : ∀ rest : Document, Document.get? (entries ++ rest) key = Document.get? rest key := by
    intro rest
    induction entries with
    | nil => rfl
    | cons p entries ih =>
      have hp := hentries p List.mem_cons_self
      show (if p.1 = key then some p.2 else Document.get? (entries ++ rest) key) = _
      rw [if_neg (by rw [hp]; exact hkey.symm)]
      exact ih fun q hq => hentries q (List.mem_cons_of_mem _ hq)
  have happ : ∀ front rest : Document, Document.get? (front ++ (entries ++ rest)) key =
      Document.get? (front ++ rest) key := by
    intro front rest
    induction front with
    | nil => exact hskip rest
    | cons p front ih =>
      show (if p.1 = key then some p.2 else Document.get? (front ++ (entries ++ rest)) key) =
        if p.1 = key then some p.2 else Document.get? (front ++ rest) key
      rw [ih]
  unfold document
  rw [List.append_assoc, List.append_assoc, happ]
  rfl

theorem writtenEntries_key : ∀ p ∈ s.writtenEntries, p.1 = "plugin_entries" := by
  intro p hp
  unfold writtenEntries at hp
  split at hp
  · cases hp
  · rw [List.mem_singleton.1 hp]

theorem pluginEntriesOf_document (h : s.EntriesSound) :
    pluginEntriesOf (s.document s.writtenEntries) = .ok (s.pluginEntries.map (sortedBy orderOf)) := by
  unfold pluginEntriesOf writtenEntries
  rcases hentries : s.pluginEntries with _ | entries
  · rfl
  · obtain ⟨hall, hids⟩ := h entries hentries
    have hget : (s.document [("plugin_entries",
        .list ((sortedBy orderOf entries).map textItems))]).get? "plugin_entries" =
        some (.list ((sortedBy orderOf entries).map textItems)) := rfl
    have hsorted : ∀ e ∈ sortedBy orderOf entries, IsEntry e := fun e he =>
      hall e (mem_sortedBy.1 he)
    have hread := mapM_pluginEntry hsorted
    have hnodup : ((sortedBy orderOf entries).map fun e => e.get? "entry_id").Nodup :=
      ((sortedBy_perm orderOf entries).map _).nodup_iff.2 hids
    simp only [hget, asList, Option.bind_some, hread]
    rw [if_pos hnodup]
    rfl

theorem migrate_document (entries : Document) [Platform] :
    migratePayload (s.document entries) "snapshot" SNAPSHOT_FORMAT_VERSION snapshotMigrations =
      .ok (s.document entries) := by
  rfl

theorem head_document (h : s.EntriesSound) : head (s.document s.writtenEntries) =
    .ok ({ s.restored with scopes := [], runtimeInstanceIds := [], semanticScopes := [] }, none) := by
  have hget : ∀ {key : String} {v : Option Value}, key ≠ "plugin_entries" →
      (s.document []).get? key = v → (s.document s.writtenEntries).get? key = v :=
    fun hkey hv => (get?_document _ writtenEntries_key hkey).trans hv
  have htext : ∀ {key text : String}, key ≠ "plugin_entries" →
      (s.document []).get? key = some (.str text) →
      field (s.document s.writtenEntries) key asText = .ok text :=
    fun hkey hv => field_ok (hget hkey hv) rfl
  have hoptional : ∀ {key : String} {text : Option String}, key ≠ "plugin_entries" →
      (s.document []).get? key = some (.ofOption text) →
      optionalField (s.document s.writtenEntries) key asText = .ok text :=
    fun hkey hv => optionalField_text (hget hkey hv)
  have hmetadata := hget (by decide) (rfl : (s.document []).get? "metadata" = _)
  unfold head
  refine bind_ok.2 ⟨_, field_ok (hget (by decide) rfl) rfl, ?_⟩
  refine bind_ok.2 ⟨_, pluginEntriesOf_document h, ?_⟩
  refine bind_ok.2 ⟨_, field_ok (hget (by decide) rfl) rfl, ?_⟩
  refine bind_ok.2 ⟨_, optionalField_ok hmetadata (fun h => nomatch h) rfl, ?_⟩
  refine bind_ok.2 ⟨_, congrArg (wellFormed · _) (textMapping_items _), ?_⟩
  refine bind_ok.2 ⟨_, congrArg (wellFormed · _) (textListMapping_items _), ?_⟩
  refine bind_ok.2 ⟨_, optionalField_missing (hget (by decide) rfl), ?_⟩
  refine bind_ok.2 ⟨_, field_ok (hget (by decide) rfl) rfl, ?_⟩
  refine bind_ok.2 ⟨_, htext (by decide) rfl, ?_⟩
  refine bind_ok.2 ⟨_, htext (by decide) rfl, ?_⟩
  refine bind_ok.2 ⟨_, htext (by decide) rfl, ?_⟩
  refine bind_ok.2 ⟨_, htext (by decide) rfl, ?_⟩
  refine bind_ok.2 ⟨_, htext (by decide) rfl, ?_⟩
  refine bind_ok.2 ⟨_, htext (by decide) rfl, ?_⟩
  refine bind_ok.2 ⟨_, hoptional (by decide) rfl, ?_⟩
  refine bind_ok.2 ⟨_, hoptional (by decide) rfl, ?_⟩
  refine bind_ok.2 ⟨_, hoptional (by decide) rfl, ?_⟩
  refine bind_ok.2 ⟨_, hoptional (by decide) rfl, ?_⟩
  rfl

/-- **A document is read** as it was written. -/
theorem fromDict_document [Platform] (h : s.EntriesSound) :
    fromDict (s.document s.writtenEntries) = .ok s.restored := by
  have hget : ∀ {key : String} {v : Option Value}, key ≠ "plugin_entries" →
      (s.document []).get? key = v → (s.document s.writtenEntries).get? key = v :=
    fun hkey hv => (get?_document _ writtenEntries_key hkey).trans hv
  unfold fromDict
  refine bind_ok.2 ⟨_, migrate_document _, ?_⟩
  refine bind_ok.2 ⟨_, head_document h, ?_⟩
  refine bind_ok.2 ⟨0, rfl, ?_⟩
  refine bind_ok.2 ⟨_, field_ok (hget (by decide) rfl) rfl, ?_⟩
  refine bind_ok.2 ⟨_, field_ok (hget (by decide) rfl) rfl, ?_⟩
  refine bind_ok.2 ⟨_, congrArg (wellFormed · _) (mapM_asText s.runtimeInstanceIds), ?_⟩
  refine bind_ok.2 ⟨_, field_ok (hget (by decide) rfl) rfl, ?_⟩
  rfl

/-! ### what is read has the same document -/

theorem sortedItems_ofList {ν : Type} (d : Dict String ν) :
    sortedItems (Dict.ofList (sortedItems d)) = sortedItems d := by
  have hnodup : ((sortedItems d).map Prod.fst).Nodup :=
    ((sortedBy_perm Prod.fst d.items).map _).nodup_iff.2 d.nodup
  show sortedBy Prod.fst (Dict.ofList (sortedItems d)).items = sortedItems d
  rw [Dict.items_ofList hnodup]
  exact sortedBy_sortedBy Prod.fst d.items

theorem restored_plugins : s.restored.pluginItems = s.pluginItems := by
  show Value.dict ((sortedItems (Dict.ofList (sortedItems s.plugins))).map _) = _
  rw [sortedItems_ofList]
  rfl

theorem restored_capabilities : s.restored.capabilityItems = s.capabilityItems := by
  show Value.dict ((sortedItems (Dict.ofList (sortedItems s.capabilities))).map _) = _
  rw [sortedItems_ofList]
  rfl

theorem restored_document (entries : Document) : s.restored.document entries = s.document entries := by
  have hmetadata : sortedBy Prod.fst s.restored.metadata = sortedBy Prod.fst s.metadata :=
    sortedBy_sortedBy Prod.fst s.metadata
  unfold document
  rw [restored_plugins, restored_capabilities, hmetadata]
  rfl

theorem restored_sound (h : s.EntriesSound) : s.restored.EntriesSound := by
  intro entries hentries
  obtain ⟨written, hwritten, rfl⟩ := Option.map_eq_some_iff.1 hentries
  obtain ⟨hall, hids⟩ := h written hwritten
  exact ⟨fun e he => hall e (mem_sortedBy.1 he),
    ((sortedBy_perm orderOf written).map _).nodup_iff.2 hids⟩

theorem restored_entries : s.restored.writtenEntries = s.writtenEntries := by
  have hrestored : s.restored.pluginEntries = s.pluginEntries.map (sortedBy orderOf) := rfl
  unfold writtenEntries
  rw [hrestored]
  rcases s.pluginEntries with _ | entries
  · rfl
  · simp only [Option.map_some]
    rw [sortedBy_sortedBy]

theorem restored_toDict (h : s.EntriesSound) : s.restored.toDict = s.toDict := by
  rw [toDict_eq (restored_sound h), toDict_eq h, restored_document, restored_entries]

theorem restored_composition (h : s.EntriesSound) :
    s.restored.semanticComposition = s.semanticComposition := by
  have hrestored : s.restored.pluginEntries = s.pluginEntries.map (sortedBy orderOf) := rfl
  unfold semanticComposition
  rw [hrestored, restored_plugins, restored_capabilities]
  rcases hentries : s.pluginEntries with _ | entries
  · rfl
  · obtain ⟨hall, -⟩ := h entries hentries
    have hsame : entryItems (sortedBy orderOf entries) = entryItems entries := by
      unfold entryItems
      rw [sortedEntries_eq hall, sortedEntries_eq fun e he => hall e (mem_sortedBy.1 he),
        sortedBy_sortedBy]
    rcases entries with _ | ⟨e, entries⟩
    · rfl
    · rcases hsorted : sortedBy orderOf (e :: entries) with _ | ⟨e', entries'⟩
      · have hlength := length_sortedBy orderOf (e :: entries)
        rw [hsorted] at hlength
        cases hlength
      · rw [hsorted] at hsame
        simp only [Option.map_some, hsorted]
        rw [hsame]
        rfl

variable [Platform]

/-- **The round trip**: the document of a snapshot is read, what is read has the same document and
the same digests. -/
theorem round_trip (h : s.EntriesSound) : ∃ document restored, s.toDict = .ok document ∧
    fromDict document = .ok restored ∧ restored.toDict = .ok document ∧
    restored.digest = s.digest ∧ restored.semanticDigest = s.semanticDigest := by
  refine ⟨s.document s.writtenEntries, s.restored, toDict_eq h, fromDict_document h, ?_, ?_, ?_⟩
  · rw [restored_toDict h, toDict_eq h]
  · unfold digest
    rw [restored_toDict h]
  · unfold semanticDigest
    rw [restored_composition h]

end RuntimeSnapshot

/-! ### entries with other fields -/

section
open Plain

def searchEntry : Dict String String :=
  Dict.ofList [("entry_id", "search"), ("name", "search"), ("version", "1.0.0")]

/-- written in another order of its fields -/
def indexEntry : Dict String String :=
  Dict.ofList [("version", "2.1.0"), ("entry_id", "index"), ("name", "store")]

/-- a snapshot of two plugins in two scopes, with these entries -/
def snapshotOf (entries : List (Dict String String)) : RuntimeSnapshot where
  chassisVersion := "1.0.0"
  generationId := "gen_0002"
  sequence := 2
  agentRuntime := "langgraph"
  plugins := Dict.ofList [("search", "1.0.0"), ("index", "2.1.0")]
  capabilities := Dict.ofList [("search", ["1.0.0"]), ("db", ["2.1.0", "2.0.0"])]
  configHash := "c"
  pluginGraphHash := "g"
  toolSchemaHash := "t"
  graphDefinitionHash := some "d"
  promptHash := some "p"
  agent := some "assistant"
  agentRevision := some "r"
  createdAt := 3 / 2
  metadata := [("user", .str "u"), ("attempts", .list [.int 1, .int 2])]
  scopes := [("root", .str "/"), ("scopes", .list [.dict [("path", .str "/web")]])]
  runtimeInstanceIds := ["plugin_0003", "plugin_0000"]
  semanticScopes := [("scopes", .list [.dict [("path", .str "/web"), ("sealed", .bool true)]])]
  pluginEntries := some entries

theorem round_trip_search : (snapshotOf [searchEntry, indexEntry]).EntriesSound ∧
    ∃ document restored, (snapshotOf [searchEntry, indexEntry]).toDict = .ok document ∧
      RuntimeSnapshot.fromDict document = .ok restored ∧ restored.toDict = .ok document ∧
      restored.digest = (snapshotOf [searchEntry, indexEntry]).digest ∧
      restored.semanticDigest = (snapshotOf [searchEntry, indexEntry]).semanticDigest := by
  have hsound : (snapshotOf [searchEntry, indexEntry]).EntriesSound := by
    intro entries hentries
    cases hentries
    decide +kernel
  exact ⟨hsound, RuntimeSnapshot.round_trip hsound⟩

def taggedEntry : Dict String String := searchEntry.set "source" "registry"

/-- An entry has a field the reader does not know: what was written is not read. -/
theorem tagged_entry_rejected : ([taggedEntry].map fun e => e.get? "entry_id").Nodup ∧
    ∃ document e, (snapshotOf [taggedEntry]).toDict = .ok document ∧
      RuntimeSnapshot.fromDict document = .error e := by
  refine ⟨List.nodup_singleton _, ((snapshotOf [taggedEntry]).toDict.toOption).getD [],
    snapshotCorrupt "'plugin_entries' must contain entry_id, name, and version strings", ?_, ?_⟩
  · decide +kernel
  · rw [← raised?_eq_some]
    decide +kernel

end

end Chassis
