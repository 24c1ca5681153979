import Chassis.Persistence.Formats
import Chassis.Replay.Models

/-!
# Snapshots of the runtime

* `RuntimeSnapshot`            what identifies the composition of a run;
* `toDict`, `fromDict`         its document, and the reader of documents;
* `migrateSnapshotV0`          a document without a version is brought to version 1;
* `digest`, `semanticDigest`   the hashes of the whole record and of its composition.

Freezing makes tuples of lists and read-only mappings of mappings, and `Value` tells neither apart.
-/

namespace Chassis
open Py

/-! ## records -/

/-- the version of snapshots this release writes and reads -/
def SNAPSHOT_FORMAT_VERSION : Nat := 1

structure RuntimeSnapshot where
  chassisVersion : String
  generationId : String
  sequence : Int
  agentRuntime : String
  plugins : Dict String String
  capabilities : Dict String (List String)
  configHash : String
  pluginGraphHash : String
  toolSchemaHash : String
  graphDefinitionHash : Option String := none
  promptHash : Option String := none
  agent : Option String := none
  agentRevision : Option String := none
  createdAt : Rat
  metadata : Document := []
  scopes : Document := []
  runtimeInstanceIds : List String := []
  semanticScopes : Document := []
  pluginEntries : Option (List (Dict String String)) := none

mutual

def jsonable : Value → Value
  | .list l => .list (jsonableList l)
  | .dict items => .dict (jsonableItems items)
  | v => v

def jsonableList : List Value → List Value
  | [] => []
  | v :: l => jsonable v :: jsonableList l

def jsonableItems : List (String × Value) → List (String × Value)
  | [] => []
  | (k, v) :: l => (k, jsonable v) :: jsonableItems l

end

mutual

theorem jsonable_self : ∀ v : Value, jsonable v = v
  | .list l => by rw [jsonable, jsonableList_self l]
  | .dict items => by rw [jsonable, jsonableItems_self items]
  | .none => rfl
  | .bool _ => rfl
  | .int _ => rfl
  | .float _ => rfl
  | .str _ => rfl
  | .object _ _ => rfl

theorem jsonableList_self : ∀ l : List Value, jsonableList l = l
  | [] => rfl
  | v :: l => by rw [jsonableList, jsonable_self v, jsonableList_self l]

theorem jsonableItems_self : ∀ l : List (String × Value), jsonableItems l = l
  | [] => rfl
  | (k, v) :: l => by rw [jsonableItems, jsonable_self v, jsonableItems_self l]

end

/-- `{k: v, ...}` of texts -/
def textItems (d : Dict String String) : Value := .dict (d.items.map fun p => (p.1, .str p.2))

def entryOrder (entry : Dict String String) : Except Err (List String) :=
  ["entry_id", "name", "version"].mapM fun key =>
    match entry.get? key with
    | some text => .ok text
    | none => .error { kind := .Other, message := quoted key }

/-- `sorted(entries, key=lambda item: (item["entry_id"], item["name"], item["version"]))` -/
def sortedEntries (entries : List (Dict String String)) : Except Err (List (Dict String String)) := do
  let keyed ← entries.mapM fun entry => return (← entryOrder entry, entry)
  return (sortedBy Prod.fst keyed).map Prod.snd

/-- `dict(sorted(d.items()))` -/
def sortedItems {ν : Type} (d : Dict String ν) : List (String × ν) := sortedBy Prod.fst d.items

namespace RuntimeSnapshot
variable (s : RuntimeSnapshot)

def pluginItems : Value := .dict ((sortedItems s.plugins).map fun p => (p.1, .str p.2))

def capabilityItems : Value :=
  .dict ((sortedItems s.capabilities).map fun p => (p.1, .list (p.2.map .str)))

def document (entries : Document) : Document :=
  [("format_version", .int SNAPSHOT_FORMAT_VERSION), ("chassis_version", .str s.chassisVersion),
    ("generation_id", .str s.generationId), ("sequence", .int s.sequence),
    ("agent_runtime", .str s.agentRuntime), ("agent", .ofOption s.agent),
    ("agent_revision", .ofOption s.agentRevision), ("plugins", s.pluginItems)] ++ entries ++
  [("capabilities", s.capabilityItems), ("config_hash", .str s.configHash),
    ("plugin_graph_hash", .str s.pluginGraphHash),
    ("graph_definition_hash", .ofOption s.graphDefinitionHash),
    ("tool_schema_hash", .str s.toolSchemaHash), ("prompt_hash", .ofOption s.promptHash),
    ("metadata", .dict (sortedBy Prod.fst s.metadata)), ("scopes", .dict s.scopes),
    ("semantic_scopes", .dict s.semanticScopes),
    ("runtime_instance_ids", .list (s.runtimeInstanceIds.map .str))]

/-- `"plugin_entries"` and these entries, sorted -/
def entryItems (entries : List (Dict String String)) : Except Err Document := do
  return [("plugin_entries", .list ((← sortedEntries entries).map textItems))]

/-- `to_dict`; an entry of a plugin that lacks a field is a `KeyError` -/
def toDict : Except Err Document := do
  let entries ← (s.pluginEntries.map entryItems).getD (.ok [])
  return jsonableItems (s.document entries)

/-- `semantic_composition`; there, no entries are as good as none -/
def semanticComposition : Except Err Document := do
  let entries ← match s.pluginEntries with
    | none | some [] => .ok []
    | some entries => entryItems entries
  return [("plugins", s.pluginItems), ("capabilities", s.capabilityItems),
    ("config_hash", .str s.configHash), ("plugin_graph_hash", .str s.pluginGraphHash),
    ("tool_schema_hash", .str s.toolSchemaHash), ("scopes", .dict s.semanticScopes)] ++ entries

variable [Platform]

def digest : Except Err String := do stableHash (.dict (← s.toDict))

def semanticDigest : Except Err String := do stableHash (.dict (← s.semanticComposition))

end RuntimeSnapshot

/-! ## a document without a version -/

def listOr : Value → Except Err (List Value)
  | .none => .ok []
  | .bool false => .ok []
  | .list l => .ok l
  | .str s => .ok (s.toList.map fun c => .str c.toString)
  | .dict items => .ok (items.map fun p => .str p.1)
  | .bool true => .error { kind := .Other, message := "'bool' object is not iterable" }
  | .int n =>
    if n = 0 then .ok [] else .error { kind := .Other, message := "'int' object is not iterable" }
  | .float q =>
    if q = 0 then .ok [] else .error { kind := .Other, message := "'float' object is not iterable" }
  | .object typeName _ =>
    .error { kind := .Other, message := quoted typeName ++ " object is not iterable" }

def reconstructedScope (scope : Document) : Except Err Value := do
  let get (key : String) : Value := (scope.get? key).getD .none
  let children ← listOr (get "children")
  let entries ← listOr (get "entries")
  let visibleTools ← listOr (get "visible_tools")
  let selections ← listOr (get "selections")
  return .dict [("path", get "path"), ("parent", get "parent"), ("children", .list children),
    ("capabilities", get "capabilities"), ("tools", get "tools"), ("entries", .list entries),
    ("providers", .dict []), ("visible_tools", .list visibleTools),
    ("selections", .list selections)]

def mappings : Value → List Document
  | .list l => l.filterMap fun v =>
    match v with
    | .dict items => some items
    | _ => none
  | _ => []

def reconstructedSemanticScopes (scopes : Document) : Except Err Document := do
  let entries ← (mappings ((scopes.get? "scopes").getD .none)).mapM reconstructedScope
  return [("root", (scopes.get? "root").getD .none), ("scopes", .list entries)]

def recordedScopes (document : Document) : Document :=
  match document.get? "scopes" with
  | some (.dict items) => items
  | _ => []

def migrateSnapshotV0 (document : Document) : Except Err Document := do
  let semanticScopes ← reconstructedSemanticScopes (recordedScopes document)
  return Dict.setItems "semantic_scopes" (.dict semanticScopes) document

def snapshotMigrations (version : Nat) : Option (Document → Except Err Document) :=
  if version = 0 then some migrateSnapshotV0 else none

/-! ## the reader -/

def snapshotCorrupt (detail : String) : Err :=
  FormatError ("snapshot document is corrupted: " ++ detail) "snapshot" "corrupted"

def asMapping : Value → Option Document
  | .dict items => some items
  | _ => none

def asText : Value → Option String
  | .str s => some s
  | _ => none

def asInteger : Value → Option Int
  | .int n => some n
  | _ => none

def asNumber : Value → Option (Int ⊕ Rat)
  | .int n => some (.inl n)
  | .float q => some (.inr q)
  | _ => none

def asList : Value → Option (List Value)
  | .list l => some l
  | _ => none

section
variable {α : Type} (document : Document) (key : String) (read : Value → Option α)

/-- `value(key, expected)` -/
def field : Except Err α :=
  match document.get? key with
  | none => .error (snapshotCorrupt ("missing " ++ quoted key))
  | some found =>
    match read found with
    | some a => .ok a
    | none => .error (snapshotCorrupt (quoted key ++ " has the wrong type"))

/-- `value(key, expected, optional=True)` -/
def optionalField : Except Err (Option α) :=
  match document.get? key with
  | none => .ok none
  | some .none => .ok none
  | some found =>
    match read found with
    | some a => .ok (some a)
    | none => .error (snapshotCorrupt (quoted key ++ " has the wrong type"))

theorem optionalField_found {document : Document} {key : String} {found : Value}
    (hget : document.get? key = some found) (hne : found ≠ .none) :
    optionalField document key read =
      match read found with
      | some a => .ok (some a)
      | none => .error (snapshotCorrupt (quoted key ++ " has the wrong type")) := by
  unfold optionalField
  rw [hget]
  cases found with
  | none => exact absurd rfl hne
  | _ => rfl

/-- what was found is well formed, or the document is corrupted -/
def wellFormed (found : Option α) (detail : String) : Except Err α :=
  match found with
  | some a => .ok a
  | none => .error (snapshotCorrupt detail)

end

def textMapping (items : Document) : Option (Dict String String) := do
  let pairs ← items.mapM fun p => do return (p.1, ← asText p.2)
  return Dict.ofList pairs

def textListMapping (items : Document) : Option (Dict String (List String)) := do
  let pairs ← items.mapM fun p => do return (p.1, ← (← asList p.2).mapM asText)
  return Dict.ofList pairs

def entryFields : List String := ["entry_id", "name", "version"]

/-- an entry of a plugin: `entry_id`, `name` and `version`, texts all three, and nothing else -/
def pluginEntry (v : Value) : Option (Dict String String) := do
  let items ← asMapping v
  let keys := items.map Prod.fst
  if (∀ k ∈ keys, k ∈ entryFields) ∧ ∀ k ∈ entryFields, k ∈ keys then textMapping items else none

def pluginEntriesOf (document : Document) : Except Err (Option (List (Dict String String))) :=
  match document.get? "plugin_entries" with
  | none => .ok none
  | some .none => .error (snapshotCorrupt "'plugin_entries' must be a list when present")
  | some found =>
    match (asList found).bind fun l => l.mapM pluginEntry with
    | none => .error (snapshotCorrupt
        "'plugin_entries' must contain entry_id, name, and version strings")
    | some entries =>
      if (entries.map fun entry => entry.get? "entry_id").Nodup then .ok (some entries)
      else .error (snapshotCorrupt "'plugin_entries' must have unique entry_id values")

theorem pluginEntriesOf_found {document : Document} {found : Value}
    (hget : document.get? "plugin_entries" = some found) (hne : found ≠ .none) :
    pluginEntriesOf document =
      match (asList found).bind fun l => l.mapM pluginEntry with
      | none => .error (snapshotCorrupt
          "'plugin_entries' must contain entry_id, name, and version strings")
      | some entries =>
        if (entries.map fun entry => entry.get? "entry_id").Nodup then .ok (some entries)
        else .error (snapshotCorrupt "'plugin_entries' must have unique entry_id values") := by
  unfold pluginEntriesOf
  rw [hget]
  cases found with
  | none => exact absurd rfl hne
  | _ => rfl

/-- `float(n)` of what `floatOfInt` makes of it -/
def converted : Option Rat → Except Err Rat
  | some q => .ok q
  | none => .error { kind := .Other, message := "int too large to convert to float" }

/-- `float(created_at) if created_at is not None else 0.0` -/
def createdAtOf : Option (Int ⊕ Rat) → Except Err Rat
  | none => .ok 0
  | some (.inr q) => .ok q
  | some (.inl n) => converted (floatOfInt n)

namespace RuntimeSnapshot

def head (document : Document) : Except Err (RuntimeSnapshot × Option (Int ⊕ Rat)) := do
  let plugins ← field document "plugins" asMapping
  let pluginEntries ← pluginEntriesOf document
  let capabilities ← field document "capabilities" asMapping
  let metadata ← optionalField document "metadata" asMapping
  let plugins ← wellFormed (textMapping plugins) "'plugins' must map names to versions"
  let capabilities ← wellFormed (textListMapping capabilities)
    "'capabilities' must map names to version lists"
  let createdAt ← optionalField document "created_at" asNumber
  let sequence ← field document "sequence" asInteger
  return ({
    chassisVersion := ← field document "chassis_version" asText
    generationId := ← field document "generation_id" asText
    sequence := sequence
    agentRuntime := ← field document "agent_runtime" asText
    plugins := plugins
    pluginEntries := pluginEntries
    capabilities := capabilities
    configHash := ← field document "config_hash" asText
    pluginGraphHash := ← field document "plugin_graph_hash" asText
    toolSchemaHash := ← field document "tool_schema_hash" asText
    graphDefinitionHash := ← optionalField document "graph_definition_hash" asText
    promptHash := ← optionalField document "prompt_hash" asText
    agent := ← optionalField document "agent" asText
    agentRevision := ← optionalField document "agent_revision" asText
    createdAt := 0
    metadata := metadata.getD [] }, createdAt)

def fromDict [Platform] (payload : Document) : Except Err RuntimeSnapshot := do
  let document ← migratePayload payload "snapshot" SNAPSHOT_FORMAT_VERSION snapshotMigrations
  let (s, createdAt) ← head document
  let createdAt ← createdAtOf createdAt
  let scopes ← field document "scopes" asMapping
  let ids ← field document "runtime_instance_ids" asList
  let runtimeInstanceIds ← wellFormed (ids.mapM asText)
    "'runtime_instance_ids' must contain strings"
  let semanticScopes ← field document "semantic_scopes" asMapping
  return { s with
    createdAt := createdAt
    scopes := scopes
    runtimeInstanceIds := runtimeInstanceIds
    semanticScopes := semanticScopes }

end RuntimeSnapshot
end Chassis
