import Chassis.Plugins.Registry

/-!
# Plugin classes and the catalog

* `PluginSource`    what can be installed: a plugin, or a class that constructs one;
* `PluginCatalog`   the classes by the name a configuration uses for them, which need not be the
                    name in their manifests;
* `installFrom`     `install` of either, with the configuration it is installed with;
* `CapturedEntry`   an entry as it was, for undoing.
-/

namespace Chassis
open Py

/-- what calling a plugin class makes -/
inductive Constructed
  | plugin (p : Plugin)
  /-- an object that declares no manifest, by its type -/
  | other (typeName : String)

/-- the constructor of a plugin class, which is given a configuration or none -/
abbrev PluginType := Option (Dict String Value) → Except Err Constructed

inductive PluginSource
  | object (plugin : Plugin)
  | class (construct : PluginType)

def Plugin.typeName (p : Plugin) : String := ((split '.' p.implementation).getLast?).getD ""

/-- the plugin to install, with its effective configuration -/
def PluginSource.made (config : Option (Dict String Value)) : PluginSource → Except Err Plugin
  | .object plugin =>
    if config.any (fun c => !Value.same (.dict c.items) (.dict plugin.config.items)) then
      .error (ConfigurationError
        "configuration for a plugin instance must match its constructed config"
        [("plugin", plugin.typeName)])
    else .ok { plugin with config := config.getD plugin.config }
  | .class construct => do
    match ← construct config with
    | .plugin plugin => .ok { plugin with config := config.getD plugin.config }
    | .other typeName => .error (PluginLoadError "plugin does not declare a PluginManifest"
        [("plugin", typeName)])

abbrev PluginCatalog := Dict String PluginType

def PluginCatalog.find (c : PluginCatalog) (name : String) : Except Err PluginType :=
  match c.get? name with
  | some construct => .ok construct
  | none => .error (ConfigurationError "plugin implementation is not registered"
      [("plugin", name), ("available", join ", " (sorted c.keys))])

/-- one desired entry exactly as captured before a batch of changes -/
structure CapturedEntry where
  entry : Option PluginEntry
  revision : Option Nat
  deriving DecidableEq

namespace PluginRegistry
variable (r : PluginRegistry)

def installFrom (source : PluginSource) (entryId : Option String)
    (config : Option (Dict String Value)) (replace : Bool) (scope : String) :
    Except Err (PluginEntry × PluginRegistry) := do
  let plugin ← source.made config
  r.install plugin entryId replace scope

def captureEntry (entryId : String) : CapturedEntry :=
  ⟨r.entries.get? entryId, r.revisions.get? entryId⟩

/-- no reinstall, no new revision -/
def restoreEntry (entryId : String) (captured : CapturedEntry) : PluginRegistry :=
  { r with
    entries := match captured.entry with
      | none => r.entries.erase entryId
      | some entry => r.entries.set entryId entry
    revisions := match captured.revision with
      | none => r.revisions.erase entryId
      | some revision => r.revisions.set entryId revision }

/-- the same entries and revisions, in whatever order -/
structure SameDesired (r r' : PluginRegistry) : Prop where
  entries : ∀ id, r'.entries.get? id = r.entries.get? id
  revisions : ∀ id, r'.revisions.get? id = r.revisions.get? id

/-- an operation on one entry -/
structure Touches (entryId : String) (r r' : PluginRegistry) : Prop where
  entries : ∀ id, id ≠ entryId → r'.entries.get? id = r.entries.get? id
  revisions : ∀ id, id ≠ entryId → r'.revisions.get? id = r.revisions.get? id
  instances : r'.instances = r.instances
  byEntry : r'.byEntry = r.byEntry

theorem SameDesired.refl (r : PluginRegistry) : SameDesired r r := ⟨fun _ => rfl, fun _ => rfl⟩

theorem SameDesired.trans {r r' r'' : PluginRegistry} (h : SameDesired r r')
    (h' : SameDesired r' r'') : SameDesired r r'' :=
  ⟨fun id => (h'.entries id).trans (h.entries id),
    fun id => (h'.revisions id).trans (h.revisions id)⟩

/-- **What happened to one entry is undone by restoring it.** -/
theorem Touches.restore {r r' r'' : PluginRegistry} {entryId : String}
    (h : Touches entryId r r') (h' : SameDesired r' r'') :
    SameDesired r (r''.restoreEntry entryId (r.captureEntry entryId)) := by
  refine ⟨fun id => ?_, fun id => ?_⟩
  · rcases eq_or_ne id entryId with rfl | hne
    · show Dict.get? (match r.entries.get? id with
        | none => r''.entries.erase id
        | some entry => r''.entries.set id entry) id = _
      rcases hget : r.entries.get? id with _ | entry
      · exact Dict.get?_erase_self _ _
      · exact Dict.get?_set_self _ _ _
    · refine Eq.trans ?_ ((h'.entries id).trans (h.entries id hne))
      show Dict.get? (match r.entries.get? entryId with
        | none => r''.entries.erase entryId
        | some entry => r''.entries.set entryId entry) id = _
      rcases r.entries.get? entryId with _ | entry
      · exact Dict.get?_erase_ne _ hne
      · exact Dict.get?_set_ne _ _ hne
  · rcases eq_or_ne id entryId with rfl | hne
    · show Dict.get? (match r.revisions.get? id with
        | none => r''.revisions.erase id
        | some revision => r''.revisions.set id revision) id = _
      rcases hget : r.revisions.get? id with _ | revision
      · exact Dict.get?_erase_self _ _
      · exact Dict.get?_set_self _ _ _
    · refine Eq.trans ?_ ((h'.revisions id).trans (h.revisions id hne))
      show Dict.get? (match r.revisions.get? entryId with
        | none => r''.revisions.erase entryId
        | some revision => r''.revisions.set entryId revision) id = _
      rcases r.revisions.get? entryId with _ | revision
      · exact Dict.get?_erase_ne _ hne
      · exact Dict.get?_set_ne _ _ hne

theorem uninstall_touches (r : PluginRegistry) (entryId : String) :
    Touches entryId r (r.uninstall entryId).2 :=
  ⟨fun _ hne => Dict.get?_erase_ne _ hne, fun _ _ => rfl, rfl, rfl⟩

/-- **The entries of a scope**, where entries are kept under their own ids. -/
theorem mem_entriesForScope {r : PluginRegistry}
    (hkeys : ∀ id e, r.entries.get? id = some e → e.entryId = id) {path id : String} :
    id ∈ r.entriesForScope path ↔ ∃ e, r.entries.get? id = some e ∧ e.scope = path := by
  unfold entriesForScope sortedEntries
  rw [List.mem_map]
  constructor
  · rintro ⟨e, he, rfl⟩
    obtain ⟨hin, hscope⟩ := List.mem_filter.1 he
    obtain ⟨k, hk⟩ := Dict.mem_values.1 (mem_sortedBy.1 hin)
    refine ⟨e, ?_, of_decide_eq_true hscope⟩
    rw [hkeys _ _ hk]
    exact hk
  · rintro ⟨e, he, hscope⟩
    refine ⟨e, List.mem_filter.2 ⟨mem_sortedBy.2 (Dict.mem_values.2 ⟨id, he⟩), ?_⟩, hkeys _ _ he⟩
    exact decide_eq_true hscope

theorem nodup_entriesForScope {r : PluginRegistry}
    (hkeys : ∀ id e, r.entries.get? id = some e → e.entryId = id) (path : String) :
    (r.entriesForScope path).Nodup := by
  have hvalues : (r.entries.values.map PluginEntry.entryId).Nodup := by
    have hmap : r.entries.values.map PluginEntry.entryId = r.entries.keys := by
      unfold Dict.values Dict.keys
      rw [List.map_map]
      exact List.map_congr_left fun p hp => hkeys _ _ (Dict.mem_items.1 hp)
    rw [hmap]
    exact r.entries.keys_nodup
  unfold entriesForScope sortedEntries
  have hsorted := ((sortedBy_perm PluginEntry.entryId r.entries.values).map
    PluginEntry.entryId).nodup_iff.2 hvalues
  exact hsorted.sublist (List.filter_sublist.map _)

theorem uninstallEach (r : PluginRegistry) (ids : List String) :
    ids.foldl (fun r e => (r.uninstall e).2) r =
      { r with entries := ids.foldl (fun d e => d.erase e) r.entries } := by
  induction ids generalizing r with
  | nil => rfl
  | cons id ids ih =>
    rw [List.foldl_cons, ih]
    rfl

theorem install_ok {r r' : PluginRegistry} {plugin : Plugin} {entryId : Option String}
    {replace : Bool} {scope : String} {entry : PluginEntry}
    (h : r.install plugin entryId replace scope = .ok (entry, r')) :
    entry.entryId = entryId.getD (r.defaultEntryId plugin.manifest) ∧
      entry.plugin = plugin ∧ entry.manifest = plugin.manifest ∧ entry.config = plugin.config ∧
      entry.scope = scope ∧ entry.revision = (r.revisions.get? entry.entryId).getD 0 + 1 ∧
      r' = { r with
        entries := r.entries.set entry.entryId entry
        revisions := r.revisions.set entry.entryId entry.revision } := by
  unfold install at h
  split at h
  · cases h
  · simp only at h
    split at h
    · cases h
    · cases h
      exact ⟨rfl, rfl, rfl, rfl, rfl, rfl, rfl⟩

theorem install_touches {r r' : PluginRegistry} {plugin : Plugin} {entryId : Option String}
    {replace : Bool} {scope : String} {entry : PluginEntry}
    (h : r.install plugin entryId replace scope = .ok (entry, r')) :
    Touches entry.entryId r r' := by
  obtain ⟨-, -, -, -, -, -, rfl⟩ := install_ok h
  exact ⟨fun _ hne => Dict.get?_set_ne _ _ hne, fun _ hne => Dict.get?_set_ne _ _ hne, rfl, rfl⟩

end PluginRegistry
end Chassis
