import Chassis.Plugins.Registry

/-!
# Declarative configuration

* `PluginEntryConfig`   one desired plugin entry;
* `HarnessConfig`       the complete desired state of one harness.

What the validators of the source check is a field here: a configuration that does not pass them
cannot be built.
-/

namespace Chassis
open Py

namespace Declarative

/-- `config_version must be a non-negative integer` -/
def validConfigVersion (config : Dict String Value) : Bool :=
  match config.get? "config_version" with
  | none => true
  | some .none => true
  | some (.int n) => 0 ≤ n
  | some _ => false

/-- one desired plugin entry; the plugin is named as in the catalog -/
structure PluginEntryConfig where
  id : String
  plugin : String
  config : Dict String Value := Dict.empty
  enabled : Bool := true
  providerPreference : Dict String String := Dict.empty
  id_valid : PluginRegistry.validEntryId id = true
  plugin_nonempty : plugin ≠ ""
  version_valid : validConfigVersion config = true

theorem PluginEntryConfig.version_empty : validConfigVersion Dict.empty = true := by decide

/-- complete desired state for one harness -/
structure HarnessConfig where
  version : Int := 1
  plugins : List PluginEntryConfig := []
  providerPreferences : Dict String String := Dict.empty
  version_supported : version = 1
  ids_unique : (plugins.map PluginEntryConfig.id).Nodup

namespace HarnessConfig

theorem version_one : (1 : Int) = 1 := rfl

variable (c : HarnessConfig)

def enabledEntries : List PluginEntryConfig := c.plugins.filter PluginEntryConfig.enabled

def entry? (entryId : String) : Option PluginEntryConfig :=
  c.plugins.find? fun e => e.id = entryId

/-- `{entry.id: entry for entry in enabled_entries}.get(id)` -/
def wanted? (entryId : String) : Option PluginEntryConfig :=
  c.enabledEntries.find? fun e => e.id = entryId

theorem enabled_unique : (c.enabledEntries.map PluginEntryConfig.id).Nodup :=
  c.ids_unique.sublist (List.filter_sublist.map _)

theorem wanted?_eq_some {id : String} {e : PluginEntryConfig} :
    c.wanted? id = some e ↔ e ∈ c.enabledEntries ∧ e.id = id := find?_key c.enabled_unique

theorem entry?_of_wanted {id : String} {e : PluginEntryConfig} (h : c.wanted? id = some e) :
    c.entry? id = some e := by
  obtain ⟨he, hid⟩ := c.wanted?_eq_some.1 h
  exact (find?_key c.ids_unique).2 ⟨(List.mem_filter.1 he).1, hid⟩

end HarnessConfig
end Declarative
end Chassis
