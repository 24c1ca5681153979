import Chassis.Lib.Dict
import Chassis.Lib.Fallible
import Chassis.Capabilities.Keys

/-!
# Plugin manifests

What a plugin provides and requires.  The four readings of a manifest
(`providedContracts`, `providedKeys`, `requiredCapabilities`, `optionalCapabilities`) go through
its mappings in the order of their keys.
-/

namespace Chassis
open Py

/-- the implementation version(s) provided under one capability name -/
inductive Provided
  | one (version : String)
  | many (versions : List String)
  deriving DecidableEq

def Provided.versions : Provided → List String
  | .one v => [v]
  | .many vs => vs

structure PluginManifest where
  name : String
  version : String
  provides : Dict String Provided := Dict.empty
  requires : Dict String String := Dict.empty
  optional : Dict String String := Dict.empty
  permissions : List String := []
  configVersion : Int := 1
  implementationRevision : Option String := none
  deriving DecidableEq

namespace PluginManifest

def identity (m : PluginManifest) : String := m.name ++ "@" ++ m.version

def providedContracts (m : PluginManifest) : List (String × String) :=
  (sortedBy Prod.fst m.provides.items).flatMap fun p => p.2.versions.map fun v => (p.1, v)

variable [Packaging]

/-- the contracts the plugin implements -/
def providedKeys (m : PluginManifest) : Except Err (List CapabilityKey) :=
  m.providedContracts.mapM fun c => CapabilityKey.fromVersion c.1 c.2

/-- the plugin declares a contract at a version -/
def Contract (m : PluginManifest) (key : CapabilityKey) (version : Version) : Prop :=
  ∃ nv ∈ m.providedContracts,
    CapabilityKey.fromVersion nv.1 nv.2 = .ok key ∧ parseVersion nv.2 nv.1 = .ok version

def requiredCapabilities (m : PluginManifest) : Except Err (List CapabilityRequirement) :=
  (sortedBy Prod.fst m.requires.items).mapM fun p => CapabilityRequirement.parse p.1 p.2 false

def optionalCapabilities (m : PluginManifest) : Except Err (List CapabilityRequirement) :=
  (sortedBy Prod.fst m.optional.items).mapM fun p => CapabilityRequirement.parse p.1 p.2 true

/-! ## what the readings return -/

theorem requiredCapabilities_hard {m : PluginManifest} {l : List CapabilityRequirement}
    (h : m.requiredCapabilities = .ok l) {r : CapabilityRequirement} (hr : r ∈ l) :
    r.optional = false ∧ r.name ∈ m.requires.keys := by
  obtain ⟨p, hp, hpr⟩ := mapM_ok_mem h hr
  obtain ⟨hname, hopt⟩ := CapabilityRequirement.parse_eq hpr
  refine ⟨hopt, ?_⟩
  rw [hname]
  exact List.mem_map_of_mem (mem_sortedBy.1 hp)

theorem optionalCapabilities_soft {m : PluginManifest} {l : List CapabilityRequirement}
    (h : m.optionalCapabilities = .ok l) {r : CapabilityRequirement} (hr : r ∈ l) :
    r.optional = true ∧ r.name ∈ m.optional.keys := by
  obtain ⟨p, hp, hpr⟩ := mapM_ok_mem h hr
  obtain ⟨hname, hopt⟩ := CapabilityRequirement.parse_eq hpr
  refine ⟨hopt, ?_⟩
  rw [hname]
  exact List.mem_map_of_mem (mem_sortedBy.1 hp)

theorem requiredCapabilities_names {m : PluginManifest} {l : List CapabilityRequirement}
    (h : m.requiredCapabilities = .ok l) : (l.map CapabilityRequirement.name).Nodup := by
  rw [mapM_ok_keys (fun _ _ hr => (CapabilityRequirement.parse_eq hr).1) h]
  exact ((sortedBy_perm Prod.fst m.requires.items).map Prod.fst).nodup_iff.2 m.requires.nodup

theorem optionalCapabilities_names {m : PluginManifest} {l : List CapabilityRequirement}
    (h : m.optionalCapabilities = .ok l) : (l.map CapabilityRequirement.name).Nodup := by
  rw [mapM_ok_keys (fun _ _ hr => (CapabilityRequirement.parse_eq hr).1) h]
  exact ((sortedBy_perm Prod.fst m.optional.items).map Prod.fst).nodup_iff.2 m.optional.nodup

end PluginManifest
end Chassis
