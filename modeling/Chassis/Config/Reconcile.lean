import Chassis.Config.Models
import Chassis.Core.Identity

/-!
# Desired-state reconciliation

* `InstalledEntry`       what a harness has installed under one entry id;
* `diffDesiredState`     the operations that lead from what is installed to what is desired, by
                         entry id;
* `diffDesiredState_ok`  when there is a diff, and what it says of each id.
-/

namespace Chassis
open Py

namespace Declarative

/-- operation derived for one plugin entry -/
inductive DesiredStateAction
  | add
  | remove
  | unchanged
  | replace
  /-- reserved; never derived -/
  | reconfigure
  deriving DecidableEq, Repr

structure DesiredStateChange where
  action : DesiredStateAction
  entryId : String
  plugin : Option String := none
  reason : String := ""
  deriving DecidableEq

def DesiredStateChange.isMutation (c : DesiredStateChange) : Bool :=
  c.action = .add || c.action = .remove || c.action = .replace

structure InstalledEntry where
  entryId : String
  plugin : String
  revision : Nat
  configFingerprint : String
  deriving DecidableEq

variable [Platform]

/-- the operation on one entry id -/
def changeOf (entryId : String) :
    Option PluginEntryConfig → Option InstalledEntry → Except Err DesiredStateChange
  | some entry, none => .ok ⟨.add, entryId, some entry.plugin, "entry is desired but not installed"⟩
  | none, some current =>
    .ok ⟨.remove, entryId, some current.plugin, "entry is installed but no longer desired"⟩
  | none, none => .error { kind := .Other, message := "" }
  | some entry, some current =>
    if entry.plugin ≠ current.plugin then
      .ok ⟨.replace, entryId, some entry.plugin,
        "implementation changed from " ++ quoted current.plugin⟩
    else do
      let fingerprint ← configFingerprint entry.plugin entry.config
      if fingerprint ≠ current.configFingerprint then
        return ⟨.replace, entryId, some entry.plugin,
          "configuration changed; in-place reconfigure is not supported"⟩
      else return ⟨.unchanged, entryId, some entry.plugin, ""⟩

/-- an entry that is wanted and installed is replaced, or it is as it is wanted -/
theorem changeOf_both {id : String} {wanted : PluginEntryConfig} {current : InstalledEntry}
    {change : DesiredStateChange} (h : changeOf id (some wanted) (some current) = .ok change) :
    change.action = .replace ∨ (change.action = .unchanged ∧ wanted.plugin = current.plugin ∧
      configFingerprint wanted.plugin wanted.config = .ok current.configFingerprint) := by
  unfold changeOf at h
  simp only at h
  split at h
  · cases h
    exact Or.inl rfl
  · rename_i hplugin
    obtain ⟨fingerprint, hf, h⟩ := bind_ok.1 h
    split at h
    · cases h
      exact Or.inl rfl
    · rename_i heq
      cases h
      exact Or.inr ⟨rfl, not_not.1 hplugin, by rw [hf, not_not.1 heq]⟩

theorem changeOf_same {id : String} {wanted : PluginEntryConfig} {current : InstalledEntry}
    (hplugin : wanted.plugin = current.plugin)
    (hf : configFingerprint wanted.plugin wanted.config = .ok current.configFingerprint) :
    changeOf id (some wanted) (some current) = .ok ⟨.unchanged, id, some wanted.plugin, ""⟩ := by
  unfold changeOf
  simp only
  rw [if_neg (not_not.2 hplugin), hf]
  refine bind_ok.2 ⟨_, rfl, ?_⟩
  rw [if_neg (not_not.2 rfl)]
  rfl

def concernedIds (desired : HarnessConfig) (installed : Dict String InstalledEntry) : List String :=
  sorted (desired.enabledEntries.map PluginEntryConfig.id ++ installed.keys).dedup

def diffDesiredState (desired : HarnessConfig) (installed : Dict String InstalledEntry) :
    Except Err (List DesiredStateChange) :=
  (concernedIds desired installed).mapM fun id =>
    changeOf id (desired.wanted? id) (installed.get? id)

omit [Platform] in
theorem mem_concernedIds {desired : HarnessConfig} {installed : Dict String InstalledEntry}
    {id : String} : id ∈ concernedIds desired installed ↔
      (desired.wanted? id).isSome ∨ (installed.get? id).isSome := by
  unfold concernedIds
  rw [mem_sortedBy, List.mem_dedup, List.mem_append, List.mem_map, Dict.mem_keys,
    Option.isSome_iff_exists, Option.isSome_iff_exists]
  refine or_congr_left ⟨?_, ?_⟩
  · rintro ⟨e, he, rfl⟩
    exact ⟨e, desired.wanted?_eq_some.2 ⟨he, rfl⟩⟩
  · rintro ⟨e, he⟩
    obtain ⟨hin, rfl⟩ := desired.wanted?_eq_some.1 he
    exact ⟨e, hin, rfl⟩

theorem changeOf_entryId {id : String} {entry : Option PluginEntryConfig}
    {current : Option InstalledEntry} {change : DesiredStateChange}
    (h : changeOf id entry current = .ok change) : change.entryId = id := by
  unfold changeOf at h
  split at h
  · cases h
    rfl
  · cases h
    rfl
  · cases h
  · split at h
    · cases h
      rfl
    · obtain ⟨fingerprint, -, h⟩ := bind_ok.1 h
      split at h <;> cases h <;> rfl

/-- **A diff has one operation for every id**, in the order of the ids. -/
theorem diffDesiredState_ok {desired : HarnessConfig} {installed : Dict String InstalledEntry}
    {changes : List DesiredStateChange} (h : diffDesiredState desired installed = .ok changes) :
    changes.map DesiredStateChange.entryId = concernedIds desired installed ∧
      ∀ change ∈ changes, changeOf change.entryId (desired.wanted? change.entryId)
        (installed.get? change.entryId) = .ok change := by
  refine ⟨mapM_ok_map (fun _ _ hc => changeOf_entryId hc) h, fun change hin => ?_⟩
  obtain ⟨id, -, hc⟩ := mapM_ok_mem h hin
  rw [changeOf_entryId hc]
  exact hc

omit [Platform] in
theorem concernedIds_nodup (desired : HarnessConfig) (installed : Dict String InstalledEntry) :
    (concernedIds desired installed).Nodup := sortedBy_nodup (List.nodup_dedup _)

end Declarative
end Chassis
