import Chassis.Capabilities.Plain
import Chassis.Config.Reconcile
import Chassis.Harness.System

/-!
# Applying a declarative configuration

* `installFrom`         `install` of a plugin or of a class;
* `applyConfig`         the configuration is checked as a whole, then its changes are carried out as
                        one transaction, each with what undoes it;
* `applyConfig_atomic`  **an application that raises leaves the desired state as it was.**
-/

set_option linter.unusedSectionVars false

namespace Chassis
open Py Declarative

section
variable [Packaging] [Platform]

namespace Harness
variable (h : Harness)

/-- `install`, with the configuration for it -/
def installFrom (source : PluginSource) (entryId : Option String)
    (config : Option (Dict String Value)) (replace : Bool) (scope : Option String) :
    Except Err (String × Harness) := do
  let path ← h.scopePath scope
  let (entry, plugins) ← h.plugins.installFrom source entryId config replace path
  return (entry.entryId, { h with plugins := plugins, dirty := true })

def stageConfig (c : Declarative.HarnessConfig) : Except Err Unit := do
  c.plugins.forM fun entry => do
    let _ ← h.catalog.find entry.plugin
  let preferences := c.enabledEntries.foldl (fun d e => d.update e.providerPreference)
    c.providerPreferences
  preferences.items.forM fun p =>
    if strip p.1 = "" ∨ strip p.2 = "" then
      .error (ConfigurationError
        "provider preferences need a non-empty capability and provider" [("capability", p.1)])
    else .ok ()

def installedEntry (e : PluginEntry) : Except Err InstalledEntry := do
  let fingerprint ← configFingerprint e.manifest.name e.config
  return ⟨e.entryId, e.manifest.name, e.revision, fingerprint⟩

def installedState : Except Err (Dict String InstalledEntry) := do
  let installed ← h.plugins.sortedEntries.mapM installedEntry
  return Dict.ofList (installed.map fun e => (e.entryId, e))

/-- the preferences a configuration owns: its own, then those of its entries -/
def preferencesOf (c : Declarative.HarnessConfig) : Dict String String :=
  c.enabledEntries.foldl (fun d e => e.providerPreference.items.foldl (fun d p =>
    d.set (e.id ++ ":" ++ p.1) p.2) d) c.providerPreferences

/-- a change that was undertaken, with the entry as it was before -/
abbrev Undo := String × CapturedEntry

def entryRestorer (entryId : String) : Undo := (entryId, h.plugins.captureEntry entryId)

def restoreEntry (undo : Undo) : Harness :=
  { h with plugins := h.plugins.restoreEntry undo.1 undo.2 }

/-- one change: what would undo it, if it is undertaken, and the harness after it -/
def applyChange (c : Declarative.HarnessConfig) (change : DesiredStateChange) :
    List Undo × Except Err Harness :=
  if change.action = .remove then
    ([h.entryRestorer change.entryId], .ok (h.uninstall change.entryId).2)
  else
    match c.entry? change.entryId with
    | none => ([], .ok h)
    | some entry =>
      ([h.entryRestorer entry.id], do
        let construct ← h.catalog.find entry.plugin
        let (_, h) ← h.installFrom (.class construct) (some entry.id) (some entry.config)
          (change.action = .replace) none
        return h)

/-- The changes one after the other, up to the first that raises: what it raised, the harness by
then, and what would undo it all, newest first. -/
def applyChanges (c : Declarative.HarnessConfig) :
    List DesiredStateChange → Harness → List Undo → Option Err × Harness × List Undo
  | [], h, undo => (none, h, undo)
  | change :: rest, h, undo =>
    if change.isMutation then
      match h.applyChange c change with
      | (undone, .ok h') => applyChanges c rest h' (undone ++ undo)
      | (undone, .error e) => (some e, h, undone ++ undo)
    else applyChanges c rest h undo

structure ConfigApplyResult where
  config : Declarative.HarnessConfig
  changes : List DesiredStateChange
  applied : List DesiredStateChange

def applyConfig (c : Declarative.HarnessConfig) : Except Err ConfigApplyResult × Harness :=
  let staged : Except Err (List DesiredStateChange) := do
    h.stageConfig c
    diffDesiredState c (← h.installedState)
  match staged with
  | .error e => (.error e, h)
  | .ok changes =>
    match applyChanges c changes h [] with
    | (some e, h', undo) =>
      (.error e, { undo.foldl restoreEntry h' with
        configPreferences := h.configPreferences, config := h.config, dirty := h.dirty })
    | (none, h', _) =>
      let preferences := preferencesOf c
      (.ok ⟨c, changes, changes.filter DesiredStateChange.isMutation⟩,
        { h' with
          configPreferences := preferences
          config := some c
          dirty := h'.dirty || !preferences.same h.configPreferences })

/-- what `start` does first, with a configuration that was handed to the constructor -/
def applyPending : Except Err Unit × Harness :=
  match h.pendingConfig with
  | none => (.ok (), h)
  | some c =>
    let (result, h') := { h with pendingConfig := none }.applyConfig c
    (result.map fun _ => (), h')

end Harness

/-! ## what a change touches -/

/-- a harness that differs at most in its desired entries and the pending flag -/
structure SameButEntries (h h' : Harness) : Prop where
  rest : h' = { h with plugins := h'.plugins, dirty := h'.dirty }
  instances : h'.plugins.instances = h.plugins.instances
  byEntry : h'.plugins.byEntry = h.plugins.byEntry

theorem SameButEntries.refl (h : Harness) : SameButEntries h h := ⟨rfl, rfl, rfl⟩

theorem SameButEntries.trans {h h' h'' : Harness} (hs : SameButEntries h h')
    (hs' : SameButEntries h' h'') : SameButEntries h h'' := by
  refine ⟨?_, hs'.instances.trans hs.instances, hs'.byEntry.trans hs.byEntry⟩
  rw [hs'.rest, hs.rest]

theorem Harness.uninstall_entries (h : Harness) (entryId : String) :
    SameButEntries h (h.uninstall entryId).2 := ⟨rfl, rfl, rfl⟩

theorem Harness.installFrom_ok {h h' : Harness} {source : PluginSource} {entryId : Option String}
    {config : Option (Dict String Value)} {replace : Bool} {scope : Option String} {id : String}
    (hi : h.installFrom source entryId config replace scope = .ok (id, h')) :
    ∃ path plugin entry, h.scopePath scope = .ok path ∧ source.made config = .ok plugin ∧
      h.plugins.install plugin entryId replace path = .ok (entry, h'.plugins) ∧
      id = entry.entryId ∧ h' = { h with plugins := h'.plugins, dirty := true } := by
  obtain ⟨path, hpath, hi⟩ := bind_ok.1 hi
  obtain ⟨⟨entry, plugins⟩, hp, hi⟩ := bind_ok.1 hi
  obtain ⟨plugin, hmade, hp⟩ := bind_ok.1 hp
  cases hi
  exact ⟨path, plugin, entry, hpath, hmade, hp, rfl, rfl⟩

/-- **One change touches the entry it can undo**, and nothing if there is nothing to undo. -/
theorem Harness.applyChange_ok {h h' : Harness} {c : Declarative.HarnessConfig}
    {change : DesiredStateChange} {undone : List Harness.Undo}
    (hc : h.applyChange c change = (undone, .ok h')) : SameButEntries h h' ∧
      ((undone = [] ∧ h' = h) ∨ ∃ id, undone = [h.entryRestorer id] ∧
        PluginRegistry.Touches id h.plugins h'.plugins) := by
  unfold Harness.applyChange at hc
  split at hc
  · obtain ⟨rfl, hok⟩ := Prod.mk.inj hc
    cases hok
    exact ⟨h.uninstall_entries _, Or.inr ⟨_, rfl, PluginRegistry.uninstall_touches _ _⟩⟩
  · split at hc
    · obtain ⟨rfl, hok⟩ := Prod.mk.inj hc
      cases hok
      exact ⟨.refl h, Or.inl ⟨rfl, rfl⟩⟩
    · rename_i entry hentry
      obtain ⟨rfl, hok⟩ := Prod.mk.inj hc
      obtain ⟨construct, -, hok⟩ := bind_ok.1 hok
      obtain ⟨⟨id, h₁⟩, hi, hok⟩ := bind_ok.1 hok
      cases hok
      obtain ⟨path, plugin, e, -, -, hp, -, hrest⟩ := Harness.installFrom_ok hi
      have htouch := PluginRegistry.install_touches hp
      have hid : e.entryId = entry.id := (PluginRegistry.install_ok hp).1
      refine ⟨⟨?_, htouch.instances, htouch.byEntry⟩, Or.inr ⟨entry.id, rfl, hid ▸ htouch⟩⟩
      rw [hrest]

theorem Harness.applyChange_undone {h : Harness} {c : Declarative.HarnessConfig}
    {change : DesiredStateChange} {undone : List Harness.Undo} {r : Except Err Harness}
    (hc : h.applyChange c change = (undone, r)) :
    undone = [] ∨ ∃ id, undone = [h.entryRestorer id] := by
  unfold Harness.applyChange at hc
  split at hc
  · exact Or.inr ⟨_, (Prod.mk.inj hc).1.symm⟩
  · split at hc
    · exact Or.inl (Prod.mk.inj hc).1.symm
    · exact Or.inr ⟨_, (Prod.mk.inj hc).1.symm⟩

theorem Harness.applyConfig_ok {h : Harness} {c : Declarative.HarnessConfig}
    {result : ConfigApplyResult} (hok : (h.applyConfig c).1 = .ok result) :
    ∃ changes h₁ undo, (∃ installed, h.stageConfig c = .ok () ∧ h.installedState = .ok installed ∧
        diffDesiredState c installed = .ok changes) ∧
      Harness.applyChanges c changes h [] = (none, h₁, undo) ∧
      result = ⟨c, changes, changes.filter DesiredStateChange.isMutation⟩ ∧
      (h.applyConfig c).2 = { h₁ with
        configPreferences := Harness.preferencesOf c
        config := some c
        dirty := h₁.dirty || !(Harness.preferencesOf c).same h.configPreferences } := by
  unfold Harness.applyConfig at hok ⊢
  simp only at hok ⊢
  split at hok
  · cases hok
  · rename_i changes hstaged
    obtain ⟨_, hstage, hdiff⟩ := bind_ok.1 hstaged
    obtain ⟨installed, hinst, hdiff⟩ := bind_ok.1 hdiff
    split at hok
    · cases hok
    · rename_i h₁ undo hchanges
      cases hok
      exact ⟨changes, h₁, undo, ⟨installed, hstage, hinst, hdiff⟩, hchanges, rfl, rfl⟩

/-! ## undoing -/

/-- Undoing, newest first, gives the entries and revisions of `h` back to any harness that has
those of `h'`. -/
def Undoes (undo : List Harness.Undo) (h h' : Harness) : Prop :=
  ∀ r : PluginRegistry, PluginRegistry.SameDesired h'.plugins r →
    PluginRegistry.SameDesired h.plugins (undo.foldl (fun r u => r.restoreEntry u.1 u.2) r)

theorem Undoes.nil (h : Harness) : Undoes [] h h := fun _ hr => hr

theorem Undoes.cons {undo : List Harness.Undo} {h h' h'' : Harness} {id : String}
    (hu : Undoes undo h h') (ht : PluginRegistry.Touches id h'.plugins h''.plugins) :
    Undoes (h'.entryRestorer id :: undo) h h'' := by
  intro r hr
  exact hu _ (ht.restore hr)

/-- restoring what was not touched yet does no harm -/
theorem Undoes.restorer {undo : List Harness.Undo} {h h' : Harness} (hu : Undoes undo h h')
    (id : String) : Undoes (h'.entryRestorer id :: undo) h h' :=
  hu.cons ⟨fun _ _ => rfl, fun _ _ => rfl, rfl, rfl⟩

theorem Harness.foldl_restoreEntry (undo : List Harness.Undo) (h : Harness) :
    undo.foldl Harness.restoreEntry h = { h with
      plugins := undo.foldl (fun r u => r.restoreEntry u.1 u.2) h.plugins } := by
  induction undo generalizing h with
  | nil => rfl
  | cons u undo ih => exact ih _

theorem Harness.applyChanges_undoes {c : Declarative.HarnessConfig}
    {changes : List DesiredStateChange} {h₀ h h' : Harness} {undo undo' : List Harness.Undo}
    {e : Option Err} (hs : SameButEntries h₀ h) (hu : Undoes undo h₀ h)
    (hc : Harness.applyChanges c changes h undo = (e, h', undo')) :
    SameButEntries h₀ h' ∧ Undoes undo' h₀ h' := by
  induction changes generalizing h undo with
  | nil =>
    cases hc
    exact ⟨hs, hu⟩
  | cons change rest ih =>
    rw [Harness.applyChanges] at hc
    split at hc
    · split at hc
      · rename_i undone h₁ hone
        obtain ⟨hsame, hundone⟩ := Harness.applyChange_ok hone
        refine ih (hs.trans hsame) ?_ hc
        rcases hundone with ⟨rfl, rfl⟩ | ⟨id, rfl, htouch⟩
        · exact hu
        · exact hu.cons htouch
      · rename_i undone e' hone
        cases hc
        refine ⟨hs, ?_⟩
        rcases Harness.applyChange_undone hone with rfl | ⟨id, rfl⟩
        · exact hu
        · exact hu.restorer id
    · exact ih hs hu hc

/-- the desired state that a configuration is about, and what it must not lose -/
structure SameDesiredState (h h' : Harness) : Prop where
  entries : ∀ id, h'.plugins.entries.get? id = h.plugins.entries.get? id
  revisions : ∀ id, h'.plugins.revisions.get? id = h.plugins.revisions.get? id
  preferences : h'.configPreferences = h.configPreferences
  config : h'.config = h.config
  pending : h'.hasPendingChanges = h.hasPendingChanges
  /-- nor does anything else change -/
  rest : h' = { h with plugins := h'.plugins }

/-- **An application that raises leaves the desired state as it was**, wherever in the sequence of
its changes it raises. -/
theorem applyConfig_atomic (h : Harness) (c : Declarative.HarnessConfig) {e : Err}
    (he : (h.applyConfig c).1 = .error e) : SameDesiredState h (h.applyConfig c).2 := by
  unfold Harness.applyConfig at he ⊢
  simp only at he ⊢
  split
  · exact ⟨fun _ => rfl, fun _ => rfl, rfl, rfl, rfl, rfl⟩
  · rename_i changes hstaged
    rw [hstaged] at he
    simp only at he
    split
    · rename_i e' h' undo hchanges
      obtain ⟨hsame, hundo⟩ := Harness.applyChanges_undoes (.refl h) (.nil h) hchanges
      have hback := hundo h'.plugins (.refl _)
      rw [Harness.foldl_restoreEntry]
      refine ⟨hback.entries, hback.revisions, rfl, rfl, rfl, ?_⟩
      rw [hsame.rest]
    · rename_i h' undo hchanges
      rw [hchanges] at he
      cases he

end

section
open scoped Plain

/-- a class whose constructor raises -/
def brokenType : PluginType := fun _ => .error { kind := .Other, message := "no such file" }

/-- plugin `a` is to go, `b` to come, but cannot be constructed -/
def brokenConfig : Declarative.HarnessConfig where
  plugins := [{ id := "b", plugin := "broken", id_valid := by decide +kernel,
                plugin_nonempty := by decide
                version_valid := Declarative.PluginEntryConfig.version_empty }]
  version_supported := Declarative.HarnessConfig.version_one
  ids_unique := by decide

def beforeBroken : Harness :=
  { catalog := Dict.ofList [("broken", brokenType)] : Harness }.installed (plainPlugin "a" [] [] [])

theorem applyConfig_atomic_broken :
    SameDesiredState beforeBroken (beforeBroken.applyConfig brokenConfig).2 :=
  applyConfig_atomic (e := { kind := .Other, message := "no such file" }) beforeBroken brokenConfig
    (raised?_eq_some.1 (by decide +kernel))

end

end Chassis
