import Chassis.Harness.Revisions

/-!
# Applying a configuration twice

* `Carried`               what an entry is after a configuration was applied;
* `Converged c h`         there is nothing left to change, so that applying `c` again does nothing;
* `Harness.InPlace`, `Harness.Reproducible`   an entry needs no change, or is what its change makes
                          of it;
* `applyConfig_converges_iff`   **an application converges iff every entry it changes is
                          reproducible**;
* `aliased_diverges`      an entry that is replaced every time.
-/

set_option linter.unusedSectionVars false

namespace Chassis
open Py Coop Declarative

section
variable [Packaging] [Platform]

/-! ## what is installed -/

theorem Harness.installedEntry_ok {e : PluginEntry} {i : InstalledEntry}
    (h : Harness.installedEntry e = .ok i) : i.entryId = e.entryId ∧ i.plugin = e.manifest.name ∧
      configFingerprint e.manifest.name e.config = .ok i.configFingerprint := by
  obtain ⟨fingerprint, hf, hi⟩ := bind_ok.1 h
  cases hi
  exact ⟨rfl, rfl, hf⟩

section
variable {h : Harness} {t : CompositionTree} (hh : Housed t h.plugins.entries)
include hh

theorem Harness.installed_unique : (h.plugins.sortedEntries.map PluginEntry.entryId).Nodup := by
  refine ((sortedBy_perm _ _).map PluginEntry.entryId).nodup_iff.2 ?_
  have hkeys : h.plugins.entries.values.map PluginEntry.entryId = h.plugins.entries.keys := by
    unfold Dict.values Dict.keys
    rw [List.map_map]
    exact List.map_congr_left fun p hp => (hh p.1 p.2 (Dict.mem_items.1 hp)).1
  rw [hkeys]
  exact Dict.keys_nodup _

/-- **The installed state** tells of every entry. -/
theorem Harness.installedState_ok {installed : Dict String InstalledEntry}
    (hi : h.installedState = .ok installed) {id : String} {i : InstalledEntry} :
    installed.get? id = some i ↔
      ∃ e, h.plugins.entries.get? id = some e ∧ Harness.installedEntry e = .ok i := by
  obtain ⟨l, hl, hi⟩ := bind_ok.1 hi
  cases hi
  have hids : l.map InstalledEntry.entryId = h.plugins.sortedEntries.map PluginEntry.entryId :=
    mapM_ok_keys (fun _ _ he => (installedEntry_ok he).1) hl
  have hnodup : ((l.map fun e => (e.entryId, e)).map Prod.fst).Nodup := by
    rw [List.map_map]
    exact hids ▸ installed_unique hh
  rw [Dict.get?_ofList hnodup, List.mem_map]
  constructor
  · rintro ⟨i', hin, heq⟩
    obtain ⟨rfl, rfl⟩ := Prod.mk.inj heq
    obtain ⟨e, he, hok⟩ := mapM_ok_mem hl hin
    obtain ⟨k, hk⟩ := Dict.mem_values.1 (mem_sortedBy.1 he)
    refine ⟨e, ?_, hok⟩
    rw [(installedEntry_ok hok).1, (hh k e hk).1]
    exact hk
  · rintro ⟨e, he, hok⟩
    obtain ⟨i', hin, hok'⟩ := mapM_ok_mem_left hl
      (mem_sortedBy.2 (Dict.mem_values.2 ⟨id, he⟩) : e ∈ h.plugins.sortedEntries)
    rw [hok] at hok'
    cases hok'
    exact ⟨i, hin, by rw [(installedEntry_ok hok).1, (hh id e he).1]⟩

theorem Harness.installedState_total
    (hall : ∀ id e, h.plugins.entries.get? id = some e → ∃ i, Harness.installedEntry e = .ok i) :
    ∃ installed, h.installedState = .ok installed := by
  have hok : ∃ l, h.plugins.sortedEntries.mapM Harness.installedEntry = .ok l := by
    refine mapM_total fun e he => ?_
    obtain ⟨k, hk⟩ := Dict.mem_values.1 (mem_sortedBy.1 he)
    exact hall k e hk
  obtain ⟨l, hl⟩ := hok
  exact ⟨_, bind_ok.2 ⟨l, hl, rfl⟩⟩

end

/-! ## what the changes come to -/

/-- what became of an entry -/
inductive Carried (h : Harness) (c : Declarative.HarnessConfig) (change : DesiredStateChange) :
    Option PluginEntry → Prop
  | removed : change.action = .remove → Carried h c change none
  /-- constructed by the class that the configuration names -/
  | made {wanted : PluginEntryConfig} {construct : PluginType} {plugin : Plugin}
    {entry : PluginEntry} : change.isMutation = true → c.wanted? change.entryId = some wanted →
    h.catalog.get? wanted.plugin = some construct →
    construct (some wanted.config) = .ok (.plugin plugin) → entry.manifest = plugin.manifest →
    entry.config = wanted.config → Carried h c change (some entry)
  | kept : change.isMutation = false →
    Carried h c change (h.plugins.entries.get? change.entryId)

theorem PluginCatalog.find_ok {catalog : PluginCatalog} {name : String} {construct : PluginType} :
    catalog.find name = .ok construct ↔ catalog.get? name = some construct := by
  unfold PluginCatalog.find
  split
  · rename_i found hfound
    rw [hfound, Except.ok.injEq, Option.some.injEq]
  · rename_i hnone
    rw [hnone]
    exact ⟨fun h => (by cases h), fun h => (by cases h)⟩

theorem PluginSource.class_made {construct : PluginType} {config : Dict String Value}
    {plugin : Plugin} (h : (PluginSource.class construct).made (some config) = .ok plugin) :
    ∃ p, construct (some config) = .ok (.plugin p) ∧ plugin.manifest = p.manifest ∧
      plugin.config = config := by
  obtain ⟨made, hmade, h⟩ := bind_ok.1 h
  cases made with
  | plugin p =>
    cases h
    exact ⟨p, hmade, rfl, rfl⟩
  | other typeName => cases h

theorem Harness.applyChange_carried {h h' : Harness} {c : Declarative.HarnessConfig}
    {change : DesiredStateChange} {undone : List Harness.Undo} {current : Option InstalledEntry}
    (hdiff : changeOf change.entryId (c.wanted? change.entryId) current = .ok change)
    (hm : change.isMutation = true) (hc : h.applyChange c change = (undone, .ok h')) :
    Carried h c change (h'.plugins.entries.get? change.entryId) ∧
      ∀ id, id ≠ change.entryId → h'.plugins.entries.get? id = h.plugins.entries.get? id := by
  unfold Harness.applyChange at hc
  split at hc
  · rename_i hremove
    cases (Prod.mk.inj hc).2
    refine ⟨?_, fun id hne => Dict.get?_erase_ne _ hne⟩
    show Carried h c change ((h.plugins.entries.erase change.entryId).get? change.entryId)
    rw [Dict.get?_erase_self]
    exact .removed hremove
  · rename_i hkeep
    obtain ⟨wanted, hwanted⟩ : ∃ wanted, c.wanted? change.entryId = some wanted := by
      rcases hw : c.wanted? change.entryId with _ | wanted
      · rw [hw] at hdiff
        rcases current with _ | current
        · cases hdiff
        · unfold changeOf at hdiff
          exact absurd (congrArg DesiredStateChange.action (Except.ok.inj hdiff)).symm hkeep
      · exact ⟨wanted, rfl⟩
    rw [c.entry?_of_wanted hwanted] at hc
    obtain ⟨construct, hfind, hok⟩ := bind_ok.1 (Prod.mk.inj hc).2
    obtain ⟨⟨id, h₁⟩, hi, hok⟩ := bind_ok.1 hok
    cases hok
    obtain ⟨path, plugin, entry, -, hmade, hp, -, hrest⟩ := Harness.installFrom_ok hi
    obtain ⟨hid, -, hman, hconf, -, -, hplugins⟩ := PluginRegistry.install_ok hp
    obtain ⟨p, hconstruct, hman', hconf'⟩ := PluginSource.class_made hmade
    have hid' : entry.entryId = change.entryId := hid.trans (c.wanted?_eq_some.1 hwanted).2
    rw [hplugins]
    refine ⟨?_, fun id hne => Dict.get?_set_ne _ _ (hid' ▸ hne)⟩
    show Carried h c change ((h.plugins.entries.set entry.entryId entry).get? change.entryId)
    rw [← hid', Dict.get?_set_self]
    exact .made hm (hid' ▸ hwanted) (PluginCatalog.find_ok.1 hfind) hconstruct
      (hman.trans hman') (hconf.trans hconf')

theorem Carried.congr {h h' : Harness} {c : Declarative.HarnessConfig} {change : DesiredStateChange}
    {e : Option PluginEntry} (hcat : h'.catalog = h.catalog)
    (hentry : h'.plugins.entries.get? change.entryId = h.plugins.entries.get? change.entryId)
    (hc : Carried h c change e) : Carried h' c change e := by
  cases hc with
  | removed ha => exact .removed ha
  | made hm hw hcon hmade hman hconf => exact .made hm hw (hcat ▸ hcon) hmade hman hconf
  | kept hm =>
    rw [← hentry]
    exact .kept hm

/-- **What the changes come to**, entry by entry. -/
theorem Harness.applyChanges_carried {c : Declarative.HarnessConfig}
    {installed : Dict String InstalledEntry} {changes : List DesiredStateChange} {h h' : Harness}
    {undo undo' : List Harness.Undo}
    (hids : (changes.map DesiredStateChange.entryId).Nodup)
    (hdiff : ∀ change ∈ changes, changeOf change.entryId (c.wanted? change.entryId)
      (installed.get? change.entryId) = .ok change)
    (hc : Harness.applyChanges c changes h undo = (none, h', undo')) :
    (∀ change ∈ changes, Carried h c change (h'.plugins.entries.get? change.entryId)) ∧
      (∀ id, id ∉ changes.map DesiredStateChange.entryId →
        h'.plugins.entries.get? id = h.plugins.entries.get? id) ∧
      SameButEntries h h' := by
  induction changes generalizing h undo with
  | nil =>
    cases hc
    exact ⟨fun _ hin => (nomatch hin), fun _ _ => rfl, .refl _⟩
  | cons change rest ih =>
    rw [List.map_cons, List.nodup_cons] at hids
    rw [List.forall_mem_cons] at hdiff
    rw [Harness.applyChanges] at hc
    have hstep : ∀ {h₁ undo₁}, Carried h c change (h₁.plugins.entries.get? change.entryId) →
        (∀ id, id ≠ change.entryId →
          h₁.plugins.entries.get? id = h.plugins.entries.get? id) → SameButEntries h h₁ →
        Harness.applyChanges c rest h₁ undo₁ = (none, h', undo') →
        (∀ x ∈ change :: rest, Carried h c x (h'.plugins.entries.get? x.entryId)) ∧
        (∀ id, id ∉ (change :: rest).map DesiredStateChange.entryId →
          h'.plugins.entries.get? id = h.plugins.entries.get? id) ∧ SameButEntries h h' := by
      intro h₁ undo₁ hone hothers hsame hrest
      obtain ⟨hin, hout, hsame'⟩ := ih hids.2 hdiff.2 hrest
      have hcat : h.catalog = h₁.catalog := by rw [hsame.rest]
      refine ⟨List.forall_mem_cons.2 ⟨?_, fun x hx => ?_⟩, fun id hid => ?_, hsame.trans hsame'⟩
      · rw [hout _ hids.1]
        exact hone
      · have hne : x.entryId ≠ change.entryId := fun heq =>
          hids.1 (heq ▸ List.mem_map.2 ⟨x, hx, rfl⟩)
        exact (hin x hx).congr hcat (hothers _ hne).symm
      · rw [List.map_cons, List.mem_cons, not_or] at hid
        rw [hout id hid.2, hothers id hid.1]
    split at hc
    · rename_i hm
      split at hc
      · rename_i undone h₁ hone
        obtain ⟨hcar, hothers⟩ := Harness.applyChange_carried hdiff.1 hm hone
        exact hstep hcar hothers (Harness.applyChange_ok hone).1 hc
      · cases hc
    · rename_i hm
      exact hstep (.kept (Bool.eq_false_iff.2 hm)) (fun _ _ => rfl) (.refl h) hc

/-! ## convergence -/

/-- There is nothing left to change: applying `c` again finds every entry unchanged and leaves the
harness, with the revisions of its entries, as it is. -/
def Converged (c : Declarative.HarnessConfig) (h : Harness) : Prop :=
  ∃ installed changes, h.installedState = .ok installed ∧
    diffDesiredState c installed = .ok changes ∧
    (∀ change ∈ changes, change.action = .unchanged) ∧
    h.applyConfig c = (.ok ⟨c, changes, []⟩, h)

/-- an entry that is installed as `c` wants it -/
def Harness.InPlace (h : Harness) (wanted : PluginEntryConfig) : Prop :=
  ∃ entry fingerprint, h.plugins.entries.get? wanted.id = some entry ∧
    entry.manifest.name = wanted.plugin ∧
    configFingerprint wanted.plugin wanted.config = .ok fingerprint ∧
    configFingerprint wanted.plugin entry.config = .ok fingerprint

/-- an entry whose class constructs a plugin that bears the name the class has in the catalog, and
whose configuration is data -/
def Harness.Reproducible (h : Harness) (wanted : PluginEntryConfig) : Prop :=
  ∃ construct plugin fingerprint, h.catalog.get? wanted.plugin = some construct ∧
    construct (some wanted.config) = .ok (.plugin plugin) ∧
    plugin.manifest.name = wanted.plugin ∧
    configFingerprint wanted.plugin wanted.config = .ok fingerprint

theorem Harness.applyChanges_unchanged {c : Declarative.HarnessConfig}
    {changes : List DesiredStateChange} (hall : ∀ change ∈ changes, change.action = .unchanged)
    (h : Harness) (undo : List Harness.Undo) :
    Harness.applyChanges c changes h undo = (none, h, undo) := by
  induction changes with
  | nil => rfl
  | cons change rest ih =>
    rw [List.forall_mem_cons] at hall
    rw [Harness.applyChanges, if_neg, ih hall.2]
    rw [DesiredStateChange.isMutation, hall.1]
    exact Bool.false_ne_true

/-- **A second application** whose diff is empty does nothing. -/
theorem Converged.of_diff {h : Harness} {c : Declarative.HarnessConfig}
    {installed : Dict String InstalledEntry} {changes : List DesiredStateChange}
    (hstage : h.stageConfig c = .ok ()) (hinst : h.installedState = .ok installed)
    (hdiff : diffDesiredState c installed = .ok changes)
    (hall : ∀ change ∈ changes, change.action = .unchanged) (hconf : h.config = some c)
    (hpref : h.configPreferences = Harness.preferencesOf c) : Converged c h := by
  refine ⟨installed, changes, hinst, hdiff, hall, ?_⟩
  have hnone : changes.filter DesiredStateChange.isMutation = [] := by
    refine List.filter_eq_nil_iff.2 fun change hin => ?_
    rw [DesiredStateChange.isMutation, hall change hin]
    exact Bool.false_ne_true
  have hstaged : (do
      h.stageConfig c
      diffDesiredState c (← h.installedState)) = Except.ok changes :=
    bind_ok.2 ⟨(), hstage, bind_ok.2 ⟨installed, hinst, hdiff⟩⟩
  unfold Harness.applyConfig
  simp only
  rw [hstaged]
  simp only
  rw [Harness.applyChanges_unchanged hall h []]
  simp only
  rw [hnone, ← hpref, Dict.same_refl, Bool.not_true, Bool.or_false, ← hconf]

section
variable {h h₁ : Harness} {c : Declarative.HarnessConfig} {installed : Dict String InstalledEntry}
  {changes : List DesiredStateChange} {undo : List Harness.Undo}
  (hh : Housed h.composition h.plugins.entries) (hinst : h.installedState = .ok installed)
  (hdiff : diffDesiredState c installed = .ok changes)
  (hchanges : Harness.applyChanges c changes h [] = (none, h₁, undo))
include hh hinst hdiff hchanges

theorem carried_of_concerned (id : String) (hin : (c.wanted? id).isSome ∨ (installed.get? id).isSome) :
    ∃ change, changeOf id (c.wanted? id) (installed.get? id) = .ok change ∧ change.entryId = id ∧
      Carried h c change (h₁.plugins.entries.get? id) := by
  obtain ⟨hids, hof⟩ := diffDesiredState_ok hdiff
  have hnodup : (changes.map DesiredStateChange.entryId).Nodup :=
    hids ▸ concernedIds_nodup c installed
  have hconcerned : id ∈ changes.map DesiredStateChange.entryId := by
    rw [hids]
    exact mem_concernedIds.2 hin
  obtain ⟨change, hchange, rfl⟩ := List.mem_map.1 hconcerned
  exact ⟨change, hof change hchange, rfl,
    (Harness.applyChanges_carried hnodup hof hchanges).1 change hchange⟩

theorem unwanted_gone {id : String} (hwanted : c.wanted? id = none) :
    h₁.plugins.entries.get? id = none := by
  rcases hcur : installed.get? id with _ | current
  · obtain ⟨hids, hof⟩ := diffDesiredState_ok hdiff
    have hnodup : (changes.map DesiredStateChange.entryId).Nodup :=
      hids ▸ concernedIds_nodup c installed
    have hout : id ∉ changes.map DesiredStateChange.entryId := by
      rw [hids, mem_concernedIds, hwanted, hcur]
      simp
    rw [(Harness.applyChanges_carried hnodup hof hchanges).2.1 id hout]
    rcases hget : h.plugins.entries.get? id with _ | e
    · rfl
    · obtain ⟨l, hl, -⟩ := bind_ok.1 hinst
      obtain ⟨i, -, hi⟩ := mapM_ok_mem_left hl
        (mem_sortedBy.2 (Dict.mem_values.2 ⟨id, hget⟩) : e ∈ h.plugins.sortedEntries)
      have hsome := (Harness.installedState_ok hh hinst).2 ⟨e, hget, hi⟩
      rw [hcur] at hsome
      cases hsome
  · obtain ⟨change, hch, hid, hcar⟩ := carried_of_concerned hh hinst hdiff hchanges id
      (Or.inr (by rw [hcur]; rfl))
    rw [hwanted, hcur] at hch
    cases hch
    generalize hentry : h₁.plugins.entries.get? id = entry at hcar ⊢
    cases hcar with
    | removed => rfl
    | made _ hw =>
      rw [hwanted] at hw
      cases hw
    | kept hm => cases hm

theorem wanted_installed {wanted : PluginEntryConfig} (hin : wanted ∈ c.enabledEntries) :
    (h.InPlace wanted ∧
        h₁.plugins.entries.get? wanted.id = h.plugins.entries.get? wanted.id) ∨
      (¬ h.InPlace wanted ∧ ∃ construct plugin entry, h.catalog.get? wanted.plugin = some construct ∧
        construct (some wanted.config) = .ok (.plugin plugin) ∧
        h₁.plugins.entries.get? wanted.id = some entry ∧ entry.manifest = plugin.manifest ∧
        entry.config = wanted.config) := by
  have hwanted : c.wanted? wanted.id = some wanted := c.wanted?_eq_some.2 ⟨hin, rfl⟩
  obtain ⟨change, hch, hid, hcar⟩ := carried_of_concerned hh hinst hdiff hchanges wanted.id
    (Or.inl (by rw [hwanted]; rfl))
  rw [hwanted] at hch
  generalize hentry : h₁.plugins.entries.get? wanted.id = entry at hcar ⊢
  cases hcar with
  | removed ha =>
    rcases hcur : installed.get? wanted.id with _ | current
    · rw [hcur] at hch
      cases hch
      cases ha
    · rw [hcur] at hch
      rcases changeOf_both hch with hr | ⟨hr, -⟩ <;> rw [ha] at hr <;> cases hr
  | made hm hw hcon hplugin hman hconf =>
    rw [hid, hwanted] at hw
    cases hw
    refine Or.inr ⟨?_, _, _, _, hcon, hplugin, rfl, hman, hconf⟩
    rintro ⟨e, fingerprint, he, hname, hf, hfe⟩
    have hcur := (Harness.installedState_ok hh hinst).2
      ⟨e, he, (bind_ok.2 ⟨fingerprint, hname ▸ hfe, rfl⟩ : Harness.installedEntry e = .ok _)⟩
    rw [hcur, changeOf_same hname.symm hf] at hch
    cases hch
    cases hm
  | kept hm =>
    rw [hid]
    refine Or.inl ⟨?_, rfl⟩
    rcases hcur : installed.get? wanted.id with _ | current
    · rw [hcur] at hch
      cases hch
      cases hm
    · rw [hcur] at hch
      rcases changeOf_both hch with hr | ⟨-, hplugin, hf⟩
      · rw [DesiredStateChange.isMutation, hr] at hm
        cases hm
      · obtain ⟨e, he, hie⟩ := (Harness.installedState_ok hh hinst).1 hcur
        obtain ⟨-, hname, hfe⟩ := Harness.installedEntry_ok hie
        refine ⟨e, _, he, hname.symm.trans hplugin.symm, hf, ?_⟩
        rw [hplugin, hname]
        exact hfe

end

/-- **An application converges** iff every entry that it has to add or to replace is
reproducible. -/
theorem applyConfig_converges_iff {h₀ h : Harness} {history : List (Event Job Err × HarnessConfig)}
    {running : Option (Suspended Harness Operation Job Answer Err)}
    (hrun : ControlRun h₀ history ⟨h, running⟩) {c : Declarative.HarnessConfig}
    {result : Harness.ConfigApplyResult} (hok : (h.applyConfig c).1 = .ok result) :
    Converged c (h.applyConfig c).2 ↔
      ∀ wanted ∈ c.enabledEntries, ¬ h.InPlace wanted → h.Reproducible wanted := by
  have ho : h.Orderly := hrun.orderly
  obtain ⟨changes, h₁, undo, ⟨installed, hstage, hinst, hdiff⟩, hchanges, -, hafter⟩ :=
    Harness.applyConfig_ok hok
  have ho' : (h.applyConfig c).2.Orderly := ho.applyConfig c
  obtain ⟨hids, hof⟩ := diffDesiredState_ok hdiff
  have hsame : SameButEntries h h₁ := (Harness.applyChanges_carried
    (hids ▸ concernedIds_nodup c installed) hof hchanges).2.2
  rw [hafter] at ho' ⊢
  constructor
  · rintro ⟨installed', changes', hinst', hdiff', hall, -⟩ wanted hin hout
    rcases wanted_installed ho.housed hinst hdiff hchanges hin with ⟨hplace, -⟩ | ⟨-, hmade⟩
    · exact absurd hplace hout
    obtain ⟨construct, plugin, entry, hcon, hplugin, hentry, hman, hconf⟩ := hmade
    have hwanted : c.wanted? wanted.id = some wanted := c.wanted?_eq_some.2 ⟨hin, rfl⟩
    obtain ⟨hids', hof'⟩ := diffDesiredState_ok hdiff'
    have hconcerned : wanted.id ∈ changes'.map DesiredStateChange.entryId := by
      rw [hids']
      exact mem_concernedIds.2 (Or.inl (Option.isSome_iff_exists.2 ⟨_, hwanted⟩))
    obtain ⟨change, hchange, hid⟩ := List.mem_map.1 hconcerned
    have hch := hof' change hchange
    rw [hid, hwanted] at hch
    rcases hcur : installed'.get? wanted.id with _ | current
    · rw [hcur] at hch
      cases hch
      cases hall _ hchange
    · rw [hcur] at hch
      rcases changeOf_both hch with hr | ⟨-, hname, hf⟩
      · rw [hall change hchange] at hr
        cases hr
      · obtain ⟨e, he, hie⟩ := (Harness.installedState_ok ho'.housed hinst').1 hcur
        have he' : h₁.plugins.entries.get? wanted.id = some e := he
        rw [hentry] at he'
        cases he'
        obtain ⟨-, hname', -⟩ := Harness.installedEntry_ok hie
        refine ⟨construct, plugin, _, hcon, hplugin, ?_, hf⟩
        rw [← hman, ← hname', hname]
  · intro hall
    have hplace : ∀ wanted ∈ c.enabledEntries, h₁.InPlace wanted := by
      intro wanted hin
      rcases wanted_installed ho.housed hinst hdiff hchanges hin with ⟨hplace, heq⟩ | ⟨hout, hmade⟩
      · obtain ⟨e, fingerprint, he, hrest⟩ := hplace
        exact ⟨e, fingerprint, heq.trans he, hrest⟩
      · obtain ⟨construct, plugin, entry, hcon, hplugin, hentry, hman, hconf⟩ := hmade
        obtain ⟨construct', plugin', fingerprint, hcon', hplugin', hname, hf⟩ :=
          hall wanted hin hout
        rw [hcon] at hcon'
        cases hcon'
        rw [hplugin] at hplugin'
        cases hplugin'
        exact ⟨entry, fingerprint, hentry, by rw [hman, hname], hf, by rw [hconf]; exact hf⟩
    have hof₁ : ∀ id e, h₁.plugins.entries.get? id = some e → ∃ wanted i,
        c.wanted? id = some wanted ∧ Harness.installedEntry e = .ok i ∧
        wanted.plugin = i.plugin ∧
        configFingerprint wanted.plugin wanted.config = .ok i.configFingerprint := by
      intro id e he
      rcases hw : c.wanted? id with _ | wanted
      · rw [unwanted_gone ho.housed hinst hdiff hchanges hw] at he
        cases he
      · obtain ⟨hin, rfl⟩ := c.wanted?_eq_some.1 hw
        obtain ⟨e', fingerprint, he', hname, hf, hfe⟩ := hplace wanted hin
        rw [he] at he'
        cases he'
        refine ⟨wanted, ⟨e.entryId, e.manifest.name, e.revision, fingerprint⟩, rfl, ?_,
          hname.symm, hf⟩
        exact bind_ok.2 ⟨fingerprint, by rw [hname]; exact hfe, rfl⟩
    obtain ⟨installed', hinst'⟩ := Harness.installedState_total ho'.housed fun id e he => by
      obtain ⟨_, i, -, hi, -⟩ := hof₁ id e he
      exact ⟨i, hi⟩
    have hchange : ∀ id ∈ concernedIds c installed', ∃ change,
        changeOf id (c.wanted? id) (installed'.get? id) = .ok change ∧
          change.action = .unchanged := by
      intro id hid
      have hentry : ∃ e, h₁.plugins.entries.get? id = some e := by
        rcases mem_concernedIds.1 hid with hw | hcur
        · obtain ⟨wanted, hw⟩ := Option.isSome_iff_exists.1 hw
          obtain ⟨hin, rfl⟩ := c.wanted?_eq_some.1 hw
          obtain ⟨e, _, he, -⟩ := hplace wanted hin
          exact ⟨e, he⟩
        · obtain ⟨i, hcur⟩ := Option.isSome_iff_exists.1 hcur
          obtain ⟨e, he, -⟩ := (Harness.installedState_ok ho'.housed hinst').1 hcur
          exact ⟨e, he⟩
      obtain ⟨e, he⟩ := hentry
      obtain ⟨wanted, i, hw, hi, hplugin, hf⟩ := hof₁ id e he
      have hcur : installed'.get? id = some i :=
        (Harness.installedState_ok ho'.housed hinst').2 ⟨e, he, hi⟩
      rw [hw, hcur, changeOf_same hplugin hf]
      exact ⟨_, rfl, rfl⟩
    obtain ⟨changes', hdiff'⟩ := mapM_total fun id hid => by
      obtain ⟨change, hc, -⟩ := hchange id hid
      exact ⟨change, hc⟩
    refine Converged.of_diff ?_ hinst' hdiff' (fun change hin => ?_) rfl rfl
    · show h₁.stageConfig c = .ok ()
      rw [hsame.rest]
      exact hstage
    · obtain ⟨id, hid, hc⟩ := mapM_ok_mem hdiff' hin
      obtain ⟨change', hc', hun⟩ := hchange id hid
      rw [hc] at hc'
      cases hc'
      exact hun

end

section
open scoped Plain

/-- a class that constructs a plain plugin of some name -/
def plainType (name : String) : PluginType :=
  fun config => .ok (.plugin { plainPlugin name [] [] [] with config := config.getD Dict.empty })

/-- one entry, of the class a catalog has under some name -/
def oneEntry (plugin : String) (h : plugin ≠ "") : Declarative.HarnessConfig where
  plugins := [{ id := "a", plugin := plugin, id_valid := by decide +kernel, plugin_nonempty := h,
                version_valid := Declarative.PluginEntryConfig.version_empty }]
  version_supported := Declarative.HarnessConfig.version_one
  ids_unique := by simp

def stocked (name implementation : String) : Harness :=
  ({} : Harness).registerPluginType name (plainType implementation)

theorem applyConfig_converges_iff_plain :
    ((stocked "cache" "cache").applyConfig (oneEntry "cache" (by decide))).1.toOption.map
        (fun r => r.applied.length) = some 1 ∧
      Converged (oneEntry "cache" (by decide))
        ((stocked "cache" "cache").applyConfig (oneEntry "cache" (by decide))).2 := by
  have hdone : ((stocked "cache" "cache").applyConfig (oneEntry "cache" (by decide))).1.toOption.map
      (fun r => r.applied.length) = some 1 := by decide +kernel
  obtain ⟨result, hok, -⟩ := ok_of_map _ _ _ hdone
  refine ⟨hdone, (applyConfig_converges_iff (ControlRun.one (.registerPluginType _ _ _)) hok).2 ?_⟩
  intro wanted hin _
  obtain rfl := List.mem_singleton.1 (show wanted ∈ [_] from hin)
  exact ⟨_, _, _, rfl, rfl, rfl, rfl⟩

/-- **An entry that is replaced every time**: its class is in the catalog under another name than
its manifest bears.  The second application replaces it, and its revision goes from 1 to 2. -/
theorem aliased_diverges : ∃ h₀ history h c, ControlRun h₀ history ⟨h, none⟩ ∧
    (h.applyConfig c).1.toOption.isSome = true ∧ ¬ Converged c (h.applyConfig c).2 ∧
    ((h.applyConfig c).2.plugins.entry? "a").map PluginEntry.revision = some 1 ∧
    (((h.applyConfig c).2.applyConfig c).2.plugins.entry? "a").map PluginEntry.revision =
      some 2 := by
  refine ⟨{}, _, stocked "alias" "cache", oneEntry "alias" (by decide),
    .one (.registerPluginType _ _ _), by decide +kernel, ?_, by decide +kernel, by decide +kernel⟩
  rintro ⟨installed, changes, -, -, -, hagain⟩
  have hone : (((stocked "alias" "cache").applyConfig (oneEntry "alias" (by decide))).2.applyConfig
      (oneEntry "alias" (by decide))).1.toOption.map (fun r => r.applied.length) = some 1 := by
    decide +kernel
  rw [hagain] at hone
  cases hone

end
end Chassis
