import Chassis.Composition.Tree
import Chassis.Harness.Control

/-!
# A control plane in order

* `Harness.Orderly`        the scopes branch, every entry is kept under its own id in a declared
                           scope, the agents own no root, and their revisions are kept under their
                           own names;
* `removeScope_ok`         what the removal of a scope takes away;
* `ControlAct.orderly`     every operation keeps order, whether it succeeds or raises;
* `ControlRun.orderly`     **every configuration of a run is in order.**
-/

set_option linter.unusedSectionVars false

namespace Chassis
open Py Coop

/-! ## entries and their scopes -/

/-- entries are kept under their own ids, in scopes of the tree -/
def Housed (t : CompositionTree) (entries : Dict String PluginEntry) : Prop :=
  ∀ id e, entries.get? id = some e → e.entryId = id ∧ (t.get? e.scope).isSome

namespace Housed
variable {t t' : CompositionTree} {entries : Dict String PluginEntry} (hh : Housed t entries)
include hh

theorem mono (ht : ∀ path, (t.get? path).isSome → (t'.get? path).isSome) : Housed t' entries :=
  fun id e he => ⟨(hh id e he).1, ht _ (hh id e he).2⟩

theorem set {e : PluginEntry} (hscope : (t.get? e.scope).isSome) :
    Housed t (entries.set e.entryId e) := by
  intro id e' he'
  rw [Dict.get?_set] at he'
  split at he'
  · rename_i hid
    cases he'
    exact ⟨hid.symm, hscope⟩
  · exact hh _ _ he'

end Housed

/-! ## uninstalling -/

section
variable [Packaging] [Platform]

/-- a harness whose entries are those of `h` that satisfy `keep` -/
structure Reduced (keep : PluginEntry → Prop) (h h' : Harness) : Prop where
  rest : h' = { h with plugins := h'.plugins, dirty := h'.dirty }
  registry : h'.plugins = { h.plugins with entries := h'.plugins.entries }
  kept : ∀ {id e}, h.plugins.entries.get? id = some e → keep e →
    h'.plugins.entries.get? id = some e
  gone : ∀ {id e}, h'.plugins.entries.get? id = some e →
    h.plugins.entries.get? id = some e ∧ keep e
  marked : h'.dirty = true ∨ (h'.dirty = h.dirty ∧ h'.plugins.entries = h.plugins.entries)

namespace Reduced

theorem refl {keep : PluginEntry → Prop} {h : Harness}
    (hall : ∀ {id e}, h.plugins.entries.get? id = some e → keep e) : Reduced keep h h :=
  ⟨rfl, rfl, fun he _ => he, fun he => ⟨he, hall he⟩, Or.inr ⟨rfl, rfl⟩⟩

theorem trans {keep keep' : PluginEntry → Prop} {h h' h'' : Harness} (a : Reduced keep h h')
    (b : Reduced keep' h' h'') : Reduced (fun e => keep e ∧ keep' e) h h'' where
  rest := by rw [b.rest, a.rest]
  registry := by rw [b.registry, a.registry]
  kept := fun he hk => b.kept (a.kept he hk.1) hk.2
  gone := fun he => by
    obtain ⟨he', hk'⟩ := b.gone he
    obtain ⟨he'', hk⟩ := a.gone he'
    exact ⟨he'', hk, hk'⟩
  marked := by
    rcases b.marked with hd | ⟨hd, he⟩
    · exact Or.inl hd
    · rcases a.marked with hd' | ⟨hd', he'⟩
      · exact Or.inl (hd.trans hd')
      · exact Or.inr ⟨hd.trans hd', he.trans he'⟩

theorem congr {keep keep' : PluginEntry → Prop} {h h' : Harness} (a : Reduced keep h h')
    (hiff : ∀ {id e}, h.plugins.entries.get? id = some e → (keep e ↔ keep' e)) :
    Reduced keep' h h' where
  rest := a.rest
  registry := a.registry
  kept := fun he hk => a.kept he ((hiff he).2 hk)
  gone := fun he => by
    obtain ⟨he', hk⟩ := a.gone he
    exact ⟨he', (hiff he').1 hk⟩
  marked := a.marked

theorem housed {keep : PluginEntry → Prop} {h h' : Harness} (a : Reduced keep h h')
    {t t' : CompositionTree} (hh : Housed t h.plugins.entries)
    (ht : ∀ {e : PluginEntry}, keep e → (t.get? e.scope).isSome → (t'.get? e.scope).isSome) :
    Housed t' h'.plugins.entries := by
  intro id e he
  obtain ⟨he', hk⟩ := a.gone he
  exact ⟨(hh _ _ he').1, ht hk (hh _ _ he').2⟩

end Reduced

namespace Harness
variable {h : Harness} {t : CompositionTree} (hh : Housed t h.plugins.entries)
include hh

theorem uninstall_reduced (entryId : String) :
    Reduced (fun e => e.entryId ≠ entryId) h (h.uninstall entryId).2 where
  rest := rfl
  registry := rfl
  kept := by
    intro id e he hk
    rw [(hh _ _ he).1] at hk
    exact (Dict.get?_erase_ne _ hk).trans he
  gone := by
    intro id e he
    have he' : (h.plugins.entries.erase entryId).get? id = some e := he
    rw [Dict.get?_erase] at he'
    split at he'
    · cases he'
    · rename_i hne
      refine ⟨he', ?_⟩
      rw [(hh _ _ he').1]
      exact hne
  marked := by
    rcases hget : h.plugins.entries.get? entryId with _ | e
    · refine Or.inr ⟨?_, Dict.erase_missing hget⟩
      show (h.dirty || (h.plugins.entries.get? entryId).isSome) = h.dirty
      rw [hget]
      exact Bool.or_false _
    · refine Or.inl ?_
      show (h.dirty || (h.plugins.entries.get? entryId).isSome) = true
      rw [hget]
      exact Bool.or_true _

theorem uninstallAll_reduced (l : List String) :
    Reduced (fun e => e.entryId ∉ l) h (h.uninstallAll l) := by
  induction l generalizing h with
  | nil => exact .refl fun _ => List.not_mem_nil
  | cons a l ih =>
    have hone := uninstall_reduced hh a
    have hhoused : Housed t (h.uninstall a).2.plugins.entries := hone.housed hh fun _ ht => ht
    refine (hone.trans (ih hhoused)).congr fun _ => ?_
    rw [List.mem_cons, not_or]

theorem uninstallListed_snd (l : List String) (s : List String × Harness) :
    (l.foldl (fun s e =>
      let (removed, h) := s.2.uninstall e
      (if removed then s.1 ++ [e] else s.1, h)) s).2 = s.2.uninstallAll l := by
  induction l generalizing s with
  | nil => rfl
  | cons a l ih => exact ih _

theorem uninstallScopes_reduced (scopes : List CompositionScope) (listed : List String) :
    Reduced (fun e => ∀ s ∈ scopes, e.scope ≠ s.path) h (scopes.foldl (fun s scope =>
      (s.2.plugins.entriesForScope scope.path).foldl (fun s e =>
        let (removed, h) := s.2.uninstall e
        (if removed then s.1 ++ [e] else s.1, h)) s) (listed, h)).2 := by
  induction scopes generalizing h listed with
  | nil => exact .refl fun _ s hs => nomatch hs
  | cons scope scopes ih =>
    rw [List.foldl_cons]
    have hsnd := uninstallListed_snd hh (h.plugins.entriesForScope scope.path) (listed, h)
    rcases hfold : (h.plugins.entriesForScope scope.path).foldl (fun s e =>
        let (removed, h) := s.2.uninstall e
        (if removed then s.1 ++ [e] else s.1, h)) (listed, h) with ⟨listed', h₁⟩
    rw [hfold] at hsnd
    have hsnd' : h₁ = h.uninstallAll (h.plugins.entriesForScope scope.path) := hsnd
    subst hsnd'
    change Reduced _ h (scopes.foldl _ ((h.plugins.entriesForScope scope.path).foldl
      (fun (s : List String × Harness) e =>
        let (removed, h) := s.2.uninstall e
        (if removed then s.1 ++ [e] else s.1, h)) (listed, h))).2
    rw [hfold]
    have hone := uninstallAll_reduced hh (h.plugins.entriesForScope scope.path)
    refine (hone.trans (ih (hone.housed hh fun _ ht => ht) listed')).congr ?_
    intro id e he
    have hin : e.entryId ∈ h.plugins.entriesForScope scope.path ↔ e.scope = scope.path := by
      rw [PluginRegistry.mem_entriesForScope fun id e he => (hh id e he).1, (hh _ _ he).1, he]
      simp
    rw [hin, List.forall_mem_cons]

end Harness

/-! ## removing a scope -/

theorem canonicalScopePath_nonempty {path path' : String} (h : canonicalScopePath path = .ok path') :
    path ≠ "" := by
  rintro rfl
  cases h

/-- what is left when a scope was removed -/
structure Removed (path : String) (h h' : Harness) : Prop where
  entries : Reduced (fun e => CompositionTree.isWithin e.scope path = false) h
    { h' with composition := h.composition }
  composition : h'.composition = h.composition.detach path
  marked : h'.dirty = true

theorem Removed.rest {path : String} {h h' : Harness} (hr : Removed path h h') :
    h' = { h with plugins := h'.plugins, composition := h'.composition, dirty := h'.dirty } :=
  congrArg (fun x : Harness => { x with composition := h'.composition }) hr.entries.rest

theorem Removed.agents {path : String} {h h' : Harness} (hr : Removed path h h') :
    h'.agents = h.agents := by
  rw [hr.rest]

/-- **The removal of a scope** takes away what lies within it, and marks that. -/
theorem Harness.removeScope_ok {h : Harness} (hb : h.composition.Branching)
    (hh : Housed h.composition h.plugins.entries) {path : String} (hne : path ≠ rootScope)
    (hc : canonicalScopePath path = .ok path) (hdecl : (h.composition.get? path).isSome) :
    ∃ entries h', h.removeScope path = .ok (entries, h') ∧ Removed path h h' := by
  obtain ⟨s, hs⟩ := Option.isSome_iff_exists.1 hdecl
  have hred := Harness.uninstallScopes_reduced hh (h.composition.descendants path) []
  rcases hfold : (h.composition.descendants path).foldl (fun s scope =>
      (s.2.plugins.entriesForScope scope.path).foldl (fun s e =>
        let (removed, h) := s.2.uninstall e
        (if removed then s.1 ++ [e] else s.1, h)) s) (([] : List String), h) with ⟨listed, h₁⟩
  rw [hfold] at hred
  refine ⟨sorted listed, Harness.markDirty { h₁ with composition := h.composition.detach path },
    ?_, ?_, rfl, rfl⟩
  · unfold Harness.removeScope
    rw [if_neg hne, hc]
    show (if (h.composition.get? path).isNone then _ else _ : Except Err (List String × Harness)) = _
    rw [hs]
    simp only [Option.isNone_some, Bool.false_eq_true, if_false]
    rw [hfold]
  · have hiff : ∀ {id e}, h.plugins.entries.get? id = some e →
        ((∀ s ∈ h.composition.descendants path, e.scope ≠ s.path) ↔
          CompositionTree.isWithin e.scope path = false) := by
      intro id e he
      obtain ⟨s, hs⟩ := Option.isSome_iff_exists.1 (hh _ _ he).2
      have hkey := hb.keyed hs
      rw [← Bool.not_eq_true]
      constructor
      · intro hall hw
        refine hall s (hb.mem_descendants.2 ⟨?_, ?_⟩) hkey.symm
        · rw [hkey]
          exact hs
        · rw [hkey]
          exact hw
      · intro hw s' hs' heq
        refine hw ?_
        rw [heq]
        exact (hb.mem_descendants.1 hs').2
    have hred' := hred.congr hiff
    have hrest : h₁ = { h with plugins := h₁.plugins, dirty := h₁.dirty } := hred'.rest
    refine ⟨?_, hred'.registry, hred'.kept, hred'.gone, Or.inl rfl⟩
    exact congrArg (fun x : Harness => { x with composition := h.composition, dirty := true }) hrest

/-! ## order -/

/-- The scopes branch, the entries are in them under their own ids, and what the agents own and
published is what its name says. -/
structure Harness.Orderly (h : Harness) : Prop where
  tree : h.composition.Branching
  housed : Housed h.composition h.plugins.entries
  owned : ∀ path ∈ h.agents.ownedScopePaths, path ≠ rootScope ∧ canonicalScopePath path = .ok path
  published : ∀ {name revision r}, h.agents.published name revision = some r →
    r.spec.name = name ∧ r.spec.revision = revision ∧ r.scope = r.spec.scopePath

namespace Harness.Orderly
variable {h h' : Harness} (ho : h.Orderly)
include ho

theorem of_agents (ha : h'.agents = h.agents) (ht : h'.composition.Branching)
    (hh : Housed h'.composition h'.plugins.entries) : h'.Orderly where
  tree := ht
  housed := hh
  owned := by
    rw [ha]
    exact ho.owned
  published := by
    rw [ha]
    exact ho.published

theorem of_entries (ha : h'.agents = h.agents) (hc : h'.composition = h.composition)
    (he : ∀ id, h'.plugins.entries.get? id = h.plugins.entries.get? id) : h'.Orderly := by
  refine ho.of_agents ha (hc ▸ ho.tree) fun id e hid => ?_
  rw [hc]
  exact ho.housed _ _ ((he id).symm.trans hid)

theorem of_same (hs : SameDeclared h h') : h'.Orderly :=
  ho.of_entries hs.agents hs.composition fun _ => by rw [hs.entries]

theorem install {plugin : Plugin} {entryId : Option String} {replace : Bool} {path : String}
    {entry : PluginEntry} {plugins : PluginRegistry}
    (hp : h.plugins.install plugin entryId replace path = .ok (entry, plugins))
    (hscope : (h.composition.get? path).isSome) (dirty : Bool) :
    Orderly { h with plugins := plugins, dirty := dirty } := by
  obtain ⟨-, -, -, -, hpath, -, rfl⟩ := PluginRegistry.install_ok hp
  refine ho.of_agents rfl ho.tree (ho.housed.set ?_)
  rw [hpath]
  exact hscope

theorem scopePath {scope : Option String} {path : String} (hp : h.scopePath scope = .ok path) :
    (h.composition.get? path).isSome := by
  unfold Harness.scopePath at hp
  split at hp
  · cases hp
    exact ho.tree.root
  · obtain ⟨path', -, hp⟩ := bind_ok.1 hp
    split at hp
    · cases hp
    · rename_i hdecl
      cases hp
      exact Option.isSome_iff_ne_none.2 (by simpa using hdecl)

theorem installFrom {source : PluginSource} {entryId : Option String}
    {config : Option (Dict String Value)} {replace : Bool} {scope : Option String} {id : String}
    (hi : h.installFrom source entryId config replace scope = .ok (id, h')) : h'.Orderly := by
  obtain ⟨path, plugin, entry, hpath, -, hp, -, hrest⟩ := Harness.installFrom_ok hi
  rw [hrest]
  exact ho.install hp (ho.scopePath hpath) true

theorem reduced {keep : PluginEntry → Prop} (hr : Reduced keep h h') : h'.Orderly := by
  have hagents : h'.agents = h.agents := by rw [hr.rest]
  have htree : h'.composition = h.composition := by rw [hr.rest]
  refine ho.of_agents hagents (htree ▸ ho.tree) ?_
  rw [htree]
  exact hr.housed ho.housed fun _ hs => hs

theorem uninstall (entryId : String) : (h.uninstall entryId).2.Orderly :=
  ho.reduced (Harness.uninstall_reduced ho.housed entryId)

theorem uninstallAll (l : List String) : (h.uninstallAll l).Orderly :=
  ho.reduced (Harness.uninstallAll_reduced ho.housed l)

theorem addScope {parent name : String} {capabilities tools : Option (List String)}
    {metadata : Dict String Value}
    (hs : h.addScope parent name capabilities tools metadata = .ok h') : h'.Orderly := by
  obtain ⟨tree, ht, hs⟩ := bind_ok.1 hs
  cases hs
  obtain ⟨-, -, -, rfl⟩ := CompositionTree.attach_ok.1 ht
  refine ho.of_agents rfl (ho.tree.attach ht) (ho.housed.mono fun path hp => ?_)
  refine Option.isSome_iff_ne_none.2 fun hnone => ?_
  have hget := Dict.get?_set h.composition.scopes (joinPath parent name) path
    (CompositionTree.attached parent name capabilities tools metadata)
  have hnone' : (h.composition.scopes.set (joinPath parent name)
    (CompositionTree.attached parent name capabilities tools metadata)).get? path = none := hnone
  rw [hget] at hnone'
  split at hnone'
  · cases hnone'
  · rw [show h.composition.get? path = none from hnone'] at hp
    cases hp

theorem modify (path : String) {f : CompositionScope → CompositionScope}
    (hpath : ∀ s, (f s).path = s.path) (hname : ∀ s, (f s).name = s.name)
    (hparent : ∀ s, (f s).parent = s.parent) (dirty : Bool) :
    Orderly { h with composition := h.composition.modify path f, dirty := dirty } := by
  refine ho.of_agents rfl (ho.tree.modify path hpath hname hparent) (ho.housed.mono fun p hp => ?_)
  show ((h.composition.modify path f).get? p).isSome
  rw [CompositionTree.get?_modify]
  split
  · rename_i heq
    rw [← heq, Option.isSome_map]
    exact hp
  · exact hp

theorem changeScope (path : String) (change : ScopeChange) :
    (h.changeScope path change).Orderly :=
  ho.modify path (fun _ => by cases change <;> rfl) (fun _ => by cases change <;> rfl)
    (fun _ => by cases change <;> rfl) true

theorem dropRequirement (path capability : String) :
    (h.dropRequirement path capability).2.Orderly := by
  unfold Harness.dropRequirement
  simp only
  split
  · refine ho.modify path (f := fun s => { s with
      requirements := s.requirements.erase capability }) ?_ ?_ ?_ true
    · exact fun _ => rfl
    · exact fun _ => rfl
    · exact fun _ => rfl
  · exact ho

theorem removed {path : String} (hne : path ≠ rootScope) (hc : canonicalScopePath path = .ok path)
    (hr : Removed path h h') : h'.Orderly := by
  refine ho.of_agents hr.agents ?_ ?_
  · rw [hr.composition]
    exact ho.tree.detach_branching hne (canonicalScopePath_nonempty hc)
  · refine hr.entries.housed ho.housed fun {e} hk hs => ?_
    rw [hr.composition, ho.tree.get?_detach, hk]
    exact hs

theorem removeScope {path : String} {entries : List String}
    (hs : h.removeScope path = .ok (entries, h')) : h'.Orderly := by
  have hs' := hs
  unfold Harness.removeScope at hs'
  split at hs'
  · cases hs'
  · rename_i hne
    obtain ⟨path', hc, hcut⟩ := bind_ok.1 hs'
    obtain rfl := canonicalScopePath_ok hc
    split at hcut
    · cases hcut
      exact ho
    · rename_i hdecl
      obtain ⟨entries', h'', hok, hr⟩ := Harness.removeScope_ok ho.tree ho.housed hne hc
        (Option.isSome_iff_ne_none.2 (by simpa using hdecl))
      rw [hok] at hs
      cases hs
      exact ho.removed hne hc hr

theorem withProvisions (provisions : Dict CapabilityKey (Option String)) :
    (h.withProvisions provisions).2.Orderly := by
  unfold Harness.withProvisions
  simp only
  split
  · exact ho.of_entries rfl rfl fun _ => rfl
  · rename_i h₁ hs
    have hchanged : Harness.Orderly { h with provisions := provisions } :=
      ho.of_entries rfl rfl fun _ => rfl
    have h₁o : h₁.Orderly := by
      unfold Harness.syncServicesEntry at hs
      split at hs
      · cases hs
        exact (hchanged.uninstall Harness.servicesEntry).of_entries rfl rfl fun _ => rfl
      · obtain ⟨keys, -, hs⟩ := bind_ok.1 hs
        obtain ⟨⟨id, h₂⟩, hi, hs⟩ := bind_ok.1 hs
        cases hs
        obtain ⟨path, hpath, hi⟩ := bind_ok.1 hi
        obtain ⟨⟨entry, plugins⟩, hp, hi⟩ := bind_ok.1 hi
        cases hi
        have hdrawn : Harness.Orderly { h with provisions := provisions, drawn := h.drawn + 1 } :=
          ho.of_entries rfl rfl fun _ => rfl
        exact hdrawn.install hp (hdrawn.scopePath hpath) true
    exact h₁o.of_entries rfl rfl fun _ => rfl

theorem desiredAct (ha : DesiredAct h h') : h'.Orderly := by
  cases ha with
  | install plugin entryId replace scope hi =>
    obtain ⟨path, hpath, hi⟩ := bind_ok.1 hi
    obtain ⟨⟨entry, plugins⟩, hp, hi⟩ := bind_ok.1 hi
    cases hi
    exact ho.install hp (ho.scopePath hpath) true
  | uninstall entryId => exact ho.uninstall entryId
  | provide capability version => exact ho.withProvisions _
  | withdraw matching =>
    unfold Harness.withdraw
    simp only
    split
    · exact ho
    · exact ho.withProvisions _
  | preferProvider capability provider consumer scope hp =>
    obtain ⟨key, rfl⟩ := Harness.preferProvider_ok hp
    exact ho.of_entries rfl rfl fun _ => rfl
  | addScope parent name capabilities tools metadata hs => exact ho.addScope hs
  | removeScope path hs => exact ho.removeScope hs
  | changeScope path change => exact ho.changeScope path change
  | dropRequirement path capability => exact ho.dropRequirement path capability

theorem acts (ha : Acts h h') : h'.Orderly := by
  cases ha with
  | desired ha => exact ho.desiredAct ha
  | lease ha =>
    cases ha with
    | acquire ha =>
      obtain ⟨lease, m, -, rfl⟩ := Harness.acquire_ok ha
      exact ho.of_entries rfl rfl fun _ => rfl
    | release n hr =>
      rcases Harness.release_ok hr with rfl | ⟨lease, _, m, -, -, rfl⟩
      · exact ho
      · exact ho.of_entries rfl rfl fun _ => rfl
  | start =>
    unfold Harness.start
    split
    · exact ho.of_entries rfl rfl fun _ => rfl
    · exact ho
  | learn secrets => exact ho.of_entries rfl rfl fun _ => rfl

/-! ### configurations -/

theorem applyChange {c : Declarative.HarnessConfig} {change : Declarative.DesiredStateChange}
    {undone : List Harness.Undo} (hc : h.applyChange c change = (undone, .ok h')) : h'.Orderly := by
  unfold Harness.applyChange at hc
  split at hc
  · cases (Prod.mk.inj hc).2
    exact ho.uninstall _
  · split at hc
    · cases (Prod.mk.inj hc).2
      exact ho
    · obtain ⟨construct, -, hok⟩ := bind_ok.1 (Prod.mk.inj hc).2
      obtain ⟨⟨id, h₁⟩, hi, hok⟩ := bind_ok.1 hok
      cases hok
      exact ho.installFrom hi

theorem applyChanges {c : Declarative.HarnessConfig}
    {changes : List Declarative.DesiredStateChange} {undo undo' : List Harness.Undo}
    (hc : Harness.applyChanges c changes h undo = (none, h', undo')) : h'.Orderly := by
  induction changes generalizing h undo with
  | nil =>
    cases hc
    exact ho
  | cons change rest ih =>
    rw [Harness.applyChanges] at hc
    split at hc
    · split at hc
      · rename_i undone h₁ hone
        exact ih (ho.applyChange hone) hc
      · cases hc
    · exact ih ho hc

theorem applyConfig (c : Declarative.HarnessConfig) : (h.applyConfig c).2.Orderly := by
  rcases hres : (h.applyConfig c).1 with e | result
  · have hs := applyConfig_atomic h c hres
    refine ho.of_entries ?_ ?_ hs.entries
    · rw [hs.rest]
    · rw [hs.rest]
  · obtain ⟨changes, h₁, undo, -, hchanges, -, hafter⟩ := Harness.applyConfig_ok hres
    rw [hafter]
    exact (ho.applyChanges hchanges).of_entries rfl rfl fun _ => rfl

theorem applyPending : h.applyPending.2.Orderly := by
  unfold Harness.applyPending
  split
  · exact ho
  · have hcleared : Harness.Orderly { h with pendingConfig := none } :=
      ho.of_entries rfl rfl fun _ => rfl
    exact hcleared.applyConfig _

end Harness.Orderly

end
end Chassis
