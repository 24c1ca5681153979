import Chassis.Harness.Converge

/-!
# Services of the application

* `PluginManifest.Exposes`   a manifest promises what the application provides, and nothing else;
* `InStep`                   the services entry is installed iff something is provided, and exposes it;
* `ServicesOp`               what the application does to its services and to the entries beside them;
* `ServicesOp.Keeps`         a provision whose version parses, a configuration that leaves the
                             services entry as it is needed;
* `services_in_step_iff`     **the entry is in step throughout a run iff every operation of it keeps
                             the services**;
* `services_dropped`         a configuration that drops it.
-/

set_option linter.unusedSectionVars false

namespace Chassis
open Py Coop Declarative

section
variable [Packaging] [Platform]

/-- what a provision promises: the version it states, else the generation of its contract -/
def promised (p : CapabilityKey × Option String) : String := p.2.getD p.1.apiVersion

/-- the contracts of a manifest are those of the provisions -/
def PluginManifest.Exposes (m : PluginManifest) (provisions : List (CapabilityKey × Option String)) :
    Prop :=
  ∀ name version, (name, version) ∈ m.providedContracts ↔
    ∃ p ∈ provisions, p.1.name = name ∧ promised p = version

/-- the services entry is in step with what is provided -/
structure InStep (h : Harness) : Prop where
  installed : (h.plugins.entry? Harness.servicesEntry).isSome ↔ h.provisions.items ≠ []
  exposes : ∀ {e}, h.plugins.entry? Harness.servicesEntry = some e →
    e.manifest.Exposes h.provisions.items

/-- the promised version of a provision parses -/
def Parses (p : CapabilityKey × Option String) : Prop :=
  (CapabilityKey.fromVersion p.1.name (promised p)).isOk = true

/-! ## the manifest of the services -/

theorem PluginManifest.mem_providedContracts {m : PluginManifest} {name version : String} :
    (name, version) ∈ m.providedContracts ↔
      ∃ provided, m.provides.get? name = some provided ∧ version ∈ provided.versions := by
  unfold providedContracts
  rw [List.mem_flatMap]
  constructor
  · rintro ⟨⟨name', provided⟩, hp, hv⟩
    obtain ⟨v, hv, heq⟩ := List.mem_map.1 hv
    cases heq
    exact ⟨provided, Dict.mem_items.1 (mem_sortedBy.1 hp), hv⟩
  · rintro ⟨provided, hget, hv⟩
    exact ⟨(name, provided), mem_sortedBy.2 (Dict.mem_items.2 hget),
      List.mem_map.2 ⟨version, hv, rfl⟩⟩

/-- one provision more, among the versions promised under its name -/
def promise (d : Dict String (List String)) (p : CapabilityKey × Option String) :
    Dict String (List String) :=
  if promised p ∈ (d.get? p.1.name).getD [] then d
  else d.set p.1.name ((d.get? p.1.name).getD [] ++ [promised p])

theorem mem_promise {d : Dict String (List String)} {p : CapabilityKey × Option String}
    {name version : String} : version ∈ ((promise d p).get? name).getD [] ↔
      version ∈ (d.get? name).getD [] ∨ (p.1.name = name ∧ promised p = version) := by
  unfold promise
  split
  · rename_i hin
    refine ⟨fun h => Or.inl h, ?_⟩
    rintro (h | ⟨rfl, rfl⟩)
    · exact h
    · exact hin
  · rw [Dict.get?_set]
    split
    · rename_i hname
      subst hname
      rw [Option.getD_some, List.mem_append, List.mem_singleton, and_iff_right rfl]
      exact or_congr_right eq_comm
    · rename_i hname
      exact ⟨fun h => Or.inl h, fun h => h.resolve_right fun h' => hname h'.1.symm⟩

theorem mem_promises (l : List (CapabilityKey × Option String)) (d : Dict String (List String))
    (name version : String) : version ∈ ((l.foldl promise d).get? name).getD [] ↔
      version ∈ (d.get? name).getD [] ∨ ∃ p ∈ l, p.1.name = name ∧ promised p = version := by
  induction l generalizing d with
  | nil => exact ⟨fun h => Or.inl h, fun h => h.resolve_right fun ⟨_, hp, _⟩ => nomatch hp⟩
  | cons p l ih =>
    rw [List.foldl_cons, ih, mem_promise, or_assoc]
    refine or_congr_right ?_
    constructor
    · rintro (h | ⟨q, hq, h⟩)
      · exact ⟨p, List.mem_cons_self, h⟩
      · exact ⟨q, List.mem_cons_of_mem _ hq, h⟩
    · rintro ⟨q, hq, h⟩
      rcases List.mem_cons.1 hq with rfl | hq
      · exact Or.inl h
      · exact Or.inr ⟨q, hq, h⟩

/-- **The services plugin exposes the provisions** it is made from. -/
theorem Harness.servicesPlugin_exposes (provisions : List (CapabilityKey × Option String))
    (source : Nat) : (Harness.servicesPlugin provisions source).manifest.Exposes provisions := by
  intro name version
  have hfold := mem_promises provisions Dict.empty name version
  rw [Dict.get?_empty, Option.getD_none, or_iff_right List.not_mem_nil] at hfold
  refine Iff.trans ?_ hfold
  have hkeys : (((provisions.foldl promise Dict.empty).items.map
      fun p => (p.1, Provided.many p.2)).map Prod.fst).Nodup := by
    rw [List.map_map]
    exact Dict.keys_nodup (provisions.foldl promise Dict.empty)
  have hprovides : (Harness.servicesPlugin provisions source).manifest.provides =
      Dict.ofList ((provisions.foldl promise Dict.empty).items.map
        fun p => (p.1, Provided.many p.2)) := rfl
  rw [PluginManifest.mem_providedContracts, hprovides]
  constructor
  · rintro ⟨provided, hget, hv⟩
    obtain ⟨⟨name', versions⟩, hp, heq⟩ := List.mem_map.1 ((Dict.get?_ofList hkeys).1 hget)
    cases heq
    rw [Dict.mem_items.1 hp]
    exact hv
  · intro hv
    rcases hget : (provisions.foldl promise Dict.empty).get? name with _ | versions
    · rw [hget] at hv
      cases hv
    · rw [hget] at hv
      exact ⟨.many versions, (Dict.get?_ofList hkeys).2 (List.mem_map.2
        ⟨(name, versions), Dict.mem_items.2 hget, rfl⟩), hv⟩

theorem Harness.servicesPlugin_parses {provisions : List (CapabilityKey × Option String)}
    (source : Nat) : (∃ keys, (Harness.servicesPlugin provisions source).manifest.providedKeys =
      .ok keys) ↔ ∀ p ∈ provisions, Parses p := by
  have hexposes := Harness.servicesPlugin_exposes provisions source
  unfold PluginManifest.providedKeys
  constructor
  · rintro ⟨keys, hkeys⟩ p hp
    obtain ⟨k, -, hk⟩ := mapM_ok_mem_left hkeys ((hexposes _ _).2 ⟨p, hp, rfl, rfl⟩)
    unfold Parses
    rw [hk]
    rfl
  · intro hall
    refine mapM_total fun contract hcontract => ?_
    obtain ⟨p, hp, hname, hversion⟩ := (hexposes contract.1 contract.2).1 hcontract
    have hparses := hall p hp
    unfold Parses at hparses
    rw [hname, hversion] at hparses
    rcases hkey : CapabilityKey.fromVersion contract.1 contract.2 with e | k
    · rw [hkey] at hparses
      cases hparses
    · exact ⟨k, rfl⟩

/-! ## bringing the entry in line -/

theorem Harness.syncServicesEntry_ok {h : Harness} (hall : ∀ p ∈ h.provisions.items, Parses p) :
    ∃ h', h.syncServicesEntry = .ok h' ∧ h'.provisions = h.provisions ∧ InStep h' := by
  unfold syncServicesEntry
  by_cases hempty : h.provisions.items = []
  · rw [if_pos hempty]
    refine ⟨_, rfl, rfl, iff_of_false ?_ (fun hne => hne hempty), fun he => ?_⟩
    · show ¬ ((h.plugins.entries.erase servicesEntry).get? servicesEntry).isSome = true
      rw [Dict.get?_erase_self]
      exact Bool.false_ne_true
    · cases (Dict.get?_erase_self h.plugins.entries servicesEntry).symm.trans he
  · rw [if_neg hempty]
    obtain ⟨keys, hkeys⟩ := (servicesPlugin_parses h.drawn).2 hall
    have hinstall : ∃ entry plugins, h.plugins.install (servicesPlugin h.provisions.items h.drawn)
        (some servicesEntry) (h.plugins.entry? servicesEntry).isSome rootScope =
          .ok (entry, plugins) := by
      unfold PluginRegistry.install
      rw [if_neg (by decide +kernel), Option.getD_some]
      simp only
      rw [if_neg]
      · exact ⟨_, _, rfl⟩
      · rintro ⟨hin, hout⟩
        rw [show (h.plugins.entry? servicesEntry).isSome = true from hin] at hout
        cases hout
    obtain ⟨entry, plugins, hinstall⟩ := hinstall
    obtain ⟨hid, -, hman, -, -, -, hplugins⟩ := PluginRegistry.install_ok hinstall
    have hget : plugins.entries.get? servicesEntry = some entry := by
      rw [hplugins, show servicesEntry = entry.entryId from hid.symm]
      exact Dict.get?_set_self _ _ _
    refine ⟨{ h with plugins := plugins, drawn := h.drawn + 1, dirty := true },
      bind_ok.2 ⟨keys, hkeys, bind_ok.2 ⟨(entry.entryId, _), bind_ok.2 ⟨rootScope, rfl,
        bind_ok.2 ⟨(entry, plugins), hinstall, rfl⟩⟩, rfl⟩⟩, rfl, ?_, fun he => ?_⟩
    · refine iff_of_true ?_ hempty
      show (plugins.entries.get? servicesEntry).isSome = true
      rw [hget]
      rfl
    · cases hget.symm.trans he
      rw [hman]
      exact servicesPlugin_exposes _ _

theorem Harness.syncServicesEntry_error {h : Harness} {p : CapabilityKey × Option String}
    (hp : p ∈ h.provisions.items) (hbad : ¬ Parses p) : ∃ e, h.syncServicesEntry = .error e := by
  rcases hsync : h.syncServicesEntry with e | h'
  · exact ⟨e, rfl⟩
  · unfold syncServicesEntry at hsync
    rw [if_neg (List.ne_nil_of_mem hp)] at hsync
    obtain ⟨keys, hkeys, -⟩ := bind_ok.1 hsync
    exact absurd ((servicesPlugin_parses _).1 ⟨keys, hkeys⟩ p hp) hbad

/-- the entry is in step, and whatever is provided can be promised -/
structure Tended (h : Harness) : Prop extends InStep h where
  parses : ∀ p ∈ h.provisions.items, Parses p

/-- **What is provided is brought in line**, if it can be promised. -/
theorem Harness.withProvisions_tended {h : Harness} {d : Dict CapabilityKey (Option String)}
    (hall : ∀ p ∈ d.items, Parses p) : Tended (h.withProvisions d).2 := by
  obtain ⟨h', hsync, hprov, hin⟩ := syncServicesEntry_ok (h := { h with provisions := d }) hall
  unfold withProvisions
  simp only
  rw [hsync]
  refine ⟨⟨hin.installed, hin.exposes⟩, ?_⟩
  show ∀ p ∈ h'.provisions.items, Parses p
  rw [hprov]
  exact hall

/-! ## what the application does -/

namespace Harness
variable (h : Harness)

/-- What an accepted configuration does to the services entry is right: it is not installed when
nothing is provided; else it is as the configuration wants it, or of a class that exposes what is
provided. -/
def KeepsServices (c : Declarative.HarnessConfig) : Prop :=
  match c.wanted? servicesEntry with
  | none => h.provisions.items = []
  | some wanted => h.provisions.items ≠ [] ∧ (h.InPlace wanted ∨
      ∃ construct plugin, h.catalog.get? wanted.plugin = some construct ∧
        construct (some wanted.config) = .ok (.plugin plugin) ∧
        plugin.manifest.Exposes h.provisions.items)

end Harness

/-- what the application does to its services, and to the entries beside them -/
inductive ServicesOp
  | provide (capability : CapabilityKey) (version : Option String)
  | withdraw (matching : CapabilityKey → Bool)
  | applyConfig (c : Declarative.HarnessConfig)
  /-- the configuration that was handed to the constructor, when the harness starts -/
  | applyPending
  | install (source : PluginSource) (entryId : Option String) (config : Option (Dict String Value))
    (replace : Bool) (scope : Option String)
  | uninstall (entryId : String)

namespace ServicesOp
variable (h : Harness)

/-- the harness it leaves, whether it succeeds or raises -/
def after : ServicesOp → Harness
  | provide capability version => (h.provide capability version).2
  | withdraw matching => (h.withdraw matching).2
  | applyConfig c => (h.applyConfig c).2
  | applyPending => h.applyPending.2
  | install source entryId config replace scope =>
    match h.installFrom source entryId config replace scope with
    | .ok (_, h') => h'
    | .error _ => h
  | uninstall entryId => (h.uninstall entryId).2

/-- nothing is installed or uninstalled as the services entry -/
def Other : ServicesOp → Prop
  | install source entryId config replace scope => ∀ id h',
    h.installFrom source entryId config replace scope = .ok (id, h') → id ≠ Harness.servicesEntry
  | uninstall entryId => entryId ≠ Harness.servicesEntry
  | _ => True

/-- the promised version parses; a configuration that is accepted keeps the services -/
def Keeps : ServicesOp → Prop
  | provide capability version => Parses (capability, version)
  | applyConfig c => (h.applyConfig c).1.isOk = true → h.KeepsServices c
  | applyPending => ∀ c, h.pendingConfig = some c → h.applyPending.1.isOk = true →
    h.KeepsServices c
  | _ => True

end ServicesOp

/-! ## one operation -/

theorem InStep.congr {h h' : Harness} (hprov : h'.provisions = h.provisions)
    (hentry : h'.plugins.entries.get? Harness.servicesEntry =
      h.plugins.entries.get? Harness.servicesEntry) : InStep h' ↔ InStep h := by
  have hentry' : h'.plugins.entry? Harness.servicesEntry = h.plugins.entry? Harness.servicesEntry :=
    hentry
  constructor
  · intro hs
    refine ⟨?_, fun {e} he => ?_⟩
    · rw [← hentry', ← hprov]
      exact hs.installed
    · rw [← hprov]
      exact hs.exposes (hentry'.trans he)
  · intro hs
    refine ⟨?_, fun {e} he => ?_⟩
    · rw [hentry', hprov]
      exact hs.installed
    · rw [hprov]
      exact hs.exposes (hentry'.symm.trans he)

/-- **A configuration that is accepted** leaves the services in step iff it keeps them. -/
theorem InStep.applied {h : Harness} (ho : h.Orderly) (hs : InStep h)
    {c : Declarative.HarnessConfig} {result : Harness.ConfigApplyResult}
    (hok : (h.applyConfig c).1 = .ok result) :
    InStep (h.applyConfig c).2 ↔ h.KeepsServices c := by
  obtain ⟨changes, h₁, undo, ⟨installed, -, hinst, hdiff⟩, hchanges, -, hafter⟩ :=
    Harness.applyConfig_ok hok
  obtain ⟨hids, hof⟩ := diffDesiredState_ok hdiff
  have hsame : SameButEntries h h₁ := (Harness.applyChanges_carried
    (hids ▸ concernedIds_nodup c installed) hof hchanges).2.2
  have hprov : h₁.provisions = h.provisions := by rw [hsame.rest]
  refine Iff.trans (b := InStep h₁) (by rw [hafter]; exact InStep.congr rfl rfl) ?_
  unfold Harness.KeepsServices
  rcases hwanted : c.wanted? Harness.servicesEntry with _ | wanted
  · have hgone := unwanted_gone ho.housed hinst hdiff hchanges hwanted
    have hgone' : h₁.plugins.entry? Harness.servicesEntry = none := hgone
    simp only
    constructor
    · intro hs'
      by_contra hne
      have hin := hs'.installed.2 (by rw [hprov]; exact hne)
      rw [hgone'] at hin
      cases hin
    · intro hempty
      refine ⟨?_, fun he => ?_⟩
      · rw [hgone', hprov]
        exact iff_of_false Bool.false_ne_true fun hne => hne hempty
      · rw [hgone'] at he
        cases he
  · obtain ⟨hin, hid⟩ := c.wanted?_eq_some.1 hwanted
    have hbecame := wanted_installed ho.housed hinst hdiff hchanges hin
    rw [hid] at hbecame
    simp only
    rcases hbecame with ⟨hplace, hkept⟩ | ⟨hout, construct, plugin, entry, hcon, hmade, hget, hman, -⟩
    · refine (InStep.congr hprov hkept).trans (iff_of_true hs ⟨hs.installed.1 ?_, Or.inl hplace⟩)
      obtain ⟨e, -, he, -⟩ := hplace
      rw [hid] at he
      exact Option.isSome_iff_exists.2 ⟨e, he⟩
    · have hget' : h₁.plugins.entry? Harness.servicesEntry = some entry := hget
      constructor
      · intro hs'
        refine ⟨?_, Or.inr ⟨construct, plugin, hcon, hmade, ?_⟩⟩
        · rw [← hprov]
          refine hs'.installed.1 ?_
          rw [hget']
          rfl
        · rw [← hman, ← hprov]
          exact hs'.exposes hget'
      · rintro ⟨hne, hplace | ⟨construct', plugin', hcon', hmade', hexposes⟩⟩
        · exact absurd hplace hout
        · rw [hcon] at hcon'
          cases hcon'
          rw [hmade] at hmade'
          cases hmade'
          refine ⟨?_, fun he => ?_⟩
          · rw [hget', hprov]
            exact iff_of_true rfl hne
          · rw [hget'] at he
            cases he
            rw [hman, hprov]
            exact hexposes

theorem InStep.applyConfig_iff {h : Harness} (ho : h.Orderly) (hs : InStep h)
    (c : Declarative.HarnessConfig) : InStep (h.applyConfig c).2 ↔
      ((h.applyConfig c).1.isOk = true → h.KeepsServices c) := by
  rcases hr : (h.applyConfig c).1 with e | result
  · have hsame := applyConfig_atomic h c hr
    refine iff_of_true ((InStep.congr ?_ (hsame.entries _)).2 hs) fun h => nomatch h
    rw [hsame.rest]
  · refine (hs.applied ho hr).trans ⟨fun hk _ => hk, fun hk => hk rfl⟩

theorem Harness.provisions_erased {d : Dict CapabilityKey (Option String)}
    {p : CapabilityKey × Option String} (l : List CapabilityKey)
    (hp : p ∈ (l.foldl (fun d k => d.erase k) d).items) : p ∈ d.items := by
  induction l generalizing d with
  | nil => exact hp
  | cons k l ih =>
    have hget := Dict.mem_items.1 (ih hp : (p.1, p.2) ∈ (d.erase k).items)
    rw [Dict.get?_erase] at hget
    split at hget
    · cases hget
    · exact Dict.mem_items.2 hget

theorem Harness.applyConfig_provisions (h : Harness) (c : Declarative.HarnessConfig) :
    (h.applyConfig c).2.provisions = h.provisions := by
  rcases hr : (h.applyConfig c).1 with e | result
  · rw [(applyConfig_atomic h c hr).rest]
  · obtain ⟨changes, h₁, undo, ⟨installed, -, -, hdiff⟩, hchanges, -, hafter⟩ :=
      Harness.applyConfig_ok hr
    obtain ⟨hids, hof⟩ := diffDesiredState_ok hdiff
    have hsame : SameButEntries h h₁ := (Harness.applyChanges_carried
      (hids ▸ concernedIds_nodup c installed) hof hchanges).2.2
    rw [hafter]
    show h₁.provisions = h.provisions
    rw [hsame.rest]

/-- **What one operation does to the services**: they stay in step iff it keeps them, and then what
is provided can still be promised. -/
theorem ServicesOp.after_iff {h : Harness} (ho : h.Orderly) (ht : Tended h) {op : ServicesOp}
    (hother : op.Other h) : (InStep (op.after h) ↔ op.Keeps h) ∧
      (op.Keeps h → Tended (op.after h)) := by
  have hkept : ∀ {h' : Harness}, h'.provisions = h.provisions → (InStep h' ↔ op.Keeps h) →
      (InStep h' ↔ op.Keeps h) ∧ (op.Keeps h → Tended h') := by
    intro h' hprov hiff
    refine ⟨hiff, fun hk => ⟨hiff.2 hk, ?_⟩⟩
    rw [hprov]
    exact ht.parses
  cases op with
  | provide capability version =>
    have hset : ∀ p, p ∈ (h.provisions.set capability version).items →
        p = (capability, version) ∨ p ∈ h.provisions.items := by
      intro p hp
      have hget := Dict.mem_items.1 (show (p.1, p.2) ∈ _ from hp)
      rw [Dict.get?_set] at hget
      split at hget
      · rename_i hkey
        exact Or.inl (Prod.ext hkey (Option.some.inj hget).symm)
      · exact Or.inr (Dict.mem_items.2 hget)
    have hyes : Parses (capability, version) → Tended (h.provide capability version).2 := by
      intro hparses
      refine Harness.withProvisions_tended fun p hp => ?_
      rcases hset p hp with rfl | hp
      · exact hparses
      · exact ht.parses p hp
    refine ⟨⟨fun hs => ?_, fun hparses => (hyes hparses).toInStep⟩, hyes⟩
    by_contra hbad
    have hin : (capability, version) ∈ (h.provisions.set capability version).items :=
      Dict.mem_items.2 (Dict.get?_set_self _ _ _)
    obtain ⟨e, herr⟩ := Harness.syncServicesEntry_error
      (h := { h with provisions := h.provisions.set capability version }) hin hbad
    have hafter : (h.provide capability version).2 =
        { h with provisions := h.provisions.set capability version } := by
      unfold Harness.provide Harness.withProvisions
      simp only
      rw [herr]
    replace hs : InStep (h.provide capability version).2 := hs
    rw [hafter] at hs
    obtain ⟨entry, hentry⟩ := Option.isSome_iff_exists.1
      (hs.installed.2 (List.ne_nil_of_mem hin))
    obtain ⟨p, hp, hname, hversion⟩ := (ht.exposes hentry _ _).1
      ((hs.exposes hentry _ _).2 ⟨_, hin, rfl, rfl⟩)
    have hparses := ht.parses p hp
    unfold Parses at hparses hbad
    rw [hname, hversion] at hparses
    exact hbad hparses
  | withdraw matching =>
    have hyes : Tended (h.withdraw matching).2 := by
      unfold Harness.withdraw
      simp only
      split
      · exact ht
      · exact Harness.withProvisions_tended fun p hp =>
          ht.parses p (Harness.provisions_erased _ hp)
    exact ⟨iff_of_true hyes.toInStep trivial, fun _ => hyes⟩
  | applyConfig c =>
    exact hkept (h.applyConfig_provisions c) (ht.toInStep.applyConfig_iff ho c)
  | applyPending =>
    have hprov : h.applyPending.2.provisions = h.provisions := by
      unfold Harness.applyPending
      split
      · rfl
      · exact Harness.applyConfig_provisions _ _
    refine hkept hprov ?_
    unfold ServicesOp.Keeps ServicesOp.after Harness.applyPending
    rcases hpend : h.pendingConfig with _ | c
    · exact iff_of_true ht.toInStep fun c hc => by cases hc
    · have ho' : Harness.Orderly { h with pendingConfig := none } := ho.of_entries rfl rfl fun _ => rfl
      have hpending : InStep { h with pendingConfig := none } ↔ InStep h := InStep.congr rfl rfl
      have hs' : InStep { h with pendingConfig := none } := hpending.2 ht.toInStep
      refine (hs'.applyConfig_iff ho' c).trans ⟨?_, ?_⟩
      · rintro hk _ ⟨⟩ hok
        refine hk ?_
        rcases hr : (Harness.applyConfig { h with pendingConfig := none } c).1 with e | r
        · simp only [hr] at hok
          cases hok
        · rfl
      · intro hk hok
        refine hk c rfl ?_
        rcases hr : (Harness.applyConfig { h with pendingConfig := none } c).1 with e | r
        · rw [hr] at hok
          cases hok
        · simp only [hr]
          rfl
  | install source entryId config replace scope =>
    have hsame : ((ServicesOp.install source entryId config replace scope).after h).provisions =
          h.provisions ∧
        ((ServicesOp.install source entryId config replace scope).after h).plugins.entries.get?
          Harness.servicesEntry = h.plugins.entries.get? Harness.servicesEntry := by
      unfold ServicesOp.after
      simp only
      split
      · rename_i id h' hi
        obtain ⟨path, plugin, entry, -, -, hp, hid, hrest⟩ := Harness.installFrom_ok hi
        obtain ⟨-, -, -, -, -, -, hplugins⟩ := PluginRegistry.install_ok hp
        refine ⟨by rw [hrest], ?_⟩
        rw [hplugins]
        exact Dict.get?_set_ne _ _ fun heq => hother id h' hi (hid.trans heq.symm)
      · exact ⟨rfl, rfl⟩
    exact hkept hsame.1 (iff_of_true ((InStep.congr hsame.1 hsame.2).2 ht.toInStep) trivial)
  | uninstall entryId =>
    have hentry : (h.uninstall entryId).2.plugins.entries.get? Harness.servicesEntry =
        h.plugins.entries.get? Harness.servicesEntry :=
      Dict.get?_erase_ne _ fun heq => hother heq.symm
    have hprov : (h.uninstall entryId).2.provisions = h.provisions := rfl
    exact hkept hprov (iff_of_true ((InStep.congr hprov hentry).2 ht.toInStep) trivial)

theorem Harness.Orderly.serviced {h : Harness} (ho : h.Orderly) (op : ServicesOp) :
    (op.after h).Orderly := by
  cases op with
  | provide capability version => exact ho.control (.act (.desired (.provide _ _ _)))
  | withdraw matching => exact ho.control (.act (.desired (.withdraw _ _)))
  | applyConfig c => exact ho.applyConfig c
  | applyPending => exact ho.applyPending
  | install source entryId config replace scope =>
    unfold ServicesOp.after
    simp only
    split
    · rename_i hi
      exact ho.installFrom hi
    · exact ho
  | uninstall entryId => exact ho.uninstall entryId

/-! ## runs -/

/-- an operation of the application, carried out by some task -/
def ServicesAct (h h' : Harness) : Prop := ∃ op : ServicesOp, op.Other h ∧ op.after h = h'

/-- one that keeps the services -/
def KeepingAct (h h' : Harness) : Prop :=
  ∃ op : ServicesOp, op.Other h ∧ op.Keeps h ∧ op.after h = h'

theorem Pristine.tended {h : Harness} (hp : Pristine h) : Tended h := by
  have hprov : h.provisions.items = [] := by rw [hp.provisions]; rfl
  have hentry : h.plugins.entry? Harness.servicesEntry = none := by rw [hp.plugins]; rfl
  refine ⟨⟨?_, fun he => ?_⟩, fun p hin => ?_⟩
  · rw [hentry, hprov]
    exact iff_of_false Bool.false_ne_true fun hne => hne rfl
  · rw [hentry] at he
    cases he
  · rw [hprov] at hin
    cases hin

section
variable {h₀ : Harness} (hp : Pristine h₀) {history : List (Event Job Err × HarnessConfig)}
  {c : HarnessConfig}
include hp

theorem keeping_tended (hrun : Run KeepingAct Job.program ⟨h₀, none⟩ history c) :
    c.state.Orderly ∧ Tended c.state := by
  refine declared_run (I := fun h => h.Orderly ∧ Tended h) ?_ ?_ hrun ⟨hp.orderly, hp.tended⟩
  · rintro h h' ⟨ho, ht⟩ hs
    refine ⟨ho.of_same hs, (InStep.congr hs.provisions (by rw [hs.entries])).2 ht.toInStep, ?_⟩
    rw [hs.provisions]
    exact ht.parses
  · rintro h h' ⟨op, hother, hkeeps, rfl⟩ ⟨ho, ht⟩
    exact ⟨ho.serviced op, (ServicesOp.after_iff ho ht hother).2 hkeeps⟩

/-- **The services entry is in step in every state of a run**, reconciles included, iff every
operation of the run keeps the services. -/
theorem services_in_step_iff (hrun : Run ServicesAct Job.program ⟨h₀, none⟩ history c) :
    (∀ step ∈ history, InStep step.2.state) ↔
      Run KeepingAct Job.program ⟨h₀, none⟩ history c := by
  refine RunGiven.holds_iff_kept (I := fun h => h.Orderly ∧ Tended h) (keeping_tended hp)
    (fun h hi => hi.2.toInStep) ?_ hrun
  rintro h h' ⟨ho, ht⟩ ⟨op, hother, rfl⟩ hs
  exact ⟨op, hother, (ServicesOp.after_iff ho ht hother).1.1 hs, rfl⟩

end

end

section
open scoped Plain

/-- generation 1 of a database -/
def databaseKey : CapabilityKey := ⟨"db", "1", CapabilityKey.named_db, CapabilityKey.generation_one⟩

def providing : Harness := (({} : Harness).provide databaseKey none).2

/-- a configuration that mentions nothing -/
def silentConfig : Declarative.HarnessConfig where
  version_supported := Declarative.HarnessConfig.version_one
  ids_unique := by simp

theorem services_in_step_iff_provided : InStep providing := by
  have hkeeping : Run KeepingAct Job.program ⟨{}, none⟩ [(.acted, ⟨providing, none⟩)]
      ⟨providing, none⟩ :=
    .tail .refl (.act ⟨.provide databaseKey none, trivial, by
      show Parses (databaseKey, none)
      unfold Parses
      decide +kernel, rfl⟩)
  have hrun : Run ServicesAct Job.program ⟨{}, none⟩ [(.acted, ⟨providing, none⟩)]
      ⟨providing, none⟩ := .tail .refl (.act ⟨.provide databaseKey none, trivial, rfl⟩)
  exact (services_in_step_iff pristine_new hrun).2 hkeeping _ List.mem_cons_self

/-- **A configuration that does not mention the services drops them**: the database is provided
still, but its entry is gone. -/
theorem services_dropped : ∃ history c, Run ServicesAct Job.program ⟨{}, none⟩ history c ∧
    ¬ InStep c.state ∧ c.state.provisions.items.map (fun p => p.1.name) = ["db"] ∧
    c.state.plugins.entry? Harness.servicesEntry = none := by
  have hgone : (providing.applyConfig silentConfig).2.plugins.entry? Harness.servicesEntry =
      none := by decide +kernel
  have hleft : (providing.applyConfig silentConfig).2.provisions.items.map (fun p => p.1.name) =
      ["db"] := by decide +kernel
  refine ⟨_, ⟨(providing.applyConfig silentConfig).2, none⟩, .tail (.tail .refl (.act
    ⟨.provide databaseKey none, trivial, rfl⟩)) (.act ⟨.applyConfig silentConfig, trivial, rfl⟩),
    fun hs => ?_, hleft, hgone⟩
  have hin := hs.installed.2 fun hempty => by
    rw [hempty] at hleft
    cases hleft
  rw [hgone] at hin
  cases hin

end
end Chassis
