import Chassis.Harness.Selection

/-!
# Agents that move

* `Harness.Moves`     a new revision of an active agent, at a path that is not in use;
* `Moved`             its contributions are what is installed of the agent, all of them there, and
                      the old scope is gone;
* `Harness.Movable`   no contribution is installed yet, the new scope is not within the old one, and
                      what is installed of the agent goes with the old revision;
* `moved_iff`         **a revision moves** iff it is movable.
-/

set_option linter.unusedSectionVars false

namespace Chassis
open Py Coop

section
variable [Packaging] [Platform]
open Harness (agentEntryId contributable)

namespace Harness
variable (h : Harness)

/-! ## when a revision moves -/

/-- a contribution is valid by itself: if its id were its own, it could be staged and installed -/
def Admits (spec : AgentSpec) (p : String × Contribution) : Prop :=
  ∃ s, h.stageContribution spec [agentEntryId spec.name p.1] p = .ok s ∧ contributable s = true

/-- a new revision of an agent that is active, valid by itself, at another path that is not in use -/
structure Moves (old : AgentRevision) (spec : AgentSpec) : Prop where
  active : h.agents.activeSpec spec.name = some old
  new : h.agents.published spec.name spec.revision = none
  elsewhere : old.scope ≠ spec.scopePath
  unused : h.composition.get? spec.scopePath = none
  canonical : canonicalScopePath spec.scopePath = .ok spec.scopePath
  parses : spec.parses = true
  contributions : ∀ p ∈ spec.plugins.items, h.Admits spec p
  digests : h.digests spec = true

/-- the scope of a revision goes with it -/
def Holds (old : AgentRevision) : Prop :=
  old.scope ∈ h.agents.ownedScopePaths ∧ (h.composition.get? old.scope).isSome

/-- No contribution is installed yet, the new scope is not within the old one, and what is installed
of the agent goes with the old revision: all of it lies within the old scope or, where that does not
go, is what the old revision declared. -/
structure Movable (old : AgentRevision) (spec : AgentSpec) : Prop where
  free : ∀ plugin ∈ spec.plugins.keys,
    h.plugins.entries.get? (agentEntryId spec.name plugin) = none
  outside : old.scope ∈ h.agents.ownedScopePaths →
    CompositionTree.isWithin spec.scopePath old.scope = false
  within : h.Holds old → ∀ plugin e,
    h.plugins.entries.get? (agentEntryId spec.name plugin) = some e →
    CompositionTree.isWithin e.scope old.scope = true
  declared : ¬ h.Holds old → ∀ plugin e,
    h.plugins.entries.get? (agentEntryId spec.name plugin) = some e →
    agentEntryId spec.name plugin ∈ old.entries
  apart : ¬ h.Holds old → ∀ plugin ∈ spec.plugins.keys, agentEntryId spec.name plugin ∉ old.entries

end Harness

/-- what is installed of the agent is what the revision contributes, all of it in its scope, and the
old scope is gone, if the agents owned it -/
structure Moved (h h' : Harness) (old : AgentRevision) (spec : AgentSpec) : Prop where
  entries : ∀ plugin, (h'.plugins.entries.get? (agentEntryId spec.name plugin)).isSome = true ↔
    plugin ∈ spec.plugins.keys
  housed : ∀ plugin e, h'.plugins.entries.get? (agentEntryId spec.name plugin) = some e →
    e.scope = spec.scopePath
  scope : (h'.composition.get? spec.scopePath).isSome = true
  gone : old.scope ∈ h.agents.ownedScopePaths → h'.composition.get? old.scope = none

/-! ## the new revision arrives -/

/-- a revision without a predecessor was materialized -/
structure Arrived (h h₁ : Harness) (spec : AgentSpec) : Prop where
  orderly : h₁.Orderly
  free : ∀ plugin ∈ spec.plugins.keys,
    h.plugins.entries.get? (agentEntryId spec.name plugin) = none
  installed : ∀ plugin ∈ spec.plugins.keys, ∃ e,
    h₁.plugins.entries.get? (agentEntryId spec.name plugin) = some e ∧ e.scope = spec.scopePath
  others : ∀ plugin, plugin ∉ spec.plugins.keys →
    h₁.plugins.entries.get? (agentEntryId spec.name plugin) =
      h.plugins.entries.get? (agentEntryId spec.name plugin)
  scope : (h₁.composition.get? spec.scopePath).isSome = true
  kept : ∀ {p}, p ≠ spec.scopePath → (h.composition.get? p).isSome = true →
    (h₁.composition.get? p).isSome = true
  added : ∀ {p}, p ≠ spec.scopePath → (h₁.composition.get? p).isSome = true →
    (h.composition.get? p).isSome = true ∨ CompositionTree.isWithin spec.scopePath p = true
  owned : ∀ {p}, p ≠ spec.scopePath →
    (p ∈ h₁.agents.ownedScopePaths ↔ p ∈ h.agents.ownedScopePaths)

theorem mem_contributed {spec : AgentSpec} {plugin : String} :
    agentEntryId spec.name plugin ∈
        (sortedBy Prod.fst spec.plugins.items).map (fun p => agentEntryId spec.name p.1) ↔
      plugin ∈ spec.plugins.keys := by
  constructor
  · intro hin
    obtain ⟨p, hp, heq⟩ := List.mem_map.1 hin
    rw [← agentEntryId_injective heq]
    exact List.mem_map.2 ⟨p, mem_sortedBy.1 hp, rfl⟩
  · intro hin
    obtain ⟨p, hp, rfl⟩ := List.mem_map.1 hin
    exact List.mem_map.2 ⟨p, mem_sortedBy.2 hp, rfl⟩

theorem MaterializeOutcome.arrived {h h₁ : Harness} {spec : AgentSpec} {r : AgentRevision}
    (hm : MaterializeOutcome h spec none (.ok r, h₁)) : Arrived h h₁ spec := by
  cases hm with
  | @done staged digest h₂ undo hstage _ ha hd =>
    have hfor := Harness.stageAgent_ok hstage
    have hsame : h₂.dropContributions none
        (sorted (staged.map Harness.StagedContribution.entryId)) = h₂ := rfl
    rw [hsame]
    have hids : ∀ {plugin}, agentEntryId spec.name plugin ∈
        staged.map Harness.StagedContribution.entryId ↔ plugin ∈ spec.plugins.keys := by
      intro plugin
      rw [hfor.ids]
      exact mem_contributed
    refine ⟨ha.orderly, fun plugin hin => ?_, fun plugin hin => ?_, fun plugin hout => ?_, ha.declared,
      fun {p} hne hdecl => ?_, fun {p} hne hdecl => ?_, fun {p} hne => ?_⟩
    · obtain ⟨s, hs, hid⟩ := List.mem_map.1 (hids.2 hin)
      by_contra htaken
      refine List.not_mem_nil (hfor.free s hs ?_)
      rw [hid]
      exact Option.isSome_iff_ne_none.2 htaken
    · obtain ⟨s, hs, hid⟩ := List.mem_map.1 (hids.2 hin)
      rw [← hid]
      exact hd.housed s hs
    · exact hd.others _ fun hin => hout (hids.1 hin)
    · obtain ⟨s, hs⟩ := Option.isSome_iff_exists.1 hdecl
      exact Option.isSome_iff_exists.2 ⟨s, ha.kept hne hs⟩
    · obtain ⟨s, hs⟩ := Option.isSome_iff_exists.1 hdecl
      rcases ha.added hne hs with hold | ⟨-, hwithin, -⟩
      · exact .inl (Option.isSome_iff_exists.2 ⟨s, hold⟩)
      · exact .inr hwithin
    · rw [ha.agents]
      split
      · exact Iff.rfl
      · exact AgentRegistry.mem_own.trans (or_iff_left hne)

/-- **A revision that is valid by itself is staged** iff none of its contributions is installed. -/
theorem Harness.Moves.stages {h : Harness} {old : AgentRevision} {spec : AgentSpec}
    (hm : h.Moves old spec)
    (hfree : ∀ plugin ∈ spec.plugins.keys,
      h.plugins.entries.get? (agentEntryId spec.name plugin) = none) :
    ∃ staged, h.stageAgent spec none = .ok staged ∧ h.Declarable spec staged := by
  have heach : ∀ p ∈ sortedBy Prod.fst spec.plugins.items, ∃ s,
      h.stageContribution spec [] p = .ok s ∧ contributable s = true := by
    intro p hp
    obtain ⟨s, hs, hvalid⟩ := hm.contributions p (mem_sortedBy.1 hp)
    have hnone : (h.plugins.entry? (agentEntryId spec.name p.1)).isSome = false := by
      unfold PluginRegistry.entry?
      rw [hfree p.1 (List.mem_map.2 ⟨p, mem_sortedBy.1 hp, rfl⟩)]
      rfl
    refine ⟨s, ?_, hvalid⟩
    rw [← hs]
    unfold stageContribution
    simp only [hnone, Bool.false_eq_true, false_and, if_false]
  obtain ⟨staged, hstaged⟩ := mapM_total fun p hp => (heach p hp).imp fun _ hs => hs.1
  refine ⟨staged, bind_ok.2 ⟨staged, hstaged, bind_ok.2 ⟨_, hm.canonical, ?_⟩⟩, hm.parses, ?_⟩
  · rw [if_neg]
    rw [hm.unused]
    exact fun hused => nomatch hused.1
  · intro s hs
    obtain ⟨p, hp, hs'⟩ := mapM_ok_mem hstaged hs
    obtain ⟨s', hs'', hvalid⟩ := heach p hp
    rw [hs''] at hs'
    cases hs'
    exact .inr hvalid

/-! ## the old one goes -/

section
variable {h h₁ h₂ : Harness} {old : AgentRevision} {spec : AgentSpec}

theorem Harness.Moves.superseded (hm : h.Moves old spec) :
    h.supersededBy spec = some old ∧ h.precededBy spec = none ∧ ¬ h.Forbids spec true := by
  obtain ⟨revision, hactive, hpublished⟩ := Option.bind_eq_some_iff.1 hm.active
  have hne : revision ≠ spec.revision := by
    rintro rfl
    have hnew := hm.new
    rw [show h.agents.published spec.name spec.revision = some old from hpublished] at hnew
    cases hnew
  have hcandidate : h.candidateOf spec = some old := by
    unfold candidateOf
    rw [hactive, Option.filter_some, if_pos (decide_eq_true hne)]
    exact hpublished
  unfold supersededBy precededBy
  rw [hcandidate, Option.filter_some, Option.filter_some, if_pos (decide_eq_true hm.elsewhere),
    if_neg (by simpa using hm.elsewhere)]
  refine ⟨rfl, rfl, ?_⟩
  rintro (⟨r, hr, -⟩ | ⟨_, _, _, hreplace⟩)
  · rw [hm.new] at hr
    cases hr
  · cases hreplace

/-- the old scope goes as a whole in the end iff it would have before -/
theorem Arrived.holds_iff (ha : Arrived h h₁ spec) (hne : old.scope ≠ spec.scopePath)
    (hout : old.scope ∈ h.agents.ownedScopePaths →
      CompositionTree.isWithin spec.scopePath old.scope = false) :
    h₁.Holds old ↔ h.Holds old := by
  unfold Harness.Holds
  rw [ha.owned hne]
  refine and_congr_right fun howned => ⟨fun hdecl => ?_, ha.kept hne⟩
  refine (ha.added hne hdecl).resolve_right fun hwithin => ?_
  rw [hout howned] at hwithin
  cases hwithin

/-- **Where it is movable, the revision moves.** -/
theorem Arrived.moved (ha : Arrived h h₁ spec) (hne : old.scope ≠ spec.scopePath)
    (hm : h.Movable old spec) (hw : Withdrawn old h₁ h₂) : Moved h h₂ old spec := by
  have hholds := ha.holds_iff hne hm.outside
  cases hw with
  | @scope h' howned hdecl hrem =>
    have hold : h.Holds old := hholds.1 ⟨howned, hdecl⟩
    have hout := hm.outside hold.1
    refine ⟨fun plugin => ⟨fun hsome => ?_, fun hin => ?_⟩, fun plugin e he => ?_, ?_, fun _ => ?_⟩
    · obtain ⟨e, he⟩ := Option.isSome_iff_exists.1 hsome
      obtain ⟨he₁, hkeep⟩ := hrem.entries.gone he
      by_contra hnot
      rw [ha.others plugin hnot] at he₁
      rw [hm.within hold plugin e he₁] at hkeep
      cases hkeep
    · obtain ⟨e, he, hscope⟩ := ha.installed plugin hin
      exact Option.isSome_iff_exists.2 ⟨e, hrem.entries.kept he (hscope ▸ hout)⟩
    · obtain ⟨he₁, hkeep⟩ := hrem.entries.gone he
      by_cases hin : plugin ∈ spec.plugins.keys
      · obtain ⟨e', he', hscope⟩ := ha.installed plugin hin
        rw [he'] at he₁
        cases he₁
        exact hscope
      · rw [ha.others plugin hin] at he₁
        rw [hm.within hold plugin e he₁] at hkeep
        cases hkeep
    · show (h'.composition.get? spec.scopePath).isSome = true
      rw [hrem.composition, ha.orderly.tree.get?_detach, hout]
      exact ha.scope
    · show h'.composition.get? old.scope = none
      rw [hrem.composition, ha.orderly.tree.get?_detach, if_pos (CompositionTree.isWithin_refl _)]
  | entries hnot =>
    have hlost : ¬ h.Holds old := fun hold => hnot (hholds.2 hold)
    have hred := Harness.uninstallAll_reduced ha.orderly.housed old.entries
    have hid : ∀ {plugin e}, h₁.plugins.entries.get? (agentEntryId spec.name plugin) = some e →
        e.entryId = agentEntryId spec.name plugin := fun he => (ha.orderly.housed _ _ he).1
    refine ⟨fun plugin => ⟨fun hsome => ?_, fun hin => ?_⟩, fun plugin e he => ?_, ?_, fun howned => ?_⟩
    · obtain ⟨e, he⟩ := Option.isSome_iff_exists.1 hsome
      obtain ⟨he₁, hkeep⟩ := hred.gone he
      by_contra hout
      rw [hid he₁] at hkeep
      rw [ha.others plugin hout] at he₁
      exact hkeep (hm.declared hlost plugin e he₁)
    · obtain ⟨e, he, -⟩ := ha.installed plugin hin
      refine Option.isSome_iff_exists.2 ⟨e, hred.kept he ?_⟩
      rw [hid he]
      exact hm.apart hlost plugin hin
    · obtain ⟨he₁, hkeep⟩ := hred.gone he
      by_cases hin : plugin ∈ spec.plugins.keys
      · obtain ⟨e', he', hscope⟩ := ha.installed plugin hin
        rw [he'] at he₁
        cases he₁
        exact hscope
      · rw [hid he₁] at hkeep
        rw [ha.others plugin hin] at he₁
        exact (hkeep (hm.declared hlost plugin e he₁)).elim
    · rw [hred.rest]
      exact ha.scope
    · rw [hred.rest]
      exact Option.not_isSome_iff_eq_none.1 fun hdecl => hnot ⟨(ha.owned hne).2 howned, hdecl⟩

/-- **What has moved was movable.** -/
theorem Arrived.movable (ha : Arrived h h₁ spec) (ho : h.Orderly) (hne : old.scope ≠ spec.scopePath)
    (hw : Withdrawn old h₁ h₂) (hm : Moved h h₂ old spec) : h.Movable old spec := by
  have hout : old.scope ∈ h.agents.ownedScopePaths →
      CompositionTree.isWithin spec.scopePath old.scope = false := by
    intro howned
    obtain ⟨-, hcanonical⟩ := ho.owned _ howned
    by_contra hwithin
    rw [Bool.not_eq_false] at hwithin
    have hdecl := ha.orderly.tree.within_declared ha.scope hwithin
      (canonicalScopePath_nonempty hcanonical)
    obtain ⟨h', hrem, rfl⟩ := hw.removed ((ha.owned hne).2 howned) hdecl
    have hgone := hrem.gone ha.orderly hm.scope
    rw [hwithin] at hgone
    cases hgone
  have hholds := ha.holds_iff hne hout
  have hleft : ∀ {plugin e}, h.plugins.entries.get? (agentEntryId spec.name plugin) = some e →
      h₁.plugins.entries.get? (agentEntryId spec.name plugin) = some e ∧
        h₂.plugins.entries.get? (agentEntryId spec.name plugin) = none := by
    intro plugin e he
    have hnot : plugin ∉ spec.plugins.keys := by
      intro hin
      rw [ha.free plugin hin] at he
      cases he
    refine ⟨(ha.others plugin hnot).trans he, ?_⟩
    rcases hget : h₂.plugins.entries.get? (agentEntryId spec.name plugin) with _ | e'
    · rfl
    · exact (hnot ((hm.entries plugin).1 (Option.isSome_iff_exists.2 ⟨e', hget⟩))).elim
  refine ⟨ha.free, hout, fun hold plugin e he => ?_, fun hlost plugin e he => ?_,
    fun hlost plugin hin hmem => ?_⟩
  · obtain ⟨he₁, hgone⟩ := hleft he
    obtain ⟨h', hrem, rfl⟩ := hw.removed (hholds.2 hold).1 (hholds.2 hold).2
    by_contra hnot
    have hkept := hrem.entries.kept he₁ (Bool.eq_false_iff.2 hnot)
    rw [show h'.plugins.entries.get? (agentEntryId spec.name plugin) = none from hgone] at hkept
    cases hkept
  · obtain ⟨he₁, hgone⟩ := hleft he
    cases hw with
    | scope howned hdecl _ => exact (hlost (hholds.1 ⟨howned, hdecl⟩)).elim
    | entries _ =>
      by_contra hnot
      have hkept := (Harness.uninstallAll_reduced ha.orderly.housed old.entries).kept he₁
        ((ha.orderly.housed _ _ he₁).1 ▸ hnot)
      rw [hgone] at hkept
      cases hkept
  · cases hw with
    | scope howned hdecl _ => exact (hlost (hholds.1 ⟨howned, hdecl⟩)).elim
    | entries _ =>
      obtain ⟨e, he⟩ := Option.isSome_iff_exists.1 ((hm.entries plugin).2 hin)
      obtain ⟨he₁, hkeep⟩ := (Harness.uninstallAll_reduced ha.orderly.housed old.entries).gone he
      rw [(ha.orderly.housed _ _ he₁).1] at hkeep
      exact hkeep hmem

end

/-- **A revision moves to another scope iff it is movable**, in every state a harness comes to. -/
theorem moved_iff {h₀ : Harness} {history : List (Event Job Err × HarnessConfig)}
    {c : HarnessConfig} (hrun : ControlRun h₀ history c) {old : AgentRevision} {spec : AgentSpec}
    (hm : c.state.Moves old spec) :
    ((c.state.replaceAgent spec).1.isOk = true ∧
      Moved c.state (c.state.replaceAgent spec).2 old spec) ↔ c.state.Movable old spec := by
  have ho : c.state.Orderly := hrun.orderly
  generalize c.state = h at ho hm ⊢
  obtain ⟨hsuperseded, hpreceded, hallowed⟩ := hm.superseded
  have hout := Harness.installAgent_outcome ho spec true
  have hremember : ∀ {h₁}, Arrived (h.remembering spec) h₁ spec → Arrived h h₁ spec := by
    intro h₁ ha
    refine ⟨ha.orderly, ha.free, ha.installed, ha.others, ha.scope, ha.kept, ha.added, fun {p} hne => ?_⟩
    rw [ha.owned hne]
    show p ∈ (h.agents.remember spec.name).ownedScopePaths ↔ _
    rw [AgentRegistry.ownedScopePaths_remember]
  unfold Harness.replaceAgent
  generalize h.installAgent spec true = result at hout ⊢
  cases hout with
  | refused hforbids => exact (hallowed hforbids).elim
  | standing hpublished _ =>
    rw [hm.new] at hpublished
    cases hpublished
  | failed _ hmat =>
    refine iff_of_false (fun hok => nomatch hok.1) fun hmovable => ?_
    obtain ⟨staged, hstaged, hdeclarable⟩ := hm.stages hmovable.free
    rw [hpreceded] at hmat
    have hstaged' : (h.remembering spec).stageAgent spec none = .ok staged :=
      (h.stageAgent_remembering spec none).trans hstaged
    cases hmat with
    | refused hrefused =>
      rw [hstaged'] at hrefused
      cases hrefused
    | undone hs hdeclare _ =>
      rw [hstaged'] at hs
      cases hs
      have hnone := (Harness.declareAgent_none (ho.remembering spec)
        (Harness.stageAgent_ok hstaged')).1.2 hdeclarable
      rw [hdeclare] at hnone
      cases hnone
    | undigested _ _ _ _ hdigest =>
      have hdigests := hm.digests
      unfold Harness.digests at hdigests
      rw [show stableHash (redactConfig h.redactor (compositionPayload spec)) = _ from hdigest]
        at hdigests
      cases hdigests
  | @installed r h₁ h₂ hmat hw =>
    rw [hpreceded] at hmat
    rw [hsuperseded] at hw
    have ha := hremember hmat.arrived
    have hpublish : Moved h { h₂ with agents := h₂.agents.publish r } old spec ↔ Moved h h₂ old spec :=
      ⟨fun m => ⟨m.entries, m.housed, m.scope, m.gone⟩, fun m => ⟨m.entries, m.housed, m.scope, m.gone⟩⟩
    refine (and_iff_right rfl).trans (hpublish.trans ⟨fun hmoved => ?_, fun hmovable => ?_⟩)
    · exact ha.movable ho hm.elsewhere hw hmoved
    · exact ha.moved hm.elsewhere hmovable hw

end

section
open scoped Plain
open Harness (agentEntryId contributable)

/-- a revision of an agent with one plugin, at a path of its own choice -/
def placedAgent (revision path plugin : String) (hrevision : validIdentifier revision = true)
    (hpath : (canonicalScopePath path).isOk = true) (hplugin : validIdentifier plugin = true) :
    AgentSpec :=
  { plainAgent "a" path AgentSpec.valid_a hpath with
    revision := revision
    plugins := Dict.empty.set plugin (.object (plainPlugin plugin [] [] []))
    revision_valid := hrevision
    plugins_valid := by
      show validIdentifier plugin && true = true
      rw [hplugin]
      rfl }

/-- the agent as it was installed first -/
@[irreducible] def placed : Harness :=
  (({} : Harness).installAgent (placedAgent "1" "/a" "store" AgentSpec.valid_one AgentSpec.canonical_a
    (by decide +kernel)) false).2

theorem placed_run : ControlRun {} [(.acted, ⟨placed, none⟩)] ⟨placed, none⟩ := by
  unfold placed
  exact .one (.installAgent _ _ _)

theorem Harness.admits_object (h : Harness) (spec : AgentSpec) (plugin : Plugin) (name : String)
    (hvalid : PluginRegistry.validEntryId (agentEntryId spec.name name) = true) :
    h.Admits spec (name, .object plugin) := by
  refine ⟨⟨agentEntryId spec.name name, name, .object plugin, none⟩, ?_, ?_⟩
  · unfold stageContribution
    exact if_neg fun htaken => htaken.2 (List.mem_singleton_self _)
  · exact (Bool.and_eq_true _ _).mpr ⟨rfl, hvalid⟩

theorem placed_moves (plugin : String) (hplugin : validIdentifier plugin = true)
    (hdigests : placed.digests (placedAgent "2" "/b" plugin AgentSpec.valid_two AgentSpec.canonical_b
      hplugin) = true)
    (hvalid : PluginRegistry.validEntryId (agentEntryId "a" plugin) = true) :
    ∃ old, old.scope = "/a" ∧ placed.Moves old (placedAgent "2" "/b" plugin AgentSpec.valid_two
      AgentSpec.canonical_b hplugin) := by
  have hactive : (placed.agents.activeSpec "a").map AgentRevision.scope = some "/a" := by
    decide +kernel
  have hnew : (placed.agents.published "a" "2").isSome = false := by decide +kernel
  have hunused : (placed.composition.get? "/b").isSome = false := by decide +kernel
  obtain ⟨old, hold, hscope⟩ := Option.map_eq_some_iff.1 hactive
  refine ⟨old, hscope, hold, Option.not_isSome_iff_eq_none.1 (Bool.eq_false_iff.1 hnew), ?_,
    Option.not_isSome_iff_eq_none.1 (Bool.eq_false_iff.1 hunused), ?_, rfl, ?_, hdigests⟩
  · rw [hscope]
    show "/a" ≠ "/b"
    decide
  · have hpath : (canonicalScopePath "/b").isOk = true := by decide +kernel
    rcases hcanonical : canonicalScopePath "/b" with e | path
    · rw [hcanonical] at hpath
      cases hpath
    · obtain rfl := canonicalScopePath_ok hcanonical
      exact hcanonical
  · intro p hp
    rw [List.mem_singleton.1 hp]
    exact placed.admits_object _ _ _ hvalid

theorem moved_iff_placed : ∃ old,
    (placed.replaceAgent (placedAgent "2" "/b" "index" AgentSpec.valid_two AgentSpec.canonical_b
      (by decide +kernel))).1.isOk = true ∧
    Moved placed (placed.replaceAgent (placedAgent "2" "/b" "index" AgentSpec.valid_two
      AgentSpec.canonical_b (by decide +kernel))).2 old
      (placedAgent "2" "/b" "index" AgentSpec.valid_two AgentSpec.canonical_b (by decide +kernel)) := by
  obtain ⟨old, hscope, hmoves⟩ := placed_moves "index" (by decide +kernel)
    (by decide +kernel) (by decide +kernel)
  have howned : placed.Holds old := by
    unfold Harness.Holds
    rw [hscope]
    decide +kernel
  have hall : placed.plugins.entries.items.all
      (fun p => CompositionTree.isWithin p.2.scope "/a") = true := by decide +kernel
  refine ⟨old, (moved_iff placed_run hmoves).2 ⟨fun plugin hin => ?_, fun _ => ?_, fun _ plugin e he => ?_,
    fun hlost => (hlost howned).elim, fun hlost => (hlost howned).elim⟩⟩
  · rw [List.mem_singleton.1 hin]
    exact Option.not_isSome_iff_eq_none.1 (by decide +kernel)
  · rw [hscope]
    decide +kernel
  · rw [hscope]
    exact List.all_eq_true.1 hall _ (Dict.mem_items.2 he)

/-- **A revision that cannot move**: it has the same plugin, and the entry of the revision it
replaces is taken for that of somebody else. -/
theorem moved_overlapping : ∃ history c old spec, ControlRun {} history c ∧ c.state.Moves old spec ∧
    (c.state.replaceAgent spec).1.isOk = false := by
  obtain ⟨old, -, hmoves⟩ := placed_moves "store" (by decide +kernel)
    (by decide +kernel) (by decide +kernel)
  exact ⟨_, _, old, _, placed_run, hmoves, by decide +kernel⟩

end

end Chassis
