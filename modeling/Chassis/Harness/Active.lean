import Chassis.Harness.Revisions

/-!
# Active revisions

* `Harness.Stands`        the scope of a revision names it, and its contributions are installed there;
* `AgentsStand`           every active revision stands;
* `AgentOp`               installing and removing agents;
* `AgentOp.Spares`        whatever is withdrawn, no active revision lies within its scope;
* `agents_stand_iff`      **the active revisions stand throughout a run iff all its operations spare
                          them**;
* `nested_agent_lost`     an agent inside the scope of another that is removed.
-/

set_option linter.unusedSectionVars false

namespace Chassis
open Py Coop

section
variable [Packaging] [Platform]

/-- the revision is materialised: its scope is there and names it, and what it contributes is
installed in that scope -/
structure Harness.Stands (h : Harness) (r : AgentRevision) : Prop where
  scope : ∃ s, h.composition.get? r.scope = some s ∧
    s.metadata.get? agentMetadataKey = some (.str r.name) ∧
    s.metadata.get? agentRevisionMetadataKey = some (.str r.revision)
  entries : ∀ id ∈ r.entries, ∃ e, h.plugins.entries.get? id = some e ∧ e.scope = r.scope
  contributed : ∀ plugin ∈ r.spec.plugins.keys, agentEntryId r.name plugin ∈ r.entries

/-- the revisions that new runs select are published, and materialised -/
structure AgentsStand (h : Harness) : Prop where
  known : ∀ {name revision}, h.agents.activeRevisions.get? name = some revision →
    (h.agents.activeSpec name).isSome
  stand : ∀ {name r}, h.agents.activeSpec name = some r → h.Stands r

/-- besides, the agents own their scopes -/
structure AgentsSettled (h : Harness) : Prop extends AgentsStand h where
  orderly : h.Orderly
  owned : ∀ {name r}, h.agents.activeSpec name = some r → r.scope ∈ h.agents.ownedScopePaths

/-! ## the operations -/

inductive AgentOp
  /-- `replace` of the source is an installation that replaces -/
  | install (spec : AgentSpec) (replace : Bool)
  | remove (name : String)

namespace AgentOp
variable (h : Harness)

def after : AgentOp → Except Err Unit × Harness
  | install spec replace =>
    let (result, h) := h.installAgent spec replace
    (result.map fun _ => (), h)
  | remove name =>
    let (result, h) := h.removeAgent name
    (result.map fun _ => (), h)

/-- no other agent is active at the path of the spec -/
def Apart : AgentOp → Prop
  | install spec _ => ∀ name r, h.agents.activeSpec name = some r → name ≠ spec.name →
    r.scope ≠ spec.scopePath
  | remove _ => True

/-- no other agent is active within the path -/
def Clear (path name : String) : Prop :=
  ∀ other r, h.agents.activeSpec other = some r → other ≠ name →
    CompositionTree.isWithin r.scope path = false

/-- what the operation withdraws is the scope of no active revision, nor of the one it installs -/
def Spares : AgentOp → Prop
  | install spec _ => ∀ old, h.supersededBy spec = some old →
    CompositionTree.isWithin spec.scopePath old.scope = false ∧ Clear h old.scope spec.name
  | remove name => ∀ old, h.agents.activeSpec name = some old → Clear h old.scope name

end AgentOp

theorem AgentOp.after_ok {h h' : Harness} {op : AgentOp} (hok : (op.after h).1.isOk = true)
    (hafter : h' = (op.after h).2) : op.after h = (.ok (), h') := by
  subst hafter
  rcases hr : op.after h with ⟨e | ⟨⟩, h'⟩
  · rw [hr] at hok
    cases hok
  · rfl

/-! ## which revisions are active -/

theorem AgentRegistry.activeSpec_congr {a b : AgentRegistry}
    (hactive : b.activeRevisions = a.activeRevisions)
    (hhistory : ∀ name revision, b.published name revision = a.published name revision)
    (name : String) : b.activeSpec name = a.activeSpec name := by
  show (b.activeRevisions.get? name).bind (b.published name) =
    (a.activeRevisions.get? name).bind (a.published name)
  rw [hactive]
  exact congrArg (Option.bind _) (funext (hhistory name))

theorem AgentRegistry.activeSpec_publish (a : AgentRegistry) (r : AgentRevision) (name : String) :
    (a.publish r).activeSpec name = if name = r.name then some r else a.activeSpec name := by
  show ((a.activeRevisions.set r.name r.revision).get? name).bind ((a.publish r).published name) = _
  rw [Dict.get?_set]
  split
  · rename_i hname
    rw [Option.bind_some, AgentRegistry.published_publish, if_pos ⟨hname, rfl⟩]
  · rename_i hname
    refine congrArg (Option.bind _) (funext fun revision => ?_)
    rw [AgentRegistry.published_publish, if_neg fun hkey => hname hkey.1]
    rfl

theorem AgentRegistry.activeSpec_retire (a : AgentRegistry) (retired name : String) :
    (a.retire retired).activeSpec name = if name = retired then none else a.activeSpec name := by
  show ((a.activeRevisions.erase retired).get? name).bind (a.published name) = _
  rw [Dict.get?_erase]
  split
  · rfl
  · rfl

theorem Harness.candidateOf_active {h : Harness} {spec : AgentSpec} {old : AgentRevision}
    (hc : h.candidateOf spec = some old) : h.agents.activeSpec spec.name = some old := by
  obtain ⟨revision, hrev, hpub⟩ := Option.bind_eq_some_iff.1 hc
  obtain ⟨hactive, -⟩ := Option.filter_eq_some_iff.1 hrev
  exact Option.bind_eq_some_iff.2 ⟨revision, hactive, hpub⟩

theorem Harness.supersededBy_active {h : Harness} {spec : AgentSpec} {old : AgentRevision}
    (hs : h.supersededBy spec = some old) :
    h.agents.activeSpec spec.name = some old ∧ old.scope ≠ spec.scopePath := by
  obtain ⟨hc, hne⟩ := Option.filter_eq_some_iff.1 hs
  exact ⟨candidateOf_active hc, of_decide_eq_true hne⟩

theorem Harness.precededBy_active {h : Harness} {spec : AgentSpec} {old : AgentRevision}
    (hs : h.precededBy spec = some old) :
    h.agents.activeSpec spec.name = some old ∧ old.scope = spec.scopePath := by
  obtain ⟨hc, heq⟩ := Option.filter_eq_some_iff.1 hs
  exact ⟨candidateOf_active hc, of_decide_eq_true heq⟩

theorem AgentOp.idle {h : Harness} (hnone : ∀ name, h.agents.activeSpec name = none)
    (op : AgentOp) : op.Apart h ∧ op.Spares h := by
  cases op with
  | install spec replace =>
    refine ⟨fun name r hr => ?_, fun old hold => ?_⟩
    · rw [hnone] at hr
      cases hr
    · have hactive := (Harness.supersededBy_active hold).1
      rw [hnone] at hactive
      cases hactive
  | remove name =>
    refine ⟨trivial, fun old hold => ?_⟩
    rw [hnone] at hold
    cases hold

theorem AgentOp.apart_of_keys {h : Harness} {spec : AgentSpec} {replace : Bool}
    (hall : ∀ name ∈ h.agents.activeRevisions.keys,
      (h.agents.activeSpec name).map AgentRevision.scope ≠ some spec.scopePath) :
    (AgentOp.install spec replace).Apart h := by
  intro name r hr _ hscope
  obtain ⟨revision, hrev, -⟩ := Option.bind_eq_some_iff.1 hr
  refine hall name (Dict.mem_keys.2 ⟨revision, hrev⟩) ?_
  rw [hr, Option.map_some, hscope]

theorem pristine_idle (name : String) : ({} : Harness).agents.activeSpec name = none := rfl

/-! ## what a revision keeps -/

theorem Harness.agentMetadata_names (spec : AgentSpec) :
    (agentMetadata spec).get? agentMetadataKey = some (.str spec.name) ∧
      (agentMetadata spec).get? agentRevisionMetadataKey = some (.str spec.revision) := by
  unfold agentMetadata
  refine ⟨?_, Dict.get?_set_self _ _ _⟩
  rw [Dict.get?_set_ne _ _ (by decide)]
  exact Dict.get?_set_self _ _ _

/-- a revision stands as long as its scope has its metadata, and its entries stay -/
theorem Harness.Stands.mono {h h' : Harness} {r : AgentRevision} (hs : h.Stands r)
    (hscope : ∀ s, h.composition.get? r.scope = some s → h'.composition.get? r.scope = some s)
    (hentries : ∀ id ∈ r.entries, ∀ e, h.plugins.entries.get? id = some e → e.scope = r.scope →
      h'.plugins.entries.get? id = some e) : h'.Stands r where
  scope := by
    obtain ⟨s, hget, hnames⟩ := hs.scope
    exact ⟨s, hscope s hget, hnames⟩
  entries := by
    intro id hid
    obtain ⟨e, he, hin⟩ := hs.entries id hid
    exact ⟨e, hentries id hid e he hin, hin⟩
  contributed := hs.contributed

theorem Harness.Stands.removed {h h' : Harness} {r : AgentRevision} (hs : h.Stands r)
    (ho : h.Orderly) {path : String} (hr : Removed path h h')
    (hout : CompositionTree.isWithin r.scope path = false) : h'.Stands r := by
  refine hs.mono (fun s hget => ?_) fun id _ e he hin => ?_
  · rw [hr.composition, ho.tree.get?_detach, hout]
    exact hget
  · exact hr.entries.kept he (hin ▸ hout)

/-- A materialization that succeeds: the new revision stands, and those at other paths still do. -/
structure Materialised (h h' : Harness) (spec : AgentSpec) (r : AgentRevision) : Prop where
  spec_eq : r.spec = spec
  scope_eq : r.scope = spec.scopePath
  new : h'.Stands r
  others : ∀ {r'}, h.Stands r' → r'.scope ≠ spec.scopePath → h'.Stands r'
  active : h'.agents.activeRevisions = h.agents.activeRevisions
  history : ∀ name revision, h'.agents.published name revision = h.agents.published name revision
  owned : spec.scopePath ∈ h'.agents.ownedScopePaths
  kept : ∀ path ∈ h.agents.ownedScopePaths, path ∈ h'.agents.ownedScopePaths

theorem AgentRegistry.mem_own {a : AgentRegistry} {path p : String} :
    p ∈ (a.own path).ownedScopePaths ↔ p ∈ a.ownedScopePaths ∨ p = path := by
  show p ∈ (if path ∈ a.ownedScopePaths then a.ownedScopePaths else a.ownedScopePaths ++ [path]) ↔ _
  split
  · rename_i hin
    exact ⟨fun h => Or.inl h, fun h => h.elim id fun heq => heq ▸ hin⟩
  · rw [List.mem_append, List.mem_singleton]

theorem MaterializeOutcome.materialised {h h' : Harness} {spec : AgentSpec}
    {previous : Option AgentRevision} {r : AgentRevision}
    (hm : MaterializeOutcome h spec previous (.ok r, h'))
    (hprev : ∀ old ∈ previous, h.Stands old ∧ old.scope = spec.scopePath) :
    Materialised h h' spec r := by
  have hin : ∀ {id e}, id ∈ (previous.map AgentRevision.entries).getD [] →
      h.plugins.entries.get? id = some e → e.scope = spec.scopePath := by
    intro id e hid he
    rcases previous with _ | old
    · cases hid
    · obtain ⟨hstands, hscope⟩ := hprev old rfl
      obtain ⟨e', he', hs⟩ := hstands.entries id hid
      rw [he] at he'
      cases he'
      exact hs.trans hscope
  cases hm with
  | @done staged digest h₁ undo hstage _ ha hd =>
    have hfor := Harness.stageAgent_ok hstage
    obtain ⟨hred, hagents⟩ :=
      Harness.dropContributions_reduced ha.orderly.housed previous staged
    generalize h₁.dropContributions previous _ = h₂ at hred hagents ⊢
    have hcomp : h₂.composition = h₁.composition := by rw [hred.rest]
    have hkeep : ∀ {id e}, h₁.plugins.entries.get? id = some e → ¬ droppedBy previous staged id →
        h₂.plugins.entries.get? id = some e := by
      intro id e he hnot
      refine hred.kept he ?_
      rw [(ha.orderly.housed id e he).1]
      exact hnot
    refine ⟨rfl, rfl, ⟨?_, ?_, ?_⟩, ?_, ?_, ?_, ?_, ?_⟩
    · obtain ⟨s, hs⟩ := Option.isSome_iff_exists.1 ha.declared
      refine ⟨s, hcomp ▸ hs, ?_⟩
      rw [hd.metadata hs]
      exact Harness.agentMetadata_names spec
    · intro id hid
      have hid' : id ∈ staged.map Harness.StagedContribution.entryId := mem_sortedBy.1 hid
      obtain ⟨s, hs, rfl⟩ := List.mem_map.1 hid'
      obtain ⟨e, he, hscope⟩ := hd.housed s hs
      exact ⟨e, hkeep he fun hdrop => hdrop.2 hid', hscope⟩
    · intro plugin hplugin
      refine mem_sortedBy.2 ?_
      rw [hfor.ids]
      obtain ⟨p, hp, rfl⟩ := List.mem_map.1 hplugin
      exact List.mem_map.2 ⟨p, mem_sortedBy.2 hp, rfl⟩
    · intro r' hs hne
      refine hs.mono (fun s hget => ?_) fun id _ e he hscope => ?_
      · rw [hcomp]
        exact ha.kept hne hget
      · have hnot : id ∉ (previous.map AgentRevision.entries).getD [] := fun hid =>
          hne (hscope.symm.trans (hin hid he))
        refine hkeep ?_ fun hdrop => hnot hdrop.1
        rw [hd.others id fun hid => ?_]
        · exact he
        · -- an id that is taken belongs to the previous revision
          obtain ⟨c, hc, rfl⟩ := List.mem_map.1 hid
          exact hnot (hfor.free c hc (Option.isSome_iff_exists.2 ⟨e, he⟩))
    · rw [hagents, ha.agents]
      split <;> rfl
    · intro name revision
      rw [hagents, ha.agents]
      split <;> rfl
    · rw [hagents, ha.agents]
      split
      · rename_i hdecl
        exact hfor.owned hdecl
      · exact AgentRegistry.mem_own.2 (Or.inr rfl)
    · intro path hpath
      rw [hagents, ha.agents]
      split
      · exact hpath
      · exact AgentRegistry.mem_own.2 (Or.inl hpath)

theorem Withdrawn.removed {h h' : Harness} {r : AgentRevision} (hw : Withdrawn r h h')
    (hown : r.scope ∈ h.agents.ownedScopePaths) (hdecl : (h.composition.get? r.scope).isSome) :
    ∃ h'', Removed r.scope h h'' ∧ h' = { h'' with agents := h''.agents.disown r.scope } := by
  cases hw with
  | scope _ _ hrem => exact ⟨_, hrem, rfl⟩
  | entries hnot => exact absurd ⟨hown, hdecl⟩ hnot

/-! ## one operation -/

theorem Removed.gone {h h' : Harness} {path p : String} (ho : h.Orderly) (hr : Removed path h h')
    (hin : (h'.composition.get? p).isSome) : CompositionTree.isWithin p path = false := by
  rw [hr.composition, ho.tree.get?_detach] at hin
  split at hin
  · cases hin
  · rename_i hout
    exact Bool.eq_false_iff.2 hout

theorem Harness.Stands.declared {h : Harness} {r : AgentRevision} (hs : h.Stands r) :
    (h.composition.get? r.scope).isSome := by
  obtain ⟨s, hget, -⟩ := hs.scope
  exact Option.isSome_iff_exists.2 ⟨s, hget⟩

theorem AgentsSettled.of_agents {h h' : Harness} (hs : AgentsSettled h) (ho : h'.Orderly)
    (hactive : h'.agents.activeRevisions = h.agents.activeRevisions)
    (hhistory : ∀ name revision,
      h'.agents.published name revision = h.agents.published name revision)
    (howned : h'.agents.ownedScopePaths = h.agents.ownedScopePaths)
    (hstand : ∀ {r}, h.Stands r → h'.Stands r) : AgentsSettled h' := by
  have hspec := AgentRegistry.activeSpec_congr hactive hhistory
  refine ⟨⟨fun {name revision} hrev => ?_, fun {name r} hr => ?_⟩, ho, fun {name r} hr => ?_⟩
  · rw [hspec]
    exact hs.known (hactive ▸ hrev)
  · exact hstand (hs.stand ((hspec name).symm.trans hr))
  · rw [howned]
    exact hs.owned ((hspec name).symm.trans hr)

theorem AgentsSettled.remembering {h : Harness} (hs : AgentsSettled h) (spec : AgentSpec) :
    AgentsSettled (h.remembering spec) :=
  hs.of_agents (hs.orderly.remembering spec) (AgentRegistry.activeRevisions_remember _ _)
    (AgentRegistry.published_remember _ _) (AgentRegistry.ownedScopePaths_remember _ _)
    fun hr => ⟨hr.scope, hr.entries, hr.contributed⟩

theorem Harness.Stands.agents {h : Harness} {r : AgentRevision} (hs : h.Stands r)
    (agents : AgentRegistry) : Harness.Stands { h with agents := agents } r :=
  ⟨hs.scope, hs.entries, hs.contributed⟩

/-- what was superseded is withdrawn, if anything was -/
def Superseded (old : Option AgentRevision) (h h' : Harness) : Prop :=
  match old with
  | none => h' = h
  | some r => Withdrawn r h h'

namespace Superseded
variable {old : Option AgentRevision} {h h' : Harness} (hw : Superseded old h h')
include hw

theorem orderly (ho : h.Orderly) : h'.Orderly := by
  rcases old with _ | old
  · have hsame : h' = h := hw
    exact hsame ▸ ho
  · exact ho.withdrawn hw

theorem active : h'.agents.activeRevisions = h.agents.activeRevisions := by
  rcases old with _ | old
  · have hsame : h' = h := hw
    rw [hsame]
  · exact Withdrawn.published hw |>.2

theorem history (name revision : String) :
    h'.agents.published name revision = h.agents.published name revision := by
  rcases old with _ | old
  · have hsame : h' = h := hw
    rw [hsame]
  · have hsame := (Withdrawn.published hw).1
    unfold AgentRegistry.published
    rw [hsame]

theorem owned {path : String} (hpath : path ∈ h.agents.ownedScopePaths)
    (hne : ∀ r ∈ old, path ≠ r.scope) : path ∈ h'.agents.ownedScopePaths := by
  rcases old with _ | old
  · have hsame : h' = h := hw
    rw [hsame]
    exact hpath
  · have hw' : Withdrawn old h h' := hw
    cases hw' with
    | scope _ _ hrem =>
      refine List.mem_filter.2 ⟨?_, decide_eq_true (hne old rfl)⟩
      rw [hrem.agents]
      exact hpath
    | entries =>
      rw [Harness.uninstallAll_agents]
      exact hpath

theorem stands (ho : h.Orderly) (hown : ∀ r ∈ old, r.scope ∈ h.agents.ownedScopePaths ∧
    (h.composition.get? r.scope).isSome) {r : AgentRevision} (hs : h.Stands r)
    (hout : ∀ r₀ ∈ old, CompositionTree.isWithin r.scope r₀.scope = false) : h'.Stands r := by
  rcases old with _ | old
  · have hsame : h' = h := hw
    exact hsame ▸ hs
  · obtain ⟨h'', hrem, rfl⟩ := Withdrawn.removed hw (hown old rfl).1 (hown old rfl).2
    exact (hs.removed ho hrem (hout old rfl)).agents _

theorem outside (ho : h.Orderly) (hown : ∀ r ∈ old, r.scope ∈ h.agents.ownedScopePaths ∧
    (h.composition.get? r.scope).isSome) {path : String} (hdecl : (h'.composition.get? path).isSome) :
    ∀ r ∈ old, CompositionTree.isWithin path r.scope = false := by
  rintro r hr
  obtain rfl : old = some r := hr
  obtain ⟨h'', hrem, rfl⟩ := Withdrawn.removed hw (hown r rfl).1 (hown r rfl).2
  exact hrem.gone ho hdecl

end Superseded

/-- **What a revision that is published leaves of the others**: the agents stand afterwards iff
what it supersedes is not the scope of an active revision. -/
theorem AgentsSettled.installed {h h₁ h₂ : Harness} (hs : AgentsSettled h) {spec : AgentSpec}
    {r : AgentRevision} (hm : Materialised h h₁ spec r) (ho₁ : h₁.Orderly)
    (hapart : ∀ name r', h.agents.activeSpec name = some r' → name ≠ spec.name →
      r'.scope ≠ spec.scopePath) {old : Option AgentRevision}
    (hold : ∀ r' ∈ old, h.agents.activeSpec spec.name = some r' ∧ r'.scope ≠ spec.scopePath)
    (hw : Superseded old h₁ h₂) :
    (AgentsStand { h₂ with agents := h₂.agents.publish r } ↔ ∀ r' ∈ old,
        CompositionTree.isWithin spec.scopePath r'.scope = false ∧
          AgentOp.Clear h r'.scope spec.name) ∧
      (AgentsStand { h₂ with agents := h₂.agents.publish r } →
        AgentsSettled { h₂ with agents := h₂.agents.publish r }) := by
  have hname : r.name = spec.name := congrArg AgentSpec.name hm.spec_eq
  have hrevs : h₂.agents.activeRevisions = h.agents.activeRevisions := hw.active.trans hm.active
  have hactive : ∀ name, AgentRegistry.activeSpec (h₂.agents.publish r) name =
      if name = spec.name then some r else h.agents.activeSpec name := by
    intro name
    rw [AgentRegistry.activeSpec_publish, hname, AgentRegistry.activeSpec_congr hrevs
      fun name revision => (hw.history name revision).trans (hm.history name revision)]
  have hown : ∀ r' ∈ old, r'.scope ∈ h₁.agents.ownedScopePaths ∧
      (h₁.composition.get? r'.scope).isSome := by
    intro r' hr'
    obtain ⟨hin, hne⟩ := hold r' hr'
    exact ⟨hm.kept _ (hs.owned hin), (hm.others (hs.stand hin) hne).declared⟩
  have hneeded : AgentsStand { h₂ with agents := h₂.agents.publish r } → ∀ r' ∈ old,
      CompositionTree.isWithin spec.scopePath r'.scope = false ∧
        AgentOp.Clear h r'.scope spec.name := by
    intro hstand r₀ hr₀
    refine ⟨?_, fun other r' hr' hne => ?_⟩
    · have hnew := hstand.stand ((hactive spec.name).trans (if_pos rfl))
      exact hm.scope_eq ▸ hw.outside ho₁ hown hnew.declared r₀ hr₀
    · have hkept := hstand.stand ((hactive other).trans ((if_neg hne).trans hr'))
      exact hw.outside ho₁ hown hkept.declared r₀ hr₀
  have hdone : (∀ r' ∈ old, CompositionTree.isWithin spec.scopePath r'.scope = false ∧
      AgentOp.Clear h r'.scope spec.name) →
      AgentsSettled { h₂ with agents := h₂.agents.publish r } := by
    intro hclear
    refine ⟨⟨fun {name revision} hrev => ?_, fun {name r'} hr' => ?_⟩,
      (hw.orderly ho₁).publish (by rw [hm.scope_eq, hm.spec_eq]), fun {name r'} hr' => ?_⟩
    · show (AgentRegistry.activeSpec (h₂.agents.publish r) name).isSome
      rw [hactive]
      split
      · rfl
      · rename_i hne
        have hrev' : (h₂.agents.activeRevisions.set r.name r.revision).get? name =
          some revision := hrev
        rw [hname, Dict.get?_set_ne _ _ hne, hrevs] at hrev'
        exact hs.known hrev'
    · have hr'' := (hactive name).symm.trans hr'
      split at hr''
      · cases hr''
        refine (hw.stands ho₁ hown hm.new fun r₀ hr₀ => ?_).agents _
        rw [hm.scope_eq]
        exact (hclear r₀ hr₀).1
      · rename_i hne
        have hkept := hm.others (hs.stand hr'') (hapart _ _ hr'' hne)
        exact (hw.stands ho₁ hown hkept fun r₀ hr₀ => (hclear r₀ hr₀).2 _ _ hr'' hne).agents _
    · have hr'' := (hactive name).symm.trans hr'
      show r'.scope ∈ h₂.agents.ownedScopePaths
      split at hr''
      · cases hr''
        refine hw.owned (hm.scope_eq ▸ hm.owned) fun r₀ hr₀ => ?_
        rw [hm.scope_eq]
        exact (hold r₀ hr₀).2.symm
      · rename_i hne
        refine hw.owned (hm.kept _ (hs.owned hr'')) fun r₀ hr₀ heq => ?_
        have hout := (hclear r₀ hr₀).2 _ _ hr'' hne
        rw [heq, CompositionTree.isWithin_refl] at hout
        cases hout
  exact ⟨⟨hneeded, fun hclear => (hdone hclear).toAgentsStand⟩,
    fun hstand => hdone (hneeded hstand)⟩

theorem AgentsSettled.installAgent {h h' : Harness} (hs : AgentsSettled h) {spec : AgentSpec}
    {replace : Bool} {r : AgentRevision} (hapart : (AgentOp.install spec replace).Apart h)
    (hok : h.installAgent spec replace = (.ok r, h')) :
    (AgentsStand h' ↔ (AgentOp.install spec replace).Spares h) ∧
      (AgentsStand h' → AgentsSettled h') := by
  have hg := hs.remembering spec
  have hspec : (h.remembering spec).agents.activeSpec = h.agents.activeSpec :=
    funext (AgentRegistry.activeSpec_congr (AgentRegistry.activeRevisions_remember _ _)
      (AgentRegistry.published_remember _ _))
  have hout := Harness.installAgent_outcome hs.orderly spec replace
  rw [hok] at hout
  cases hout with
  | standing _ hactive =>
    refine ⟨iff_of_true hg.toAgentsStand fun old hold => ?_, fun _ => hg⟩
    have hnone : h.supersededBy spec = none := by
      unfold Harness.supersededBy Harness.candidateOf
      rw [hactive, Option.filter_some, if_neg (by simp)]
      rfl
    rw [hnone] at hold
    cases hold
  | @installed _ h₁ h₂ hm hw =>
    have hprev : ∀ old ∈ h.precededBy spec, (h.remembering spec).Stands old ∧
        old.scope = spec.scopePath := by
      intro old hold
      obtain ⟨hactive, hscope⟩ := Harness.precededBy_active hold
      exact ⟨(hs.stand hactive).agents _, hscope⟩
    have hdone := hg.installed (hm.materialised hprev) (hm.orderly hg.orderly)
      (fun name r' hr' => hapart name r' (hspec ▸ hr'))
      (fun old hold => by rw [hspec]; exact Harness.supersededBy_active hold) hw
    unfold AgentOp.Clear at hdone
    rw [hspec] at hdone
    exact hdone

theorem AgentsSettled.removeAgent {h h' : Harness} (hs : AgentsSettled h) {name : String}
    {found : Bool} (hok : h.removeAgent name = (.ok found, h')) :
    (AgentsStand h' ↔ (AgentOp.remove name).Spares h) ∧ (AgentsStand h' → AgentsSettled h') := by
  unfold Harness.removeAgent at hok
  rcases hhist : h.agents.specHistory.get? name with _ | history
  · rw [hhist] at hok
    cases hok
    refine ⟨iff_of_true hs.toAgentsStand fun old hold => ?_, fun _ => hs⟩
    obtain ⟨revision, -, hpub⟩ := Option.bind_eq_some_iff.1 hold
    rw [hhist] at hpub
    cases hpub
  · rw [hhist] at hok
    have hactive : (h.agents.activeRevisions.get? name).bind history.get? =
        h.agents.activeSpec name := by
      unfold AgentRegistry.activeSpec
      rw [hhist]
      rfl
    simp only at hok
    rw [hactive] at hok
    have hretired : ∀ other, (h.agents.retire name).activeSpec other =
        if other = name then none else h.agents.activeSpec other :=
      AgentRegistry.activeSpec_retire h.agents name
    have hg : AgentsSettled { h with agents := h.agents.retire name } := by
      refine ⟨⟨fun {other revision} hrev => ?_, fun {other r} hr => ?_⟩,
        ⟨hs.orderly.tree, hs.orderly.housed, hs.orderly.owned, hs.orderly.published⟩,
        fun {other r} hr => ?_⟩
      · replace hrev : (h.agents.activeRevisions.erase name).get? other = some revision := hrev
        rw [Dict.get?_erase] at hrev
        show ((h.agents.retire name).activeSpec other).isSome
        rw [hretired]
        split at hrev
        · cases hrev
        · rename_i hne
          rw [if_neg hne]
          exact hs.known hrev
      · replace hr := (hretired other).symm.trans hr
        split at hr
        · cases hr
        · exact (hs.stand hr).agents _
      · replace hr := (hretired other).symm.trans hr
        split at hr
        · cases hr
        · exact hs.owned hr
    obtain ⟨h₂, hwithdraw, hw, ho₂⟩ := Harness.withdrawOptional_ok hg.orderly
      (h.agents.activeSpec name)
    rw [hwithdraw] at hok
    cases hok
    have hsup : Superseded (h.agents.activeSpec name) { h with agents := h.agents.retire name } h' :=
      hw
    have hown : ∀ r ∈ h.agents.activeSpec name, r.scope ∈ h.agents.ownedScopePaths ∧
        (h.composition.get? r.scope).isSome := fun r hr => ⟨hs.owned hr, (hs.stand hr).declared⟩
    have hspec : ∀ other, h'.agents.activeSpec other =
        if other = name then none else h.agents.activeSpec other := by
      intro other
      rw [AgentRegistry.activeSpec_congr hsup.active hsup.history]
      exact hretired other
    have hneeded : AgentsStand h' → (AgentOp.remove name).Spares h := by
      intro hstand old hold other r' hr' hne
      have hkept := hstand.stand ((hspec other).trans ((if_neg hne).trans hr'))
      exact hsup.outside hg.orderly hown hkept.declared old hold
    have hdone : (AgentOp.remove name).Spares h → AgentsSettled h' := by
      intro hclear
      refine ⟨⟨fun {other revision} hrev => ?_, fun {other r'} hr' => ?_⟩, ho₂,
        fun {other r'} hr' => ?_⟩
      · rw [hsup.active] at hrev
        rw [AgentRegistry.activeSpec_congr hsup.active hsup.history]
        exact hg.known hrev
      · replace hr' := (hspec other).symm.trans hr'
        split at hr'
        · cases hr'
        · rename_i hne
          exact hsup.stands hg.orderly hown ((hs.stand hr').agents _) fun r₀ hr₀ =>
            hclear r₀ hr₀ _ _ hr' hne
      · replace hr' := (hspec other).symm.trans hr'
        split at hr'
        · cases hr'
        · rename_i hne
          refine hsup.owned (hs.owned hr') fun r₀ hr₀ heq => ?_
          have hout := hclear r₀ hr₀ _ _ hr' hne
          rw [heq, CompositionTree.isWithin_refl] at hout
          cases hout
    exact ⟨⟨hneeded, fun hclear => (hdone hclear).toAgentsStand⟩,
      fun hstand => hdone (hneeded hstand)⟩

/-- **What one operation leaves of the active revisions**: they stand iff it spares them. -/
theorem AgentOp.after_iff {h h' : Harness} (hs : AgentsSettled h) {op : AgentOp}
    (hapart : op.Apart h) (hok : op.after h = (.ok (), h')) :
    (AgentsStand h' ↔ op.Spares h) ∧ (AgentsStand h' → AgentsSettled h') := by
  cases op with
  | install spec replace =>
    rcases hr : h.installAgent spec replace with ⟨e | r, h₁⟩
    · simp only [AgentOp.after, hr] at hok
      cases hok
    · simp only [AgentOp.after, hr] at hok
      cases hok
      exact hs.installAgent hapart hr
  | remove name =>
    rcases hr : h.removeAgent name with ⟨e | found, h₁⟩
    · simp only [AgentOp.after, hr] at hok
      cases hok
    · simp only [AgentOp.after, hr] at hok
      cases hok
      exact hs.removeAgent hr

/-! ## runs -/

/-- an operation on agents that succeeds, of an agent whose scope is not another's -/
def AgentAct (h h' : Harness) : Prop := ∃ op : AgentOp, op.Apart h ∧ op.after h = (.ok (), h')

/-- one that spares the active revisions -/
def SparingAct (h h' : Harness) : Prop :=
  ∃ op : AgentOp, op.Apart h ∧ op.Spares h ∧ op.after h = (.ok (), h')

theorem AgentsSettled.of_same {h h' : Harness} (hs : AgentsSettled h) (hsame : SameDeclared h h') :
    AgentsSettled h' := by
  have hag := hsame.agents
  refine hs.of_agents (hs.orderly.of_same hsame) (by rw [hag]) (fun _ _ => by rw [hag])
    (by rw [hag]) fun hr => hr.mono (fun s hget => ?_) fun id _ e he _ => ?_
  · rw [hsame.composition]
    exact hget
  · rw [hsame.entries]
    exact he

/-- **The active revisions stand in every state of a run**, reconciles included, iff every operation
of the run spares them. -/
theorem agents_stand_iff {h₀ : Harness} (ho : h₀.Orderly)
    (hnone : ∀ name, h₀.agents.activeRevisions.get? name = none)
    {history : List (Event Job Err × HarnessConfig)} {c : HarnessConfig}
    (hrun : Run AgentAct Job.program ⟨h₀, none⟩ history c) :
    (∀ step ∈ history, AgentsStand step.2.state) ↔
      Run SparingAct Job.program ⟨h₀, none⟩ history c := by
  have hstart : AgentsSettled h₀ := by
    have hspec : ∀ name r, h₀.agents.activeSpec name ≠ some r := by
      intro name r hr
      obtain ⟨revision, hrev, -⟩ := Option.bind_eq_some_iff.1 hr
      rw [hnone] at hrev
      cases hrev
    refine ⟨⟨fun {name revision} hrev => ?_, fun hr => absurd hr (hspec _ _)⟩, ho,
      fun hr => absurd hr (hspec _ _)⟩
    rw [hnone] at hrev
    cases hrev
  refine RunGiven.holds_iff_kept (I := AgentsSettled) (fun hsparing => ?_)
    (fun _ hs => hs.toAgentsStand) ?_ hrun
  · refine declared_run (fun _ _ hs hsame => hs.of_same hsame) ?_ hsparing hstart
    rintro h h' ⟨op, hapart, hspares, hok⟩ hs
    obtain ⟨hiff, hsettled⟩ := AgentOp.after_iff hs hapart hok
    exact hsettled (hiff.2 hspares)
  · rintro h h' hs ⟨op, hapart, hok⟩ hstand
    exact ⟨op, hapart, (AgentOp.after_iff hs hapart hok).1.1 hstand, hok⟩

end

section
open scoped Plain

/-- an agent in a scope of its own choice, with nothing else -/
def plainAgent (name path : String) (hname : validIdentifier name = true)
    (hpath : (canonicalScopePath path).isOk = true) : AgentSpec where
  name := name
  scope := some path
  name_valid := hname
  revision_valid := AgentSpec.valid_one
  runtime_valid := AgentSpec.runtime_none
  plugins_valid := rfl
  scope_canonical := by
    rintro p ⟨⟩
    exact hpath
  unreserved := AgentSpec.unreserved_empty

def outerAgent : AgentSpec := plainAgent "outer" "/team" (by decide +kernel) (by decide +kernel)

/-- an agent whose scope lies inside that of the other -/
def innerAgent : AgentSpec := plainAgent "inner" "/team/inner" (by decide +kernel) (by decide +kernel)

def installOuter : AgentOp := .install outerAgent false
def installInner : AgentOp := .install innerAgent false

@[irreducible] def withOuter : Harness := (installOuter.after {}).2

@[irreducible] def withBoth : Harness := (installInner.after withOuter).2

@[irreducible] def withoutOuter : Harness := ((AgentOp.remove "outer").after withBoth).2

theorem installOuter_ok : installOuter.after {} = (.ok (), withOuter) :=
  AgentOp.after_ok (by decide +kernel) (by rw [withOuter])

theorem agents_stand_iff_outer : AgentsStand withOuter := by
  have hidle := AgentOp.idle pristine_idle installOuter
  have hrun : Run AgentAct Job.program ⟨{}, none⟩ [(.acted, ⟨withOuter, none⟩)] ⟨withOuter, none⟩ :=
    .tail .refl (.act ⟨installOuter, hidle.1, installOuter_ok⟩)
  have hsparing : Run SparingAct Job.program ⟨{}, none⟩ [(.acted, ⟨withOuter, none⟩)]
      ⟨withOuter, none⟩ :=
    .tail .refl (.act ⟨installOuter, hidle.1, hidle.2, installOuter_ok⟩)
  exact (agents_stand_iff pristine_new.orderly (fun _ => rfl) hrun).2 hsparing _ List.mem_cons_self

/-- **An agent that is lost with the scope around it**: the agent at `/team` is removed, and with it
the scope of the one at `/team/inner`, whose revision stays active. -/
theorem nested_agent_lost : ∃ history c, Run AgentAct Job.program ⟨{}, none⟩ history c ∧
    ¬ AgentsStand c.state ∧ c.state.agents.activeRevisions.get? "inner" = some "1" ∧
    (c.state.composition.get? "/team/inner").isSome = false := by
  have hinner : installInner.after withOuter = (.ok (), withBoth) :=
    AgentOp.after_ok (by decide +kernel) (by rw [withBoth])
  have hremove : (AgentOp.remove "outer").after withBoth = (.ok (), withoutOuter) :=
    AgentOp.after_ok (by decide +kernel) (by rw [withoutOuter])
  have hactive : withoutOuter.agents.activeRevisions.get? "inner" = some "1" := by decide +kernel
  have hgone : (withoutOuter.composition.get? "/team/inner").isSome = false := by decide +kernel
  have hspec : (withoutOuter.agents.activeSpec "inner").map AgentRevision.scope =
      some "/team/inner" := by decide +kernel
  have hapart : installInner.Apart withOuter := AgentOp.apart_of_keys (by decide +kernel)
  have hrun : Run AgentAct Job.program ⟨{}, none⟩ [(.acted, ⟨withoutOuter, none⟩),
      (.acted, ⟨withBoth, none⟩), (.acted, ⟨withOuter, none⟩)] ⟨withoutOuter, none⟩ :=
    .tail (.tail (.tail .refl (.act ⟨installOuter, (AgentOp.idle pristine_idle installOuter).1,
      installOuter_ok⟩)) (.act ⟨installInner, hapart, hinner⟩)) (.act ⟨.remove "outer", trivial, hremove⟩)
  refine ⟨_, _, hrun, fun hstand => ?_, hactive, hgone⟩
  obtain ⟨r, hr, hscope⟩ := Option.map_eq_some_iff.1 hspec
  have hdecl := (hstand.stand hr).declared
  rw [hscope] at hdecl
  exact Bool.false_ne_true (hgone.symm.trans hdecl)

end
end Chassis
