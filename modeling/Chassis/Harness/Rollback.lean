import Chassis.Capabilities.Plain
import Chassis.Harness.Revisions

/-!
# Installations of agents that raise

* `Untouched h h'`       scopes, entries, revisions and the pending flag are as before;
* `Harness.Refuses`      the installation is refused before anything changes;
* `Harness.Declarable`   every declaration of the spec succeeds;
* `Harness.Redeclares`   everything the spec declares is declared already;
* `installAgent_atomic_iff`   **when an installation that raises leaves everything as it was**;
* `flag_raised`          one that does not: it is undone, but for the pending flag.
-/

set_option linter.unusedSectionVars false

namespace Chassis
open Py Coop

section
variable [Packaging] [Platform]

/-- the desired state of two harnesses is the same: scopes with their metadata, entries with their
revisions, active and published revisions of agents, and the pending flag -/
structure Untouched (h h' : Harness) : Prop where
  scopes : ∀ path, (h'.composition.get? path).map CompositionScope.metadata =
    (h.composition.get? path).map CompositionScope.metadata
  entries : ∀ id, h'.plugins.entries.get? id = h.plugins.entries.get? id
  revisions : ∀ id, h'.plugins.revisions.get? id = h.plugins.revisions.get? id
  active : h'.agents.activeRevisions = h.agents.activeRevisions
  history : ∀ name revision, h'.agents.published name revision = h.agents.published name revision
  pending : h'.hasPendingChanges = h.hasPendingChanges

theorem Untouched.remembering (h : Harness) (spec : AgentSpec) :
    Untouched h (h.remembering spec) where
  scopes := fun _ => rfl
  entries := fun _ => rfl
  revisions := fun _ => rfl
  active := AgentRegistry.activeRevisions_remember _ _
  history := AgentRegistry.published_remember _ _
  pending := rfl

namespace Harness
variable (h : Harness)

/-! ## when it is refused, and when it can be carried out -/

/-- the revision is not to be installed, or the checks before the first change raise -/
def Refuses (spec : AgentSpec) (replace : Bool) : Prop :=
  h.Forbids spec replace ∨ ∃ e, h.stageAgent spec (h.precededBy spec) = .error e

/-- a contribution can be installed -/
def contributable (s : StagedContribution) : Bool :=
  (s.source.made s.config).isOk && PluginRegistry.validEntryId s.entryId

/-- the specifiers parse, and what is not installed already can be constructed -/
def Declarable (spec : AgentSpec) (staged : List StagedContribution) : Prop :=
  spec.parses = true ∧
    ∀ s ∈ staged, h.unchanged spec.scopePath s = true ∨ contributable s = true

/-- the scope has the metadata of the spec, the contributions are installed, and none goes -/
def Redeclares (spec : AgentSpec) (previous : Option AgentRevision)
    (staged : List StagedContribution) : Prop :=
  ((h.composition.get? spec.scopePath).map CompositionScope.metadata = some (agentMetadata spec)) ∧
    (∀ s ∈ staged, h.unchanged spec.scopePath s = true) ∧
    ∀ id ∈ (previous.map AgentRevision.entries).getD [],
      id ∈ staged.map StagedContribution.entryId ∨ h.plugins.entries.get? id = none

def parentPath (path : String) : String := pathOf (segments path).tail

/-- Either nothing changes, or something is pending already, and: a declaration raises in a scope
that is there or whose parent is, or it is the digest that raises and all was declared before. -/
def Spared (spec : AgentSpec) (replace : Bool) : Prop :=
  h.Refuses spec replace ∨
    (h.hasPendingChanges = true ∧ ∃ staged, h.stageAgent spec (h.precededBy spec) = .ok staged ∧
      ((¬ h.Declarable spec staged ∧ ((h.composition.get? spec.scopePath).isSome ∨
          (h.composition.get? (parentPath spec.scopePath)).isSome)) ∨
        (h.Declarable spec staged ∧ h.Redeclares spec (h.precededBy spec) staged)))

end Harness

/-! ## installing the contributions -/

section
variable {path : String} {h : Harness}

theorem Harness.unchanged_congr {h' : Harness} {s : Harness.StagedContribution}
    (he : h'.plugins.entries.get? s.entryId = h.plugins.entries.get? s.entryId) :
    h'.unchanged path s = h.unchanged path s := by
  unfold Harness.unchanged PluginRegistry.entry?
  rw [he]

theorem Harness.installFrom_isOk {s : Harness.StagedContribution}
    (hc : canonicalScopePath path = .ok path) (hdecl : (h.composition.get? path).isSome) :
    (∃ r, h.installFrom s.source (some s.entryId) s.config (h.plugins.entry? s.entryId).isSome
      (some path) = .ok r) ↔ Harness.contributable s = true := by
  have hpath : h.scopePath (some path) = .ok path := by
    refine bind_ok.2 ⟨path, hc, ?_⟩
    rw [if_neg]
    obtain ⟨s, hs⟩ := Option.isSome_iff_exists.1 hdecl
    rw [hs]
    exact Bool.false_ne_true
  unfold Harness.contributable
  rw [Bool.and_eq_true]
  constructor
  · rintro ⟨⟨id, h'⟩, hr⟩
    obtain ⟨path', plugin, entry, -, hmade, hp, -, -⟩ := Harness.installFrom_ok hr
    refine ⟨by rw [hmade]; rfl, ?_⟩
    unfold PluginRegistry.install at hp
    split at hp
    · cases hp
    · rename_i hvalid
      simpa using hvalid
  · rintro ⟨hmade, hvalid⟩
    rcases hm : s.source.made s.config with e | plugin
    · rw [hm] at hmade
      cases hmade
    · have hinst : ∃ p, h.plugins.install plugin (some s.entryId)
          (h.plugins.entry? s.entryId).isSome path = .ok p := by
        unfold PluginRegistry.install
        rw [if_neg (by simpa using hvalid), Option.getD_some]
        simp only
        rw [if_neg]
        · exact ⟨_, rfl⟩
        · rintro ⟨hin, hout⟩
          rw [show (h.plugins.entry? s.entryId).isSome = true from hin] at hout
          cases hout
      obtain ⟨p, hp⟩ := hinst
      exact ⟨_, bind_ok.2 ⟨path, hpath, bind_ok.2 ⟨p, bind_ok.2 ⟨plugin, hm, hp⟩, rfl⟩⟩⟩

/-- what became of the revision of a contribution -/
def Settled (path : String) (h h' : Harness) (s : Harness.StagedContribution) : Prop :=
  (h.unchanged path s = true ∧
      h'.plugins.revisions.get? s.entryId = h.plugins.revisions.get? s.entryId) ∨
    (h.unchanged path s = false ∧ h'.plugins.revisions.get? s.entryId =
      some ((h.plugins.revisions.get? s.entryId).getD 0 + 1))

/-- **The contributions are installed** iff each is there already or can be constructed; every
one that was not there gets a new revision. -/
theorem Harness.installContributions_none {staged : List Harness.StagedContribution}
    (hids : (staged.map Harness.StagedContribution.entryId).Nodup)
    (hc : canonicalScopePath path = .ok path) (hdecl : (h.composition.get? path).isSome)
    (undo : List Harness.Undo) :
    ((Harness.installContributions path staged h undo).1 = none ↔
        ∀ s ∈ staged, h.unchanged path s = true ∨ Harness.contributable s = true) ∧
      ((Harness.installContributions path staged h undo).1 = none →
        (∀ s ∈ staged, Chassis.Settled path h (Harness.installContributions path staged h undo).2.1 s) ∧
        ∀ id, id ∉ staged.map Harness.StagedContribution.entryId →
          (Harness.installContributions path staged h undo).2.1.plugins.revisions.get? id =
            h.plugins.revisions.get? id) := by
  induction staged generalizing h undo with
  | nil => exact ⟨iff_of_true rfl fun _ hs => (by cases hs), fun _ => ⟨fun _ hs => (by cases hs),
      fun _ _ => rfl⟩⟩
  | cons s rest ih =>
    rw [List.map_cons, List.nodup_cons] at hids
    rw [Harness.installContributions, List.forall_mem_cons, List.forall_mem_cons]
    have hne : ∀ s' ∈ rest, s'.entryId ≠ s.entryId := fun s' hs' heq =>
      hids.1 (heq ▸ List.mem_map.2 ⟨s', hs', rfl⟩)
    by_cases hun : h.unchanged path s = true
    · rw [if_pos hun]
      obtain ⟨hiff, hset⟩ := ih hids.2 hdecl undo
      refine ⟨hiff.trans ⟨fun hr => ⟨Or.inl hun, hr⟩, fun hr => hr.2⟩, fun hnone => ?_⟩
      obtain ⟨hin, hout⟩ := hset hnone
      refine ⟨⟨Or.inl ⟨hun, hout _ hids.1⟩, hin⟩, fun id hid => ?_⟩
      exact hout id fun h => hid (List.mem_cons_of_mem _ h)
    · rw [if_neg hun]
      have hinst := Harness.installFrom_isOk (s := s) hc hdecl
      rcases hr : h.installFrom s.source (some s.entryId) s.config
          (h.plugins.entry? s.entryId).isSome (some path) with e | ⟨id, h₁⟩
      · rw [hr] at hinst
        refine ⟨iff_of_false (fun h => (by cases h)) ?_, fun h => (by cases h)⟩
        rintro ⟨hone | hone, -⟩
        · exact hun hone
        · obtain ⟨r, hr'⟩ := hinst.2 hone
          cases hr'
      · obtain ⟨path', plugin, entry, -, -, hp, -, hrest⟩ := Harness.installFrom_ok hr
        have htouch := PluginRegistry.install_touches hp
        obtain ⟨hid, -, -, -, -, hrev, hplugins⟩ := PluginRegistry.install_ok hp
        have hid' : entry.entryId = s.entryId := hid
        rw [hid'] at htouch
        have hcomp : h₁.composition = h.composition := by rw [hrest]
        obtain ⟨hiff, hset⟩ := ih (h := h₁) hids.2 (hcomp ▸ hdecl)
          (h.entryRestorer s.entryId :: undo)
        have hsame : ∀ s' ∈ rest, h₁.unchanged path s' = h.unchanged path s' := fun s' hs' =>
          Harness.unchanged_congr (htouch.entries _ (hne s' hs'))
        simp only
        refine ⟨hiff.trans ⟨fun hall => ⟨Or.inr (hinst.1 ⟨_, hr⟩), fun s' hs' => ?_⟩,
          fun hall s' hs' => ?_⟩, fun hnone => ?_⟩
        · rw [← hsame s' hs']
          exact hall s' hs'
        · rw [hsame s' hs']
          exact hall.2 s' hs'
        · obtain ⟨hin, hout⟩ := hset hnone
          refine ⟨⟨Or.inr ⟨Bool.eq_false_iff.2 hun, ?_⟩, fun s' hs' => ?_⟩, fun id hid => ?_⟩
          · rw [hout _ hids.1, hplugins, ← hid']
            exact (Dict.get?_set_self _ _ _).trans (congrArg some hrev)
          · have hs := hin s' hs'
            unfold Chassis.Settled at hs ⊢
            rw [hsame s' hs', htouch.revisions _ (hne s' hs')] at hs
            exact hs
          · rw [List.map_cons, List.mem_cons, not_or] at hid
            rw [hout id hid.2, htouch.revisions id hid.1]

theorem Harness.installContributions_unchanged {staged : List Harness.StagedContribution}
    (hall : ∀ s ∈ staged, h.unchanged path s = true) (undo : List Harness.Undo) :
    Harness.installContributions path staged h undo = (none, h, undo) := by
  induction staged with
  | nil => rfl
  | cons s rest ih =>
    rw [Harness.installContributions, if_pos (hall s List.mem_cons_self)]
    exact ih fun s' hs' => hall s' (List.mem_cons_of_mem _ hs')

end

/-! ## the part that is undone -/

/-- **Everything was declared** iff it could be; the revisions of what was not there are new. -/
theorem Harness.declareAgent_none {h : Harness} (ho : h.Orderly) {spec : AgentSpec}
    {previous : Option AgentRevision} {staged : List Harness.StagedContribution}
    (hs : StagedFor h spec previous staged) :
    ((h.declareAgent spec staged).1 = none ↔ h.Declarable spec staged) ∧
      ((h.declareAgent spec staged).1 = none →
        (∀ s ∈ staged, Chassis.Settled spec.scopePath h (h.declareAgent spec staged).2.1 s) ∧
        ((∀ s ∈ staged, h.unchanged spec.scopePath s = true) →
          (h.declareAgent spec staged).2.1.plugins = h.plugins)) := by
  obtain ⟨h₁, hprov, hg, -, -⟩ := provideScope_grown ho.tree hs.canonical
  obtain ⟨hr, -⟩ := h₁.declareScope_reshaped spec
  have hnone := declareScope_none (h := h₁) spec
  unfold declareAgent Declarable
  rw [hprov]
  simp only
  rcases hdecl : h₁.declareScope spec with ⟨_ | e, h₂⟩
  · rw [hdecl] at hr hnone
    have hshape : Reshaped spec.scopePath h₁ h₂ := hr
    have hplugins : h₂.plugins = h.plugins := by rw [hshape.rest, hg.rest]
    have hdeclared : (h₂.composition.get? spec.scopePath).isSome := by
      rw [hshape.isSome]
      exact hg.declared
    have hsame : ∀ s, h₂.unchanged spec.scopePath s = h.unchanged spec.scopePath s := fun s =>
      unchanged_congr (by rw [hplugins])
    obtain ⟨hiff, hset⟩ := installContributions_none hs.nodup hs.canonical hdeclared []
    simp only
    refine ⟨?_, fun hok => ⟨fun s hmem => ?_, fun hall => ?_⟩⟩
    · refine hiff.trans (Iff.trans ?_ (and_iff_right (hnone.1 rfl)).symm)
      exact forall₂_congr fun s _ => by rw [hsame s]
    · have hone := (hset hok).1 s hmem
      unfold Chassis.Settled at hone ⊢
      rw [hsame s, hplugins] at hone
      exact hone
    · rw [installContributions_unchanged fun s hmem => (hsame s).trans (hall s hmem)]
      exact hplugins
  · rw [hdecl] at hnone
    exact ⟨iff_of_false (fun h => nomatch h) fun h => (nomatch hnone.2 h.1),
      fun h => (nomatch h)⟩

theorem Harness.parentPath_spec {path : String} (hc : canonicalScopePath path = .ok path)
    (hne : path ≠ rootScope) :
    ∃ name, ValidName name ∧ path = joinPath (Harness.parentPath path) name ∧
      Harness.parentPath path ≠ "" := by
  have hpath := pathOf_segments hc
  have hvalid : ∀ name ∈ segments path, ValidName name := fun _ hn => validName_of_segments hc hn
  unfold parentPath
  rcases hseg : segments path with _ | ⟨name, above⟩
  · rw [hseg] at hpath
    exact absurd hpath.symm hne
  · rw [hseg] at hpath hvalid
    refine ⟨name, hvalid name List.mem_cons_self, hpath.symm, fun hempty => ?_⟩
    replace hempty : pathOf above = "" := hempty
    rcases above with _ | ⟨name', above⟩
    · exact absurd hempty (by decide)
    · have hlt := length_joinPath (pathOf above)
        (hvalid name' (List.mem_cons_of_mem _ List.mem_cons_self))
      rw [← pathOf, hempty] at hlt
      exact absurd hlt (Nat.not_lt_zero _)

section
variable {h r : Harness} (hu : Undone h r)
include hu

/-- **A scope that was there before**: nothing is left but the flag. -/
theorem Undone.untouched_iff (hmeta : ∀ p, (r.composition.get? p).map CompositionScope.metadata =
    (h.composition.get? p).map CompositionScope.metadata) :
    Untouched h r ↔ h.hasPendingChanges = true := by
  constructor
  · exact fun hsame => hsame.pending.symm.trans hu.marked
  · exact fun hpending => ⟨hmeta, hu.desired.entries, hu.desired.revisions, hu.active, hu.history,
      hu.marked.trans hpending.symm⟩

/-- **A scope that was not**: the ancestors it lacked are left, and the flag. -/
theorem Leftover.untouched_iff (ho : h.Orderly) {path : String}
    (hc : canonicalScopePath path = .ok path) (hnew : h.composition.get? path = none)
    (hl : Leftover path h r) : Untouched h r ↔ h.hasPendingChanges = true ∧
      (h.composition.get? (Harness.parentPath path)).isSome := by
  have hne : path ≠ rootScope := by
    rintro rfl
    have hroot := ho.tree.root
    rw [hnew] at hroot
    cases hroot
  obtain ⟨name, hname, hjoin, hempty⟩ := Harness.parentPath_spec hc hne
  have hwithin : ∀ p, CompositionTree.isWithin path p = true ↔
      path = p ∨ CompositionTree.isWithin (Harness.parentPath path) p = true := by
    intro p
    have hiff : CompositionTree.isWithin (joinPath (Harness.parentPath path) name) p = true ↔
        joinPath (Harness.parentPath path) name = p ∨
          CompositionTree.isWithin (Harness.parentPath path) p = true :=
      CompositionTree.isWithin_joinPath hname
    rw [← hjoin] at hiff
    exact hiff
  have hparent : Harness.parentPath path ≠ path := by
    intro heq
    have hlt := length_joinPath (Harness.parentPath path) hname
    rw [← hjoin, heq] at hlt
    exact absurd hlt (lt_irrefl _)
  constructor
  · intro hsame
    refine ⟨hsame.pending.symm.trans hu.marked, ?_⟩
    have hin := (hwithin _).2 (Or.inr (CompositionTree.isWithin_refl (Harness.parentPath path)))
    have hleft := hl.ancestors _ hin hparent hempty
    have hmeta := congrArg Option.isSome (hsame.scopes (Harness.parentPath path))
    rw [Option.isSome_map, Option.isSome_map] at hmeta
    rw [← hmeta]
    exact hleft
  · rintro ⟨hpending, hdecl⟩
    have hget : ∀ p, r.composition.get? p = h.composition.get? p := by
      intro p
      rcases hold : h.composition.get? p with _ | s
      · rcases hleft : r.composition.get? p with _ | s
        · rfl
        · rcases hl.added hleft with hs | ⟨-, hin, hp, -⟩
          · rw [hold] at hs
            cases hs
          · have hup := ((hwithin p).1 hin).resolve_left (Ne.symm hp)
            have hpe := hu.orderly.tree.nonempty (Option.isSome_iff_exists.2 ⟨s, hleft⟩)
            have hthere := ho.tree.within_declared hdecl hup hpe
            rw [hold] at hthere
            cases hthere
      · exact hl.kept hold
    exact (hu.untouched_iff fun p => by rw [hget p]).2 hpending

end

/-! ## the part that is not undone -/

/-- **Without a digest**, nothing is undone. -/
theorem Declared.untouched_iff {h h₁ : Harness} {spec : AgentSpec}
    {previous : Option AgentRevision} {staged : List Harness.StagedContribution}
    {undo : List Harness.Undo} (ho : h.Orderly) (hs : StagedFor h spec previous staged)
    (hdeclare : h.declareAgent spec staged = (none, h₁, undo))
    (ha : Attempted spec.scopePath h h₁ undo) (hd : Declared spec staged h h₁) :
    Untouched h (h₁.dropContributions previous
        (sorted (staged.map Harness.StagedContribution.entryId))) ↔
      h.hasPendingChanges = true ∧ h.Redeclares spec previous staged := by
  obtain ⟨-, hset⟩ := Harness.declareAgent_none ho hs
  rw [hdeclare] at hset
  obtain ⟨hsettled, hsame⟩ := hset rfl
  obtain ⟨hred, hagents⟩ :=
    Harness.dropContributions_reduced ha.orderly.housed previous staged
  generalize h₁.dropContributions previous _ = h₂ at hred hagents ⊢
  have hcomp : h₂.composition = h₁.composition := by rw [hred.rest]
  have hrev : h₂.plugins.revisions = h₁.plugins.revisions := by rw [hred.registry]
  have hdirty : h₂.dirty = true := by
    rcases hred.marked with hd | ⟨hd, -⟩
    · exact hd
    · exact hd.trans ha.marked
  obtain ⟨s, hscope⟩ := Option.isSome_iff_exists.1 ha.declared
  constructor
  · intro hun
    refine ⟨hun.pending.symm.trans hdirty, ?_, fun c hc => ?_, fun id hid => ?_⟩
    · have hmeta := hun.scopes spec.scopePath
      rw [hcomp, hscope, Option.map_some, hd.metadata hscope] at hmeta
      exact hmeta.symm
    · rcases hsettled c hc with ⟨hin, -⟩ | ⟨-, hbump⟩
      · exact hin
      · have hold := hun.revisions c.entryId
        rw [hrev, hbump] at hold
        rw [← hold] at hold
        exact absurd (Option.some.inj hold) (by simp)
    · refine or_iff_not_imp_left.2 fun hout => ?_
      rw [← hun.entries id]
      rcases hget : h₂.plugins.entries.get? id with _ | e
      · rfl
      · obtain ⟨hget₁, hkeep⟩ := hred.gone hget
        rw [(ha.orderly.housed id e hget₁).1] at hkeep
        exact absurd ⟨hid, hout⟩ hkeep
  · rintro ⟨hpending, hmeta, hall, hgone⟩
    have hplugins : h₁.plugins = h.plugins := hsame hall
    have hhere : (h.composition.get? spec.scopePath).isSome := by
      rw [← Option.isSome_map (f := CompositionScope.metadata), hmeta]
      rfl
    have hag : h₁.agents = h.agents := by rw [ha.agents, if_pos hhere]
    refine ⟨fun p => ?_, fun id => ?_, fun id => ?_, ?_, fun name revision => ?_,
      hdirty.trans hpending.symm⟩
    · rw [hcomp]
      rcases eq_or_ne p spec.scopePath with rfl | hne
      · rw [hmeta, hscope, Option.map_some, hd.metadata hscope]
      · rw [ha.stayed hhere p hne]
    · rcases hold : h.plugins.entries.get? id with _ | e
      · rcases hget : h₂.plugins.entries.get? id with _ | e
        · rfl
        · have hget₁ := (hred.gone hget).1
          rw [hplugins, hold] at hget₁
          cases hget₁
      · refine hred.kept (hplugins ▸ hold) fun hin => ?_
        rw [(ho.housed id e hold).1] at hin
        obtain ⟨hprev, hout⟩ := hin
        have hnone := (hgone id hprev).resolve_left hout
        rw [hold] at hnone
        cases hnone
    · rw [hrev, hplugins]
    · rw [hagents, hag]
    · rw [hagents, hag]

/-! ## an installation that raises -/

theorem Harness.stageAgent_remembering (h : Harness) (spec : AgentSpec)
    (previous : Option AgentRevision) :
    (h.remembering spec).stageAgent spec previous = h.stageAgent spec previous := by
  have howned : (h.remembering spec).agents.ownedScopePaths = h.agents.ownedScopePaths :=
    AgentRegistry.ownedScopePaths_remember _ _
  unfold stageAgent
  rw [howned]
  rfl

theorem untouched_remembering {h r : Harness} (spec : AgentSpec) :
    Untouched (h.remembering spec) r ↔ Untouched h r := by
  have hactive : (h.remembering spec).agents.activeRevisions = h.agents.activeRevisions :=
    AgentRegistry.activeRevisions_remember _ _
  have hhistory : ∀ name revision, (h.remembering spec).agents.published name revision =
    h.agents.published name revision := AgentRegistry.published_remember _ _
  constructor
  · exact fun hu => ⟨hu.scopes, hu.entries, hu.revisions, hu.active.trans hactive,
      fun name revision => (hu.history name revision).trans (hhistory name revision), hu.pending⟩
  · exact fun hu => ⟨hu.scopes, hu.entries, hu.revisions, hu.active.trans hactive.symm,
      fun name revision => (hu.history name revision).trans (hhistory name revision).symm,
      hu.pending⟩

/-- **When an installation that raises leaves everything as it was.** -/
theorem installAgent_atomic_iff {h₀ : Harness} {history : List (Event Job Err × HarnessConfig)}
    {c : HarnessConfig} (hrun : ControlRun h₀ history c) (spec : AgentSpec) (replace : Bool)
    {e : Err} {r : Harness} (hraise : c.state.installAgent spec replace = (.error e, r)) :
    Untouched c.state r ↔ c.state.Spared spec replace := by
  have ho : c.state.Orderly := hrun.orderly
  generalize c.state = h at ho hraise ⊢
  have hout := Harness.installAgent_outcome ho spec replace
  rw [hraise] at hout
  cases hout with
  | refused hforbid =>
    exact iff_of_true (.remembering h spec) (Or.inl (Or.inl hforbid))
  | failed hallow hm =>
    have hog := ho.remembering spec
    have hstaged : ∀ {staged}, (h.remembering spec).stageAgent spec (h.precededBy spec) =
        .ok staged → h.stageAgent spec (h.precededBy spec) = .ok staged := fun hs =>
      (h.stageAgent_remembering spec _).symm.trans hs
    have hpassed : ∀ {staged}, h.stageAgent spec (h.precededBy spec) = .ok staged →
        ¬ h.Refuses spec replace := by
      rintro staged hs (hforbid | ⟨e, he⟩)
      · exact hallow hforbid
      · rw [hs] at he
        cases he
    cases hm with
    | refused hs =>
      rw [h.stageAgent_remembering] at hs
      exact iff_of_true (.remembering h spec) (Or.inl (Or.inr ⟨e, hs⟩))
    | @undone staged _ h₁ undo hs hdeclare ha =>
      have hfor := Harness.stageAgent_ok hs
      have hnot : ¬ h.Declarable spec staged := by
        have hnone := (Harness.declareAgent_none hog hfor).1
        rw [hdeclare] at hnone
        exact fun hd => nomatch hnone.2 hd
      have hspared : h.Spared spec replace ↔ h.hasPendingChanges = true ∧
          ((h.composition.get? spec.scopePath).isSome ∨
            (h.composition.get? (Harness.parentPath spec.scopePath)).isSome) := by
        constructor
        · rintro (hrefuse | ⟨hpending, staged', hs', ⟨-, hthere⟩ | ⟨hd, -⟩⟩)
          · exact absurd hrefuse (hpassed (hstaged hs))
          · exact ⟨hpending, hthere⟩
          · rw [hstaged hs] at hs'
            cases hs'
            exact absurd hd hnot
        · exact fun hp => Or.inr ⟨hp.1, staged, hstaged hs, Or.inl ⟨hnot, hp.2⟩⟩
      rw [hspared, ← untouched_remembering spec]
      show Untouched _ (h₁.undeclareAgent spec.scopePath (h.composition.get? spec.scopePath)
        h.dirty undo) ↔ _
      rcases hscope : h.composition.get? spec.scopePath with _ | s
      · have hundo := ha.undeclare_absent hog hfor.canonical hscope h.dirty
        have hiff := hundo.2.untouched_iff hundo.1 hog hfor.canonical hscope
        refine hiff.trans (and_congr_right fun _ => ?_)
        exact ⟨fun hparent => Or.inr hparent, fun hor => hor.resolve_left fun h => (nomatch h)⟩
      · have hundo := ha.undeclare_present hog hscope h.dirty
        refine (hundo.1.untouched_iff hundo.2).trans ⟨fun hp => ⟨hp, Or.inl rfl⟩, And.left⟩
    | @undigested staged _ h₁ undo hs hdeclare ha hd _ =>
      have hfor := Harness.stageAgent_ok hs
      have hdone : h.Declarable spec staged := by
        have hnone := (Harness.declareAgent_none hog hfor).1
        rw [hdeclare] at hnone
        exact hnone.1 rfl
      rw [← untouched_remembering spec]
      refine (hd.untouched_iff hog hfor hdeclare ha).trans ⟨?_, ?_⟩
      · rintro ⟨hpending, hre⟩
        exact Or.inr ⟨hpending, staged, hstaged hs, Or.inr ⟨hdone, hre⟩⟩
      · rintro (hrefuse | ⟨hpending, staged', hs', ⟨hnot, -⟩ | ⟨-, hre⟩⟩)
        · exact absurd hrefuse (hpassed (hstaged hs))
        · rw [hstaged hs] at hs'
          cases hs'
          exact absurd hdone hnot
        · rw [hstaged hs] at hs'
          cases hs'
          exact ⟨hpending, hre⟩

end

section
open scoped Plain

def brokenAgent : AgentSpec where
  name := "a"
  plugins := Dict.empty.set "store" (.class "Store" 0 brokenType)
  name_valid := AgentSpec.valid_a
  revision_valid := AgentSpec.valid_one
  runtime_valid := AgentSpec.runtime_none
  plugins_valid := by decide +kernel
  scope_canonical := fun _ hpath => absurd hpath (Option.not_mem_none _)
  unreserved := AgentSpec.unreserved_empty

/-- a harness to which the scope of the agents was declared -/
def housingAgents : Harness :=
  { ({} : Harness) with
    composition := ⟨({} : CompositionTree).scopes.set "/agents"
      (CompositionTree.attached "/" "agents" none none Dict.empty)⟩
    dirty := true }

theorem installAgent_atomic_iff_broken :
    (housingAgents.installAgent brokenAgent false).1.isOk = false ∧
      Untouched housingAgents (housingAgents.installAgent brokenAgent false).2 := by
  have hraised : raised? (housingAgents.installAgent brokenAgent false).1 =
      some { kind := .Other, message := "no such file" } := by decide +kernel
  refine ⟨by decide +kernel, ?_⟩
  have hatt : ({} : Harness).addScope "/" "agents" none none Dict.empty = .ok housingAgents := rfl
  refine (installAgent_atomic_iff (r := (housingAgents.installAgent brokenAgent false).2)
    (ControlRun.one (.act (.desired (.addScope _ _ _ _ _ hatt)))) brokenAgent false
    (Prod.ext (raised?_eq_some.1 hraised) rfl)).2 (Or.inr ⟨rfl, ?_⟩)
  refine ⟨[⟨"agent:a:store", "store", .class brokenType, none⟩], rfl, Or.inl ⟨fun hd => ?_, Or.inr
    (by decide +kernel)⟩⟩
  exact absurd (hd.2 _ List.mem_cons_self) (by decide +kernel)

/-- **An installation that is undone, but for the flag and an ancestor**: on a new harness the
scope of the agents stays, and a reconcile is pending that was not. -/
theorem flag_raised : ∃ h₀ history h, ControlRun h₀ history ⟨h, none⟩ ∧
    (h.installAgent brokenAgent false).1.isOk = false ∧
    ¬ Untouched h (h.installAgent brokenAgent false).2 ∧
    h.hasPendingChanges = false ∧
    (h.installAgent brokenAgent false).2.hasPendingChanges = true ∧
    (h.composition.get? "/agents").isSome = false ∧
    ((h.installAgent brokenAgent false).2.composition.get? "/agents").isSome = true := by
  have hflag : (({} : Harness).installAgent brokenAgent false).2.hasPendingChanges = true := by
    decide +kernel
  refine ⟨{}, [], {}, ⟨pristine_new, .refl⟩, by decide +kernel, fun hu => ?_, rfl, hflag,
    by decide +kernel, by decide +kernel⟩
  rw [hu.pending] at hflag
  cases hflag

end
end Chassis
