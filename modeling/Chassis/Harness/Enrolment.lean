import Chassis.Harness.Depiction
import Chassis.Harness.Seating

/-!
# The register of instances

* `ControlAct.sameRuntime`   the operations touch nothing that runs, those of the runs themselves apart;
* `SameHosts h h'`      nothing of the instances differs; all operations see to that;
* `Harness.Enrolled`    every instance is kept under its id and listed for its entry, its id was
                        drawn, and its identity names no instance that was not;
* `job_enrolled`        every job keeps the register, whether it succeeds or raises;
* `ControlRun.listed`   **so it is in order whenever nobody composes.**
-/

set_option linter.unusedSectionVars false

namespace Chassis
open Py Coop

/-- nothing of the instances differs, nor what a pass has mounted -/
structure SameHosts (h h' : Harness) : Prop where
  instances : h'.plugins.instances = h.plugins.instances
  byEntry : h'.plugins.byEntry = h.plugins.byEntry
  mounted : h'.work.mounted = h.work.mounted
  drawn : h.drawn ≤ h'.drawn

namespace SameHosts

theorem refl (h : Harness) : SameHosts h h := ⟨rfl, rfl, rfl, le_refl _⟩

theorem trans {h h' h'' : Harness} (a : SameHosts h h') (b : SameHosts h' h'') : SameHosts h h'' where
  instances := b.instances.trans a.instances
  byEntry := b.byEntry.trans a.byEntry
  mounted := b.mounted.trans a.mounted
  drawn := a.drawn.trans b.drawn

end SameHosts

theorem SameRuntime.sameHosts {h h' : Harness} (a : SameRuntime h h') : SameHosts h h' where
  instances := a.instances
  byEntry := a.byEntry
  mounted := by rw [a.work]
  drawn := a.drawn

section
variable [Packaging] [Platform] {h h' : Harness}

/-! ## the operations -/

theorem SameButEntries.sameRuntime (a : SameButEntries h h') : SameRuntime h h' := by
  refine SameRuntime.of_plugins h'.plugins a.instances a.byEntry ?_
  rw [a.rest]
  exact .of_runtime rfl (le_refl _)

theorem Reshaped.sameRuntime {path : String} (a : Reshaped path h h') : SameRuntime h h' := by
  rw [a.rest]
  exact .of_runtime rfl (le_refl _)

theorem Acts.sameHosts (ha : Acts h h') : SameHosts h h' := by
  cases ha with
  | desired ha => exact ha.sameRuntime.sameHosts
  | lease ha =>
    cases ha with
    | acquire ha =>
      obtain ⟨lease, m, -, rfl⟩ := Harness.acquire_ok ha
      exact ⟨rfl, rfl, rfl, le_refl _⟩
    | release n hr =>
      rcases Harness.release_ok hr with rfl | ⟨lease, idle, m, -, -, rfl⟩
      · exact .refl h'
      · exact ⟨rfl, rfl, rfl, le_refl _⟩
  | start =>
    unfold Harness.start
    split
    · exact ⟨rfl, rfl, rfl, le_refl _⟩
    · exact .refl h
  | learn secrets => exact ⟨rfl, rfl, rfl, le_refl _⟩

namespace Harness

theorem uninstallEach_sameRuntime (entries : List String) (h : Harness) :
    SameRuntime h (h.uninstallAll entries) := by
  induction entries generalizing h with
  | nil => exact .refl h
  | cons e rest ih => exact (h.uninstall_sameRuntime e).trans (ih (h.uninstall e).2)

theorem restoreAll_sameRuntime (undo : List Undo) (h : Harness) :
    SameRuntime h (undo.foldl restoreEntry h) := by
  induction undo generalizing h with
  | nil => exact .refl h
  | cons u rest ih =>
    have hone : SameRuntime h (h.restoreEntry u) := .of_runtime rfl (le_refl _)
    exact hone.trans (ih (h.restoreEntry u))

theorem ensureScope_sameRuntime (l : List String) (h : Harness) :
    SameRuntime h (h.ensureScope l).2 := by
  induction l with
  | nil => exact .refl h
  | cons name above ih =>
    unfold ensureScope
    split
    · exact .refl h
    · split
      · rename_i h₁ he
        rw [he] at ih
        exact ih
      · rename_i h₁ he
        rw [he] at ih
        split
        · exact ih
        · rename_i h₂ hadd
          obtain ⟨tree, -, hadd⟩ := bind_ok.1 hadd
          cases hadd
          exact ih.trans (.of_runtime rfl (le_refl _))

theorem provideScope_sameRuntime (path : String) (h : Harness) :
    SameRuntime h (h.provideScope path).2 := by
  have hens := ensureScope_sameRuntime (segments path) h
  unfold provideScope
  split
  · exact .refl h
  · split
    · rename_i he
      rw [he] at hens
      exact hens
    · rename_i he
      rw [he] at hens
      exact hens.trans (.of_runtime rfl (le_refl _))

theorem declareAgent_sameRuntime (spec : AgentSpec) (staged : List StagedContribution)
    (h : Harness) : SameRuntime h (h.declareAgent spec staged).2.1 := by
  have hprov := provideScope_sameRuntime spec.scopePath h
  unfold declareAgent
  split
  · rename_i he
    rw [he] at hprov
    exact hprov
  · rename_i h₁ he
    rw [he] at hprov
    have hdecl := hprov.trans (h₁.declareScope_reshaped spec).1.sameRuntime
    split
    · rename_i hd
      rw [hd] at hdecl
      exact hdecl
    · rename_i h₂ hd
      rw [hd] at hdecl
      have hinst := installContributions_undoes (.refl h₂) (.nil h₂)
        (rfl : installContributions spec.scopePath staged h₂ [] = _)
      exact hdecl.trans hinst.1.sameRuntime

theorem retractScope_sameRuntime (path : String) (h : Harness) :
    SameRuntime h (h.retractScope path) := by
  unfold retractScope
  simp only
  split
  · split
    · rename_i hr
      exact (removeScope_sameRuntime hr).trans (.of_runtime rfl (le_refl _))
    · exact .of_runtime rfl (le_refl _)
  · exact .of_runtime rfl (le_refl _)

theorem undeclareAgent_sameRuntime (path : String) (state : Option CompositionScope) (pending : Bool)
    (undo : List Undo) (h : Harness) : SameRuntime h (h.undeclareAgent path state pending undo) := by
  have hundo : SameRuntime h { undo.foldl restoreEntry h with dirty := pending } :=
    (restoreAll_sameRuntime undo h).trans (.of_runtime rfl (le_refl _))
  unfold undeclareAgent
  split
  · exact hundo.trans (restoreScope_reshaped _ _ _).1.sameRuntime
  · exact hundo.trans (retractScope_sameRuntime path _)

theorem materialize_sameRuntime (spec : AgentSpec) (previous : Option AgentRevision) (h : Harness) :
    SameRuntime h (h.materialize spec previous).2 := by
  unfold materialize
  split
  · exact .refl h
  · rename_i staged _
    have hdecl := declareAgent_sameRuntime spec staged h
    split
    · rename_i hd
      rw [hd] at hdecl
      exact hdecl.trans (undeclareAgent_sameRuntime _ _ _ _ _)
    · rename_i h₁ undo hd
      rw [hd] at hdecl
      have hdrop := hdecl.trans (uninstallEach_sameRuntime
        (((previous.map AgentRevision.entries).getD []).filter
          (· ∉ sorted (staged.map StagedContribution.entryId))) h₁)
      simp only
      split
      · exact hdrop
      · exact hdrop

theorem withdrawOptional_sameRuntime (r : Option AgentRevision) (h : Harness) :
    SameRuntime h (h.withdrawOptional r).2 := by
  cases r with
  | none => exact .refl h
  | some r =>
    show SameRuntime h (h.withdrawRevision r).2
    unfold withdrawRevision
    split
    · split
      · exact .refl h
      · rename_i hr
        exact (removeScope_sameRuntime hr).trans (.of_runtime rfl (le_refl _))
    · exact uninstallEach_sameRuntime _ h

theorem selectRevision_sameRuntime (spec : AgentSpec) (replace : Bool) (active : Option String)
    (h : Harness) : SameRuntime h (h.selectRevision spec replace active).2 := by
  unfold selectRevision
  split
  · exact .refl h
  · simp only
    split
    · rename_i hm
      have hmat := materialize_sameRuntime spec (Option.filter (fun r => r.scope = spec.scopePath)
        ((active.filter (· ≠ spec.revision)).bind (h.agents.published spec.name))) h
      rw [hm] at hmat
      exact hmat
    · rename_i revision h₁ hm
      have hmat := materialize_sameRuntime spec (Option.filter (fun r => r.scope = spec.scopePath)
        ((active.filter (· ≠ spec.revision)).bind (h.agents.published spec.name))) h
      rw [hm] at hmat
      have hwith := hmat.trans (withdrawOptional_sameRuntime
        (Option.filter (fun r => r.scope ≠ spec.scopePath)
          ((active.filter (· ≠ spec.revision)).bind (h.agents.published spec.name))) h₁)
      split
      · rename_i hw
        rw [hw] at hwith
        exact hwith
      · rename_i hw
        rw [hw] at hwith
        exact hwith.trans (.of_runtime rfl (le_refl _))

theorem installAgent_sameRuntime (spec : AgentSpec) (replace : Bool) (h : Harness) :
    SameRuntime h (h.installAgent spec replace).2 := by
  have hrem : SameRuntime h { h with agents := h.agents.remember spec.name } :=
    .of_runtime rfl (le_refl _)
  unfold installAgent
  simp only
  split
  · exact hrem.trans (selectRevision_sameRuntime _ _ _ _)
  · split
    · exact hrem
    · split
      · exact hrem
      · exact hrem.trans (selectRevision_sameRuntime _ _ _ _)

theorem removeAgent_sameRuntime (name : String) (h : Harness) :
    SameRuntime h (h.removeAgent name).2 := by
  unfold removeAgent
  split
  · exact .refl h
  · rename_i history _
    have hret : SameRuntime h { h with agents := h.agents.retire name } := .of_runtime rfl (le_refl _)
    have hwith := hret.trans (withdrawOptional_sameRuntime
      ((h.agents.activeRevisions.get? name).bind history.get?) _)
    simp only
    split
    · rename_i hw
      rw [hw] at hwith
      exact hwith
    · rename_i hw
      rw [hw] at hwith
      exact hwith

theorem applyConfig_sameRuntime (c : Declarative.HarnessConfig) (h : Harness) :
    SameRuntime h (h.applyConfig c).2 := by
  unfold applyConfig
  simp only
  split
  · exact .refl h
  · rename_i changes _
    rcases hrun : applyChanges c changes h [] with ⟨_ | e, h₁, undo⟩
    · obtain ⟨hsame, -⟩ := applyChanges_undoes (.refl h) (.nil h) hrun
      exact hsame.sameRuntime.trans (.of_runtime rfl (le_refl _))
    · obtain ⟨hsame, -⟩ := applyChanges_undoes (.refl h) (.nil h) hrun
      exact (hsame.sameRuntime.trans (restoreAll_sameRuntime undo h₁)).trans (.of_runtime rfl (le_refl _))

end Harness

theorem ControlAct.sameRuntime (ha : ControlAct h h') : Acts h h' ∨ SameRuntime h h' := by
  cases ha with
  | act ha => exact Or.inl ha
  | installFrom source entryId config replace scope hi =>
    obtain ⟨path, plugin, entry, -, -, hp, -, hrest⟩ := Harness.installFrom_ok hi
    have htouch := PluginRegistry.install_touches hp
    refine Or.inr (SameRuntime.of_plugins h'.plugins htouch.instances htouch.byEntry ?_)
    rw [hrest]
    exact .of_runtime rfl (le_refl _)
  | registerPluginType name construct =>
    exact Or.inr (.of_runtime rfl (le_refl _))
  | applyConfig c => exact Or.inr (Harness.applyConfig_sameRuntime c h)
  | applyPending =>
    unfold Harness.applyPending
    split
    · exact Or.inr (.refl h)
    · rename_i c _
      have hnone : SameRuntime h { h with pendingConfig := none } :=
        .of_runtime rfl (le_refl _)
      exact Or.inr (hnone.trans (Harness.applyConfig_sameRuntime c _))
  | registerRuntime runtime scopeId replace hr =>
    obtain ⟨agents, -, hr⟩ := bind_ok.1 hr
    cases hr
    exact Or.inr
      (.of_runtime rfl (Nat.le_succ _))
  | releaseRuntime registrationId =>
    exact Or.inr (.of_runtime rfl (le_refl _))
  | installAgent spec replace => exact Or.inr (Harness.installAgent_sameRuntime spec replace h)
  | removeAgent name => exact Or.inr (Harness.removeAgent_sameRuntime name h)

/-- **Every operation leaves the instances alone**, whether it succeeds or raises. -/
theorem ControlAct.sameHosts (ha : ControlAct h h') : SameHosts h h' := by
  rcases ha.sameRuntime with ha | ha
  · exact ha.sameHosts
  · exact ha.sameHosts

theorem ControlAct.safe (ha : ControlAct h h') (hs : h.Safe) : h'.Safe ∧ Undisturbed h h' := by
  rcases ha.sameRuntime with ha | ha
  · exact ha.safe hs
  · exact ha.acts hs

/-- **What the live generations reach is active** in every configuration. -/
theorem ControlRun.safe {h₀ : Harness} {history : List (Event Job Err × HarnessConfig)}
    {c : HarnessConfig} (hrun : ControlRun h₀ history c) : c.state.Safe := by
  have hm : Monitored leaseRules ControlAct Job.program Harness.Safe (fun _ _ h => h.Safe) :=
    { refl := fun h => (SameRuntime.refl h).sameHoldings.undisturbed
      trans := fun _ _ _ u hs ha => Undisturbed.trans u (ha.safe hs).2
      admits := fun _ _ _ => trivial
      idle := fun _ _ hs ha => (ha.safe hs).1
      held := fun _ _ hs ha => (ha.safe hs).1
      job := fun j _ hs => job_safe j hs }
  have hsound := hm.run hrun.1.toFresh.safe hrun.2 fun _ _ _ _ hs => hs
  unfold Config.Sound at hsound
  split at hsound
  · exact hsound
  · exact hsound.1

/-! ## the register -/

/-- the ids of the instances of an entry, oldest first -/
def PluginRegistry.idsOf (r : PluginRegistry) (e : String) : List String :=
  (r.byEntry.get? e).getD []

theorem PluginRegistry.idsOf_update (r : PluginRegistry) (id : String)
    (f : PluginInstance → PluginInstance) (e : String) : (r.update id f).idsOf e = r.idsOf e := by
  unfold PluginRegistry.update
  split <;> rfl

theorem PluginRegistry.idsOf_adopt (r : PluginRegistry) (i : PluginInstance) (e : String) :
    (r.adopt i).idsOf e = if e = i.entryId then r.idsOf e ++ [i.instanceId] else r.idsOf e := by
  show ((r.byEntry.set i.entryId _).get? e).getD [] = _
  rw [Dict.get?_set]
  split
  · rename_i he
    rw [he]
    rfl
  · rfl

theorem PluginRegistry.idsOf_forget (r : PluginRegistry) (i : PluginInstance) (e : String) :
    (r.forget i).idsOf e =
      if e = i.entryId then (r.idsOf e).erase i.instanceId else r.idsOf e := by
  have hby := congrArg PluginRegistry.byEntry (PluginRegistry.forget.eq_1 r i)
  simp only at hby
  unfold PluginRegistry.idsOf
  rw [hby]
  by_cases he : e = i.entryId
  · rw [if_pos he, he]
    cases hids : r.byEntry.get? i.entryId with
    | none =>
      simp only
      rw [hids]
      rfl
    | some ids =>
      simp only
      split
      · split
        · rename_i hleft
          rw [Dict.get?_erase, if_pos rfl]
          exact hleft.symm
        · rename_i hleft
          rw [Dict.get?_set_self]
          rfl
      · rename_i hout
        rw [hids]
        exact (List.erase_of_not_mem hout).symm
  · rw [if_neg he]
    cases r.byEntry.get? i.entryId with
    | none => rfl
    | some ids =>
      simp only
      split
      · split
        · rw [Dict.get?_erase, if_neg he]
        · rw [Dict.get?_set, if_neg he]
      · rfl

namespace Harness

/-- an id that was drawn for an instance -/
def Issued (h : Harness) (id : String) : Prop := ∃ n < h.drawn, id = freshId "plugin" n

/-- an instance as the register has it, if it still has it -/
def Knows (h : Harness) (i : PluginInstance) : Prop :=
  h.Issued i.instanceId ∧
    ∀ x, h.plugins.instances.get? i.instanceId = some x → x.entryId = i.entryId

/-- an identity that names no instance but those that were drawn -/
def Dates (h : Harness) (identity : SemanticIdentity) : Prop :=
  ∀ b ∈ identity.bindings, ∀ id, b.providerInstanceId = some id → h.Issued id

structure Enrolled (h : Harness) : Prop where
  keyed : h.plugins.Keyed
  issued : ∀ k i, h.plugins.instances.get? k = some i → h.Issued k
  listed : ∀ e k, k ∈ h.plugins.idsOf e →
    ∃ i, h.plugins.instances.get? k = some i ∧ i.entryId = e
  single : ∀ e, (h.plugins.idsOf e).Nodup
  dated : ∀ k i identity, h.plugins.instances.get? k = some i →
    i.semanticIdentity = some identity → h.Dates identity
  mounted : ∀ i ∈ h.work.mounted, h.Knows i

theorem Issued.mono {id : String} (hi : h.Issued id) (hd : h.drawn ≤ h'.drawn) : h'.Issued id := by
  obtain ⟨n, hn, he⟩ := hi
  exact ⟨n, by omega, he⟩

theorem Dates.mono {identity : SemanticIdentity} (hd : h.Dates identity)
    (hle : h.drawn ≤ h'.drawn) : h'.Dates identity :=
  fun b hb id hid => (hd b hb id hid).mono hle

theorem Knows.of_same {i : PluginInstance} (hk : h.Knows i) (a : SameHosts h h') : h'.Knows i := by
  refine ⟨hk.1.mono a.drawn, fun x hx => hk.2 x ?_⟩
  rw [← a.instances]
  exact hx

theorem instance?_listed {e : String} {i : PluginInstance} (h : Harness)
    (hi : h.plugins.instance? e = some i) :
    ∃ k ∈ h.plugins.idsOf e, h.plugins.instances.get? k = some i := by
  obtain ⟨k, hk, hget⟩ := Option.bind_eq_some_iff.1 hi
  obtain ⟨ids, hids, hlast⟩ := Option.bind_eq_some_iff.1 hk
  refine ⟨k, ?_, hget⟩
  unfold PluginRegistry.idsOf
  rw [hids]
  exact List.mem_of_getLast? hlast

namespace Enrolled

theorem instance? (he : h.Enrolled) {e : String} {i : PluginInstance}
    (hi : h.plugins.instance? e = some i) :
    i.entryId = e ∧ h.plugins.instances.get? i.instanceId = some i ∧ h.Issued i.instanceId := by
  obtain ⟨k, hk, hget⟩ := h.instance?_listed hi
  obtain ⟨x, hx, hentry⟩ := he.listed e k hk
  obtain rfl := Option.some.inj (hget.symm.trans hx)
  have hkey : i.instanceId = k := he.keyed k i hget
  rw [hkey]
  exact ⟨hentry, hget, he.issued k i hget⟩

theorem of_same (he : h.Enrolled) (a : SameHosts h h') : h'.Enrolled where
  keyed := by
    intro k i hi
    rw [a.instances] at hi
    exact he.keyed k i hi
  issued := by
    intro k i hi
    rw [a.instances] at hi
    exact (he.issued k i hi).mono a.drawn
  listed := by
    intro e k hk
    unfold PluginRegistry.idsOf at hk
    rw [a.byEntry] at hk
    rw [a.instances]
    exact he.listed e k hk
  single := by
    intro e
    unfold PluginRegistry.idsOf
    rw [a.byEntry]
    exact he.single e
  dated := by
    intro k i identity hi hid
    rw [a.instances] at hi
    exact (he.dated k i identity hi hid).mono a.drawn
  mounted := by
    intro i hi
    rw [a.mounted] at hi
    exact (he.mounted i hi).of_same a

theorem update (he : h.Enrolled) {i : PluginInstance} {f : PluginInstance → PluginInstance}
    (hid : ∀ x, (f x).instanceId = x.instanceId) (hentry : ∀ x, (f x).entryId = x.entryId)
    (hsem : ∀ x identity, (f x).semanticIdentity = some identity →
      x.semanticIdentity = some identity ∨ h.Dates identity) : (h.updateInstance i f).Enrolled := by
  have hold : ∀ k x, (h.updateInstance i f).plugins.instances.get? k = some x →
      ∃ y, h.plugins.instances.get? k = some y ∧ (x = y ∨ x = f y) := by
    intro k x hx
    replace hx := (PluginRegistry.get?_update _ _ _ k).symm.trans hx
    split at hx
    · rename_i hk
      obtain ⟨y, hy, rfl⟩ := Option.map_eq_some_iff.1 hx
      exact ⟨y, hk ▸ hy, Or.inr rfl⟩
    · exact ⟨x, hx, Or.inl rfl⟩
  have hknow : ∀ j, h.Knows j → (h.updateInstance i f).Knows j := by
    intro j hj
    refine ⟨hj.1, fun x hx => ?_⟩
    obtain ⟨y, hy, hxy⟩ := hold _ x hx
    rcases hxy with rfl | rfl
    · exact hj.2 x hy
    · exact (hentry y).trans (hj.2 y hy)
  constructor
  · exact he.keyed.update hid
  · intro k x hx
    obtain ⟨y, hy, -⟩ := hold k x hx
    exact he.issued k y hy
  · intro e k hk
    replace hk := (h.plugins.idsOf_update i.instanceId f e) ▸ hk
    obtain ⟨y, hy, hye⟩ := he.listed e k hk
    have hget := PluginRegistry.get?_update h.plugins i.instanceId f k
    by_cases hki : k = i.instanceId
    · have hsome : h.plugins.instances.get? i.instanceId = some y := hki ▸ hy
      rw [if_pos hki, hsome] at hget
      exact ⟨f y, hget, (hentry y).trans hye⟩
    · rw [if_neg hki, hy] at hget
      exact ⟨y, hget, hye⟩
  · intro e
    have hsame : (h.updateInstance i f).plugins.idsOf e = h.plugins.idsOf e :=
      h.plugins.idsOf_update i.instanceId f e
    rw [hsame]
    exact he.single e
  · intro k x identity hx hxi
    obtain ⟨y, hy, hxy⟩ := hold k x hx
    rcases hxy with rfl | rfl
    · exact he.dated k x identity hy hxi
    · rcases hsem y identity hxi with hyi | hd
      · exact he.dated k y identity hy hyi
      · exact hd
  · exact fun j hj => hknow j (he.mounted j hj)

theorem setState (he : h.Enrolled) (i : PluginInstance) (state : PluginState) :
    (h.updateInstance i fun x => { x with state := state }).Enrolled :=
  he.update (fun _ => rfl) (fun _ => rfl) fun _ _ hx => Or.inl hx

theorem forget (he : h.Enrolled) {i : PluginInstance} (hi : h.Knows i) :
    Enrolled { h with plugins := h.plugins.forget i } := by
  have hold : ∀ k x, (h.plugins.forget i).instances.get? k = some x →
      h.plugins.instances.get? k = some x := by
    intro k x hx
    rw [PluginRegistry.get?_forget] at hx
    split at hx
    · cases hx
    · exact hx
  constructor
  · exact he.keyed.forget i
  · exact fun k x hx => he.issued k x (hold k x hx)
  · intro e k hk
    change k ∈ (h.plugins.forget i).idsOf e at hk
    rw [PluginRegistry.idsOf_forget] at hk
    have hin : k ≠ i.instanceId ∧ k ∈ h.plugins.idsOf e := by
      split at hk
      · exact (he.single e).mem_erase_iff.1 hk
      · rename_i hne
        refine ⟨fun hki => ?_, hk⟩
        obtain ⟨x, hx, hxe⟩ := he.listed e k hk
        exact hne (hxe.symm.trans (hi.2 x (hki ▸ hx)))
    obtain ⟨x, hx, hxe⟩ := he.listed e k hin.2
    refine ⟨x, ?_, hxe⟩
    show (h.plugins.forget i).instances.get? k = some x
    rw [PluginRegistry.get?_forget, if_neg hin.1]
    exact hx
  · intro e
    show ((h.plugins.forget i).idsOf e).Nodup
    rw [PluginRegistry.idsOf_forget]
    split
    · exact (he.single e).erase _
    · exact he.single e
  · exact fun k x identity hx => he.dated k x identity (hold k x hx)
  · intro j hj
    exact ⟨(he.mounted j hj).1, fun x hx => (he.mounted j hj).2 x (hold _ x hx)⟩

theorem adopt (he : h.Enrolled) (entry : PluginEntry)
    (resolved : Dict String CapabilityRegistration) :
    (h.adopt (h.newInstance entry resolved)).Enrolled := by
  have hle : h.drawn ≤ (h.adopt (h.newInstance entry resolved)).drawn := by
    show h.drawn ≤ h.drawn + 2
    omega
  have hnew : ∀ k, h.Issued k → k ≠ (h.newInstance entry resolved).instanceId := by
    rintro k ⟨n, hn, rfl⟩ hk
    have := freshId_injective "plugin" hk
    omega
  have hget : ∀ k, h.Issued k →
      (h.adopt (h.newInstance entry resolved)).plugins.instances.get? k =
        h.plugins.instances.get? k := fun k hk =>
    (PluginRegistry.get?_adopt _ _ k).trans (if_neg (hnew k hk))
  have hold : ∀ k x, (h.adopt (h.newInstance entry resolved)).plugins.instances.get? k = some x →
      (k = (h.newInstance entry resolved).instanceId ∧ x = h.newInstance entry resolved) ∨
        h.plugins.instances.get? k = some x := by
    intro k x hx
    replace hx := (PluginRegistry.get?_adopt _ _ k).symm.trans hx
    split at hx
    · rename_i hk
      exact Or.inl ⟨hk, (Option.some.inj hx).symm⟩
    · exact Or.inr hx
  constructor
  · exact he.keyed.adopt _
  · intro k x hx
    rcases hold k x hx with ⟨rfl, -⟩ | hx
    · exact ⟨h.drawn, Nat.lt_add_of_pos_right Nat.two_pos, rfl⟩
    · exact (he.issued k x hx).mono hle
  · intro e k hk
    change k ∈ (h.plugins.adopt (h.newInstance entry resolved)).idsOf e at hk
    rw [PluginRegistry.idsOf_adopt] at hk
    have hcase : k ∈ h.plugins.idsOf e ∨ (e = entry.entryId ∧
        k = (h.newInstance entry resolved).instanceId) := by
      split at hk
      · rename_i hee
        exact (List.mem_append.1 hk).imp_right fun hk => ⟨hee, List.mem_singleton.1 hk⟩
      · exact Or.inl hk
    rcases hcase with hk | ⟨hee, rfl⟩
    · obtain ⟨x, hx, hxe⟩ := he.listed e k hk
      exact ⟨x, (hget k (he.issued k x hx)).trans hx, hxe⟩
    · exact ⟨_, (PluginRegistry.get?_adopt _ _ _).trans (if_pos rfl), hee.symm⟩
  · intro e
    show ((h.plugins.adopt (h.newInstance entry resolved)).idsOf e).Nodup
    rw [PluginRegistry.idsOf_adopt]
    split
    · refine (he.single e).append (List.nodup_singleton _) ?_
      intro k hk hk'
      obtain ⟨x, hx, -⟩ := he.listed e k hk
      exact hnew k (he.issued k x hx) (List.mem_singleton.1 hk')
    · exact he.single e
  · intro k x identity hx hxi
    rcases hold k x hx with ⟨-, rfl⟩ | hx
    · cases hxi
    · exact (he.dated k x identity hx hxi).mono hle
  · intro j hj
    have hk := he.mounted j hj
    refine ⟨hk.1.mono hle, fun x hx => ?_⟩
    rw [hget _ hk.1] at hx
    exact hk.2 x hx

theorem refresh (he : h.Enrolled) : h.refreshReferences.Enrolled := by
  have hget := h.get?_refreshReferences
  have hold : ∀ k x, h.refreshReferences.plugins.instances.get? k = some x →
      ∃ y, h.plugins.instances.get? k = some y ∧ x = { y with generationRefs := h.references y } := by
    intro k x hx
    rw [hget k] at hx
    obtain ⟨y, hy, hxy⟩ := Option.map_eq_some_iff.1 hx
    exact ⟨y, hy, hxy.symm⟩
  constructor
  · intro k x hx
    obtain ⟨y, hy, rfl⟩ := hold k x hx
    exact he.keyed k y hy
  · intro k x hx
    obtain ⟨y, hy, -⟩ := hold k x hx
    exact he.issued k y hy
  · intro e k hk
    obtain ⟨y, hy, hye⟩ := he.listed e k hk
    exact ⟨_, (hget k).trans (congrArg _ hy), hye⟩
  · exact he.single
  · intro k x identity hx hxi
    obtain ⟨y, hy, rfl⟩ := hold k x hx
    exact he.dated k y identity hy hxi
  · intro j hj
    refine ⟨(he.mounted j hj).1, fun x hx => ?_⟩
    obtain ⟨y, hy, rfl⟩ := hold _ x hx
    exact (he.mounted j hj).2 y hy

/-- the bindings of a new identity name the newest instances of their providers -/
theorem semanticIdentity (he : h.Enrolled) {entry : PluginEntry} {plan : ResolutionPlan}
    {identities : Dict String SemanticIdentity} {identity : SemanticIdentity}
    (hid : h.semanticIdentity entry plan identities = .ok identity) : h.Dates identity := by
  obtain ⟨-, rfl⟩ := buildSemanticIdentity_ok.1 hid
  intro b hb id hbid
  obtain ⟨r, -, rfl⟩ := List.mem_map.1 (mem_sortedBy.1 hb)
  obtain ⟨provider, -, hprovider⟩ := Option.bind_eq_some_iff.1 hbid
  obtain ⟨i, hi, rfl⟩ := Option.map_eq_some_iff.1 hprovider
  exact (he.instance? hi).2.2

end Enrolled

/-- the register, when nobody composes -/
def Listed (h : Harness) : Prop := Enrolled { h with work := {} }

theorem Listed.working (he : h.Listed) (work : Work) (hw : work.mounted = []) :
    Enrolled { h with work := work } :=
  { he with
    mounted := by
      intro i hi
      change i ∈ work.mounted at hi
      rw [hw] at hi
      cases hi }

theorem Enrolled.idle (he : h.Enrolled) : h.Listed :=
  { he with mounted := fun _ hi => absurd hi List.not_mem_nil }

theorem Listed.of_same (he : h.Listed) (a : SameHosts h h') : h'.Listed :=
  Enrolled.of_same he ⟨a.instances, a.byEntry, rfl, a.drawn⟩

end Harness

/-! ## the jobs -/

/-- others leave the instances alone -/
def hostRules : Rules Harness Operation Answer where
  interferes := SameHosts
  admits := fun _ _ => True
  holds := fun _ => True

theorem host_stable {J : Harness → Prop} (hJ : ∀ {h h'}, J h → SameHosts h h' → J h') :
    Stable hostRules J where
  holds := fun _ => trivial
  interferes := fun hj hs _ => hJ hj hs
  learn := fun _ hj => hJ hj ⟨rfl, rfl, rfl, le_refl _⟩
  note := fun _ hj => hJ hj ⟨rfl, rfl, rfl, le_refl _⟩

theorem Harness.afterSetup_sameHosts (h : Harness) (i : PluginInstance) (a : SetupAnswer) :
    SameHosts h (h.afterSetup i a) := by
  obtain ⟨caps, tools, hooks, n, d, r, hd, heq⟩ := h.afterSetup_eq i a
  rw [heq]
  exact ⟨rfl, rfl, rfl, hd⟩

/-- the register, and an instance it knows -/
def EnrolledWith (i : PluginInstance) (h : Harness) : Prop := h.Enrolled ∧ h.Knows i

theorem EnrolledWith.of_same {i : PluginInstance} (he : EnrolledWith i h) (a : SameHosts h h') :
    EnrolledWith i h' := ⟨he.1.of_same a, he.2.of_same a⟩

theorem EnrolledWith.setState {i : PluginInstance} (he : EnrolledWith i h) (state : PluginState) :
    EnrolledWith i (h.updateInstance i fun x => { x with state := state }) := by
  refine ⟨he.1.setState i state, he.2.1, fun x hx => ?_⟩
  replace hx := (PluginRegistry.get?_update _ _ _ _).symm.trans hx
  rw [if_pos rfl] at hx
  obtain ⟨y, hy, rfl⟩ := Option.map_eq_some_iff.1 hx
  exact he.2.2 y hy

theorem enrolled_disposable (l : List PluginInstance) {i : PluginInstance} (hi : i ∈ l) :
    Disposable hostRules i fun h => h.Enrolled ∧ ∀ j ∈ l, h.Knows j where
  toStable := host_stable fun he a => ⟨he.1.of_same a, fun j hj => (he.2 j hj).of_same a⟩
  unload := by
    rintro h ⟨he, hk⟩
    refine ⟨he.setState i .unloading, fun j hj => ⟨(hk j hj).1, fun x hx => ?_⟩⟩
    replace hx := (PluginRegistry.get?_update _ _ _ _).symm.trans hx
    split at hx
    · rename_i hji
      obtain ⟨y, hy, rfl⟩ := Option.map_eq_some_iff.1 hx
      exact (hk j hj).2 y (hji ▸ hy)
    · exact (hk j hj).2 x hx
  close := fun he => ⟨he.1.of_same ⟨rfl, rfl, rfl, le_refl _⟩,
    fun j hj => (he.2 j hj).of_same ⟨rfl, rfl, rfl, le_refl _⟩⟩
  forget := by
    rintro h ⟨he, hk⟩
    refine ⟨he.forget (hk i hi), fun j hj => ⟨(hk j hj).1, fun x hx => ?_⟩⟩
    change (h.plugins.forget i).instances.get? j.instanceId = some x at hx
    rw [PluginRegistry.get?_forget] at hx
    split at hx
    · cases hx
    · exact (hk j hj).2 x hx

theorem disposeInstance_enrolled {i : PluginInstance} (he : EnrolledWith i h) :
    (disposeInstance i).wp hostRules (fun _ _ h' => h'.Enrolled) h := by
  have hone : h.Enrolled ∧ ∀ j ∈ [i], h.Knows j :=
    ⟨he.1, fun j hj => (List.mem_singleton.1 hj) ▸ he.2⟩
  exact Prog.wp_mono (disposeInstance_inv (enrolled_disposable [i] (List.mem_singleton_self i)) hone)
    fun _ _ _ h => h.1

theorem disposeAll_enrolled (l : List PluginInstance) (he : h.Enrolled) (hk : ∀ i ∈ l, h.Knows i) :
    (l.forM disposeInstance).wp hostRules (fun _ _ h' => h'.Enrolled) h := by
  let Known (left : List PluginInstance) (h' : Harness) : Prop :=
    h'.Enrolled ∧ ∀ j ∈ left, h'.Knows j
  have hloop : (l.forM disposeInstance).wp hostRules
      (Prog.ends (fun _ => Known []) Harness.Enrolled) h := by
    refine Prog.wp_forM_ends (A := Known) (fun i left h₁ hl => ?_) ⟨he, hk⟩
    refine Prog.wp_mono (disposeInstance_inv
      (enrolled_disposable (i :: left) List.mem_cons_self) hl) fun _ r h₂ hr => ?_
    cases r with
    | ok _ => exact ⟨hr.1, fun j hj => hr.2 j (List.mem_cons_of_mem _ hj)⟩
    | error e => exact hr.1
  refine Prog.wp_mono hloop fun _ r _ hr => ?_
  cases r with
  | ok _ => exact hr.1
  | error e => exact hr

/-- until it has its identity, which stays dated whatever is drawn -/
theorem enrolled_mountable (entry : PluginEntry) (identity : SemanticIdentity) :
    Mountable hostRules entry (fun h => h.Enrolled ∧ h.Dates identity)
      (fun i h => EnrolledWith i h ∧ h.Dates identity) (fun _ _ => True) where
  toStable := host_stable fun he a => ⟨he.1.of_same a, he.2.mono a.drawn⟩
  adopt := by
    rintro h plan ⟨he, hd⟩
    refine ⟨⟨he.adopt entry _, ⟨h.drawn, Nat.lt_add_of_pos_right Nat.two_pos, rfl⟩,
      fun x hx => ?_⟩, hd.mono (Nat.le_add_right _ _)⟩
    replace hx := (PluginRegistry.get?_adopt _ _ _).symm.trans hx
    rw [if_pos rfl] at hx
    obtain rfl := Option.some.inj hx
    rfl
  loading := fun i => host_stable fun he a => ⟨he.1.of_same a, he.2.mono a.drawn⟩
  setup := fun {i h} answer he =>
    have a := h.afterSetup_sameHosts i answer
    ⟨he.1.of_same a, he.2.mono a.drawn⟩
  close := fun he => ⟨he.1.of_same ⟨rfl, rfl, rfl, le_refl _⟩, he.2⟩
  fail := fun he => ⟨he.1.setState .failed, he.2⟩
  activate := fun _ _ => trivial
  mounted := fun _ => host_stable fun _ _ => trivial
  record := fun _ => trivial

theorem mountEntry_enrolled (plan : ResolutionPlan) (entry : PluginEntry)
    (identity : SemanticIdentity) (existing : Option PluginInstance) (he : h.Enrolled)
    (hd : h.Dates identity) : (mountEntry plan entry identity existing).wp hostRules
      (fun _ _ h' => h'.Enrolled) h := by
  have hmt := enrolled_mountable entry identity
  refine Prog.wp_bind_of (observed_inv hmt.toStable _ ⟨he, hd⟩) (fun _ _ h₁ hb₁ => ?_)
    (fun _ _ _ hb => hb.1)
  show (mount entry _ _ >>= _ : Task PluginInstance).wp hostRules _ h₁
  refine Prog.wp_bind_of (mount_inv hmt plan _ hb₁) (fun _ i' h₂ hi => ?_) (fun _ _ h₂ hr => ?_)
  · obtain ⟨i, h₃, ⟨hK, hd₃⟩, rfl, rfl⟩ := hi
    have hact := hK.setState .active
    have hidentified : EnrolledWith { i with state := .active, semanticIdentity := some identity }
        ((h₃.updateInstance i fun x => { x with state := .active }).updateInstance i
          fun x => { x with semanticIdentity := some identity }) := by
      refine ⟨hact.1.update (fun _ => rfl) (fun _ => rfl) fun x known hx => Or.inr ?_,
        hact.2.1, fun x hx => ?_⟩
      · obtain rfl := Option.some.inj hx
        exact hd₃
      · replace hx := (PluginRegistry.get?_update _ _ _ _).symm.trans hx
        rw [if_pos rfl] at hx
        obtain ⟨y, hy, rfl⟩ := Option.map_eq_some_iff.1 hx
        exact hact.2.2 y hy
    show (observed _ >>= _ : Task PluginInstance).wp hostRules _
      ((h₃.updateInstance i fun x => { x with state := .active }).updateInstance i
        fun x => { x with semanticIdentity := some identity })
    have hst : Stable hostRules
        (EnrolledWith { i with state := .active, semanticIdentity := some identity }) :=
      host_stable fun he a => he.of_same a
    refine Prog.wp_bind_of (observed_inv hst _ hidentified) (fun _ _ h₄ he₄ => ?_)
      (fun _ _ _ he' => he'.1)
    refine { he₄.1 with mounted := fun j hj => ?_ }
    rcases List.mem_append.1 hj with hj | hj
    · exact he₄.1.mounted j hj
    · rw [List.mem_singleton.1 hj]
      exact he₄.2
  · rcases hr with hJ | ⟨i, hK⟩
    · exact hJ.1
    · exact hK.1.1

theorem materializeEntry_enrolled (plan : ResolutionPlan) (p : Progress) (entryId : String)
    (he : h.Enrolled) : (materializeEntry plan p entryId).wp hostRules
      (fun _ _ h' => h'.Enrolled) h := by
  have hmount : ∀ entry identity existing h₁, Harness.Enrolled h₁ → h₁.Dates identity → (do
      let i ← mountEntry plan entry identity existing
      return ⟨p.ordered ++ [i], p.identities.set entryId identity⟩ : Task Progress).wp hostRules
      (fun _ _ h' => h'.Enrolled) h₁ := by
    intro entry identity existing h₁ he₁ hd₁
    exact Prog.wp_bind_of (mountEntry_enrolled plan entry identity existing he₁ hd₁)
      (fun _ _ _ he' => he') (fun _ _ _ he' => he')
  unfold materializeEntry
  rw [Prog.wp_gets_bind]
  split
  · exact he
  · rename_i entry _
    refine Prog.wp_ofExcept_bind (fun identity hid => ?_) fun _ _ => he
    have hd := he.semanticIdentity hid
    split
    · exact he.of_same ⟨rfl, rfl, rfl, le_refl _⟩
    · simp only
      split
      · rename_i failed hf
        obtain ⟨hi, -⟩ := Option.filter_eq_some_iff.1 hf
        have hone : EnrolledWith failed h := by
          obtain ⟨-, hget, hiss⟩ := he.instance? hi
          refine ⟨he, hiss, fun x hx => ?_⟩
          obtain rfl := Option.some.inj (hget.symm.trans hx)
          rfl
        have hdated : Stable hostRules fun h' => h'.Dates identity :=
          host_stable fun hb a => hb.mono a.drawn
        have hdispose : (disposeInstance failed).wp hostRules
            (fun _ _ h' => h'.Enrolled ∧ h'.Dates identity) h := by
          refine Prog.wp_and (disposeInstance_enrolled hone) (disposeInstance_inv ?_ hd)
          exact { hdated with unload := fun hb => hb, close := fun hb => hb, forget := fun hb => hb }
        exact Prog.wp_bind_of hdispose (fun _ _ h' hb => hmount _ _ _ h' hb.1 hb.2)
          (fun _ _ _ hb => hb.1)
      · exact hmount _ _ _ h he hd

theorem materialize_enrolled (plan : ResolutionPlan) (he : h.Enrolled) :
    (materialize plan).wp hostRules (fun _ _ h' => h'.Enrolled) h := by
  have hloop : (plan.activationOrder.foldlM (materializeEntry plan) {}).wp hostRules
      (Prog.ends (fun _ => Harness.Enrolled) Harness.Enrolled) h := by
    refine Prog.wp_foldlM_ends (A := fun _ => Harness.Enrolled) (fun p entryId h he => ?_) he
    refine Prog.wp_mono (materializeEntry_enrolled plan p entryId he) fun _ r _ he' => ?_
    cases r <;> exact he'
  exact Prog.wp_bind_of hloop (fun _ _ _ he' => he') (fun _ _ _ he' => he')

theorem rollback_enrolled (e : Err) (he : h.Enrolled) :
    (rollback e).wp hostRules (fun _ _ h' => h'.Enrolled) h := by
  unfold rollback
  rw [Prog.wp_gets_bind]
  refine Prog.wp_bind_of (P := fun _ _ h' => h'.Enrolled)
    (disposeAll_enrolled _ he fun i hi => he.mounted i (List.mem_reverse.1 hi))
    (fun _ _ h' he' => ?_) (fun _ _ _ he' => he')
  split
  · exact he'.of_same ⟨rfl, rfl, rfl, le_refl _⟩
  · exact he'.of_same ⟨rfl, rfl, rfl, le_refl _⟩

theorem stage_enrolled (he : h.Listed) :
    stage.wp hostRules (Prog.ends (fun _ => Harness.Enrolled) Harness.Listed) h := by
  refine Prog.wp_bind_of (P := fun _ _ h' => h'.Listed) ?_ (fun _ _ h₁ he₁ => ?_)
    (fun _ _ _ he' => he')
  · unfold requireComposable
    rw [Prog.wp_gets_bind]
    split
    · exact he
    · exact he
  · rw [Prog.wp_gets_bind]
    refine Prog.wp_ofExcept_bind (s := h₁) (fun plan _ => ?_) (fun _ _ => he₁)
    refine Prog.wp_ofExcept_bind (s := h₁) (fun _ _ => ?_) (fun _ _ => he₁)
    rw [Prog.wp_modify_bind]
    have hback : ∀ e h₂, Harness.Enrolled h₂ → (rollback e).wp hostRules
        (Prog.ends (fun _ => Harness.Enrolled) Harness.Listed) h₂ := by
      intro e h₂ he₂
      refine Prog.wp_mono (rollback_enrolled e he₂) fun _ r _ he₃ => ?_
      cases r with
      | ok c => exact he₃
      | error e => exact he₃.idle
    refine Prog.wp_tryCatch.2 (Prog.wp_bind_of
      (materialize_enrolled plan (he₁.working { planned := some h₁.desired } rfl))
      (fun _ instances h₂ he₂ => ?_) (fun _ e h₂ he₂ => hback e h₂ he₂))
    refine Prog.wp_ofExcept_bind (s := h₂) (fun _ _ => ?_) (fun e _ => hback e h₂ he₂)
    exact Prog.wp_ofExcept_bind (s := h₂) (fun _ _ => he₂) (fun e _ => hback e h₂ he₂)

theorem reclaim_enrolled (he : h.Enrolled) :
    reclaim.wp hostRules (fun _ _ h' => h'.Enrolled) h := by
  have hretire : retireIdle.wp hostRules (fun _ _ h' => h'.Enrolled) h :=
    retireIdle_inv (J := Harness.Enrolled) (fun _ he => he.of_same ⟨rfl, rfl, rfl, le_refl _⟩) he
  refine Prog.wp_bind_of hretire (fun _ _ h₁ he₁ => ?_) (fun _ _ _ he' => he')
  rw [Prog.wp_modify_bind, Prog.wp_gets_bind]
  refine Prog.wp_bind_of (disposeAll_enrolled _ he₁.refresh fun i hi => ?_)
    (fun _ _ _ he' => he'.refresh) (fun _ _ _ he' => he')
  obtain ⟨id, -, hfind⟩ := List.mem_filterMap.1 hi
  have hin := (List.mem_filter.1 (List.mem_of_find?_eq_some hfind)).1
  have hget := he₁.refresh.keyed.of_mem hin
  refine ⟨he₁.refresh.issued _ i hget, fun x hx => ?_⟩
  obtain rfl := Option.some.inj (hget.symm.trans hx)
  rfl

theorem enact_enrolled (c : Candidate) (he : h.Enrolled) :
    (enact c).wp hostRules (fun _ _ h' => h'.Enrolled) h := by
  have hst : Stable hostRules Harness.Enrolled := host_stable fun he a => he.of_same a
  unfold enact
  cases c.reuse with
  | some g => exact he.of_same ⟨rfl, rfl, rfl, le_refl _⟩
  | none =>
    show (publishCandidate c).wp hostRules _ h
    unfold publishCandidate
    rw [Prog.wp_gets_bind]
    refine Prog.wp_ofExcept_bind (fun p _ => ?_) fun _ _ => he
    rw [Prog.wp_modify_bind]
    exact Prog.wp_bind_of (announce_inv hst _ _ (he.of_same ⟨rfl, rfl, rfl, le_refl _⟩))
      (fun _ _ _ he' => he') (fun _ _ _ he' => he')

/-- **Every job keeps the register**, whether it succeeds or raises. -/
theorem job_enrolled (j : Job) (he : h.Listed) :
    j.program.wp hostRules (fun _ _ h' => h'.Listed) h := by
  cases j with
  | reconcile =>
    refine Prog.wp_bind_of (P := fun _ _ h' => h'.Listed) ?_ (fun _ _ _ he' => he')
      (fun _ _ _ he' => he')
    refine Prog.wp_bind_of (stage_enrolled he) (fun _ c h₁ he₁ => ?_) (fun _ _ _ he' => he')
    refine Prog.wp_bind_of (enact_enrolled c he₁) (fun _ g h₂ he₂ => ?_)
      (fun _ _ _ he' => he'.idle)
    refine Prog.wp_bind_of (reclaim_enrolled he₂) (fun _ _ h₃ he₃ => ?_) (fun _ _ _ he' => he'.idle)
    exact he₃.idle.of_same ⟨rfl, rfl, rfl, le_refl _⟩
  | reclaimAfterDrain =>
    show reclaimAfterDrain.wp hostRules _ h
    unfold reclaimAfterDrain
    rw [Prog.wp_gets_bind]
    split
    · exact he
    · rw [Prog.wp_modify_bind]
      exact Prog.wp_bind_of (reclaim_enrolled he)
        (fun _ _ h₁ he₁ => he₁.idle.of_same ⟨rfl, rfl, rfl, le_refl _⟩)
        (fun _ _ _ he' => he'.idle)

theorem Fresh.listed (hf : Fresh h) : h.Listed where
  keyed := hf.safe.keyed
  issued := hf.safe.drawn
  listed := by
    intro e k hk
    change k ∈ h.plugins.idsOf e at hk
    rw [hf.plugins] at hk
    cases hk
  single := by
    intro e
    show (h.plugins.idsOf e).Nodup
    rw [hf.plugins]
    exact List.nodup_nil
  dated := by
    intro k i identity hi
    change h.plugins.instances.get? k = some i at hi
    rw [hf.plugins] at hi
    cases hi
  mounted := fun _ hi => absurd hi List.not_mem_nil

/-- **The register is in order whenever nobody composes**, whatever the operations of the control
plane were, and whether they succeeded or raised. -/
theorem ControlRun.listed {h₀ : Harness} {history : List (Event Job Err × HarnessConfig)}
    (hrun : ControlRun h₀ history ⟨h, none⟩) : h.Listed := by
  have hm : Monitored hostRules ControlAct Job.program Harness.Listed (fun _ _ => Harness.Listed) :=
    { refl := SameHosts.refl
      trans := fun _ _ _ a _ hact => a.trans hact.sameHosts
      admits := fun _ _ _ => trivial
      idle := fun _ _ he hact => he.of_same hact.sameHosts
      held := fun _ _ _ _ => trivial
      job := fun j _ he => job_enrolled j he }
  exact hm.run hrun.1.toFresh.listed hrun.2 fun _ _ _ _ he => he

end

section
open scoped Plain

theorem play_control (moves : List Move) (hidle : (play moves).config.running.isNone = true) :
    ControlRun {} (play moves).history ⟨(play moves).config.state, none⟩ := by
  have hconfig : (play moves).config = ⟨(play moves).config.state, none⟩ := by
    rw [← Option.isNone_iff_eq_none.1 hidle]
  have hrun := (play_run moves).2.mono fun _ _ ha => ControlAct.act ha
  rw [hconfig] at hrun
  exact ⟨pristine_new, hrun⟩

end

end Chassis
