import Chassis.Harness.Pending
import Chassis.Harness.Revisions

/-!
# What a generation shows of the desired scopes

* `revisionOf`           the agent revision that the metadata of a scope name;
* `ScopeTree.Depicts`    every revision a published tree names is named by a desired scope;
* `Depicted`             the current generation depicts the scopes it was planned from, and, if
                         nothing is pending, these are the present ones;
* `Attentive`            what the operations owe to a reconcile that waits;
* `depicted_run`         **what is depicted in every configuration of a run** in which each reconcile
                         that succeeds ends with the scopes it was planned from.
-/

set_option linter.unusedSectionVars false

namespace Chassis
open Py Coop

/-! ## revisions in metadata -/

/-- the agent revision that metadata name; only a string is one -/
def revisionOf (metadata : Dict String Value) : Option String :=
  match metadata.get? agentRevisionMetadataKey with
  | some (.str revision) => some revision
  | _ => none

theorem revisionOf_eq_some {metadata : Dict String Value} {revision : String} :
    revisionOf metadata = some revision ↔
      metadata.get? agentRevisionMetadataKey = some (.str revision) := by
  unfold revisionOf
  split
  · rename_i r hr
    rw [hr]
    exact ⟨fun h => by cases h; rfl, fun h => by cases h; rfl⟩
  · rename_i hother
    exact ⟨fun h => (by cases h), fun h => absurd h (hother revision)⟩

theorem same_get? {a b : Dict String Value} (h : Value.same (.dict a.items) (.dict b.items) = true)
    {k t : String} (hb : b.get? k = some (.str t)) : a.get? k = some (.str t) := by
  unfold Value.same at h
  rw [Bool.and_eq_true, decide_eq_true_iff] at h
  obtain ⟨hlen, hitems⟩ := h
  have hall : ∀ l : List (String × Value), sameItems l b.items = true → ∀ p ∈ l,
      ∃ y, b.get? p.1 = some y ∧ Value.same p.2 y = true := by
    intro l
    induction l with
    | nil => exact fun _ p hp => nomatch hp
    | cons p l ih =>
      intro hl q hq
      rw [sameItems, Bool.and_eq_true, List.any_eq_true] at hl
      obtain ⟨⟨⟨k', y⟩, hy, hmatch⟩, hrest⟩ := hl
      rcases List.mem_cons.1 hq with rfl | hq
      · rw [Bool.and_eq_true, decide_eq_true_iff] at hmatch
        obtain ⟨rfl, hsame⟩ := hmatch
        exact ⟨y, Dict.mem_items.1 hy, hsame⟩
      · exact ih hrest q hq
  have hsub : a.keys ⊆ b.keys := by
    intro k' hk'
    obtain ⟨x, hx⟩ := Dict.mem_keys.1 hk'
    obtain ⟨y, hy, -⟩ := hall a.items hitems (k', x) (Dict.mem_items.2 hx)
    exact Dict.mem_keys.2 ⟨y, hy⟩
  have hperm : a.keys.Perm b.keys := by
    refine (List.subperm_of_subset a.keys_nodup hsub).perm_of_length_le ?_
    unfold Dict.keys
    rw [List.length_map, List.length_map, hlen]
  obtain ⟨x, hx⟩ := Dict.mem_keys.1 (hperm.mem_iff.2 (Dict.mem_keys.2 ⟨_, hb⟩))
  obtain ⟨y, hy, hsame⟩ := hall a.items hitems (k, x) (Dict.mem_items.2 hx)
  rw [hb] at hy
  cases hy
  rw [hx]
  cases x with
  | str s =>
    unfold Value.same at hsame
    rw [of_decide_eq_true hsame]
  | none | bool _ | int _ | float _ | list _ | dict _ | object _ _ =>
    simp [Value.same, Value.number?] at hsame

/-! ## trees -/

/-- every revision that the tree names is named by a desired scope of that path -/
def ScopeTree.Depicts (t : ScopeTree) (scopes : Dict String CompositionScope) : Prop :=
  ∀ s ∈ t.scopes, ∀ revision, revisionOf s.metadata = some revision →
    ∃ d ∈ scopes.values, d.path = s.path ∧ revisionOf d.metadata = some revision

theorem sameMetadata_mem {l l' : List ResolvedScope} (h : ScopeTree.sameMetadata l l' = true)
    {s' : ResolvedScope} (hs' : s' ∈ l') : ∃ s ∈ l, s.path = s'.path ∧
      Value.same (.dict s.metadata.items) (.dict s'.metadata.items) = true := by
  induction l generalizing l' with
  | nil =>
    cases l' with
    | nil => cases hs'
    | cons _ _ => cases h
  | cons s l ih =>
    cases l' with
    | nil => cases hs'
    | cons t l' =>
      rw [ScopeTree.sameMetadata, Bool.and_eq_true, Bool.and_eq_true, decide_eq_true_iff] at h
      rcases List.mem_cons.1 hs' with rfl | hin
      · exact ⟨s, List.mem_cons_self, h.1⟩
      · obtain ⟨s₀, hs₀, hsame⟩ := ih h.2 hin
        exact ⟨s₀, List.mem_cons_of_mem _ hs₀, hsame⟩

theorem ScopeTree.Depicts.of_same {t t' : ScopeTree} {scopes : Dict String CompositionScope}
    (hd : t.Depicts scopes) (hsame : t.sameObservable t' = true) : t'.Depicts scopes := by
  intro s' hs' revision hrev
  unfold ScopeTree.sameObservable at hsame
  rw [Bool.and_eq_true] at hsame
  obtain ⟨s, hs, hpath, hmeta⟩ := sameMetadata_mem hsame.2 hs'
  rw [← hpath]
  exact hd s hs revision (revisionOf_eq_some.2 (same_get? hmeta (revisionOf_eq_some.1 hrev)))

section
variable [Packaging] [Platform]

theorem resolveScope_ok {instances : List PluginInstance} {plans : List ScopePlan}
    {registrations : List CapabilityRegistration} {tools : List RegisteredTool} {s : ScopePlan}
    {r : ResolvedScope} (h : resolveScope instances plans registrations tools s = .ok r) :
    r.path = s.path ∧ r.metadata = s.metadata := by
  obtain ⟨chain, -, h⟩ := bind_ok.1 h
  cases h
  exact ⟨rfl, rfl⟩

/-- **The tree of a plan depicts the scopes it was computed from.** -/
theorem buildScopeTree_depicts {candidates : List PluginCandidate} {prefer : Dict String String}
    {t : CompositionTree} {plan : ResolutionPlan}
    (hplan : resolve candidates prefer (some t.specs) = .ok plan) {instances : List PluginInstance}
    {registrations : List CapabilityRegistration} {tools : List RegisteredTool} {tree : ScopeTree}
    (htree : buildScopeTree instances plan registrations tools = .ok tree) :
    tree.Depicts t.scopes := by
  intro r hr revision hrev
  unfold buildScopeTree at htree
  split at htree
  · cases htree
    obtain rfl := List.mem_singleton.1 hr
    cases hrev
  · obtain ⟨resolved, hmap, htree⟩ := bind_ok.1 htree
    cases htree
    obtain ⟨s, hs, hres⟩ := mapM_ok_mem hmap hr
    obtain ⟨hpath, hmeta⟩ := resolveScope_ok hres
    obtain ⟨spec, hspec, hspath, hsmeta⟩ := resolve_scopes hplan hs
    obtain ⟨d, hd, rfl⟩ := List.mem_map.1 hspec
    refine ⟨d, CompositionTree.mem_scopes_of_ordered hd, ?_, ?_⟩
    · exact hspath.trans hpath.symm
    · rw [← hrev, hmeta, ← hsmeta]
      rfl

end

section
variable [Packaging] [Platform]

/-! ## the current generation -/

/-- the current generation depicts the desired scopes it was planned from -/
def Harness.Depicted (h : Harness) : Prop :=
  ∀ g ∈ h.generations.current, ∃ d, h.origin = some d ∧ g.scopes.Depicts d.scopes

/-- the present scopes are those the current generation was planned from -/
def Harness.ScopesApplied (h : Harness) : Prop :=
  h.generations.current.isSome → h.origin.map Desired.scopes = some h.composition.scopes

/-- what holds whenever a task other than the reconcile can look -/
structure Depicting (h : Harness) : Prop where
  orderly : h.Orderly
  depicted : h.Depicted
  applied : h.dirty = false → h.ScopesApplied

/-- What the operations owe to a reconcile that waits: they mark what they change of the scopes, and
publish nothing. -/
structure Attentive (h h' : Harness) : Prop where
  clean : h'.dirty = false → h.dirty = false ∧ h'.composition = h.composition
  origin : h'.origin = h.origin
  planned : h'.work.planned = h.work.planned
  scopes : h'.generations.current.map RuntimeGeneration.scopes =
    h.generations.current.map RuntimeGeneration.scopes

namespace Attentive

theorem refl (h : Harness) : Attentive h h := ⟨fun hclean => ⟨hclean, rfl⟩, rfl, rfl, rfl⟩

theorem trans {h h' h'' : Harness} (a : Attentive h h') (b : Attentive h' h'') :
    Attentive h h'' where
  clean := by
    intro hclean
    obtain ⟨hclean', hb⟩ := b.clean hclean
    obtain ⟨hclean'', ha⟩ := a.clean hclean'
    exact ⟨hclean'', hb.trans ha⟩
  origin := b.origin.trans a.origin
  planned := b.planned.trans a.planned
  scopes := b.scopes.trans a.scopes

variable {h h' : Harness} (a : Attentive h h')
include a

theorem published : h'.generations.current.isSome = h.generations.current.isSome := by
  have hscopes := congrArg Option.isSome a.scopes
  rw [Option.isSome_map, Option.isSome_map] at hscopes
  exact hscopes

theorem depicted (hd : h.Depicted) : h'.Depicted := by
  intro g' hg'
  have hscopes := a.scopes
  rw [show h'.generations.current = some g' from hg', Option.map_some] at hscopes
  obtain ⟨g, hg, heq⟩ := Option.map_eq_some_iff.1 hscopes.symm
  rw [a.origin, ← heq]
  exact hd g hg

theorem depicting (hs : Depicting h) (ho : h'.Orderly) : Depicting h' where
  orderly := ho
  depicted := a.depicted hs.depicted
  applied := by
    intro hclean hpub
    obtain ⟨hd, hc⟩ := a.clean hclean
    rw [a.origin, hc]
    exact hs.applied hd (a.published ▸ hpub)

end Attentive

/-! ## the operations -/

structure Redeclared (h h' : Harness) : Prop where
  rest : h' = { h with
    plugins := h'.plugins, composition := h'.composition, dirty := h'.dirty, agents := h'.agents }
  clean : h'.dirty = false → h.dirty = false ∧ h'.composition = h.composition

namespace Redeclared

theorem attentive {h h' : Harness} (r : Redeclared h h') : Attentive h h' :=
  ⟨r.clean, by rw [r.rest], by rw [r.rest], by rw [r.rest]⟩

theorem trans {h h' h'' : Harness} (a : Redeclared h h') (b : Redeclared h' h'') :
    Redeclared h h'' where
  rest := by rw [b.rest, a.rest]
  clean := by
    intro hclean
    obtain ⟨hclean', hb⟩ := b.clean hclean
    obtain ⟨hclean'', ha⟩ := a.clean hclean'
    exact ⟨hclean'', hb.trans ha⟩

theorem agents (h : Harness) (agents : AgentRegistry) : Redeclared h { h with agents := agents } :=
  ⟨rfl, fun hclean => ⟨hclean, rfl⟩⟩

theorem of_marked {h h' : Harness} (hrest : h' = { h with
    plugins := h'.plugins, composition := h'.composition, dirty := h'.dirty, agents := h'.agents })
    (hmarked : h'.dirty = true) : Redeclared h h' := by
  refine ⟨hrest, fun hclean => ?_⟩
  rw [hmarked] at hclean
  cases hclean

theorem of_reduced {h h' : Harness} {keep : PluginEntry → Prop} (hr : Reduced keep h h') :
    Redeclared h h' where
  rest := by rw [hr.rest]
  clean := by
    intro hclean
    rcases hr.marked with hd | ⟨hd, -⟩
    · rw [hd] at hclean
      cases hclean
    · refine ⟨hd.symm.trans hclean, ?_⟩
      rw [hr.rest]

theorem withdrawn {h h' : Harness} (ho : h.Orderly) {r : AgentRevision} (hw : Withdrawn r h h') :
    Redeclared h h' := by
  cases hw with
  | @scope h₁ _ _ hrem =>
    refine of_marked ?_ hrem.marked
    exact congrArg (fun x : Harness => { x with agents := h₁.agents.disown r.scope }) hrem.rest
  | entries => exact of_reduced (Harness.uninstallAll_reduced ho.housed _)

/-- **A materialization marks what it declares.** -/
theorem materialized {h : Harness} (ho : h.Orderly) {spec : AgentSpec}
    {previous : Option AgentRevision} {r : Except Err AgentRevision × Harness}
    (hm : MaterializeOutcome h spec previous r) : Redeclared h r.2 := by
  have hdropped : ∀ {staged : List Harness.StagedContribution} {h₁ : Harness}
      {undo : List Harness.Undo}, Attempted spec.scopePath h h₁ undo →
      Redeclared h (h₁.dropContributions previous
        (sorted (staged.map Harness.StagedContribution.entryId))) := by
    intro staged h₁ undo ha
    have hred := (Harness.dropContributions_reduced ha.orderly.housed previous staged).1
    exact (of_marked ha.rest ha.marked).trans (of_reduced hred)
  cases hm with
  | refused => exact (Redeclared.agents h h.agents)
  | undone hstage _ ha =>
    have hc := (Harness.stageAgent_ok hstage).canonical
    rcases hget : h.composition.get? spec.scopePath with _ | s
    · have hu := (ha.undeclare_absent ho hc hget h.dirty).1
      exact of_marked hu.rest hu.marked
    · have hu := (ha.undeclare_present ho hget h.dirty).1
      exact of_marked hu.rest hu.marked
  | undigested _ _ ha => exact hdropped ha
  | done _ _ ha => exact hdropped ha

theorem installAgent {h : Harness} (ho : h.Orderly) (spec : AgentSpec) (replace : Bool) :
    Redeclared h (h.installAgent spec replace).2 := by
  have hout := Harness.installAgent_outcome ho spec replace
  have hr : Redeclared h (h.remembering spec) := .agents h _
  have hor := ho.remembering spec
  generalize h.installAgent spec replace = r at hout ⊢
  cases hout with
  | refused => exact hr
  | standing => exact hr
  | failed _ hm => exact hr.trans (materialized hor hm)
  | @installed r h₁ h₂ hm hw =>
    have h₁₂ : Redeclared h₁ h₂ := by
      split at hw
      · exact hw ▸ .agents h₁ _
      · exact withdrawn (hm.orderly hor) hw
    exact ((hr.trans (materialized hor hm)).trans h₁₂).trans (.agents h₂ _)

theorem removeAgent {h : Harness} (ho : h.Orderly) (name : String) :
    Redeclared h (h.removeAgent name).2 := by
  unfold Harness.removeAgent
  split
  · exact .agents h h.agents
  · rename_i history _
    have hretired : Harness.Orderly { h with agents := h.agents.retire name } :=
      ⟨ho.tree, ho.housed, ho.owned, ho.published⟩
    obtain ⟨h', hok, hw, -⟩ := Harness.withdrawOptional_ok hretired
      ((h.agents.activeRevisions.get? name).bind history.get?)
    simp only
    rw [hok]
    refine (Redeclared.agents h (h.agents.retire name)).trans ?_
    split at hw
    · exact hw ▸ .agents _ _
    · exact withdrawn hretired hw

end Redeclared

theorem DesiredAct.attentive {h h' : Harness} (ha : DesiredAct h h') : Attentive h h' := by
  have hs := ha.sameRuntime
  refine ⟨fun hclean => ?_, hs.origin, by rw [hs.work], by rw [hs.generations]⟩
  rcases ha.marks with hd | ⟨hd, hdes⟩
  · rw [hd] at hclean
    cases hclean
  · have hscopes : h'.composition.scopes = h.composition.scopes := congrArg Desired.scopes hdes
    exact ⟨hd.symm.trans hclean, congrArg CompositionTree.mk hscopes⟩

theorem Acts.attentive {h h' : Harness} (ha : Acts h h') : Attentive h h' := by
  cases ha with
  | desired ha => exact ha.attentive
  | lease ha =>
    cases ha with
    | acquire ha =>
      obtain ⟨lease, m, hok, rfl⟩ := Harness.acquire_ok ha
      obtain ⟨g, hg, -, rfl⟩ := GenerationManager.acquireLease_ok hok
      exact ⟨fun hclean => ⟨hclean, rfl⟩, rfl, rfl, by rw [hg]; rfl⟩
    | release n hr =>
      rcases Harness.release_ok hr with rfl | ⟨lease, _, m, -, hok, rfl⟩
      · exact .refl _
      · exact ⟨fun hclean => ⟨hclean, rfl⟩, rfl, rfl, GenerationManager.releaseLease_scopes hok⟩
  | start =>
    unfold Harness.start
    split
    · exact ⟨fun hclean => ⟨hclean, rfl⟩, rfl, rfl, rfl⟩
    · exact .refl h
  | learn secrets => exact ⟨fun hclean => ⟨hclean, rfl⟩, rfl, rfl, rfl⟩

theorem Harness.applyChanges_clean {c : Declarative.HarnessConfig}
    {changes : List Declarative.DesiredStateChange} {h h' : Harness} {undo undo' : List Harness.Undo}
    {e : Option Err} (hc : Harness.applyChanges c changes h undo = (e, h', undo'))
    (hclean : h'.dirty = false) : h.dirty = false := by
  induction changes generalizing h undo with
  | nil =>
    cases hc
    exact hclean
  | cons change rest ih =>
    rw [Harness.applyChanges] at hc
    split at hc
    · split at hc
      · rename_i undone h₁ hone
        have h₁clean := ih hc
        unfold Harness.applyChange at hone
        split at hone
        · cases hone
          rw [Harness.uninstall, Bool.or_eq_false_iff] at h₁clean
          exact h₁clean.1
        · split at hone
          · cases hone
            exact h₁clean
          · obtain ⟨construct, -, hone⟩ := bind_ok.1 (Prod.mk.inj hone).2
            obtain ⟨⟨id, h₂⟩, hi, hone⟩ := bind_ok.1 hone
            cases hone
            obtain ⟨path, plugin, entry, -, -, -, -, hrest⟩ := Harness.installFrom_ok hi
            rw [hrest] at h₁clean
            cases h₁clean
      · cases hc
        exact hclean
    · exact ih hc

theorem Harness.applyConfig_attentive (h : Harness) (c : Declarative.HarnessConfig) :
    Attentive h (h.applyConfig c).2 := by
  unfold Harness.applyConfig
  simp only
  split
  · exact .refl h
  · rename_i changes hstaged
    rcases hrun : Harness.applyChanges c changes h [] with ⟨_ | e, h₁, undo⟩
    · obtain ⟨hsame, -⟩ := Harness.applyChanges_undoes (.refl h) (.nil h) hrun
      refine ⟨fun hclean => ?_, ?_, ?_, ?_⟩
      · have hclean' := (Bool.or_eq_false_iff.1 hclean).1
        refine ⟨Harness.applyChanges_clean hrun hclean', ?_⟩
        show h₁.composition = h.composition
        rw [hsame.rest]
      · show h₁.origin = h.origin
        rw [hsame.rest]
      · show h₁.work.planned = h.work.planned
        rw [hsame.rest]
      · show h₁.generations.current.map _ = h.generations.current.map _
        rw [hsame.rest]
    · obtain ⟨hsame, -⟩ := Harness.applyChanges_undoes (.refl h) (.nil h) hrun
      simp only
      rw [Harness.foldl_restoreEntry, hsame.rest]
      exact ⟨fun hclean => ⟨hclean, rfl⟩, rfl, rfl, rfl⟩

/-- **Every operation is attentive**, whether it succeeds or raises. -/
theorem ControlAct.attentive {h h' : Harness} (ho : h.Orderly) (ha : ControlAct h h') :
    Attentive h h' := by
  cases ha with
  | act ha => exact ha.attentive
  | installFrom source entryId config replace scope hi =>
    obtain ⟨path, plugin, entry, -, -, -, -, hrest⟩ := Harness.installFrom_ok hi
    rw [hrest]
    exact ⟨fun hclean => (nomatch hclean), rfl, rfl, rfl⟩
  | registerPluginType name construct => exact ⟨fun hclean => ⟨hclean, rfl⟩, rfl, rfl, rfl⟩
  | applyConfig c => exact h.applyConfig_attentive c
  | applyPending =>
    unfold Harness.applyPending
    split
    · exact .refl h
    · rename_i c _
      have happlied := Harness.applyConfig_attentive { h with pendingConfig := none } c
      exact ⟨happlied.clean, happlied.origin, happlied.planned, happlied.scopes⟩
  | registerRuntime runtime scopeId replace hr =>
    obtain ⟨agents, -, hr⟩ := bind_ok.1 hr
    cases hr
    exact ⟨fun hclean => ⟨hclean, rfl⟩, rfl, rfl, rfl⟩
  | releaseRuntime registrationId => exact (Redeclared.agents h _).attentive
  | installAgent spec replace => exact (Redeclared.installAgent ho spec replace).attentive
  | removeAgent name => exact (Redeclared.removeAgent ho name).attentive

/-! ## at the awaits -/

def attentiveRules : Rules Harness Operation Answer where
  interferes := Attentive
  admits := fun _ _ => True
  holds := Depicting

theorem Harness.updateInstance_attentive (h : Harness) (i : PluginInstance)
    (f : PluginInstance → PluginInstance) : Attentive h (h.updateInstance i f) :=
  ⟨fun hclean => ⟨hclean, rfl⟩, rfl, rfl, rfl⟩

theorem Harness.afterSetup_attentive (h : Harness) (i : PluginInstance) (a : SetupAnswer) :
    Attentive h (h.afterSetup i a) := by
  obtain ⟨caps, tools, hooks, n, d, r, -, heq⟩ := h.afterSetup_eq i a
  rw [heq]
  exact ⟨fun hclean => ⟨hclean, rfl⟩, rfl, rfl, rfl⟩

/-- what attentive operations keep is kept by every effect of a reconcile, publication and the end
apart -/
theorem attentive_reclaimable {J : Harness → Prop} (hJ : ∀ h, J h → Depicting h)
    (hkeep : ∀ h h', J h → Attentive h h' → Depicting h' → J h') :
    Reclaimable attentiveRules J := by
  have hinternal : ∀ {h h'}, J h → SameDeclared h h' → Attentive h h' → J h' := by
    intro h h' hj hs ha
    exact hkeep h h' hj ha (ha.depicting (hJ h hj) ((hJ h hj).orderly.of_same hs))
  have hsilent : ∀ {h h' : Harness}, h'.dirty = h.dirty → h'.composition = h.composition →
      h'.origin = h.origin → h'.work.planned = h.work.planned →
      h'.generations.current = h.generations.current → Attentive h h' := by
    intro h h' hd hc ho hp hg
    refine ⟨fun hclean => ⟨hd.symm.trans hclean, hc⟩, ho, hp, ?_⟩
    rw [hg]
  exact
    { holds := fun hj => hJ _ hj
      interferes := fun hj hi hd => hkeep _ _ hj hi hd
      learn := fun _ hj => hinternal hj ⟨rfl, rfl, rfl, rfl, rfl, rfl⟩ (hsilent rfl rfl rfl rfl rfl)
      note := fun _ hj => hinternal hj ⟨rfl, rfl, rfl, rfl, rfl, rfl⟩ (hsilent rfl rfl rfl rfl rfl)
      update := fun i f hj => hinternal hj (Harness.updateInstance_sameDeclared _ i f)
        (Harness.updateInstance_attentive _ i f)
      adopt := fun _ hj => hinternal hj ⟨rfl, rfl, rfl, rfl, rfl, rfl⟩ (hsilent rfl rfl rfl rfl rfl)
      forget := fun _ hj => hinternal hj ⟨rfl, rfl, rfl, rfl, rfl, rfl⟩ (hsilent rfl rfl rfl rfl rfl)
      setup := fun i a hj => hinternal hj (Harness.afterSetup_sameDeclared _ i a)
        (Harness.afterSetup_attentive _ i a)
      close := fun _ hj => hinternal hj ⟨rfl, rfl, rfl, rfl, rfl, rfl⟩ (hsilent rfl rfl rfl rfl rfl)
      mounted := fun _ hj => hinternal hj ⟨rfl, rfl, rfl, rfl, rfl, rfl⟩ (hsilent rfl rfl rfl rfl rfl)
      reused := fun _ hj => hinternal hj ⟨rfl, rfl, rfl, rfl, rfl, rfl⟩ (hsilent rfl rfl rfl rfl rfl)
      report := fun _ hj => hinternal hj ⟨rfl, rfl, rfl, rfl, rfl, rfl⟩ (hsilent rfl rfl rfl rfl rfl)
      retire := fun hm hj => hinternal hj ⟨rfl, rfl, rfl, rfl, rfl, rfl⟩
        (hsilent rfl rfl rfl rfl (GenerationManager.retire_current hm))
      refresh := fun hj => hinternal hj ⟨rfl, rfl, rfl, rfl, rfl, rfl⟩ (hsilent rfl rfl rfl rfl rfl) }

/-! ## a reconcile -/

/-- if nothing is pending, the present scopes are those the reconcile was planned from -/
def Harness.ScopesPlanned (h : Harness) : Prop :=
  h.work.planned.map Desired.scopes = some h.composition.scopes

structure DepictionStaged (d : Desired) (h : Harness) : Prop extends Depicting h where
  planned : h.work.planned = some d
  unchanged : h.dirty = false → h.ScopesPlanned

structure DepictionEnacted (h : Harness) : Prop extends Depicting h where
  origin : h.origin = h.work.planned
  unchanged : h.dirty = false → h.ScopesPlanned

/-- a reconcile succeeded: nothing is pending, whatever happened since it was planned -/
structure DepictionLanded (h : Harness) : Prop where
  orderly : h.Orderly
  depicted : h.Depicted
  origin : h.origin = h.work.planned

section
variable {h h' : Harness}

theorem Attentive.planned_unchanged (a : Attentive h h')
    (hs : h.dirty = false → h.ScopesPlanned) (hclean : h'.dirty = false) : h'.ScopesPlanned := by
  obtain ⟨hd, hc⟩ := a.clean hclean
  unfold Harness.ScopesPlanned
  rw [a.planned, hc]
  exact hs hd

theorem depicting_reclaimable : Reclaimable attentiveRules Depicting :=
  attentive_reclaimable (fun _ hs => hs) fun _ _ _ _ hd => hd

theorem staged_reclaimable (d : Desired) : Reclaimable attentiveRules (DepictionStaged d) :=
  attentive_reclaimable (fun _ hs => hs.toDepicting) fun _ _ hs a hd =>
    ⟨hd, a.planned.trans hs.planned, a.planned_unchanged hs.unchanged⟩

theorem enacted_attentive : Reclaimable attentiveRules DepictionEnacted :=
  attentive_reclaimable (fun _ hs => hs.toDepicting) fun _ _ hs a hd =>
    ⟨hd, (a.origin.trans hs.origin).trans a.planned.symm, a.planned_unchanged hs.unchanged⟩

/-- what a candidate is, when it is enacted -/
structure Candidate.Depicts (c : Candidate) (d : Desired) (h : Harness) : Prop where
  tree : c.scopeTree.Depicts d.scopes
  current : ∀ g ∈ c.reuse, g ∈ h.generations.current
  observable : ∀ g ∈ c.reuse, c.scopeTree.sameObservable g.scopes = true

theorem stage_depicting (hs : Depicting h) : stage.wp attentiveRules (Prog.ends (fun c h' =>
    ∃ d, DepictionStaged d h' ∧ c.Depicts d h') Depicting) h := by
  refine Prog.wp_bind_of (P := fun _ _ h' => h' = h) ?_ ?_ ?_
  · unfold requireComposable
    rw [Prog.wp_gets_bind]
    split <;> exact rfl
  · rintro tr _ h₁ rfl
    refine Prog.wp_ofExcept_bind (s := h₁) (fun plan hplan => ?_) (fun _ _ => hs)
    refine Prog.wp_ofExcept_bind (s := h₁) (fun _ _ => ?_) (fun _ _ => hs)
    have hstaged : DepictionStaged h₁.desired { h₁ with work := { planned := some h₁.desired } } :=
      { orderly := hs.orderly.of_same ⟨rfl, rfl, rfl, rfl, rfl, rfl⟩
        depicted := hs.depicted
        applied := hs.applied
        planned := rfl
        unchanged := fun _ => rfl }
    have hrobust := (staged_reclaimable h₁.desired).toRobust
    refine Prog.wp_tryCatch.2 (Prog.wp_mono (assemble_inv hrobust plan hstaged) fun _ r h₂ hr => ?_)
    cases r with
    | ok c =>
      obtain ⟨hst, hc⟩ := hr
      obtain ⟨registrations, tools, htree⟩ := hc.tree
      exact ⟨_, hst, buildScopeTree_depicts hplan htree, hc.current, hc.observable⟩
    | error e =>
      refine Prog.wp_mono (rollback_inv hrobust e hr) fun _ r' h₃ hr' => ?_
      obtain ⟨⟨e', rfl⟩, hst⟩ := hr'
      exact hst.toDepicting
  · rintro tr e h₁ rfl
    exact hs

theorem enact_depicting (c : Candidate) {d : Desired} (hs : DepictionStaged d h)
    (hc : c.Depicts d h) :
    (enact c).wp attentiveRules (Prog.ends (fun _ => DepictionEnacted) Depicting) h := by
  have henacted : ∀ (m : GenerationManager) (w : Work), w.planned = h.work.planned →
      (∀ g ∈ m.current, g.scopes.Depicts d.scopes) →
      DepictionEnacted { h with generations := m, work := w, origin := h.work.planned } := by
    intro m w hw hm
    refine ⟨⟨hs.orderly.of_same ⟨rfl, rfl, rfl, rfl, rfl, rfl⟩, ?_, ?_⟩, hw.symm, ?_⟩
    · exact fun g hg => ⟨d, hs.planned, hm g hg⟩
    · exact fun hclean _ => hs.unchanged hclean
    · intro hclean
      exact (congrArg (Option.map Desired.scopes) hw).trans (hs.unchanged hclean)
  unfold enact
  cases hreuse : c.reuse with
  | some g =>
    refine henacted h.generations _ rfl fun g' hg' => ?_
    have hg : h.generations.current = some g := hc.current g hreuse
    rw [hg] at hg'
    cases hg'
    exact hc.tree.of_same (hc.observable g hreuse)
  | none =>
    show (publishCandidate c).wp attentiveRules _ h
    unfold publishCandidate
    rw [Prog.wp_gets_bind]
    refine Prog.wp_ofExcept_bind (fun p hp => ?_) fun _ _ => hs.toDepicting
    rw [Prog.wp_modify_bind]
    have hen : DepictionEnacted { h with generations := p.2, origin := h.work.planned } := by
      refine henacted p.2 h.work rfl ?_
      simp only [id, Harness.buildGeneration, GenerationManager.publish, GenerationManager.build, ne_eq,
        not_true_eq_false, if_false, Except.ok.injEq] at hp
      rw [← hp]
      rintro g hg
      cases hg
      exact hc.tree
    refine Prog.wp_bind_of (announce_inv enacted_attentive.toStable _ _ hen) ?_ ?_
    · intro tr _ h₁ hen₁
      exact hen₁
    · intro tr e h₁ hen₁
      exact hen₁.toDepicting

theorem conclude_depicting (c : Candidate) (g : RuntimeGeneration) (hs : DepictionEnacted h) :
    (conclude c g).wp attentiveRules (Prog.ends (fun _ => DepictionLanded) Depicting) h := by
  refine Prog.wp_bind_of (reclaim_inv enacted_attentive.clearing hs) ?_ ?_
  · intro tr disposed h₁ hen
    exact ⟨hen.orderly.of_same ⟨rfl, rfl, rfl, rfl, rfl, rfl⟩, hen.depicted, hen.origin⟩
  · intro tr e h₁ hen
    exact hen.toDepicting

theorem reconcile_depicting (hs : Depicting h) : reconcile.wp attentiveRules
    (Prog.ends (fun _ => DepictionLanded) Depicting) h := by
  refine Prog.wp_bind_of (stage_depicting hs) (fun _ c h₁ hc => ?_) (fun _ _ _ hs' => hs')
  obtain ⟨d, hst, hcd⟩ := hc
  exact Prog.wp_bind_of (enact_depicting c hst hcd) (fun _ g _ hen => conclude_depicting c g hen)
    (fun _ _ _ hs' => hs')

end

/-- what the end of a job leaves behind -/
def DepictionEnded : Job → Except Err Unit → Harness → Prop
  | .reconcile, .ok _ => DepictionLanded
  | _, _ => Depicting

theorem attentive_monitored {acts : Harness → Harness → Prop}
    (hacts : ∀ h h', acts h h' → h.Orderly → h'.Orderly ∧ Attentive h h') :
    Monitored attentiveRules acts Job.program Depicting DepictionEnded := by
  have hkeep : ∀ h h', Depicting h → acts h h' → Depicting h' := by
    intro h h' hs ha
    obtain ⟨ho, hat⟩ := hacts h h' ha hs.orderly
    exact hat.depicting hs ho
  exact
    { refl := Attentive.refl
      trans := fun _ h' h'' hi hs ha => hi.trans (hacts h' h'' ha hs.orderly).2
      admits := fun _ _ _ => trivial
      idle := fun h h' hs ha => hkeep h h' hs ha
      held := fun h h' hs ha => hkeep h h' hs ha
      job := by
        intro j h hs
        cases j with
        | reconcile =>
          exact Prog.wp_bind_of (reconcile_depicting hs) (fun _ _ _ hl => hl) (fun _ _ _ hl => hl)
        | reclaimAfterDrain =>
          show reclaimAfterDrain.wp attentiveRules _ h
          unfold reclaimAfterDrain
          rw [Prog.wp_gets_bind]
          split
          · exact hs
          · rw [Prog.wp_modify_bind]
            have hstarted : Depicting { h with work := {} } :=
              ⟨hs.orderly.of_same ⟨rfl, rfl, rfl, rfl, rfl, rfl⟩, hs.depicted, hs.applied⟩
            refine Prog.wp_bind_of (reclaim_inv depicting_reclaimable.clearing hstarted) ?_ ?_
            · intro tr _ h₁ hs₁
              exact ⟨hs₁.orderly.of_same ⟨rfl, rfl, rfl, rfl, rfl, rfl⟩, hs₁.depicted, hs₁.applied⟩
            · intro tr e h₁ hs₁
              exact hs₁ }

/-- **What the current generation depicts**, in every configuration of a run, also while a reconcile
waits, if each reconcile that succeeds ends with the scopes it was planned from. -/
theorem depicted_run {acts : Harness → Harness → Prop}
    (hacts : ∀ h h', acts h h' → h.Orderly → h'.Orderly ∧ Attentive h h') {h : Harness}
    (h₀ : Depicting h) {history : List (Event Job Err × HarnessConfig)} {c : HarnessConfig}
    (hrun : Run acts Job.program ⟨h, none⟩ history c)
    (hplanned : ∀ c', (.ended .reconcile (.ok ()), c') ∈ history → c'.state.ScopesPlanned) :
    Depicting c.state := by
  have hsound := (attentive_monitored hacts).run h₀ hrun fun j r c' hin hend => by
    cases j with
    | reconcile =>
      cases r with
      | ok u =>
        refine ⟨hend.orderly, hend.depicted, fun _ _ => ?_⟩
        rw [hend.origin]
        exact hplanned c' hin
      | error e => exact hend
    | reclaimAfterDrain => exact hend
  unfold Config.Sound at hsound
  split at hsound
  · exact hsound
  · exact hsound.1

theorem Pristine.depicting {h : Harness} (hp : Pristine h) : Depicting h := by
  refine ⟨hp.orderly, fun g hg => ?_, fun _ hpub => ?_⟩
  · rw [hp.generations] at hg
    cases hg
  · rw [hp.generations] at hpub
    cases hpub

end

end Chassis
