import Chassis.Harness.Commit
import Chassis.Harness.Forecast
import Chassis.Harness.Identities

/-!
# What a preview promises of the next reconcile

* `activated_entry`      every activated entry is declared;
* `find?_filed`          what a preview says of an entry is the action it filed for it;
* `stage_foreseen`       the candidate that a preview foresees;
* `commit_report`        what a reconcile reports of its candidate;
* `preview_exact`        **the instances are carried over and mounted as they were previewed**;
* `preview_publication`  **and a generation is published as it was previewed**, up to rejected entries
                         that are kept alive elsewhere.
-/

set_option linter.unusedSectionVars false

namespace Chassis
open Py Coop Declarative

section
variable [Packaging] [Platform] {h h' : Harness} {plan : ResolutionPlan}

/-! ## the actions of a preview -/

/-- what a reconcile resolves: the declared entries -/
def Harness.resolution (h : Harness) : Except Err ResolutionPlan :=
  resolve h.candidates h.effectivePreferences (some h.composition.specs)

/-- **Every activated entry is declared.** -/
theorem activated_entry (hn : h.Named) (hplan : h.resolution = .ok plan) {e : String}
    (he : e ∈ plan.activationOrder) : ∃ entry, h.plugins.entry? e = some entry := by
  obtain ⟨index, entries, hprep, rfl⟩ := resolve_ok.1 hplan
  have hcomp := prepareAll_ok hprep
  have hnodup : (ids entries).Nodup := hcomp.sorted.imp ne_of_lt
  obtain ⟨p, hp, rfl⟩ := survivors_mem ((mem_activationOrder hnodup).1 he).1
  have hc := (hcomp.mem p.candidate).2 ⟨p, hp, rfl⟩
  obtain ⟨entry, hentry, hcand⟩ := List.mem_map.1 hc
  have hid : entry.entryId = p.entryId := congrArg PluginCandidate.entryId hcand
  exact ⟨entry, hid ▸ hn.values (mem_sortedBy.1 hentry)⟩

/-- each action is kept under its entry -/
def Filed (actions : Dict String PlanAction) : Prop :=
  ∀ e a, actions.get? e = some a → a.entryId = some e

/-- an entry of the plan that has no action is rejected -/
theorem withRejections_get? (entries : Dict String PluginEntry) (preferences : Dict String String)
    (actions : Dict String PlanAction) (e : String) :
    (h.withRejections plan entries preferences actions).get? e =
      (actions.get? e).or ((plan.planFor e).map fun planned =>
        h.rejectAction planned (entries.get? planned.entryId) plan preferences) := by
  unfold Harness.withRejections ResolutionPlan.planFor
  induction plan.plugins generalizing actions with
  | nil => simp
  | cons planned rest ih =>
    rw [List.foldl_cons, ih, List.find?_cons]
    by_cases hpe : planned.entryId = e
    · subst hpe
      simp only [decide_true]
      cases hget : actions.get? planned.entryId with
      | some a => simp [hget]
      | none => simp [Dict.get?_set_self]
    · simp only [hpe, decide_false]
      split
      · rfl
      · rw [Dict.get?_set, if_neg (Ne.symm hpe)]

theorem withRejections_filed {entries : Dict String PluginEntry} {preferences : Dict String String}
    {actions : Dict String PlanAction} (hf : Filed actions) :
    Filed (h.withRejections plan entries preferences actions) := by
  intro e a ha
  rw [withRejections_get?] at ha
  cases hget : actions.get? e with
  | some b =>
    rw [hget, Option.some_or] at ha
    exact hf e a (ha ▸ hget)
  | none =>
    rw [hget, Option.none_or] at ha
    obtain ⟨planned, hfind, rfl⟩ := Option.map_eq_some_iff.1 ha
    have hfound := List.find?_some (p := fun q : PluginPlan => decide (q.entryId = e)) hfind
    exact congrArg some (of_decide_eq_true hfound)

theorem find?_filed {actions : Dict String PlanAction} (hf : Filed actions) (would : Bool)
    (e : String) : ((sortedBy Prod.fst actions.items).map Prod.snd ++
      [Harness.publication would]).find? (fun a => a.entryId = some e) = actions.get? e := by
  have hmem : ∀ a, a ∈ (sortedBy Prod.fst actions.items).map Prod.snd ↔
      ∃ k, actions.get? k = some a := by
    intro a
    rw [List.mem_map]
    constructor
    · rintro ⟨p, hp, rfl⟩
      exact ⟨p.1, Dict.mem_items.1 (mem_sortedBy.1 hp)⟩
    · rintro ⟨k, hk⟩
      exact ⟨(k, a), mem_sortedBy.2 (Dict.mem_items.2 hk), rfl⟩
  have hids : ((sortedBy Prod.fst actions.items).map Prod.snd).map PlanAction.entryId =
      ((sortedBy Prod.fst actions.items).map Prod.fst).map some := by
    rw [List.map_map, List.map_map]
    refine List.map_congr_left fun p hp => ?_
    exact hf p.1 p.2 (Dict.mem_items.1 (mem_sortedBy.1 hp))
  have hnodup : (((sortedBy Prod.fst actions.items).map Prod.snd ++
      [Harness.publication would]).map PlanAction.entryId).Nodup := by
    rw [List.map_append, hids, List.map_singleton]
    refine List.Nodup.append (List.Nodup.map (Option.some_injective _) ?_) (List.nodup_singleton _) ?_
    · rw [((sortedBy_perm _ _).map Prod.fst).nodup_iff]
      exact actions.keys_nodup
    · intro o ho hnone
      obtain ⟨k, -, rfl⟩ := List.mem_map.1 ho
      exact absurd (List.mem_singleton.1 hnone) (Option.some_ne_none k)
  refine Option.ext fun a => ?_
  rw [find?_key hnodup, List.mem_append, hmem, List.mem_singleton]
  constructor
  · rintro ⟨⟨k, hk⟩ | rfl, he⟩
    · rw [hf k a hk] at he
      exact Option.some.inj he ▸ hk
    · exact absurd he (Option.some_ne_none e ∘ Eq.symm)
  · intro ha
    exact ⟨Or.inl ⟨e, ha⟩, hf e a ha⟩

/-! ## a preview of the desired state -/

/-- the actions on the entries, by entry -/
def Harness.filedActions (h : Harness) (plan : ResolutionPlan) (f : Harness.Forecast) :
    Dict String PlanAction :=
  h.withRejections plan h.outlook.entries h.effectivePreferences f.actions

/-- **A preview of the desired state**, from its forecast. -/
theorem Harness.Named.preview (hn : h.Named) (hplan : h.resolution = .ok plan)
    {f : Harness.Forecast} (hf : h.forecast plan plan.activationOrder = .ok f) {would : Bool}
    (hwould : h.wouldPublish plan h.effectivePreferences
      ((sortedBy Prod.fst (h.filedActions plan f).items).map Prod.snd) = .ok would) :
    h.preview none = .ok {
      actions := (sortedBy Prod.fst (h.filedActions plan f).items).map Prod.snd ++
        [Harness.publication would]
      wouldPublish := would
      currentGenerationId := h.currentId
      pending := plan.pending
      cycles := plan.cycles
      preferences := h.effectivePreferences } := by
  have hactions : h.entryActions plan h.outlook.entries h.outlook.changes h.outlook.preferences =
      .ok ((sortedBy Prod.fst (h.filedActions plan f).items).map Prod.snd) := by
    show (h.forecast plan plan.activationOrder >>= fun forecast => _) = _
    rw [hf]
    rfl
  show (h.previewPlan h.outlook >>= fun plan => _) = _
  rw [hn.previewPlan]
  show (h.resolution >>= fun plan => _) = _
  rw [hplan]
  show (h.entryActions plan h.outlook.entries h.outlook.changes h.outlook.preferences >>=
    fun actions => _) = _
  rw [hactions]
  show (h.wouldPublish plan h.effectivePreferences _ >>= fun would => _) = _
  rw [hwould]
  rfl

/-! ## the candidate -/

/-- what a candidate is made of, in the state its pass ended in -/
structure Candidate.Composed (c : Candidate) (h : Harness) : Prop where
  tree : buildScopeTree c.instances c.plan (CapabilityRegistry.registrations h.capabilities)
    (ToolRegistry.entries h.tools) = .ok c.scopeTree
  factory : c.snapshotFactory = h.snapshotFactory c.instances
  reuse : c.reuse = h.generations.current.filter fun current =>
    sameComposition current c.instances (h.snapshotFactory c.instances) c.scopeTree
      h.effectivePreferences

/-- a pass says the same of any work it starts with -/
theorem Foresees.of_work {w : Work} {done : List String} {f : Harness.Forecast} {p : Progress}
    (hf : Foresees { h with work := w } done f p h') : Foresees h done f p h' :=
  { hf with
    told := by
      intro e a ha
      obtain ⟨reuse, hreuse, htold⟩ := hf.told e a ha
      exact ⟨reuse, hreuse, { htold with }⟩ }

/-- what the stage ends with, if the redactor learned nothing meanwhile -/
structure Candidate.Foreseen (c : Candidate) (h h' : Harness) : Prop where
  resolved : h.resolution = .ok c.plan
  composed : c.Composed h'
  foreseen : ∃ f p, h.forecast c.plan c.plan.activationOrder = .ok f ∧ p.ordered = c.instances ∧
    Foresees h c.plan.activationOrder f p h'

/-- **The candidate of a reconcile was foreseen**, unless the redactor learned something. -/
theorem stage_foreseen (hn : h.Named) (hl : h.Listed) : stage.wp .alone (Prog.ends (fun c h' =>
    h.redactor <+: h'.redactor ∧ (h'.redactor = h.redactor → c.Foreseen h h'))
    fun _ => True) h := by
  refine Prog.wp_bind_of (P := fun _ _ h' => h' = h) ?_ ?_ fun _ _ _ _ => trivial
  · unfold requireComposable
    rw [Prog.wp_gets_bind]
    split <;> exact rfl
  · rintro tr _ h₁ rfl
    refine Prog.wp_ofExcept_bind (s := h₁) (fun plan hplan => ?_) fun _ _ => trivial
    refine Prog.wp_ofExcept_bind (s := h₁) (fun _ _ => ?_) fun _ _ => trivial
    refine Prog.wp_tryCatch.2 ?_
    have hnodup := activationOrder_nodup_of_resolve hplan
    have hpass := materialize_foreseen (h := { h₁ with work := { planned := some h₁.desired } })
      hn (hl.working _ rfl) rfl rfl hnodup fun e he => activated_entry hn hplan he
    refine Prog.wp_bind_of hpass (fun tr' instances h₂ hm => ?_) (fun tr' e h₂ _ => ?_)
    · refine Prog.wp_ofExcept_bind (s := h₂) (fun _ _ => ?_) (fun e _ => ?_)
      · refine Prog.wp_ofExcept_bind (s := h₂) (fun tree htree => ?_) (fun e _ => ?_)
        · refine ⟨hm.1, fun hsame => ⟨hplan, ⟨htree, rfl, rfl⟩, ?_⟩⟩
          obtain ⟨f, p, hf, hp, hforesees⟩ := hm.2 hsame
          exact ⟨f, p, hf, hp, hforesees.of_work⟩
        · exact rollback_raises (fun _ _ _ => trivial) e h₂
      · exact rollback_raises (fun _ _ _ => trivial) e h₂
    · exact rollback_raises (fun _ _ _ => trivial) e h₂

/-! ## the report -/

def Candidate.generation (c : Candidate) (h : Harness) : RuntimeGeneration :=
  c.reuse.getD (h.buildGeneration c).1

/-- what a candidate carries over: all instances, if their generation stays -/
def Candidate.carriedOver (c : Candidate) (h : Harness) : List String :=
  match c.reuse with
  | some _ => c.instances.map PluginInstance.entryId
  | none => h.work.reused

theorem reported_clearing (mounted : List PluginInstance) (reused : List String) :
    Clearing .alone fun h => h.work.mounted = mounted ∧ h.work.reused = reused where
  holds := fun _ => trivial
  interferes := fun hj he _ => he ▸ hj
  learn := fun _ hj => hj
  note := fun _ hj => hj
  disposable := fun _ =>
    { holds := fun _ => trivial
      interferes := fun hj he _ => he ▸ hj
      learn := fun _ hj => hj
      note := fun _ hj => hj
      unload := fun hj => hj
      close := fun hj => hj
      forget := fun hj => hj }
  retire := fun _ hj => hj
  refresh := fun hj => hj

/-- **What a reconcile reports of its candidate.** -/
theorem commit_report (c : Candidate) (h : Harness) : (commit c).wp .alone (Prog.ends
    (fun res _ => res.plan = c.plan ∧ res.generationId = (c.generation h).generationId ∧
      res.mounted = h.work.mounted.map PluginInstance.entryId ∧ res.reused = c.carriedOver h)
    fun _ => True) h := by
  have henact : (enact c).wp .alone (Prog.ends (fun g h' => g = c.generation h ∧
      h'.work.mounted = h.work.mounted ∧ h'.work.reused = c.carriedOver h) fun _ => True) h := by
    unfold enact Candidate.generation Candidate.carriedOver
    cases c.reuse with
    | some g => exact ⟨rfl, rfl, rfl⟩
    | none =>
      show (publishCandidate c).wp .alone _ h
      unfold publishCandidate
      rw [Prog.wp_gets_bind]
      refine Prog.wp_ofExcept_bind (fun published _ => ?_) fun _ _ => trivial
      rw [Prog.wp_modify_bind]
      refine Prog.wp_bind_of (announce_inv (reported_clearing h.work.mounted h.work.reused).toStable
        _ _ ⟨rfl, rfl⟩) (fun _ _ _ hw => ?_) (fun _ _ _ _ => trivial)
      exact ⟨rfl, hw⟩
  refine Prog.wp_bind_of henact (fun _ g h₁ hg => ?_) (fun _ _ _ _ => trivial)
  obtain ⟨rfl, hw⟩ := hg
  refine Prog.wp_bind_of (reclaim_inv (reported_clearing _ _) hw) (fun _ disposed h₂ hw₂ => ?_)
    (fun _ _ _ _ => trivial)
  exact ⟨rfl, rfl, congrArg (List.map PluginInstance.entryId) hw₂.1, hw₂.2⟩

/-! ## what was foreseen -/

/-- an action that reuses the instance of its entry -/
def PlanResult.expectsReuse (r : PlanResult) (e : String) : Bool :=
  ((r.actionFor e).map PlanAction.expectedReuse).getD false

section
variable {done : List String} {f : Harness.Forecast} {p : Progress}

theorem Foresees.action (hf : Foresees h done f p h') {e : String} (he : e ∈ done) :
    ∃ a reuse, f.actions.get? e = some a ∧ f.reused.get? e = some reuse ∧
      Harness.Forecast.Foretold h e reuse a := by
  cases ha : f.actions.get? e with
  | none => exact absurd he ((hf.acted e).1 ha)
  | some a =>
    obtain ⟨reuse, hreuse, htold⟩ := hf.told e a ha
    exact ⟨a, reuse, rfl, hreuse, htold⟩

theorem Foresees.filed (hf : Foresees h done f p h') : Filed f.actions := by
  intro e a ha
  obtain ⟨reuse, -, htold⟩ := hf.told e a ha
  exact htold.entry

/-- if no action forces a generation, everything is carried over -/
theorem Foresees.unforced (hf : Foresees h plan.activationOrder f p h')
    (hnone : Harness.forcing ((sortedBy Prod.fst (h.filedActions plan f).items).map Prod.snd) =
      false) : ∀ e ∈ plan.activationOrder, f.reused.get? e = some true := by
  intro e he
  obtain ⟨a, reuse, ha, hreuse, htold⟩ := hf.action he
  have hget : (h.filedActions plan f).get? e = some a := by
    unfold Harness.filedActions
    rw [withRejections_get?, ha]
    rfl
  have hmem : a ∈ (sortedBy Prod.fst (h.filedActions plan f).items).map Prod.snd :=
    List.mem_map.2 ⟨(e, a), mem_sortedBy.2 (Dict.mem_items.2 hget), rfl⟩
  have himpact := List.any_eq_false.1 hnone a hmem
  rw [htold.impact] at himpact
  cases reuse with
  | true => exact hreuse
  | false => exact absurd (decide_eq_true rfl) himpact

/-- a generation that has the instances of a pass is one whose instances were carried over -/
theorem Foresees.reached (hf : Foresees h done f p h') (hs : h.Safe) {g : RuntimeGeneration}
    (hg : h.generations.current = some g)
    (hids : p.ordered.map PluginInstance.instanceId = g.instanceIds) :
    ∀ e ∈ done, f.reused.get? e = some true := by
  intro e he
  obtain ⟨a, reuse, -, hreuse, -⟩ := hf.action he
  cases reuse with
  | true => exact hreuse
  | false =>
    obtain ⟨i, n, hi, hn, hid⟩ := hf.renewed e hreuse
    have hmem : i.instanceId ∈ g.instanceIds := by
      rw [← hids, hf.ordered]
      refine List.mem_filterMap.2 ⟨e, he, ?_⟩
      rw [hi]
      rfl
    obtain ⟨x, hx, -⟩ := hs.reached _ (GenerationManager.mem_reachable.2
      ⟨g, GenerationManager.mem_live.2 (Or.inl hg), hmem⟩)
    obtain hissued := hs.drawn _ x hx
    rw [hid] at hissued
    exact absurd hissued (not_issued_fresh h hn)

theorem Foresees.carriedOver (hf : Foresees h done f p h') (hl : h.Listed)
    (hall : ∀ e ∈ done, f.reused.get? e = some true) :
    p.ordered.map PluginInstance.entryId = done := by
  rw [(hf.still hall).1]
  have hone : ∀ e ∈ done, ∃ i, h.plugins.instance? e = some i ∧ i.entryId = e := by
    intro e he
    obtain ⟨a, reuse, -, hreuse, htold⟩ := hf.action he
    rw [hall e he] at hreuse
    obtain ⟨i, hi, -⟩ := htold.carried (Option.some.inj hreuse).symm
    exact ⟨i, hi, (Harness.Enrolled.instance? hl hi).1⟩
  clear hf hall
  induction done with
  | nil => rfl
  | cons e rest ih =>
    obtain ⟨i, hi, hid⟩ := hone e List.mem_cons_self
    rw [List.filterMap_cons_some hi, List.map_cons, hid,
      ih fun e' he' => hone e' (List.mem_cons_of_mem _ he')]

end

/-- **Whether a generation was to be published**: if an action forces it, or if the candidate has
none to keep. -/
theorem Foresees.wouldPublish {c : Candidate} {f : Harness.Forecast} {p : Progress}
    (hf : Foresees h c.plan.activationOrder f p h') (hp : p.ordered = c.instances)
    (hc : c.Composed h') :
    h.wouldPublish c.plan h.effectivePreferences
        ((sortedBy Prod.fst (h.filedActions c.plan f).items).map Prod.snd) =
      .ok (Harness.forcing ((sortedBy Prod.fst (h.filedActions c.plan f).items).map Prod.snd) ||
        c.reuse.isNone) := by
  have hreuse := hc.reuse
  rw [hf.generations] at hreuse
  unfold Harness.wouldPublish
  cases hcur : h.generations.current with
  | none =>
    rw [hcur] at hreuse
    rw [hreuse]
    exact congrArg Except.ok (Bool.or_true _).symm
  | some g =>
    simp only
    rw [hcur] at hreuse
    cases hforce : Harness.forcing ((sortedBy Prod.fst
        (h.filedActions c.plan f).items).map Prod.snd) with
    | true => rfl
    | false =>
      obtain ⟨hordered, hrest⟩ := hf.still (hf.unforced hforce)
      have htree := hc.tree
      rw [← hp, hordered, hrest] at htree
      replace htree : buildScopeTree (c.plan.activationOrder.filterMap h.plugins.instance?) c.plan
        (CapabilityRegistry.registrations h.capabilities) (ToolRegistry.entries h.tools) =
          .ok c.scopeTree := htree
      rw [← hp, hordered, hrest] at hreuse
      have hkeep : h.keepsComposition c.plan h.effectivePreferences g = .ok (sameComposition g
          (c.plan.activationOrder.filterMap h.plugins.instance?)
          (h.snapshotFactory (c.plan.activationOrder.filterMap h.plugins.instance?)) c.scopeTree
          h.effectivePreferences) := by
        unfold Harness.keepsComposition
        simp only
        rw [htree]
        rfl
      rw [if_neg Bool.false_ne_true, hkeep, Bool.false_or, hreuse]
      refine congrArg Except.ok ?_
      show _ = (Option.filter _ (some g)).isNone
      rw [Option.filter_some]
      show (!sameComposition g _ _ _ _) = _
      split
      · rename_i hsame
        exact congrArg not hsame
      · rename_i hsame
        exact congrArg not (Bool.not_eq_true _ ▸ hsame)

/-- what a preview says of the reconcile that follows it -/
structure PlanResult.Promises (r : PlanResult) (h : Harness) (res : ReconcileResult) : Prop where
  current : r.currentGenerationId = h.currentId
  pending : r.pending = res.plan.pending
  mounted : res.mounted = res.plan.activationOrder.filter fun e => !r.expectsReuse e
  reused : res.reused = res.plan.activationOrder.filter fun e => r.expectsReuse e
  kept : r.wouldPublish = false → some res.generationId = h.currentId
  published : r.wouldPublish = true → some res.generationId = h.currentId →
    ∃ a ∈ r.actions, a.action = .reject ∧ a.generationImpact = .newGeneration ∧
      ∃ e i, a.entryId = some e ∧ h.plugins.instance? e = some i ∧ i.state = .active ∧
        ∀ g ∈ h.generations.current, i.instanceId ∉ g.instanceIds

section
variable {c : Candidate} {f : Harness.Forecast} {p : Progress}

def Harness.previewed (h : Harness) (c : Candidate) (f : Harness.Forecast) : PlanResult where
  actions := (sortedBy Prod.fst (h.filedActions c.plan f).items).map Prod.snd ++
    [Harness.publication (Harness.forcing ((sortedBy Prod.fst
      (h.filedActions c.plan f).items).map Prod.snd) || c.reuse.isNone)]
  wouldPublish := Harness.forcing ((sortedBy Prod.fst
    (h.filedActions c.plan f).items).map Prod.snd) || c.reuse.isNone
  currentGenerationId := h.currentId
  pending := c.plan.pending
  cycles := c.plan.cycles
  preferences := h.effectivePreferences

variable (hf : Foresees h c.plan.activationOrder f p h')
include hf

theorem Foresees.actionFor (e : String) :
    (h.previewed c f).actionFor e = (h.filedActions c.plan f).get? e :=
  find?_filed (withRejections_filed hf.filed) _ e

theorem Foresees.expectsReuse {e : String} (he : e ∈ c.plan.activationOrder) :
    f.reused.get? e = some ((h.previewed c f).expectsReuse e) := by
  obtain ⟨a, reuse, ha, hreuse, htold⟩ := hf.action he
  unfold PlanResult.expectsReuse
  rw [hf.actionFor, Harness.filedActions, withRejections_get?, ha]
  show _ = some a.expectedReuse
  rw [htold.reused]
  exact hreuse

theorem Foresees.filter_reused (b : Bool) :
    c.plan.activationOrder.filter (fun e => f.reused.get? e = some b) =
      c.plan.activationOrder.filter fun e => (h.previewed c f).expectsReuse e == b := by
  refine List.filter_congr fun e he => ?_
  rw [hf.expectsReuse he]
  cases (h.previewed c f).expectsReuse e <;> cases b <;> rfl

/-- what forces a generation, if everything is carried over, is a rejection -/
theorem Foresees.rejected (hall : ∀ e ∈ c.plan.activationOrder, f.reused.get? e = some true)
    (hforce : Harness.forcing ((sortedBy Prod.fst (h.filedActions c.plan f).items).map
      Prod.snd) = true) :
    ∃ a ∈ (h.previewed c f).actions, a.action = .reject ∧ a.generationImpact = .newGeneration ∧
      ∃ e i, a.entryId = some e ∧ e ∉ c.plan.activationOrder ∧ h.plugins.instance? e = some i ∧
        i.state = .active := by
  obtain ⟨a, ha, himpact⟩ := List.any_eq_true.1 hforce
  obtain ⟨⟨e, b⟩, hpair, hab⟩ := List.mem_map.1 ha
  obtain rfl : b = a := hab
  have hget : (h.filedActions c.plan f).get? e = some b := Dict.mem_items.1 (mem_sortedBy.1 hpair)
  refine ⟨b, List.mem_append_left _ ha, ?_⟩
  rw [Harness.filedActions, withRejections_get?] at hget
  cases hold : f.actions.get? e with
  | some b' =>
    rw [hold] at hget
    obtain rfl : b' = b := Option.some.inj hget
    obtain ⟨reuse, hreuse, htold⟩ := hf.told e b' hold
    have hdone : e ∈ c.plan.activationOrder := by
      by_contra hout
      rw [(hf.acted e).2 hout] at hold
      cases hold
    rw [hall e hdone] at hreuse
    rw [htold.impact, ← Option.some.inj hreuse] at himpact
    exact absurd (of_decide_eq_true himpact) (by decide)
  | none =>
    rw [hold] at hget
    obtain ⟨planned, hfind, rfl⟩ := Option.map_eq_some_iff.1 hget
    have hfound := List.find?_some (p := fun q : PluginPlan => decide (q.entryId = e)) hfind
    have hname : planned.entryId = e := of_decide_eq_true hfound
    have hactive : h.hasActive planned.entryId = true := by
      by_contra hnot
      have himpact' := of_decide_eq_true himpact
      unfold Harness.rejectAction at himpact'
      simp only at himpact'
      rw [if_neg hnot] at himpact'
      cases himpact'
    refine ⟨rfl, of_decide_eq_true himpact, e, ?_⟩
    rw [hname] at hactive
    unfold Harness.hasActive at hactive
    cases hi : h.plugins.instance? e with
    | none =>
      rw [hi] at hactive
      cases hactive
    | some i =>
      rw [hi] at hactive
      exact ⟨i, congrArg some hname, (hf.acted e).1 hold, rfl, of_decide_eq_true hactive⟩

end

/-- **What was foreseen of the candidate is what is reported.** -/
theorem Candidate.Foreseen.promises {c : Candidate} {h₁ : Harness} (hc : c.Foreseen h h₁)
    (hn : h.Named) (hl : h.Listed) (hs : h.Safe) {res : ReconcileResult} (hplan : res.plan = c.plan)
    (hid : res.generationId = (c.generation h₁).generationId)
    (hmounted : res.mounted = h₁.work.mounted.map PluginInstance.entryId)
    (hreused : res.reused = c.carriedOver h₁) :
    ∃ r, h.preview none = .ok r ∧ r.Promises h res := by
  obtain ⟨hres, hcomp, f, p, hforecast, hp, hf⟩ := hc
  refine ⟨h.previewed c f, hn.preview hres hforecast (hf.wouldPublish hp hcomp), ?_⟩
  have hreuse := hcomp.reuse
  rw [hf.generations] at hreuse
  have hstays : ∀ g, c.reuse = some g → h.generations.current = some g ∧
      p.ordered.map PluginInstance.instanceId = g.instanceIds := by
    intro g hg
    obtain ⟨hcur, hsame⟩ := Option.filter_eq_some_iff.1 (hreuse.symm.trans hg)
    unfold sameComposition at hsame
    simp only [Bool.and_eq_true, decide_eq_true_eq] at hsame
    exact ⟨hcur, hp ▸ hsame.1.1.1⟩
  constructor
  · rfl
  · rw [hplan]
    rfl
  · rw [hmounted, hf.mounted, hplan, hf.filter_reused false]
    refine List.filter_congr fun e _ => ?_
    cases (h.previewed c f).expectsReuse e <;> rfl
  · have hcarried : res.reused = c.plan.activationOrder.filter
        fun e => f.reused.get? e = some true := by
      rw [hreused]
      unfold Candidate.carriedOver
      cases hcr : c.reuse with
      | none => exact hf.reused
      | some g =>
        obtain ⟨hcur, hids⟩ := hstays g hcr
        have hall := hf.reached hs hcur hids
        rw [← hp]
        refine (hf.carriedOver hl hall).trans (List.filter_eq_self.2 fun e he => ?_).symm
        exact decide_eq_true (hall e he)
    rw [hcarried, hplan, hf.filter_reused true]
    refine List.filter_congr fun e _ => ?_
    cases (h.previewed c f).expectsReuse e <;> rfl
  · intro hkept
    cases hcr : c.reuse with
    | none =>
      have hwould : (Harness.forcing _ || c.reuse.isNone) = false := hkept
      rw [hcr, Option.isNone_none, Bool.or_true] at hwould
      cases hwould
    | some g =>
      rw [hid, Candidate.generation, hcr]
      exact (congrArg (Option.map RuntimeGeneration.generationId) (hstays g hcr).1).symm
  · intro hwould hsame
    cases hcr : c.reuse with
    | none =>
      rw [hid, Candidate.generation, hcr] at hsame
      have hbuilt : (h₁.buildGeneration c).1.generationId = (h.buildGeneration c).1.generationId :=
        congrArg (fun m : GenerationManager => generationId m.counter) hf.generations
      exact absurd (hsame.symm.trans (congrArg some hbuilt)) (built_new hs c)
    | some g =>
      obtain ⟨hcur, hids⟩ := hstays g hcr
      have hall := hf.reached hs hcur hids
      have hforce : Harness.forcing ((sortedBy Prod.fst
          (h.filedActions c.plan f).items).map Prod.snd) = true := by
        have hor : (Harness.forcing _ || c.reuse.isNone) = true := hwould
        rw [hcr, Option.isNone_some, Bool.or_false] at hor
        exact hor
      obtain ⟨a, ha, hact, himpact, e, i, hae, hout, hi, hactive⟩ := hf.rejected hall hforce
      refine ⟨a, ha, hact, himpact, e, i, hae, hi, hactive, fun g' hg' hin => hout ?_⟩
      obtain rfl : g = g' := Option.some.inj (hcur.symm.trans hg')
      rw [← hids, (hf.still hall).1] at hin
      obtain ⟨j, hj, hji⟩ := List.mem_map.1 hin
      obtain ⟨e', he', hj'⟩ := List.mem_filterMap.1 hj
      obtain ⟨hie, higet, -⟩ := Harness.Enrolled.instance? hl hi
      obtain ⟨hje, hjget, -⟩ := Harness.Enrolled.instance? hl hj'
      rw [hji] at hjget
      obtain rfl := Option.some.inj (hjget.symm.trans higet)
      exact hie ▸ hje ▸ he'

theorem commit_retains (c : Candidate) (h : Harness) :
    (commit c).wp .alone (fun _ _ h' => h.redactor <+: h'.redactor) h := by
  have en := retains_enduring h.redactor
  refine Prog.wp_bind_of (enact_inv en c (List.prefix_refl _)) (fun _ g h₁ hr₁ => ?_)
    (fun _ _ _ hr => hr)
  exact Prog.wp_bind_of (reclaim_inv en.toReclaimable.clearing hr₁) (fun _ _ _ hr₂ => hr₂)
    (fun _ _ _ hr => hr)

/-- **A reconcile that succeeds keeps the promises of the preview before it**, unless the redactor
learned something meanwhile. -/
theorem reconcile_promised (hn : h.Named) (hl : h.Listed) (hs : h.Safe) :
    reconcile.wp .alone (Prog.ends (fun res h' => h'.redactor = h.redactor →
      ∃ r, h.preview none = .ok r ∧ r.Promises h res) fun _ => True) h := by
  refine Prog.wp_bind_of (stage_foreseen hn hl) (fun _ c h₁ hc => ?_) (fun _ _ _ _ => trivial)
  refine Prog.wp_mono (Prog.wp_and (commit_report c h₁) (commit_retains c h₁)) ?_
  rintro tr r h₂ ⟨hreport, hretains⟩
  cases r with
  | error e => trivial
  | ok res =>
    obtain ⟨hplan, hid, hmounted, hreused⟩ := hreport
    intro hsame
    exact (hc.2 (unlearned hc.1 hretains hsame)).promises hn hl hs hplan hid hmounted hreused

variable {h₀ : Harness} {history : List (Event Job Err × HarnessConfig)}
  {tr : Trace Operation Answer} {res : ReconcileResult}

/-- **A preview is exact.**  In any reachable state, if a reconcile succeeds and the redactor learned
nothing meanwhile, the preview of the same state succeeds as well: it reports the entries that are
pending, and the reconcile mounts, in activation order, exactly the activated entries whose action
does not expect reuse, and carries over exactly the others. -/
theorem preview_exact (hreach : ControlRun h₀ history ⟨h, none⟩)
    (hrun : reconcile.Outcome h tr (.ok res) h') (hlearned : h'.redactor = h.redactor) :
    ∃ r, h.preview none = .ok r ∧ r.pending = res.plan.pending ∧
      res.mounted = res.plan.activationOrder.filter (fun e => !r.expectsReuse e) ∧
      res.reused = res.plan.activationOrder.filter fun e => r.expectsReuse e := by
  obtain ⟨r, hr, hp⟩ := Prog.wp_alone (reconcile_promised hreach.named hreach.listed hreach.safe)
    hrun hlearned
  exact ⟨r, hr, hp.pending, hp.mounted, hp.reused⟩

/-- **What a preview says of the next generation.**  If it says that none would be published, the
current one stays.  If it says that one would be, one is, unless what forced it is a rejected entry
whose active instance is not in the current generation. -/
theorem preview_publication (hreach : ControlRun h₀ history ⟨h, none⟩)
    (hrun : reconcile.Outcome h tr (.ok res) h') (hlearned : h'.redactor = h.redactor)
    {r : PlanResult} (hr : h.preview none = .ok r) :
    (r.wouldPublish = false → some res.generationId = r.currentGenerationId) ∧
      (r.wouldPublish = true → some res.generationId ≠ r.currentGenerationId ∨
        ∃ a ∈ r.actions, a.action = .reject ∧ a.generationImpact = .newGeneration ∧
          ∃ e i, a.entryId = some e ∧ h.plugins.instance? e = some i ∧ i.state = .active ∧
            ∀ g ∈ h.generations.current, i.instanceId ∉ g.instanceIds) := by
  obtain ⟨r', hr', hp⟩ := Prog.wp_alone (reconcile_promised hreach.named hreach.listed hreach.safe)
    hrun hlearned
  obtain rfl := Except.ok.inj (hr.symm.trans hr')
  rw [hp.current]
  refine ⟨hp.kept, fun hwould => ?_⟩
  by_cases hsame : some res.generationId = h.currentId
  · exact Or.inr (hp.published hwould hsame)
  · exact Or.inl hsame

end

section
open scoped Plain

/-- one plugin is mounted, and another is installed -/
def extending : List Move :=
  [.install (plainPlugin "a" [("db", "1.0.0")] [] []), .start .reconcile, .resume honest,
    .install (plainPlugin "b" [] [("db", ">=1")] [])]

@[irreducible] def extended : Harness := (play extending).config.state

theorem extended_run : ControlRun {} (play extending).history ⟨extended, none⟩ := by
  have hidle : (play extending).config.running.isNone = true := by decide +kernel
  unfold extended
  exact play_control extending hidle

/-- a provider is replaced by what provides nothing, while a run holds a lease of the generation that
its consumer is in -/
def bereaving : List Move :=
  [.install (plainPlugin "db" [("db", "1.0.0")] [] []),
    .install (plainPlugin "app" [] [("db", ">=1")] []), .start .reconcile, .resume honest,
    .resume honest, .acquire, .install (plainPlugin "db" [] [] []), .start .reconcile,
    .resume honest]

@[irreducible] def bereft : Harness := (play bereaving).config.state

theorem bereft_run : ControlRun {} (play bereaving).history ⟨bereft, none⟩ := by
  have hidle : (play bereaving).config.running.isNone = true := by decide +kernel
  unfold bereft
  exact play_control bereaving hidle

/-- the reconcile of a harness whose plugins are honest -/
@[irreducible] def reconciled (h : Harness) :
    Trace Operation Answer × Except Err ReconcileResult × Harness := reconcile.execute honest h

theorem reconciled_outcome {h : Harness} {res : ReconcileResult}
    (hok : (reconciled h).2.1 = .ok res) :
    reconcile.Outcome h (reconciled h).1 (.ok res) (reconciled h).2.2 := by
  rw [← hok]
  unfold reconciled
  exact Prog.execute_outcome honest reconcile h

theorem preview_exact_extended :
    (reconciled extended).2.1.toOption.map ReconcileResult.mounted = some ["b"] ∧
      ∀ res, (reconciled extended).2.1 = .ok res → ∃ r, extended.preview none = .ok r ∧
        r.pending = res.plan.pending ∧
        res.mounted = res.plan.activationOrder.filter (fun e => !r.expectsReuse e) ∧
        res.reused = res.plan.activationOrder.filter fun e => r.expectsReuse e :=
  ⟨by decide +kernel, fun _ hres =>
    preview_exact extended_run (reconciled_outcome hres) (by decide +kernel)⟩

theorem preview_publication_extended :
    (extended.preview none).toOption.map PlanResult.wouldPublish = some true ∧
      ∀ res r, (reconciled extended).2.1 = .ok res → extended.preview none = .ok r →
        (r.wouldPublish = false → some res.generationId = r.currentGenerationId) ∧
          (r.wouldPublish = true → some res.generationId ≠ r.currentGenerationId ∨
            ∃ a ∈ r.actions, a.action = .reject ∧ a.generationImpact = .newGeneration ∧
              ∃ e i, a.entryId = some e ∧ extended.plugins.instance? e = some i ∧
                i.state = .active ∧ ∀ g ∈ extended.generations.current,
                  i.instanceId ∉ g.instanceIds) :=
  ⟨by decide +kernel, fun _ _ hres hr =>
    preview_publication extended_run (reconciled_outcome hres) (by decide +kernel) hr⟩

/-- **The exception is real**: the consumer is rejected, but its instance is active, since the run
still has it.  The preview says that a generation would be published, and none is. -/
theorem preview_overstates : ∃ history h r tr res h', ControlRun {} history ⟨h, none⟩ ∧
    h.preview none = .ok r ∧ reconcile.Outcome h tr (.ok res) h' ∧ h'.redactor = h.redactor ∧
    r.wouldPublish = true ∧ some res.generationId = r.currentGenerationId := by
  have hsays : (bereft.preview none).toOption.map
      (fun r => (r.wouldPublish, r.currentGenerationId)) = some (true, some "gen_0002") := by
    decide +kernel
  have hdoes : ((reconciled bereft).2.1.toOption.map ReconcileResult.generationId,
      (reconciled bereft).2.2.redactor) = (some "gen_0002", bereft.redactor) := by decide +kernel
  obtain ⟨hid, hlearned⟩ := Prod.mk.inj hdoes
  obtain ⟨r, hr, hrw⟩ := ok_of_map _ _ _ hsays
  obtain ⟨res, hres, hid⟩ := ok_of_map _ _ _ hid
  have hkept : some res.generationId = r.currentGenerationId := by
    rw [hid]
    exact (congrArg Prod.snd hrw).symm
  exact ⟨_, bereft, r, _, res, _, bereft_run, hr, reconciled_outcome hres, hlearned,
    congrArg Prod.fst hrw, hkept⟩

end

end Chassis
