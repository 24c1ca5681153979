import Chassis.Harness.Enrolment
import Chassis.Harness.Preview
import Chassis.Harness.Reuse

/-!
# A preview against the reconcile it foresees

* `Named.previewPlan`    a preview of the desired state resolves what a reconcile resolves;
* `Aside e h h'`         what happens to the instances of one entry leaves the others as they were;
* `Foresees`             what a forecast says of the pass it runs ahead of: every entry it would carry
                         over is carried over, every other is mounted, and all digests agree;
* `Foresees.turn`, `materialize_foreseen`   one turn, and the whole pass.
-/

set_option linter.unusedSectionVars false

namespace Chassis
open Py Coop Declarative

section
variable [Packaging] [Platform]

/-! ## the outlook of the desired state -/

namespace Harness
variable {h : Harness}

theorem Named.values (hn : h.Named) {entry : PluginEntry} (he : entry ∈ h.plugins.entries.values) :
    h.plugins.entry? entry.entryId = some entry := by
  obtain ⟨k, hk⟩ := Dict.mem_values.1 he
  rw [hn k entry hk]
  exact hk

theorem Named.ids_nodup (hn : h.Named) :
    (h.plugins.sortedEntries.map PluginEntry.entryId).Nodup := by
  have hkeys : h.plugins.entries.values.map PluginEntry.entryId = h.plugins.entries.keys := by
    unfold Dict.values Dict.keys
    rw [List.map_map]
    exact List.map_congr_left fun p hp => hn p.1 p.2 (Dict.mem_items.1 hp)
  unfold PluginRegistry.sortedEntries
  rw [((sortedBy_perm _ _).map PluginEntry.entryId).nodup_iff, hkeys]
  exact h.plugins.entries.keys_nodup

theorem Named.outlook_items (hn : h.Named) :
    h.outlook.entries.items = h.plugins.sortedEntries.map fun e => (e.entryId, e) := by
  refine Dict.items_ofList ?_
  rw [List.map_map]
  exact hn.ids_nodup

theorem Named.outlook_get? (hn : h.Named) (e : String) :
    h.outlook.entries.get? e = h.plugins.entry? e := by
  refine Option.ext fun entry => ?_
  rw [← Dict.mem_items, hn.outlook_items, List.mem_map]
  constructor
  · rintro ⟨x, hx, hxe⟩
    cases hxe
    exact hn.values (mem_sortedBy.1 hx)
  · intro he
    exact ⟨entry, mem_sortedBy.2 (Dict.mem_values.2 ⟨e, he⟩), by rw [hn e entry he]⟩

theorem Named.candidates (hn : h.Named) :
    h.previewCandidates h.outlook.entries h.outlook.changes = h.candidates := by
  have hcandidate : ∀ e ∈ h.plugins.sortedEntries,
      h.previewCandidate h.outlook.changes e.entryId e = h.plugins.candidate
        (fun id => CapabilityRegistry.ofProvider h.capabilities id) e := by
    intro e he
    have hfound : h.candidates.find? (fun c => c.entryId = e.entryId) =
        some (h.plugins.candidate
          (fun id => CapabilityRegistry.ofProvider h.capabilities id) e) := by
      have hnodup : (h.candidates.map PluginCandidate.entryId).Nodup := by
        unfold Harness.candidates PluginRegistry.candidates
        rw [List.map_map]
        exact hn.ids_nodup
      exact (find?_key hnodup).2 ⟨List.mem_map_of_mem he, rfl⟩
    unfold previewCandidate
    simp only
    rw [hfound]
    rfl
  unfold previewCandidates
  rw [hn.outlook_items]
  have hsorted : sortedBy Prod.fst (h.plugins.sortedEntries.map fun e => (e.entryId, e)) =
      h.plugins.sortedEntries.map fun e => (e.entryId, e) := by
    rw [sortedBy_map]
    exact congrArg _ (sortedBy_sortedBy PluginEntry.entryId h.plugins.entries.values)
  rw [hsorted, List.map_map]
  exact List.map_congr_left hcandidate

/-- **A preview resolves what a reconcile resolves.** -/
theorem Named.previewPlan (hn : h.Named) : h.previewPlan h.outlook =
    resolve h.candidates h.effectivePreferences (some h.composition.specs) := by
  unfold Harness.previewPlan
  rw [hn.candidates]
  rfl

end Harness

/-! ## identities before the instances are known -/

/-- the bindings of an identity, in their order -/
def bindingsOf (own : OwnInputs) (resolutions : List RequirementResolution)
    (instanceOf identityOf : String → Option String) : List DependencyBinding :=
  (sortedBy (fun r => r.requirement.name) resolutions).map
    (dependencyBinding own.entryId instanceOf identityOf)

section
variable {own : OwnInputs} {resolutions : List RequirementResolution}
  {instanceOf instanceOf' identityOf : String → Option String} {redactor : Redactor}

variable (instanceOf') in
/-- identities that are built alike differ at most in the instances they name -/
theorem semanticIdentityOf_instances :
    semanticIdentityOf own resolutions instanceOf identityOf redactor =
      { semanticIdentityOf own resolutions instanceOf' identityOf redactor with
        bindings := bindingsOf own resolutions instanceOf identityOf } := by
  have hb : ∀ inst : String → Option String, sortedBy DependencyBinding.capability
      (resolutions.map (dependencyBinding own.entryId inst identityOf)) =
        bindingsOf own resolutions inst identityOf := fun inst => sortedBy_map _ _ _
  have hkeys : (bindingsOf own resolutions instanceOf identityOf).map
      DependencyBinding.semanticKey = (bindingsOf own resolutions instanceOf' identityOf).map
        DependencyBinding.semanticKey := by
    unfold bindingsOf
    rw [List.map_map, List.map_map]
    rfl
  unfold semanticIdentityOf
  simp only
  rw [hb, hb, hkeys]

theorem semanticIdentityOf_digest :
    (semanticIdentityOf own resolutions instanceOf identityOf redactor).identityDigest =
      (semanticIdentityOf own resolutions instanceOf' identityOf redactor).identityDigest := by
  rw [semanticIdentityOf_instances instanceOf']
  rfl

variable (redactor) in
theorem semanticIdentityOf_bindings :
    (semanticIdentityOf own resolutions instanceOf identityOf redactor).bindings =
      bindingsOf own resolutions instanceOf identityOf := sortedBy_map _ _ _

variable {h : Harness}

/-- an instance that `h` has never had -/
def Harness.Alien (h : Harness) (o : Option String) : Prop := ∃ id, o = some id ∧ ¬ h.Issued id

/-- **What was recorded does not tell the instances to come apart.** -/
theorem recorded_iff {known : SemanticIdentity} (hd : h.Dates known)
    (hinst : ∀ r ∈ resolutions, ∀ p, r.providerEntryId = some p →
      instanceOf p = instanceOf' p ∨ (h.Alien (instanceOf p) ∧ h.Alien (instanceOf' p))) :
    known = semanticIdentityOf own resolutions instanceOf identityOf redactor ↔
      known = semanticIdentityOf own resolutions instanceOf' identityOf redactor := by
  have hnot : ∀ inst : String → Option String, ∀ r ∈ resolutions, ∀ p,
      r.providerEntryId = some p → h.Alien (inst p) →
      known ≠ semanticIdentityOf own resolutions inst identityOf redactor := by
    rintro inst r hr p hp ⟨id, hid, hnew⟩ rfl
    refine hnew (hd (dependencyBinding own.entryId inst identityOf r) ?_ id ?_)
    · rw [semanticIdentityOf_bindings]
      exact List.mem_map_of_mem (mem_sortedBy.2 hr)
    · show r.providerEntryId.bind inst = some id
      rw [hp]
      exact hid
  by_cases hall : ∀ r ∈ resolutions, r.providerEntryId.bind instanceOf =
      r.providerEntryId.bind instanceOf'
  · have hsame : bindingsOf own resolutions instanceOf identityOf =
        bindingsOf own resolutions instanceOf' identityOf := by
      refine List.map_congr_left fun r hr => ?_
      unfold dependencyBinding
      rw [hall r (mem_sortedBy.1 hr)]
    rw [semanticIdentityOf_instances instanceOf', hsame, ← semanticIdentityOf_bindings redactor]
  · obtain ⟨r, hr, hne⟩ : ∃ r ∈ resolutions, r.providerEntryId.bind instanceOf ≠
        r.providerEntryId.bind instanceOf' := by
      by_contra hnone
      exact hall fun r hr => by_contra fun hne => hnone ⟨r, hr, hne⟩
    cases hp : r.providerEntryId with
    | none =>
      rw [hp] at hne
      exact absurd rfl hne
    | some p =>
      rw [hp] at hne
      rcases hinst r hr p hp with heq | ⟨hin, hin'⟩
      · exact absurd heq hne
      · exact iff_of_false (hnot instanceOf r hr p hp hin) (hnot instanceOf' r hr p hp hin')

end

theorem not_issued_pending (h : Harness) (p : String) : ¬ h.Issued ("pending:" ++ p) := by
  rintro ⟨n, -, hn⟩
  have hchars := congrArg String.toList hn
  unfold freshId at hchars
  rw [String.toList_append, String.toList_append, String.toList_append] at hchars
  have hsecond : some 'e' = some 'l' := congrArg (fun l => l[1]?) hchars
  exact absurd hsecond (by decide)

theorem not_issued_fresh (h : Harness) {n : Nat} (hn : h.drawn ≤ n) :
    ¬ h.Issued (freshId "plugin" n) := by
  rintro ⟨m, hm, he⟩
  have hsame := freshId_injective "plugin" he
  omega

/-! ## what happens to one entry -/

theorem PluginRegistry.instance?_idsOf (r : PluginRegistry) (e : String) :
    r.instance? e = ((r.idsOf e).getLast?).bind r.instances.get? := by
  unfold PluginRegistry.instance? PluginRegistry.idsOf
  cases r.byEntry.get? e <;> rfl

/-- nothing but the instances of one entry, and what they registered, differs -/
structure Aside (e : String) (h h' : Harness) : Prop where
  entries : h'.plugins.entries = h.plugins.entries
  generations : h'.generations = h.generations
  drawn : h.drawn ≤ h'.drawn
  lists : ∀ e', e' ≠ e → h'.plugins.idsOf e' = h.plugins.idsOf e'
  instances : ∀ e', e' ≠ e → ∀ k ∈ h.plugins.idsOf e',
    h'.plugins.instances.get? k = h.plugins.instances.get? k
  mounted : h'.work.mounted = h.work.mounted
  reused : h'.work.reused = h.work.reused

/-- an instance that no other entry has -/
def Bystander (h : Harness) (e : String) (i : PluginInstance) : Prop :=
  i.entryId = e ∧ ∀ e', e' ≠ e → i.instanceId ∉ h.plugins.idsOf e'

section
variable {e : String} {h h₁ h₂ : Harness}

theorem Aside.refl (e : String) (h : Harness) : Aside e h h :=
  ⟨rfl, rfl, le_refl _, fun _ _ => rfl, fun _ _ _ _ => rfl, rfl, rfl⟩

theorem Aside.instance? (a : Aside e h h₁) {e' : String} (he : e' ≠ e) :
    h₁.plugins.instance? e' = h.plugins.instance? e' := by
  rw [PluginRegistry.instance?_idsOf, PluginRegistry.instance?_idsOf, a.lists e' he]
  cases hlast : (h.plugins.idsOf e').getLast? with
  | none => rfl
  | some k => exact a.instances e' he k (List.mem_of_getLast? hlast)

theorem Aside.same (a : Aside e h h₁) (hp : h₂.plugins = h₁.plugins)
    (hg : h₂.generations = h₁.generations) (hd : h₁.drawn ≤ h₂.drawn)
    (hm : h₂.work.mounted = h₁.work.mounted) (hr : h₂.work.reused = h₁.work.reused) :
    Aside e h h₂ where
  entries := by rw [hp]; exact a.entries
  generations := hg.trans a.generations
  drawn := a.drawn.trans hd
  lists := by rw [hp]; exact a.lists
  instances := by rw [hp]; exact a.instances
  mounted := hm.trans a.mounted
  reused := hr.trans a.reused

theorem Aside.update (a : Aside e h h₁) {i : PluginInstance} (hi : Bystander h e i)
    (f : PluginInstance → PluginInstance) : Aside e h (h₁.updateInstance i f) where
  entries := (PluginRegistry.entries_update _ _ _).trans a.entries
  generations := a.generations
  drawn := a.drawn
  lists := fun e' he => (PluginRegistry.idsOf_update _ _ _ e').trans (a.lists e' he)
  instances := by
    intro e' he k hk
    refine (PluginRegistry.get?_update _ _ _ k).trans ?_
    have hne : k ≠ i.instanceId := by
      rintro rfl
      exact hi.2 e' he hk
    rw [if_neg hne]
    exact a.instances e' he k hk
  mounted := a.mounted
  reused := a.reused

theorem Aside.forget (a : Aside e h h₁) {i : PluginInstance} (hi : Bystander h e i) :
    Aside e h { h₁ with plugins := h₁.plugins.forget i } where
  entries := a.entries
  generations := a.generations
  drawn := a.drawn
  lists := by
    intro e' he
    show (h₁.plugins.forget i).idsOf e' = _
    rw [PluginRegistry.idsOf_forget, hi.1, if_neg he]
    exact a.lists e' he
  instances := by
    intro e' he k hk
    show (h₁.plugins.forget i).instances.get? k = _
    have hne : k ≠ i.instanceId := by
      rintro rfl
      exact hi.2 e' he hk
    rw [PluginRegistry.get?_forget, if_neg hne]
    exact a.instances e' he k hk
  mounted := a.mounted
  reused := a.reused

theorem Aside.adopt (a : Aside e h h₁) {i : PluginInstance} (hi : Bystander h e i) :
    Aside e h (h₁.adopt i) where
  entries := a.entries
  generations := a.generations
  drawn := a.drawn.trans (Nat.le_add_right _ _)
  lists := by
    intro e' he
    show (h₁.plugins.adopt i).idsOf e' = _
    rw [PluginRegistry.idsOf_adopt, hi.1, if_neg he]
    exact a.lists e' he
  instances := by
    intro e' he k hk
    show (h₁.plugins.adopt i).instances.get? k = _
    have hne : k ≠ i.instanceId := by
      rintro rfl
      exact hi.2 e' he hk
    rw [PluginRegistry.get?_adopt, if_neg hne]
    exact a.instances e' he k hk
  mounted := a.mounted
  reused := a.reused

theorem aside_stable (e : String) (h : Harness) : Stable .alone (Aside e h) where
  holds := fun _ => trivial
  interferes := fun ha he _ => he ▸ ha
  learn := fun _ ha => ha.same rfl rfl (le_refl _) rfl rfl
  note := fun _ ha => ha.same rfl rfl (le_refl _) rfl rfl

theorem aside_disposable {i : PluginInstance} (hi : Bystander h e i) :
    Disposable .alone i (Aside e h) where
  toStable := aside_stable e h
  unload := fun ha => ha.update hi _
  close := fun ha => ha.same rfl rfl (le_refl _) rfl rfl
  forget := fun ha => ha.forget hi

/-- a new instance of the entry, and its newest -/
structure Newcomer (h : Harness) (e : String) (i : PluginInstance) (h₁ : Harness) : Prop where
  entry : i.entryId = e
  fresh : ∃ n, h.drawn ≤ n ∧ i.instanceId = freshId "plugin" n
  newest : (h₁.plugins.idsOf e).getLast? = some i.instanceId
  present : ∃ x, h₁.plugins.instances.get? i.instanceId = some x ∧ x.instanceId = i.instanceId

theorem Newcomer.apart (he : h.Enrolled) {i : PluginInstance} (hi : Newcomer h e i h₁) :
    Bystander h e i := by
  refine ⟨hi.entry, fun e' _ hk => ?_⟩
  obtain ⟨n, hn, hid⟩ := hi.fresh
  obtain ⟨x, hx, -⟩ := he.listed e' _ hk
  have hiss := he.issued _ x hx
  rw [hid] at hiss
  exact not_issued_fresh h hn hiss

theorem Newcomer.same {i : PluginInstance} (hi : Newcomer h e i h₁)
    (hp : h₂.plugins = h₁.plugins) : Newcomer h e i h₂ where
  entry := hi.entry
  fresh := hi.fresh
  newest := by rw [hp]; exact hi.newest
  present := by rw [hp]; exact hi.present

theorem Newcomer.update {i : PluginInstance} (hi : Newcomer h e i h₁)
    {f : PluginInstance → PluginInstance} (hf : ∀ x, (f x).instanceId = x.instanceId) :
    Newcomer h e i (h₁.updateInstance i f) where
  entry := hi.entry
  fresh := hi.fresh
  newest := (congrArg List.getLast? (PluginRegistry.idsOf_update _ _ _ e)).trans hi.newest
  present := by
    obtain ⟨x, hx, hxi⟩ := hi.present
    refine ⟨f x, (PluginRegistry.get?_update _ _ _ _).trans ?_, (hf x).trans hxi⟩
    rw [if_pos rfl, hx]
    rfl

theorem Newcomer.instance? {i : PluginInstance} (hi : Newcomer h e i h₁) :
    ∃ x, h₁.plugins.instance? e = some x ∧ x.instanceId = i.instanceId := by
  obtain ⟨x, hx, hxi⟩ := hi.present
  refine ⟨x, ?_, hxi⟩
  rw [PluginRegistry.instance?_idsOf, hi.newest]
  exact hx

theorem aside_mountable (he : h.Enrolled) (entry : PluginEntry) :
    Mountable .alone entry (Aside entry.entryId h)
      (fun i h₁ => Aside entry.entryId h h₁ ∧ Newcomer h entry.entryId i h₁) (fun _ _ => True) where
  toStable := aside_stable _ h
  adopt := by
    intro h₁ plan ha
    have hnew : Newcomer h entry.entryId (h₁.newInstance entry (h₁.resolutionsFor plan entry.entryId))
        (h₁.adopt (h₁.newInstance entry (h₁.resolutionsFor plan entry.entryId))) := by
      refine ⟨rfl, ⟨h₁.drawn, ha.drawn, rfl⟩, ?_, _, (PluginRegistry.get?_adopt _ _ _).trans
        (if_pos rfl), rfl⟩
      refine (congrArg List.getLast? ((PluginRegistry.idsOf_adopt _ _ _).trans (if_pos rfl))).trans ?_
      exact List.getLast?_concat
    exact ⟨ha.adopt (hnew.apart he), hnew⟩
  loading := fun i =>
    { holds := fun _ => trivial
      interferes := fun ha he _ => he ▸ ha
      learn := fun _ ha => ⟨ha.1.same rfl rfl (le_refl _) rfl rfl, ha.2.same rfl⟩
      note := fun _ ha => ⟨ha.1.same rfl rfl (le_refl _) rfl rfl, ha.2.same rfl⟩ }
  setup := by
    intro i h₁ answer ha
    obtain ⟨caps, tools, hooks, n, d, r, hd, heq⟩ := h₁.afterSetup_eq i answer
    rw [heq]
    exact ⟨ha.1.same rfl rfl hd rfl rfl, ha.2.same rfl⟩
  close := fun ha => ⟨ha.1.same rfl rfl (le_refl _) rfl rfl, ha.2.same rfl⟩
  fail := fun ha => ⟨ha.1.update (ha.2.apart he) _, ha.2.update fun _ => rfl⟩
  activate := fun _ _ => trivial
  mounted := fun _ =>
    { holds := fun _ => trivial, interferes := fun _ _ _ => trivial, learn := fun _ _ => trivial
      note := fun _ _ => trivial }
  record := fun _ => trivial

def Harness.recordMount (h : Harness) (i : PluginInstance) : Harness :=
  { h with work := { h.work with mounted := h.work.mounted ++ [i] } }

/-- **A mount that succeeds** gives the entry a new instance, which it records, and leaves the others
as they were. -/
theorem mountEntry_aside (he : h.Enrolled) (plan : ResolutionPlan) (entry : PluginEntry)
    (identity : SemanticIdentity) (existing : Option PluginInstance)
    (ha : Aside entry.entryId h h₁) :
    (mountEntry plan entry identity existing).wp .alone (Prog.ends (fun i h₂ => ∃ h₃,
      Aside entry.entryId h h₃ ∧ Newcomer h entry.entryId i h₃ ∧ h₂ = h₃.recordMount i)
      fun _ => True) h₁ := by
  have hmt := aside_mountable he entry
  refine Prog.wp_bind_of (observed_inv hmt.toStable _ ha) (fun _ _ h₂ ha₂ => ?_)
    (fun _ _ _ _ => trivial)
  show (mount entry _ _ >>= _ : Task PluginInstance).wp .alone _ h₂
  refine Prog.wp_bind_of (mount_inv hmt plan _ ha₂) (fun _ i' h₃ hi => ?_) (fun _ _ _ _ => trivial)
  obtain ⟨i, h₄, ⟨ha₄, hnew⟩, rfl, rfl⟩ := hi
  have hactive := hnew.update (f := fun x => { x with state := .active }) fun _ => rfl
  have hnamed := hactive.update (f := fun x => { x with semanticIdentity := some identity })
    fun _ => rfl
  have haside := (ha₄.update (hnew.apart he) fun x => { x with state := .active }).update
    (hnew.apart he) fun x => { x with semanticIdentity := some identity }
  show (observed _ >>= _ : Task PluginInstance).wp .alone _
    ((h₄.updateInstance i fun x => { x with state := .active }).updateInstance i
      fun x => { x with semanticIdentity := some identity })
  have hst : Stable .alone fun h₅ => Aside entry.entryId h h₅ ∧
      Newcomer h entry.entryId { i with state := .active, semanticIdentity := some identity } h₅ :=
    { holds := fun _ => trivial
      interferes := fun ha he _ => he ▸ ha
      learn := fun _ ha => ⟨ha.1.same rfl rfl (le_refl _) rfl rfl, ha.2.same rfl⟩
      note := fun _ ha => ⟨ha.1.same rfl rfl (le_refl _) rfl rfl, ha.2.same rfl⟩ }
  refine Prog.wp_bind_of (observed_inv hst _ ⟨haside, hnamed.entry, hnamed.fresh, hnamed.newest,
    hnamed.present⟩) (fun _ _ h₅ ha₅ => ?_) (fun _ _ _ _ => trivial)
  exact ⟨h₅, ha₅.1, ha₅.2, rfl⟩

end

/-! ## a forecast and its pass -/

def Harness.idsAt (h : Harness) (l : List String) : List String :=
  l.filterMap fun e => (h.plugins.instance? e).map PluginInstance.instanceId

/-- what the action on an activated entry says, if the desired state stays as it is -/
structure Harness.Forecast.Foretold (h : Harness) (e : String) (reuse : Bool) (a : PlanAction) :
    Prop where
  entry : a.entryId = some e
  reused : a.expectedReuse = reuse
  impact : a.generationImpact = if reuse then .none else .newGeneration
  action : a.action = if reuse then .reuse
    else if (h.plugins.instance? e).isSome then .rebuild else .add
  carried : reuse = true → ∃ i, h.plugins.instance? e = some i ∧ a.instanceId = some i.instanceId

/-- what a forecast of the entries `done` says of a pass over them, from `h` to `h'` -/
structure Foresees (h : Harness) (done : List String) (f : Harness.Forecast) (p : Progress)
    (h' : Harness) : Prop where
  entries : h'.plugins.entries = h.plugins.entries
  generations : h'.generations = h.generations
  drawn : h.drawn ≤ h'.drawn
  decided : ∀ e, f.reused.get? e = none ↔ e ∉ done
  identified : ∀ e, f.identities.get? e = none ↔ e ∉ done
  acted : ∀ e, f.actions.get? e = none ↔ e ∉ done
  told : ∀ e a, f.actions.get? e = some a →
    ∃ reuse, f.reused.get? e = some reuse ∧ Harness.Forecast.Foretold h e reuse a
  digests : ∀ e, (p.identities.get? e).map SemanticIdentity.identityDigest =
    (f.identities.get? e).map SemanticIdentity.identityDigest
  standing : ∀ e, f.reused.get? e ≠ some false → h'.plugins.instance? e = h.plugins.instance? e
  renewed : ∀ e, f.reused.get? e = some false → ∃ i n, h'.plugins.instance? e = some i ∧
    h.drawn ≤ n ∧ i.instanceId = freshId "plugin" n
  mounted : h'.work.mounted.map PluginInstance.entryId =
    done.filter fun e => f.reused.get? e = some false
  reused : h'.work.reused = done.filter fun e => f.reused.get? e = some true
  ordered : p.ordered.map PluginInstance.instanceId = h'.idsAt done
  still : (∀ e ∈ done, f.reused.get? e = some true) →
    p.ordered = done.filterMap h.plugins.instance? ∧ h' = { h with work := h'.work }

section
variable {h h' : Harness} {plan : ResolutionPlan} {done : List String} {f : Harness.Forecast}
  {p : Progress}

theorem Foresees.identityOf (hf : Foresees h done f p h') :
    h'.identityOf p.identities = h.identityOf f.identities := by
  funext provider
  have hdigest := hf.digests provider
  unfold Harness.identityOf
  cases hget : f.identities.get? provider with
  | none =>
    rw [hget, Option.map_none, Option.map_eq_none_iff] at hdigest
    have hout := (hf.identified provider).1 hget
    have hnot : f.reused.get? provider ≠ some false := by
      rw [(hf.decided provider).2 hout]
      exact Option.some_ne_none false ∘ Eq.symm
    rw [hdigest, hf.standing provider hnot]
  | some known =>
    rw [hget, Option.map_some] at hdigest
    obtain ⟨known', hget', hsame⟩ := Option.map_eq_some_iff.1 hdigest
    rw [hget']
    exact congrArg some hsame

/-- and they are the instances that were forecast, unless neither was there before -/
theorem Foresees.instanceOf (hf : Foresees h done f p h') (provider : String) :
    (h'.plugins.instance? provider).map PluginInstance.instanceId =
        h.predictedInstance f.reused provider ∨
      (h.Alien ((h'.plugins.instance? provider).map PluginInstance.instanceId) ∧
        h.Alien (h.predictedInstance f.reused provider)) := by
  unfold Harness.predictedInstance
  by_cases hnew : f.reused.get? provider = some false
  · obtain ⟨i, n, hi, hn, hid⟩ := hf.renewed provider hnew
    rw [if_pos hnew, hi]
    refine Or.inr ⟨⟨freshId "plugin" n, congrArg some hid, not_issued_fresh h hn⟩, ?_⟩
    exact ⟨"pending:" ++ provider, rfl, not_issued_pending h provider⟩
  · rw [if_neg hnew, hf.standing provider hnew]
    exact Or.inl rfl

/-- **The identity of the next entry was forecast**, up to instances that were not there before. -/
theorem Foresees.identity (hf : Foresees h done f p h') (hred : h'.redactor = h.redactor)
    {entry : PluginEntry} {identity : SemanticIdentity}
    (hid : h'.semanticIdentity entry plan p.identities = .ok identity) :
    ∃ identity', h.predictedIdentity entry plan f = .ok identity' ∧
      identity.identityDigest = identity'.identityDigest ∧
      ∀ known, h.Dates known → (known = identity ↔ known = identity') := by
  obtain ⟨hdata, rfl⟩ := buildSemanticIdentity_ok.1 hid
  refine ⟨_, buildSemanticIdentity_ok.2 ⟨hdata, rfl⟩, ?_, fun known hd => ?_⟩
  · rw [hf.identityOf, hred]
    exact semanticIdentityOf_digest
  · rw [hf.identityOf, hred]
    exact recorded_iff hd fun r _ provider _ => hf.instanceOf provider

theorem Foresees.reusable (hf : Foresees h done f p h') (he : h.Enrolled) {entry : PluginEntry}
    {identity identity' : SemanticIdentity} (hout : entry.entryId ∉ done)
    (hsame : ∀ known, h.Dates known → (known = identity ↔ known = identity'))
    {i : PluginInstance} : h'.reusable entry identity = some i ↔
      h.plugins.instance? entry.entryId = some i ∧
        Harness.matchesEntry entry identity' (h.plugins.instance? entry.entryId) = true := by
  have hstands : h'.plugins.instance? entry.entryId = h.plugins.instance? entry.entryId := by
    refine hf.standing _ ?_
    rw [(hf.decided _).2 hout]
    exact Option.some_ne_none false ∘ Eq.symm
  rw [Harness.reusable_eq_some, hstands]
  refine and_congr_right fun hi => ?_
  have hknown : i.semanticIdentity = some identity ↔ i.semanticIdentity = some identity' := by
    cases hs : i.semanticIdentity with
    | none => exact iff_of_false (Option.some_ne_none _ ∘ Eq.symm) (Option.some_ne_none _ ∘ Eq.symm)
    | some known =>
      have hd := he.dated _ i known (he.instance? hi).2.1 hs
      rw [Option.some_inj, Option.some_inj]
      exact hsame known hd
  rw [hi]
  unfold Harness.matchesEntry
  simp only [Bool.and_eq_true, decide_eq_true_eq, and_assoc, hknown]

theorem filter_decided {reused : Dict String Bool} {e : String} {b c : Bool} (hout : e ∉ done) :
    (done ++ [e]).filter (fun e' => (reused.set e b).get? e' = some c) =
      done.filter (fun e' => reused.get? e' = some c) ++ if b = c then [e] else [] := by
  rw [List.filter_append]
  refine congrArg₂ _ (List.filter_congr fun e' he' => ?_) ?_
  · have hne : e' ≠ e := by
      rintro rfl
      exact hout he'
    rw [Dict.get?_set, if_neg hne]
  · rw [List.filter_singleton, Dict.get?_set_self]
    simp only [Option.some_inj]
    split <;> simp_all

theorem filterMap_concat {α β : Type*} (g : α → Option β) (l : List α) (a : α) :
    (l ++ [a]).filterMap g = l.filterMap g ++ (g a).toList := by
  rw [List.filterMap_append]
  cases hg : g a with
  | none => rw [List.filterMap_cons_none hg]; rfl
  | some b => rw [List.filterMap_cons_some hg]; rfl

theorem decided_set {α : Type*} {d : Dict String α} {e : String} {a : α}
    (hd : ∀ e', d.get? e' = none ↔ e' ∉ done) (e' : String) :
    (d.set e a).get? e' = none ↔ e' ∉ done ++ [e] := by
  rw [Dict.get?_set, List.mem_append, List.mem_singleton, not_or, ← hd e']
  split
  · rename_i he
    exact iff_of_false (Option.some_ne_none a) fun h => h.2 he
  · rename_i hne
    exact (and_iff_left hne).symm

theorem digests_set {d d' : Dict String SemanticIdentity} {e : String}
    {identity identity' : SemanticIdentity}
    (hsame : identity.identityDigest = identity'.identityDigest)
    (hd : ∀ e', (d.get? e').map SemanticIdentity.identityDigest =
      (d'.get? e').map SemanticIdentity.identityDigest) (e' : String) :
    ((d.set e identity).get? e').map SemanticIdentity.identityDigest =
      ((d'.set e identity').get? e').map SemanticIdentity.identityDigest := by
  rw [Dict.get?_set, Dict.get?_set]
  split
  · exact congrArg some hsame
  · exact hd e'

theorem Foresees.told_set (hf : Foresees h done f p h') {e : String} {reuse : Bool} {a : PlanAction}
    (ha : Harness.Forecast.Foretold h e reuse a) (e' : String) (a' : PlanAction)
    (hget : (f.actions.set e a).get? e' = some a') : ∃ reuse',
      (f.reused.set e reuse).get? e' = some reuse' ∧
        Harness.Forecast.Foretold h e' reuse' a' := by
  rw [Dict.get?_set] at hget ⊢
  split at hget
  · rename_i he
    cases hget
    rw [if_pos he, he]
    exact ⟨reuse, rfl, ha⟩
  · rename_i hne
    rw [if_neg hne]
    exact hf.told e' a' hget

section
variable {e : String} {identity identity' : SemanticIdentity} {a : PlanAction}
  (hf : Foresees h done f p h') (hout : e ∉ done)
  (hsame : identity.identityDigest = identity'.identityDigest)
include hf hout hsame

theorem Foresees.carried {i : PluginInstance} (hi : h.plugins.instance? e = some i)
    (ha : Harness.Forecast.Foretold h e true a) :
    Foresees h (done ++ [e])
      ⟨f.identities.set e identity', f.reused.set e true, f.actions.set e a⟩
      ⟨p.ordered ++ [i], p.identities.set e identity⟩
      { h' with work := { h'.work with reused := h'.work.reused ++ [e] } } := by
  have hreused : ∀ e', (f.reused.set e true).get? e' = some false ↔
      f.reused.get? e' = some false := by
    intro e'
    rw [Dict.get?_set]
    split
    · rename_i he
      rw [he, (hf.decided e).2 hout]
      exact iff_of_false (by decide) (by decide)
    · exact Iff.rfl
  have hstands : h'.plugins.instance? e = some i := by
    rw [← hi]
    refine hf.standing e ?_
    rw [(hf.decided e).2 hout]
    exact Option.some_ne_none false ∘ Eq.symm
  constructor
  · exact hf.entries
  · exact hf.generations
  · exact hf.drawn
  · exact decided_set hf.decided
  · exact decided_set hf.identified
  · exact decided_set hf.acted
  · exact hf.told_set ha
  · exact digests_set hsame hf.digests
  · exact fun e' hne => hf.standing e' fun he => hne ((hreused e').2 he)
  · exact fun e' he => hf.renewed e' ((hreused e').1 he)
  · rw [filter_decided hout, if_neg (by decide), List.append_nil]
    exact hf.mounted
  · rw [filter_decided hout, if_pos rfl]
    exact congrArg (· ++ [e]) hf.reused
  · rw [List.map_append, hf.ordered]
    unfold Harness.idsAt
    rw [filterMap_concat, hstands]
    rfl
  · intro hall
    obtain ⟨hordered, hrest⟩ := hf.still fun e' he' => by
      have hne : e' ≠ e := by
        rintro rfl
        exact hout he'
      have hset := hall e' (List.mem_append_left _ he')
      rw [Dict.get?_set, if_neg hne] at hset
      exact hset
    refine ⟨?_, ?_⟩
    · rw [filterMap_concat, hi, hordered]
      rfl
    · rw [hrest]

theorem Foresees.replaced {h₃ : Harness} {i : PluginInstance} (hside : Aside e h' h₃)
    (hnew : Newcomer h' e i h₃) (ha : Harness.Forecast.Foretold h e false a) :
    Foresees h (done ++ [e])
      ⟨f.identities.set e identity', f.reused.set e false, f.actions.set e a⟩
      ⟨p.ordered ++ [i], p.identities.set e identity⟩ (h₃.recordMount i) := by
  have hother : ∀ e', e' ≠ e → (h₃.recordMount i).plugins.instance? e' = h'.plugins.instance? e' :=
    fun e' hne => hside.instance? hne
  obtain ⟨x, hx, hxi⟩ := hnew.instance?
  constructor
  · exact hside.entries.trans hf.entries
  · exact hside.generations.trans hf.generations
  · exact hf.drawn.trans hside.drawn
  · exact decided_set hf.decided
  · exact decided_set hf.identified
  · exact decided_set hf.acted
  · exact hf.told_set ha
  · exact digests_set hsame hf.digests
  · intro e' hne
    rw [Dict.get?_set] at hne
    split at hne
    · exact absurd rfl hne
    · rename_i hother'
      rw [hother e' hother']
      exact hf.standing e' hne
  · intro e' he'
    rw [Dict.get?_set] at he'
    split at he'
    · rename_i hee
      obtain ⟨n, hn, hid⟩ := hnew.fresh
      exact ⟨x, n, hee ▸ hx, hf.drawn.trans hn, hxi.trans hid⟩
    · rename_i hother'
      rw [hother e' hother']
      exact hf.renewed e' he'
  · rw [filter_decided hout, if_pos rfl]
    show (h₃.work.mounted ++ [i]).map PluginInstance.entryId = _
    rw [List.map_append, hside.mounted, hf.mounted, List.map_singleton, hnew.entry]
  · rw [filter_decided hout, if_neg (by decide), List.append_nil]
    exact hside.reused.trans hf.reused
  · have hbefore : (h₃.recordMount i).idsAt done = h'.idsAt done := by
      refine List.filterMap_congr fun e' he' => ?_
      rw [hother e' fun h => hout (h ▸ he')]
    unfold Harness.idsAt at hbefore ⊢
    rw [filterMap_concat, hbefore, List.map_append, hf.ordered]
    refine congrArg (h'.idsAt done ++ ·) ?_
    show [i.instanceId] = ((h₃.plugins.instance? e).map PluginInstance.instanceId).toList
    rw [hx, Option.map_some, hxi]
    rfl
  · intro hall
    have hset := hall e (List.mem_append_right _ (List.mem_singleton_self e))
    rw [Dict.get?_set_self] at hset
    cases hset

end
/-! ## one turn of a forecast -/

theorem planAction_foretold {entry : PluginEntry} {identity : SemanticIdentity} :
    ∃ a, h.planAction entry none identity (h.plugins.instance? entry.entryId)
        (Harness.matchesEntry entry identity (h.plugins.instance? entry.entryId)) = .ok a ∧
      Harness.Forecast.Foretold h entry.entryId
        (Harness.matchesEntry entry identity (h.plugins.instance? entry.entryId)) a := by
  unfold Harness.planAction
  cases hi : h.plugins.instance? entry.entryId with
  | none =>
    refine ⟨_, rfl, rfl, rfl, rfl, ?_, fun hreuse => absurd hreuse Bool.false_ne_true⟩
    rw [hi]
    rfl
  | some i =>
    cases hm : Harness.matchesEntry entry identity (some i) with
    | true => exact ⟨_, rfl, rfl, rfl, rfl, rfl, fun _ => ⟨i, hi, rfl⟩⟩
    | false =>
      refine ⟨_, rfl, rfl, rfl, rfl, ?_, fun hreuse => absurd hreuse Bool.false_ne_true⟩
      rw [hi]
      rfl

/-- **One turn of a preview of the desired state.** -/
theorem Harness.Named.foreseeEntry (hn : h.Named) {e : String} {entry : PluginEntry}
    (hent : h.plugins.entry? e = some entry) {identity : SemanticIdentity}
    (hid : h.predictedIdentity entry plan f = .ok identity) :
    ∃ a, h.foreseeEntry plan h.outlook.entries h.outlook.changes f e = .ok
        ⟨f.identities.set e identity,
          f.reused.set e (Harness.matchesEntry entry identity (h.plugins.instance? e)),
          f.actions.set e a⟩ ∧
      Harness.Forecast.Foretold h e
        (Harness.matchesEntry entry identity (h.plugins.instance? e)) a := by
  obtain rfl := hn e entry hent
  obtain ⟨a, ha, htold⟩ : ∃ a, h.planAction entry none identity (h.plugins.instance? entry.entryId)
      (Harness.matchesEntry entry identity (h.plugins.instance? entry.entryId)) = .ok a ∧
      Harness.Forecast.Foretold h entry.entryId
        (Harness.matchesEntry entry identity (h.plugins.instance? entry.entryId)) a :=
    planAction_foretold
  refine ⟨a, ?_, htold⟩
  unfold Harness.foreseeEntry
  rw [hn.outlook_get?, hent]
  simp only
  rw [hid]
  show (h.planAction entry none identity _ (true && _) >>= fun action => _) = _
  rw [Bool.true_and, ha]
  rfl

end

/-! ## a pass -/

section
variable {h h' : Harness} {plan : ResolutionPlan} {done : List String} {f : Harness.Forecast}
  {p : Progress}

theorem Harness.Enrolled.apart (he : h'.Enrolled) {e : String} {i : PluginInstance}
    (hi : h'.plugins.instance? e = some i) : Bystander h' e i := by
  obtain ⟨hentry, hget, -⟩ := he.instance? hi
  refine ⟨hentry, fun e' hne hk => ?_⟩
  obtain ⟨x, hx, hxe⟩ := he.listed e' _ hk
  obtain rfl := Option.some.inj (hget.symm.trans hx)
  exact hne (hxe.symm.trans hentry)

/-- **One turn** does to the next entry what was forecast. -/
theorem Foresees.turn (hf : Foresees h done f p h') (hn : h.Named) (he : h.Enrolled)
    (he' : h'.Enrolled) (hred : h'.redactor = h.redactor) {e : String} (hout : e ∉ done)
    {entry : PluginEntry} (hent : h.plugins.entry? e = some entry) :
    (materializeEntry plan p e).wp .alone (Prog.ends (fun p' h'' => ∃ f',
      h.foreseeEntry plan h.outlook.entries h.outlook.changes f e = .ok f' ∧
        Foresees h (done ++ [e]) f' p' h'') fun _ => True) h' := by
  have hname : entry.entryId = e := hn e entry hent
  unfold materializeEntry
  rw [Prog.wp_gets_bind]
  simp only [id_eq]
  have hent' : h'.plugins.entry? e = some entry := by
    show h'.plugins.entries.get? e = some entry
    rw [hf.entries]
    exact hent
  rw [hent']
  simp only
  refine Prog.wp_ofExcept_bind (fun identity hid => ?_) fun _ _ => trivial
  obtain ⟨identity', hid', hdigest, hknown⟩ := hf.identity hred hid
  obtain ⟨a, hturn, htold⟩ := hn.foreseeEntry hent hid'
  have hreusable : ∀ {i}, h'.reusable entry identity = some i ↔ h.plugins.instance? e = some i ∧
      Harness.matchesEntry entry identity' (h.plugins.instance? e) = true := by
    intro i
    rw [hf.reusable he (by rw [hname]; exact hout) hknown, hname]
  cases hr : h'.reusable entry identity with
  | some existing =>
    obtain ⟨hi, hmatch⟩ := hreusable.1 hr
    rw [hmatch] at hturn htold
    exact ⟨_, hturn, hf.carried hout hdigest hi htold⟩
  | none =>
    have hmatch : Harness.matchesEntry entry identity' (h.plugins.instance? e) = false := by
      rw [← Bool.not_eq_true]
      intro hm
      cases hi : h.plugins.instance? e with
      | none =>
        rw [hi] at hm
        cases hm
      | some i =>
        rw [hreusable.2 ⟨hi, hm⟩] at hr
        cases hr
    rw [hmatch] at hturn htold
    have hmount : ∀ h₁, Aside e h' h₁ → (do
        let i ← mountEntry plan entry identity (h'.plugins.instance? e)
        return ⟨p.ordered ++ [i], p.identities.set e identity⟩ : Task Progress).wp .alone
        (Prog.ends (fun p' h'' => ∃ f',
          h.foreseeEntry plan h.outlook.entries h.outlook.changes f e = .ok f' ∧
            Foresees h (done ++ [e]) f' p' h'') fun _ => True) h₁ := by
      intro h₁ ha
      refine Prog.wp_bind_of (mountEntry_aside he' plan entry identity _ (hname.symm ▸ ha))
        (fun _ i h₂ hi => ?_) (fun _ _ _ _ => trivial)
      obtain ⟨h₃, ha₃, hnew, rfl⟩ := hi
      rw [hname] at ha₃ hnew
      exact ⟨_, hturn, hf.replaced hout hdigest ha₃ hnew htold⟩
    simp only
    split
    · rename_i failed hfailed
      obtain ⟨hi, -⟩ := Option.filter_eq_some_iff.1 hfailed
      exact Prog.wp_bind_of (disposeInstance_inv (aside_disposable (he'.apart hi)) (.refl e h'))
        (fun _ _ h₁ ha => hmount h₁ ha) (fun _ _ _ _ => trivial)
    · exact hmount h' (.refl e h')

/-! ## what the redactor knows -/

theorem prefix_learned (secrets : List String) (r : Redactor) : r <+: secrets.foldl Redactor.add r := by
  induction secrets generalizing r with
  | nil => exact List.prefix_refl r
  | cons v rest ih =>
    refine List.IsPrefix.trans ?_ (ih (r.add v))
    unfold Redactor.add
    split
    · exact List.prefix_refl r
    · exact List.prefix_append r [v]

theorem Harness.afterSetup_redactor (h : Harness) (i : PluginInstance) (a : SetupAnswer) :
    (h.afterSetup i a).redactor = a.secrets.foldl Redactor.add h.redactor := by
  have hcaps : (a.capabilities.foldl (fun h c => h.provideCapability i c) h).redactor =
      h.redactor := by
    refine List.foldlRecOn (motive := fun h' : Harness => h'.redactor = h.redactor) _ _ rfl ?_
    intro h' hr c _
    rw [← hr]
    unfold Harness.provideCapability
    split
    · rfl
    · split <;> rfl
  have htools : (a.tools.foldl (fun h t => h.registerTool i t)
      (a.capabilities.foldl (fun h c => h.provideCapability i c) h)).redactor = h.redactor := by
    refine List.foldlRecOn (motive := fun h' : Harness => h'.redactor = h.redactor) _ _ hcaps ?_
    intro h' hr t _
    rw [← hr]
    unfold Harness.registerTool
    split <;> rfl
  have hhooks : (a.hooks.foldl (fun h d => h.registerHook i d) (a.tools.foldl
      (fun h t => h.registerTool i t) (a.capabilities.foldl
        (fun h c => h.provideCapability i c) h))).redactor = h.redactor := by
    refine List.foldlRecOn (motive := fun h' : Harness => h'.redactor = h.redactor) _ _ htools ?_
    intro h' hr d _
    exact hr
  exact congrArg (fun r => a.secrets.foldl Redactor.add r) hhooks

theorem retains_enduring (r : Redactor) : Enduring .alone fun h => r <+: h.redactor where
  holds := fun _ => trivial
  interferes := fun hr he _ => he ▸ hr
  learn := fun secrets hr => hr.trans (prefix_learned secrets _)
  note := fun _ hr => hr
  update := fun _ _ hr => hr
  adopt := fun _ hr => hr
  forget := fun _ hr => hr
  setup := by
    intro h i a hr
    rw [h.afterSetup_redactor]
    exact hr.trans (prefix_learned a.secrets _)
  close := fun _ hr => hr
  mounted := fun _ hr => hr
  reused := fun _ hr => hr
  report := fun _ hr => hr
  retire := fun _ hr => hr
  refresh := fun hr => hr
  work := fun _ hr => hr
  publish := fun _ _ hr => hr
  conclude := fun _ _ hr => hr

/-- what held along the way, if nothing was learned on the way -/
theorem unlearned {r r' r'' : Redactor} (ha : r <+: r') (hb : r' <+: r'') (he : r'' = r) :
    r' = r := by
  subst he
  exact List.IsPrefix.eq_of_length ha (le_antisymm ha.length_le hb.length_le) |>.symm

/-! ## the whole pass -/

theorem materializeEntry_alone (plan : ResolutionPlan) (p : Progress) (e : String)
    (he : h.Enrolled) : (materializeEntry plan p e).wp .alone (fun _ _ h' => h'.Enrolled) h := by
  refine Prog.wp_stricter (materializeEntry_enrolled plan p e he) ?_ (fun _ _ _ => trivial)
    fun _ => Iff.rfl
  rintro _ h₁ rfl
  exact .refl h₁

theorem foldlM_concat {α β : Type} {g : β → α → Except Err β} {l : List α} {a : α} {b b' c : β}
    (hl : l.foldlM g b = .ok b') (ha : g b' a = .ok c) : (l ++ [a]).foldlM g b = .ok c := by
  rw [List.foldlM_append, hl]
  show List.foldlM g b' [a] = _
  rw [List.foldlM_cons, ha]
  rfl

def Harness.forecast (h : Harness) (plan : ResolutionPlan) (l : List String) :
    Except Err Harness.Forecast :=
  l.foldlM (h.foreseeEntry plan h.outlook.entries h.outlook.changes) {}

/-- **A pass does what was forecast of it**, unless the redactor learns something meanwhile. -/
theorem materialize_foreseen (hn : h.Named) (he : h.Enrolled) (hm : h.work.mounted = [])
    (hr : h.work.reused = []) (hnodup : plan.activationOrder.Nodup)
    (hentries : ∀ e ∈ plan.activationOrder, ∃ entry, h.plugins.entry? e = some entry) :
    (materialize plan).wp .alone (Prog.ends (fun instances h' => h.redactor <+: h'.redactor ∧
      (h'.redactor = h.redactor → ∃ f p, h.forecast plan plan.activationOrder = .ok f ∧
        p.ordered = instances ∧ Foresees h plan.activationOrder f p h')) fun _ => True) h := by
  let Inv (left : List String) (p : Progress) (h' : Harness) : Prop :=
    h'.Enrolled ∧ h.redactor <+: h'.redactor ∧ (h'.redactor = h.redactor → ∃ done f,
      plan.activationOrder = done ++ left ∧ h.forecast plan done = .ok f ∧ Foresees h done f p h')
  have hstart : Foresees h [] {} {} h := by
    constructor
    · rfl
    · rfl
    · exact le_refl _
    · exact fun e => iff_of_true rfl List.not_mem_nil
    · exact fun e => iff_of_true rfl List.not_mem_nil
    · exact fun e => iff_of_true rfl List.not_mem_nil
    · exact fun e a ha => absurd ha (Option.some_ne_none a ∘ Eq.symm)
    · exact fun _ => rfl
    · exact fun _ _ => rfl
    · exact fun e he => absurd he (Option.some_ne_none false ∘ Eq.symm)
    · rw [hm]
      rfl
    · exact hr
    · rfl
    · exact fun _ => ⟨rfl, rfl⟩
  have hloop : (plan.activationOrder.foldlM (materializeEntry plan) {}).wp .alone
      (Prog.ends (Inv []) fun _ => True) h := by
    refine Prog.wp_foldlM_rest (A := Inv) ?_
      ⟨he, List.prefix_refl _, fun _ => ⟨[], {}, rfl, rfl, hstart⟩⟩
    rintro p e left h₁ ⟨he₁, hred₁, hf₁⟩
    have hkeeps := Prog.wp_and (materializeEntry_alone plan p e he₁)
      (materializeEntry_inv (retains_enduring h₁.redactor).toRobust.turning plan p e
        (List.prefix_refl _))
    by_cases hsame : h₁.redactor = h.redactor
    · obtain ⟨done, f, horder, hforecast, hf⟩ := hf₁ hsame
      have hmem : e ∈ plan.activationOrder := by
        rw [horder]
        exact List.mem_append_right _ List.mem_cons_self
      have hout : e ∉ done := by
        rw [horder, List.nodup_append] at hnodup
        exact fun hd => hnodup.2.2 e hd e List.mem_cons_self rfl
      obtain ⟨entry, hent⟩ := hentries e hmem
      refine Prog.wp_mono (Prog.wp_and hkeeps (hf.turn hn he he₁ hsame hout hent)) ?_
      rintro tr r h₂ ⟨⟨he₂, hred₂⟩, hturn⟩
      cases r with
      | error e => trivial
      | ok p' =>
        obtain ⟨f', hf', hforesees⟩ := hturn
        refine ⟨he₂, hred₁.trans hred₂, fun _ => ⟨done ++ [e], f', ?_, ?_, hforesees⟩⟩
        · rw [horder, List.append_assoc]
          rfl
        · exact foldlM_concat hforecast hf'
    · refine Prog.wp_mono hkeeps ?_
      rintro tr r h₂ ⟨he₂, hred₂⟩
      cases r with
      | error e => trivial
      | ok p' =>
        exact ⟨he₂, hred₁.trans hred₂, fun hback => absurd (unlearned hred₁ hred₂ hback) hsame⟩
  refine Prog.wp_bind_of hloop (fun _ p h' hp => ?_) (fun _ _ _ _ => trivial)
  obtain ⟨-, hred, hf⟩ := hp
  refine ⟨hred, fun hsame => ?_⟩
  obtain ⟨done, f, horder, hforecast, hforesees⟩ := hf hsame
  rw [List.append_nil] at horder
  subst horder
  exact ⟨f, p, hforecast, rfl, hforesees⟩

end

end
end Chassis
