import Chassis.Core.Accounting
import Chassis.Harness.Frame
import Chassis.Harness.Invariance

/-!
# What the control plane keeps, and what it keeps beside it

* `Harness.Safe`       the leases are accounted for, and what a live generation reaches is active;
* `Guarded K D h`      moreover the instances `K` are active, and no live generation reaches `D`;
* `Extra N E`          `E` survives every effect of the control plane that respects this, on
                       instances that satisfy `N`;
* `stage_keeps`, `conclude_keeps`, `job_keeps`   every program of the control plane keeps `Safe`,
                       and whatever survives its effects beside it;
* `upheld_monitored`, `upheld_run`   so whatever the other tasks uphold as well holds in every run.
-/

set_option linter.unusedSectionVars false

namespace Chassis
open Py Coop

section
variable [Packaging] [Platform]

namespace Harness

/-- in the registry, and active -/
def Active (h : Harness) (id : String) : Prop :=
  ∃ i, h.plugins.instances.get? id = some i ∧ i.state = .active

structure Safe (h : Harness) : Prop where
  accounted : h.generations.Accounted h.runs
  keyed : h.plugins.Keyed
  drawn : ∀ k i, h.plugins.instances.get? k = some i → ∃ n < h.drawn, k = freshId "plugin" n
  reached : ∀ id ∈ h.generations.reachableInstanceIds, h.Active id

end Harness

/-- the instances `K` are active, and no live generation reaches `D` -/
structure Guarded (K D : List String) (h : Harness) : Prop extends h.Safe where
  kept : ∀ id ∈ K, h.Active id
  free : ∀ id ∈ D, id ∉ h.generations.reachableInstanceIds

/-- What others do meanwhile: nothing to the instances, and of the generations to their leases
only. -/
structure Undisturbed (h h' : Harness) : Prop where
  instances : h'.plugins.instances = h.plugins.instances
  drawn : h.drawn ≤ h'.drawn
  footprint : h'.generations.footprint = h.generations.footprint
  mounted : h'.work.mounted = h.work.mounted

theorem SameHoldings.undisturbed {h h' : Harness} (a : SameHoldings h h') : Undisturbed h h' where
  instances := a.instances
  drawn := a.drawn
  footprint := by rw [a.generations]
  mounted := a.mounted

theorem Undisturbed.refl (h : Harness) : Undisturbed h h := ⟨rfl, le_refl _, rfl, rfl⟩

theorem Undisturbed.trans {h h' h'' : Harness} (a : Undisturbed h h') (b : Undisturbed h' h'') :
    Undisturbed h h'' where
  instances := b.instances.trans a.instances
  drawn := a.drawn.trans b.drawn
  footprint := b.footprint.trans a.footprint
  mounted := b.mounted.trans a.mounted

section
variable {h h' : Harness} (u : Undisturbed h h')
include u

theorem Undisturbed.active {id : String} (ha : h.Active id) : h'.Active id := by
  unfold Harness.Active
  rw [u.instances]
  exact ha

theorem Undisturbed.reachable (id : String) : id ∈ h'.generations.reachableInstanceIds ↔
    id ∈ h.generations.reachableInstanceIds := by
  rw [GenerationManager.mem_reachable_footprint, GenerationManager.mem_reachable_footprint,
    u.footprint]

end

section
variable {K D : List String} {h h' : Harness}

theorem Harness.Safe.of_same (hs : h.Safe) (a : SameHoldings h h') : h'.Safe where
  accounted := by
    rw [a.generations, a.runs]
    exact hs.accounted
  keyed := by
    unfold PluginRegistry.Keyed
    rw [a.instances]
    exact hs.keyed
  drawn := by
    intro k i hi
    rw [a.instances] at hi
    obtain ⟨n, hn, hk⟩ := hs.drawn k i hi
    exact ⟨n, lt_of_lt_of_le hn a.drawn, hk⟩
  reached := by
    intro id hid
    exact a.undisturbed.active (hs.reached id ((a.undisturbed.reachable id).1 hid))

/-- only what the state itself guarantees is left to show after an interference -/
theorem Guarded.of_undisturbed (g : Guarded K D h) (u : Undisturbed h h') (hs : h'.Safe) :
    Guarded K D h' where
  toSafe := hs
  kept := fun id hid => u.active (g.kept id hid)
  free := fun id hid hr => g.free id hid ((u.reachable id).1 hr)

theorem Guarded.of_same (g : Guarded K D h) (a : SameHoldings h h') : Guarded K D h' :=
  g.of_undisturbed a.undisturbed (g.toSafe.of_same a)

theorem Guarded.mono {K' D' : List String} (g : Guarded K D h) (hK : ∀ id ∈ K', id ∈ K)
    (hD : ∀ id ∈ D', id ∈ D) : Guarded K' D' h where
  toSafe := g.toSafe
  kept := fun id hid => g.kept id (hK id hid)
  free := fun id hid => g.free id (hD id hid)

theorem guarded_nil : Guarded [] [] h ↔ h.Safe := by
  constructor
  · intro g
    exact g.toSafe
  · intro hs
    exact { hs with
      kept := fun id hid => absurd hid List.not_mem_nil
      free := fun id hid => absurd hid List.not_mem_nil }

theorem Guarded.of_plugins (g : Guarded K D h) {id : String} (hD : id ∈ D) (hK : id ∉ K)
    {plugins : PluginRegistry} (hkeyed : plugins.Keyed)
    (hnew : ∀ k i, plugins.instances.get? k = some i → (h.plugins.instances.get? k).isSome)
    (hsame : ∀ k, k ≠ id → plugins.instances.get? k = h.plugins.instances.get? k) :
    Guarded K D { h with plugins := plugins } := by
  have hactive : ∀ k, k ≠ id → h.Active k → Harness.Active { h with plugins := plugins } k := by
    rintro k hk ⟨i, hi, hact⟩
    exact ⟨i, (hsame k hk).trans hi, hact⟩
  have hreached : ∀ k ∈ h.generations.reachableInstanceIds, k ≠ id := by
    rintro k hk rfl
    exact g.free k hD hk
  exact
    { accounted := g.accounted
      keyed := hkeyed
      drawn := by
        intro k i hi
        obtain ⟨j, hj⟩ := Option.isSome_iff_exists.1 (hnew k i hi)
        exact g.drawn k j hj
      reached := fun k hk => hactive k (hreached k hk) (g.reached k hk)
      kept := fun k hk => hactive k (fun he => hK (he ▸ hk)) (g.kept k hk)
      free := g.free }

theorem Guarded.update (g : Guarded K D h) {i : PluginInstance} (hD : i.instanceId ∈ D)
    (hK : i.instanceId ∉ K) {f : PluginInstance → PluginInstance}
    (hf : ∀ x, (f x).instanceId = x.instanceId) : Guarded K D (h.updateInstance i f) := by
  refine g.of_plugins hD hK (g.keyed.update hf) ?_ ?_
  · intro k x hx
    rw [PluginRegistry.get?_update] at hx
    split at hx
    · rename_i hk
      obtain ⟨y, hy, -⟩ := Option.map_eq_some_iff.1 hx
      rw [hk, hy]
      rfl
    · rw [hx]
      rfl
  · intro k hk
    rw [PluginRegistry.get?_update, if_neg hk]

theorem Guarded.forget (g : Guarded K D h) {i : PluginInstance} (hD : i.instanceId ∈ D)
    (hK : i.instanceId ∉ K) : Guarded K D { h with plugins := h.plugins.forget i } := by
  refine g.of_plugins hD hK (g.keyed.forget i) ?_ ?_
  · intro k x hx
    rw [PluginRegistry.get?_forget] at hx
    split at hx
    · cases hx
    · rw [hx]
      rfl
  · intro k hk
    rw [PluginRegistry.get?_forget, if_neg hk]

end

/-! ## mounting -/

section
variable {K D : List String} {h : Harness}

theorem Harness.Safe.fresh (hs : h.Safe) :
    h.plugins.instances.get? (freshId "plugin" h.drawn) = none := by
  rw [Option.eq_none_iff_forall_ne_some]
  intro i hi
  obtain ⟨n, hn, hid⟩ := hs.drawn _ i hi
  have heq := freshId_injective "plugin" hid
  omega

theorem Harness.Safe.fresh_inactive (hs : h.Safe) : ¬ h.Active (freshId "plugin" h.drawn) := by
  rintro ⟨i, hi, -⟩
  rw [hs.fresh] at hi
  cases hi

theorem Guarded.adopt (g : Guarded K D h) (entry : PluginEntry)
    (resolved : Dict String CapabilityRegistration) :
    Guarded K ((h.newInstance entry resolved).instanceId :: D)
      (h.adopt (h.newInstance entry resolved)) := by
  have hactive : ∀ k, h.Active k → Harness.Active (h.adopt (h.newInstance entry resolved)) k := by
    intro k hk
    obtain ⟨i, hi, hact⟩ := hk
    refine ⟨i, ?_, hact⟩
    refine (PluginRegistry.get?_adopt _ _ k).trans ?_
    rw [if_neg, hi]
    rintro rfl
    exact g.fresh_inactive ⟨i, hi, hact⟩
  exact
    { accounted := g.accounted
      keyed := g.keyed.adopt _
      drawn := by
        intro k i hi
        replace hi := (PluginRegistry.get?_adopt _ _ k).symm.trans hi
        have hlater : h.drawn < h.drawn + 2 := by omega
        split at hi
        · rename_i hk
          exact ⟨h.drawn, hlater, hk⟩
        · obtain ⟨n, hn, hk⟩ := g.drawn k i hi
          exact ⟨n, hn.trans hlater, hk⟩
      reached := fun k hk => hactive k (g.reached k hk)
      kept := fun k hk => hactive k (g.kept k hk)
      free := by
        intro k hk hr
        rcases List.mem_cons.1 hk with rfl | hk
        · exact g.fresh_inactive (g.reached _ hr)
        · exact g.free k hk hr }

end

/-! ## what is kept beside -/

/-- whose it is and what it is bound to -/
structure SameBinding (i i' : PluginInstance) : Prop where
  instanceId : i'.instanceId = i.instanceId
  scopeId : i'.scopeId = i.scopeId
  resolved : i'.resolved = i.resolved

/-- `E` survives the effects of the control plane as long as these respect what is active and what
is reachable.  Every instance it deals with satisfies `N`. -/
structure Extra (N : PluginInstance → Prop) (E : Harness → Prop) : Prop where
  aside : ∀ {h : Harness} redactor work lastFailures plan dirty origin, E h →
    E { h with redactor := redactor, work := work, lastFailures := lastFailures, plan := plan
               dirty := dirty, origin := origin }
  fresh : ∀ (h : Harness) entry resolved, N (h.newInstance entry resolved)
  renamed : ∀ {i i'}, SameBinding i i' → N i → N i'
  known : ∀ {h : Harness} {k i}, E h → h.plugins.instances.get? k = some i → N i
  update : ∀ {h} i f, (∀ x, SameBinding x (f x)) → E h → E (h.updateInstance i f)
  adopt : ∀ {h} entry plan, h.Safe → E h →
    E (h.adopt (h.newInstance entry (h.resolutionsFor plan entry.entryId)))
  forget : ∀ {h} i, E h → E { h with plugins := h.plugins.forget i }
  refresh : ∀ {h}, E h → E h.refreshReferences
  retire : ∀ {h g m}, h.generations.retire g = .ok m → E h → E { h with generations := m }
  setup : ∀ {h} i answer, h.Safe → i.instanceId ∉ h.generations.reachableInstanceIds → N i →
    E h → E (h.afterSetup i answer)
  close : ∀ {h} i, h.Safe → i.instanceId ∉ h.generations.reachableInstanceIds → N i →
    E h → E (h.closeScope i)

theorem extra_nothing : Extra (fun _ => True) fun _ => True where
  aside := fun _ _ _ _ _ _ _ => trivial
  fresh := fun _ _ _ => trivial
  renamed := fun _ _ => trivial
  known := fun _ _ => trivial
  update := fun _ _ _ _ => trivial
  adopt := fun _ _ _ _ => trivial
  forget := fun _ _ => trivial
  refresh := fun _ => trivial
  retire := fun _ _ => trivial
  setup := fun _ _ _ _ _ _ => trivial
  close := fun _ _ _ _ _ => trivial

def Upheld (E : Harness → Prop) (h : Harness) : Prop := h.Safe ∧ E h

/-- others leave the instances alone, and of the generations change leases only -/
def upheldRules (E : Harness → Prop) : Rules Harness Operation Answer where
  interferes := Undisturbed
  admits := fun _ _ => True
  holds := Upheld E

section
variable {N : PluginInstance → Prop} {E : Harness → Prop} (ex : Extra N E)

def Guarding (E : Harness → Prop) (K D : List String) (h : Harness) : Prop := Guarded K D h ∧ E h

/-- what this reconcile mounted was never published -/
def Staged (N : PluginInstance → Prop) (E : Harness → Prop) (K D : List String) (h : Harness) :
    Prop := Guarding E K D h ∧ ∀ i ∈ h.work.mounted, i.instanceId ∈ D ∧ N i

/-- the instance is there, and nobody counts on it yet -/
def Loading (N : PluginInstance → Prop) (E : Harness → Prop) (K D : List String)
    (i : PluginInstance) (h : Harness) : Prop :=
  Staged N E K (i.instanceId :: D) h ∧ i.instanceId ∉ K ∧
    (h.plugins.instances.get? i.instanceId).isSome ∧ N i

theorem Guarding.mono {K D K' D' : List String} {h : Harness} (g : Guarding E K D h)
    (hK : ∀ id ∈ K', id ∈ K) (hD : ∀ id ∈ D', id ∈ D) : Guarding E K' D' h :=
  ⟨g.1.mono hK hD, g.2⟩

include ex

/-! ## what happens at the awaits and in the registry -/

theorem guarding_stable (K D : List String) : Stable (upheldRules E) (Guarding E K D) where
  holds := fun g => ⟨g.1.toSafe, g.2⟩
  interferes := fun g u hs => ⟨g.1.of_undisturbed u hs.1, hs.2⟩
  learn := fun {h} secrets g => ⟨g.1.of_same (h.learn_sameHoldings secrets),
    ex.aside _ h.work h.lastFailures h.plan h.dirty h.origin g.2⟩
  note := fun {h} failures g => ⟨g.1.of_same (h.note_sameHoldings failures),
    ex.aside h.redactor _ h.lastFailures h.plan h.dirty h.origin g.2⟩

theorem guarding_disposable {K D : List String} {i : PluginInstance} (hD : i.instanceId ∈ D)
    (hK : i.instanceId ∉ K) (hN : N i) : Disposable (upheldRules E) i (Guarding E K D) where
  toStable := guarding_stable ex K D
  unload := fun g => ⟨g.1.update hD hK fun _ => rfl, ex.update i _ (fun _ => ⟨rfl, rfl, rfl⟩) g.2⟩
  close := fun {h} g => ⟨g.1.of_same (h.closeScope_sameHoldings i),
    ex.close i g.1.toSafe (g.1.free _ hD) hN g.2⟩
  forget := fun g => ⟨g.1.forget hD hK, ex.forget i g.2⟩

theorem staged_stable (K D : List String) : Stable (upheldRules E) (Staged N E K D) where
  holds := fun g => (guarding_stable ex K D).holds g.1
  interferes := fun g u hs => ⟨(guarding_stable ex K D).interferes g.1 u hs, by
    rw [u.mounted]
    exact g.2⟩
  learn := fun secrets g => ⟨(guarding_stable ex K D).learn secrets g.1, g.2⟩
  note := fun failures g => ⟨(guarding_stable ex K D).note failures g.1, g.2⟩

theorem staged_disposable {K D : List String} {i : PluginInstance} (hD : i.instanceId ∈ D)
    (hK : i.instanceId ∉ K) (hN : N i) : Disposable (upheldRules E) i (Staged N E K D) where
  toStable := staged_stable ex K D
  unload := fun g => ⟨(guarding_disposable ex hD hK hN).unload g.1, g.2⟩
  close := fun g => ⟨(guarding_disposable ex hD hK hN).close g.1, g.2⟩
  forget := fun g => ⟨(guarding_disposable ex hD hK hN).forget g.1, g.2⟩

theorem loading_stable (K D : List String) (i : PluginInstance) :
    Stable (upheldRules E) (Loading N E K D i) where
  holds := fun g => (staged_stable ex _ _).holds g.1
  interferes := fun g u hs => ⟨(staged_stable ex _ _).interferes g.1 u hs, g.2.1, by
    rw [u.instances]
    exact g.2.2⟩
  learn := fun secrets g => ⟨(staged_stable ex _ _).learn secrets g.1, g.2⟩
  note := fun failures g => ⟨(staged_stable ex _ _).note failures g.1, g.2⟩

section
variable {K D : List String} {h : Harness} {i : PluginInstance}

theorem Loading.update (g : Loading N E K D i h) {f : PluginInstance → PluginInstance}
    (hf : ∀ x, SameBinding x (f x)) : Loading N E K D i (h.updateInstance i f) := by
  refine ⟨⟨⟨g.1.1.1.update List.mem_cons_self g.2.1 fun x => (hf x).instanceId,
    ex.update i f hf g.1.1.2⟩, g.1.2⟩, g.2.1, ?_, g.2.2.2⟩
  show ((h.plugins.update i.instanceId f).instances.get? i.instanceId).isSome
  rw [PluginRegistry.get?_update, if_pos rfl, Option.isSome_map]
  exact g.2.2.1

omit ex in
theorem Loading.kept (g : Loading N E K D i h) (ha : h.Active i.instanceId) :
    Staged N E (i.instanceId :: K) (i.instanceId :: D) h := by
  refine ⟨⟨{ g.1.1.1 with kept := ?_ }, g.1.1.2⟩, g.1.2⟩
  intro id hid
  rcases List.mem_cons.1 hid with rfl | hid
  · exact ha
  · exact g.1.1.1.kept id hid

theorem Loading.activate (identity : SemanticIdentity) (g : Loading N E K D i h) :
    Staged N E (i.instanceId :: K) (i.instanceId :: D)
      ((h.updateInstance i fun x => { x with state := .active }).updateInstance i
        fun x => { x with semanticIdentity := some identity }) := by
  have hactive := g.update ex (f := fun x => { x with state := .active }) fun _ => ⟨rfl, rfl, rfl⟩
  have hupdated := hactive.update ex (f := fun x => { x with semanticIdentity := some identity })
    fun _ => ⟨rfl, rfl, rfl⟩
  refine hupdated.kept ?_
  obtain ⟨x, hx⟩ := Option.isSome_iff_exists.1 g.2.2.1
  refine ⟨{ x with state := .active, semanticIdentity := some identity }, ?_, rfl⟩
  refine (PluginRegistry.get?_update _ _ _ _).trans ?_
  rw [if_pos rfl]
  show ((h.plugins.update i.instanceId _).instances.get? i.instanceId).map _ = _
  rw [PluginRegistry.get?_update, if_pos rfl, hx]
  rfl

end

/-- an instance that is mounted is free while it loads, and kept once it is active -/
theorem guarding_mountable (K D : List String) (entry : PluginEntry) :
    Mountable (upheldRules E) entry (Staged N E K D) (Loading N E K D)
      (fun i h => Staged N E (i.instanceId :: K) (i.instanceId :: D) h ∧ N i) where
  toStable := staged_stable ex K D
  adopt := by
    intro h plan g
    refine ⟨⟨⟨g.1.1.adopt entry _, ex.adopt entry plan g.1.1.toSafe g.1.2⟩,
      fun i hi => (g.2 i hi).imp_left (List.mem_cons_of_mem _)⟩, ?_, ?_, ex.fresh h entry _⟩
    · intro hk
      exact g.1.1.fresh_inactive (g.1.1.kept _ hk)
    · rw [Harness.adopt, PluginRegistry.get?_adopt, if_pos rfl]
      rfl
  loading := loading_stable ex K D
  setup := fun {i h} answer g => ⟨⟨⟨g.1.1.1.of_same (h.afterSetup_sameHoldings i answer),
    ex.setup i answer g.1.1.1.toSafe (g.1.1.1.free _ List.mem_cons_self) g.2.2.2 g.1.1.2⟩, by
      rw [(h.afterSetup_sameHoldings i answer).mounted]
      exact g.1.2⟩, g.2.1, by
      rw [(h.afterSetup_sameHoldings i answer).instances]
      exact g.2.2⟩
  close := fun {i h} g =>
    ⟨(staged_disposable ex List.mem_cons_self g.2.1 g.2.2.2).close g.1, g.2⟩
  fail := fun g => g.update ex fun _ => ⟨rfl, rfl, rfl⟩
  activate := fun {i h} identity g =>
    ⟨g.activate ex identity, ex.renamed (i := i) ⟨rfl, rfl, rfl⟩ g.2.2.2⟩
  mounted := fun i =>
    { holds := fun g => (staged_stable ex _ _).holds g.1
      interferes := fun g u hs => ⟨(staged_stable ex _ _).interferes g.1 u hs, g.2⟩
      learn := fun secrets g => ⟨(staged_stable ex _ _).learn secrets g.1, g.2⟩
      note := fun failures g => ⟨(staged_stable ex _ _).note failures g.1, g.2⟩ }
  record := by
    intro i h g
    have hmem : ∀ j ∈ h.work.mounted ++ [i], j ∈ h.work.mounted ∨ j = i := by
      intro j hj
      rwa [List.mem_append, List.mem_singleton] at hj
    refine ⟨⟨⟨{ g.1.1.1 with }, ?_⟩, fun j hj => ?_⟩, g.2⟩
    · exact ex.aside h.redactor _ h.lastFailures h.plan h.dirty h.origin g.1.1.2
    · rcases hmem j hj with hj | rfl
      · exact g.1.2 j hj
      · exact ⟨List.mem_cons_self, g.2⟩

end

/-! ## up to the candidate -/

section
variable {N : PluginInstance → Prop} {E : Harness → Prop} (ex : Extra N E) {K D : List String} {h : Harness}

/-- what a step of the staging leaves behind: the instances it keeps are active, and what was
mounted so far is not published -/
def StagedSome (N : PluginInstance → Prop) (E : Harness → Prop) (K : List String) (h : Harness) :
    Prop := ∃ D, Staged N E K D h

theorem Staged.forgetKept (g : Staged N E K D h) : StagedSome N E [] h :=
  ⟨D, g.1.mono (fun _ hid => absurd hid List.not_mem_nil) fun _ hid => hid, g.2⟩

theorem Staged.snoc {ordered : List PluginInstance} {i : PluginInstance}
    (g : Staged N E (i.instanceId :: ordered.map PluginInstance.instanceId) D h) :
    StagedSome N E ((ordered ++ [i]).map PluginInstance.instanceId) h := by
  refine ⟨D, g.1.mono (fun id hid => ?_) fun _ hid => hid, g.2⟩
  rw [List.map_append, List.map_singleton, List.mem_append, List.mem_singleton] at hid
  rw [List.mem_cons]
  exact hid.symm

theorem Staged.failed (g : Staged N E K D h) {i : PluginInstance}
    (hi : h.plugins.instances.get? i.instanceId = some i) (hf : i.state = .failed) :
    Staged N E K (i.instanceId :: D) h ∧ i.instanceId ∉ K := by
  have hinactive : ¬ h.Active i.instanceId := by
    rintro ⟨j, hj, hact⟩
    rw [hi] at hj
    cases hj
    rw [hf] at hact
    cases hact
  refine ⟨⟨⟨{ g.1.1 with free := ?_ }, g.1.2⟩,
    fun j hj => (g.2 j hj).imp_left (List.mem_cons_of_mem _)⟩, ?_⟩
  · intro id hid hr
    rcases List.mem_cons.1 hid with rfl | hid
    · exact hinactive (g.1.1.reached _ hr)
    · exact g.1.1.free id hid hr
  · intro hk
    exact hinactive (g.1.1.kept _ hk)

/-- what the turns of the loop keep -/
def Materialized (N : PluginInstance → Prop) (E : Harness → Prop) (p : Progress) (h : Harness) :
    Prop := StagedSome N E (p.ordered.map PluginInstance.instanceId) h

include ex

theorem mountEntry_keeps (plan : ResolutionPlan) (p : Progress) (entryId : String)
    (entry : PluginEntry)
    (identity : SemanticIdentity) (existing : Option PluginInstance)
    (g : Staged N E (p.ordered.map PluginInstance.instanceId) D h) :
    (do
      let i ← mountEntry plan entry identity existing
      return ⟨p.ordered ++ [i], p.identities.set entryId identity⟩ : Task Progress).wp
      (upheldRules E) (Prog.ends (Materialized N E) (StagedSome N E [])) h := by
  refine Prog.wp_bind_of (mountEntry_inv (guarding_mountable ex _ D entry) plan identity existing g)
    ?_ ?_
  · intro tr i h' hi
    exact hi.1.snoc
  · rintro tr e h' (hJ | ⟨i, hK | hL⟩)
    · exact hJ.forgetKept
    · exact hK.1.forgetKept
    · exact hL.1.forgetKept

theorem materializeEntry_keeps (plan : ResolutionPlan) (p : Progress) (entryId : String)
    (g : Materialized N E p h) : (materializeEntry plan p entryId).wp (upheldRules E)
      (Prog.ends (Materialized N E) (StagedSome N E [])) h := by
  obtain ⟨D, g⟩ := g
  unfold materializeEntry
  rw [Prog.wp_gets_bind]
  simp only [id_eq]
  cases h.plugins.entry? entryId with
  | none => exact ⟨D, g⟩
  | some entry =>
    refine Prog.wp_ofExcept_bind (fun identity _ => ?_) (fun e _ => g.forgetKept)
    cases hr : h.reusable entry identity with
    | some existing =>
      obtain ⟨hi, hok⟩ := Option.filter_eq_some_iff.1 hr
      have hget := g.1.1.keyed.instance? hi
      have hact : existing.state = .active := by
        simp only [Bool.and_eq_true, decide_eq_true_eq] at hok
        exact hok.1.1
      have hE := ex.aside h.redactor { h.work with reused := h.work.reused ++ [entryId] }
        h.lastFailures h.plan h.dirty h.origin g.1.2
      refine Staged.snoc (i := existing) (D := D) ⟨⟨{ g.1.1 with kept := ?_ }, hE⟩, g.2⟩
      intro id hid
      rcases List.mem_cons.1 hid with rfl | hid
      · exact ⟨existing, hget, hact⟩
      · exact g.1.1.kept id hid
    | none =>
      simp only
      cases hf : (h.plugins.instance? entryId).filter fun i => i.state = .failed with
      | none => exact mountEntry_keeps ex plan p entryId entry identity _ g
      | some failed =>
        obtain ⟨hi, hfailed⟩ := Option.filter_eq_some_iff.1 hf
        have hget := g.1.1.keyed.instance? hi
        obtain ⟨g', hK⟩ := g.failed hget (of_decide_eq_true hfailed)
        refine Prog.wp_bind_of (disposeInstance_inv
          (staged_disposable ex List.mem_cons_self hK (ex.known g.1.2 hget)) g') ?_ ?_
        · intro tr _ h' g''
          exact mountEntry_keeps ex plan p entryId entry identity _ g''
        · intro tr e h' g''
          exact g''.forgetKept

theorem materialize_keeps (plan : ResolutionPlan) (g : Staged N E [] D h) :
    (materialize plan).wp (upheldRules E) (Prog.ends (fun instances =>
      StagedSome N E (instances.map PluginInstance.instanceId)) (StagedSome N E [])) h := by
  have hnone : Materialized N E {} h := ⟨D, g⟩
  refine Prog.wp_bind_of (Prog.wp_foldlM_ends (l := plan.activationOrder)
    (fun p entryId h hp => materializeEntry_keeps ex plan p entryId hp) hnone) ?_ ?_
  · intro tr p h' hp
    exact hp
  · intro tr e h' he
    exact he

theorem assemble_keeps (plan : ResolutionPlan) (g : Staged N E [] D h) :
    (assemble plan).wp (upheldRules E) (Prog.ends (fun c =>
      StagedSome N E (c.instances.map PluginInstance.instanceId)) (StagedSome N E [])) h := by
  refine Prog.wp_bind_of (materialize_keeps ex plan g) (fun tr instances h' g' => ?_)
    (fun tr e h' g' => g')
  have herror : StagedSome N E [] h' := g'.elim fun D' g' => g'.forgetKept
  refine Prog.wp_ofExcept_bind (s := h') (fun _ _ => ?_) (fun _ _ => herror)
  refine Prog.wp_ofExcept_bind (s := h') (fun _ _ => ?_) (fun _ _ => herror)
  exact g'

/-- **Disposal spares what is reachable**: a list of instances that no live generation reaches may
be disposed, one after the other. -/
theorem disposeAll_keeps {l : List PluginInstance}
    (g : Guarding E [] (l.map PluginInstance.instanceId) h) (hN : ∀ i ∈ l, N i) :
    (l.forM disposeInstance).wp (upheldRules E) (fun _ _ h' => Upheld E h') h := by
  have hloop : (l.forM disposeInstance).wp (upheldRules E) (Prog.ends
      (fun _ h => Guarding E [] (([] : List PluginInstance).map PluginInstance.instanceId) h ∧
        ∀ i ∈ ([] : List PluginInstance), N i)
      (Upheld E)) h := by
    refine Prog.wp_forM_ends (A := fun l h =>
      Guarding E [] (l.map PluginInstance.instanceId) h ∧ ∀ i ∈ l, N i) ?_ ⟨g, hN⟩
    rintro i l h ⟨g, hN⟩
    have hds : Disposable (upheldRules E) i (Guarding E [] ((i :: l).map PluginInstance.instanceId)) :=
      guarding_disposable ex List.mem_cons_self List.not_mem_nil (hN i List.mem_cons_self)
    refine Prog.wp_mono (disposeInstance_inv hds g) fun tr r h' g' => ?_
    cases r with
    | ok _ =>
      refine ⟨g'.mono (fun _ hid => hid) fun _ hid => List.mem_cons_of_mem _ hid, fun j hj => ?_⟩
      exact hN j (List.mem_cons_of_mem _ hj)
    | error e => exact ⟨g'.1.toSafe, g'.2⟩
  refine Prog.wp_mono hloop fun tr r h' hr => ?_
  cases r with
  | ok _ => exact ⟨hr.1.1.toSafe, hr.1.2⟩
  | error e => exact hr

/-- nothing that is published goes with what a failed reconcile mounted -/
theorem rollback_keeps (e : Err) (g : StagedSome N E [] h) : (rollback e).wp (upheldRules E)
    (fun _ r h' => (∃ e', r = .error e') ∧ Upheld E h') h := by
  obtain ⟨D, g⟩ := g
  have hfree : Guarding E [] (h.work.mounted.reverse.map PluginInstance.instanceId) h := by
    refine g.1.mono (fun _ hid => hid) fun id hid => ?_
    obtain ⟨i, hi, rfl⟩ := List.mem_map.1 hid
    exact (g.2 i (List.mem_reverse.1 hi)).1
  have hN : ∀ i ∈ h.work.mounted.reverse, N i := fun i hi => (g.2 i (List.mem_reverse.1 hi)).2
  show (h.work.mounted.reverse.forM disposeInstance >>= _ : Task Candidate).wp (upheldRules E) _ h
  refine Prog.wp_bind_of (P := fun _ _ h' => Upheld E h') (disposeAll_keeps ex hfree hN)
    (fun tr _ h' hs => ?_) (fun tr e' h' hs => ⟨⟨e', rfl⟩, hs⟩)
  show (if e.kind = .PluginSetupError then _ else _ : Task Candidate).wp (upheldRules E) _ h'
  have hE := fun work failures => ex.aside h'.redactor work failures h'.plan h'.dirty h'.origin hs.2
  split
  · exact ⟨⟨_, rfl⟩, hs.1.of_same ⟨rfl, rfl, rfl, rfl, le_refl _⟩, hE _ _⟩
  · exact ⟨⟨_, rfl⟩, hs.1.of_same ⟨rfl, rfl, rfl, rfl, le_refl _⟩, hE h'.work _⟩

/-- **Staging**: it ends with a candidate all of whose instances are active, or has undone itself;
whatever is published stays as it was. -/
theorem stage_keeps (hs : Upheld E h) : stage.wp (upheldRules E) (Prog.ends (fun c =>
      Guarding E (c.instances.map PluginInstance.instanceId) []) (Upheld E)) h := by
  have hcomposable : requireComposable.wp (upheldRules E) (fun _ _ h' => h' = h) h := by
    show (if h.state = .created ∨ h.state = .running then _ else _ : Task Unit).wp (upheldRules E) _ h
    split
    · exact rfl
    · exact rfl
  refine Prog.wp_bind_of hcomposable ?_ ?_
  · rintro tr _ h₁ rfl
    refine Prog.wp_ofExcept_bind (s := h₁) (fun plan _ => ?_) (fun _ _ => hs)
    refine Prog.wp_ofExcept_bind (s := h₁) (fun _ _ => ?_) (fun _ _ => hs)
    let started : Harness := { h₁ with work := { planned := some h₁.desired } }
    have g : Staged N E [] [] started := by
      refine ⟨⟨guarded_nil.2 { hs.1 with }, ?_⟩, fun i hi => absurd hi List.not_mem_nil⟩
      exact ex.aside h₁.redactor _ h₁.lastFailures h₁.plan h₁.dirty h₁.origin
        hs.2
    refine Prog.wp_tryCatch.2 (Prog.wp_mono (assemble_keeps ex plan g) fun tr' r h₂ hr => ?_)
    cases r with
    | ok c =>
      obtain ⟨D, g'⟩ := hr
      exact g'.1.mono (fun _ hid => hid) fun _ hid => absurd hid List.not_mem_nil
    | error e =>
      refine Prog.wp_mono (rollback_keeps ex e hr) fun tr'' r' h₃ hr' => ?_
      obtain ⟨⟨e', rfl⟩, hs'⟩ := hr'
      exact hs'
  · rintro tr e h₁ rfl
    exact hs

end

/-! ## reclamation -/

section
variable {h : Harness}

/-- **What retires**: the generations that drain and have no lease, and no other. -/
theorem retireIdle_effect {R : Rules Harness Operation Answer}
    (ha : h.generations.Accounted h.runs) : retireIdle.wp R (fun tr r h' => tr = [] ∧ r = .ok ⟨⟩ ∧
      ∃ m, h' = { h with generations := m } ∧ m.Accounted h.runs ∧
        m.current = h.generations.current ∧
        m.draining = h.generations.draining.filter (fun g => g.leases ≠ 0)) h := by
  let Q : Trace Operation Answer → Except Err PUnit → Harness → Prop := fun tr r h' =>
    tr = [] ∧ r = .ok ⟨⟩ ∧ ∃ m, h' = { h with generations := m } ∧ m.Accounted h.runs ∧
      m.current = h.generations.current ∧
      m.draining = h.generations.draining.filter (fun g => g.leases ≠ 0)
  let Inv : Trace Operation Answer → List RuntimeGeneration → Harness → Prop := fun tr l h' =>
    tr = [] ∧ ∃ m, h' = { h with generations := m } ∧ m.Accounted h.runs ∧
      m.current = h.generations.current ∧
      m.draining.filter (fun g => g.leases ≠ 0) =
        h.generations.draining.filter (fun g => g.leases ≠ 0) ∧
      (∀ g, g ∈ l ↔ g ∈ m.draining ∧ g.leases = 0) ∧ (l.map RuntimeGeneration.sequence).Nodup
  have hstart : Inv [] (h.generations.draining.filter fun g => g.leases = 0) h := by
    refine ⟨rfl, h.generations, rfl, ha, rfl, rfl, fun g => ?_, ?_⟩
    · rw [List.mem_filter, decide_eq_true_eq]
    · have hall := ha.nodup
      rw [GenerationManager.live, List.map_append] at hall
      exact hall.of_append_right.sublist (List.filter_sublist.map _)
  unfold retireIdle
  rw [Prog.wp_gets_bind]
  refine Prog.wp_forM (Q := Q) Inv ?_ ?_ hstart
  · rintro tr g l h₁ ⟨rfl, m, rfl, hacc, hcur, hkept, hl, hnodup⟩
    obtain ⟨hg, hidle⟩ := (hl g).1 List.mem_cons_self
    obtain ⟨m', hok, hacc', hcur', -, hdrain⟩ := GenerationManager.retire_accounted hacc hg hidle
    obtain ⟨hnew, hnodup⟩ := List.nodup_cons.1 hnodup
    show (Prog.ofExcept (m.retire g) >>= _ : Task PUnit).wp R _ _
    rw [hok]
    refine ⟨rfl, m', rfl, hacc', hcur'.trans hcur, ?_, fun x => ?_, hnodup⟩
    · rw [← hkept, hdrain, List.filter_filter]
      refine List.filter_congr fun x hx => ?_
      by_cases hxg : x.sequence = g.sequence
      · obtain rfl := hacc.eq_of_sequence (GenerationManager.mem_live.2 (Or.inr hx))
          (GenerationManager.mem_live.2 (Or.inr hg)) hxg
        simp [hidle]
      · simp [hxg]
    · rw [hdrain, List.mem_filter, decide_eq_true_eq]
      constructor
      · intro hx
        obtain ⟨hd, hi⟩ := (hl x).1 (List.mem_cons_of_mem _ hx)
        exact ⟨⟨hd, fun he => hnew (he ▸ List.mem_map_of_mem hx)⟩, hi⟩
      · rintro ⟨⟨hd, hne⟩, hi⟩
        refine (List.mem_cons.1 ((hl x).2 ⟨hd, hi⟩)).resolve_left ?_
        rintro rfl
        exact hne rfl
  · rintro tr h₁ ⟨rfl, m, rfl, hacc, hcur, hkept, hl, -⟩
    refine ⟨rfl, rfl, m, rfl, hacc, hcur, ?_⟩
    rw [← hkept, List.filter_eq_self.2]
    intro g hg
    refine decide_eq_true fun hi => ?_
    exact absurd ((hl g).2 ⟨hg, hi⟩) List.not_mem_nil

theorem Harness.Safe.retired (hs : h.Safe) {m : GenerationManager} (hacc : m.Accounted h.runs)
    (hcur : m.current = h.generations.current)
    (hdrain : m.draining = h.generations.draining.filter (fun g => g.leases ≠ 0)) :
    Harness.Safe { h with generations := m } := by
  refine { hs with accounted := hacc, reached := fun id hid => hs.reached id ?_ }
  obtain ⟨g, hg, hgid⟩ := GenerationManager.mem_reachable.1 hid
  refine GenerationManager.mem_reachable.2 ⟨g, ?_, hgid⟩
  rw [GenerationManager.mem_live] at hg ⊢
  rw [hcur, hdrain] at hg
  exact hg.imp_right fun hd => (List.mem_filter.1 hd).1

theorem refreshReferences_safe (hs : h.Safe) : h.refreshReferences.Safe where
  accounted := hs.accounted
  keyed := by
    intro k i hi
    have hget := h.get?_refreshReferences k
    rw [hget] at hi
    obtain ⟨j, hj, rfl⟩ := Option.map_eq_some_iff.1 hi
    exact hs.keyed k j hj
  drawn := by
    intro k i hi
    have hget := h.get?_refreshReferences k
    rw [hget] at hi
    obtain ⟨j, hj, rfl⟩ := Option.map_eq_some_iff.1 hi
    exact hs.drawn k j hj
  reached := by
    intro id hid
    obtain ⟨i, hi, hact⟩ := hs.reached id hid
    have hget := h.get?_refreshReferences id
    refine ⟨{ i with generationRefs := h.references i }, ?_, hact⟩
    rw [hget, hi]
    rfl

/-- **What is doomed is not reachable**: an active instance is reached by no live generation, and
one that failed is not active. -/
theorem doomed_free (hs : h.Safe) :
    Guarded [] (h.doomed.map PluginInstance.instanceId) h := by
  refine { hs with kept := fun id hid => absurd hid List.not_mem_nil, free := ?_ }
  intro id hid hr
  obtain ⟨i, hi, rfl⟩ := List.mem_map.1 hid
  obtain ⟨hin, hdoomed⟩ := List.mem_filter.1 hi
  have hget := hs.keyed.of_mem hin
  obtain ⟨j, hj, hact⟩ := hs.reached _ hr
  obtain rfl : i = j := Option.some.inj (hget.symm.trans hj)
  simp only [hact, hr, Bool.or_eq_true, Bool.and_eq_true, decide_eq_true_eq, not_true_eq_false,
    and_false, false_or, reduceCtorEq, false_and] at hdoomed

theorem mem_teardownOrder {h : Harness} {target : List PluginInstance} {i : PluginInstance}
    (hi : i ∈ h.teardownOrder target) : i ∈ target := by
  obtain ⟨id, -, hfind⟩ := List.mem_filterMap.1 hi
  exact List.mem_of_find?_eq_some hfind

end

section
variable {N : PluginInstance → Prop} {E : Harness → Prop} (ex : Extra N E) {h : Harness}
include ex

theorem retireIdle_keeps (hs : Upheld E h) :
    retireIdle.wp (upheldRules E) (fun _ _ h' => Upheld E h') h := by
  refine Prog.wp_mono (Prog.wp_and (retireIdle_effect hs.1.accounted)
    (retireIdle_inv ex.retire hs.2)) ?_
  rintro tr r h' ⟨⟨-, -, m, rfl, hacc, hcur, hdrain⟩, hE⟩
  exact ⟨hs.1.retired hacc hcur hdrain, hE⟩

/-- **Reclamation**: it disposes only what no live generation reaches. -/
theorem reclaim_keeps (hs : Upheld E h) : reclaim.wp (upheldRules E) (fun _ _ h' => Upheld E h') h := by
  refine Prog.wp_bind_of (retireIdle_keeps ex hs) (fun tr _ h₁ hs₁ => ?_) (fun tr e h' hs' => hs')
  have hs₂ := refreshReferences_safe hs₁.1
  have hE := ex.refresh hs₁.2
  let order := h₁.refreshReferences.teardownOrder h₁.refreshReferences.doomed
  show (order.forM disposeInstance >>= _ : Task (List String)).wp (upheldRules E) _ h₁.refreshReferences
  have hfree : Guarding E [] (order.map PluginInstance.instanceId) h₁.refreshReferences := by
    refine ⟨(doomed_free hs₂).mono (fun _ hid => hid) fun id hid => ?_, hE⟩
    obtain ⟨i, hi, rfl⟩ := List.mem_map.1 hid
    exact List.mem_map_of_mem (mem_teardownOrder hi)
  have hN : ∀ i ∈ order, N i := by
    intro i hi
    exact ex.known hE (hs₂.keyed.of_mem (List.mem_filter.1 (mem_teardownOrder hi)).1)
  refine Prog.wp_bind_of (disposeAll_keeps ex hfree hN) ?_ ?_
  · intro tr' _ h' hs'
    exact ⟨refreshReferences_safe hs'.1, ex.refresh hs'.2⟩
  · intro tr' e h' hs'
    exact hs'

theorem conclude_keeps (c : Candidate) (g : RuntimeGeneration) (hs : Upheld E h) :
    (conclude c g).wp (upheldRules E) (fun _ _ h' => Upheld E h') h := by
  refine Prog.wp_bind_of (reclaim_keeps ex hs) ?_ ?_
  · intro tr disposed h' hs'
    exact ⟨{ hs'.1 with }, ex.aside h'.redactor h'.work h'.work.failures (some c.plan) false
      h'.origin hs'.2⟩
  · intro tr e h' hs'
    exact hs'

theorem reclaimAfterDrain_keeps (hs : Upheld E h) :
    reclaimAfterDrain.wp (upheldRules E) (fun _ _ h' => Upheld E h') h := by
  unfold reclaimAfterDrain
  rw [Prog.wp_gets_bind]
  split
  · exact hs
  · have hstarted : Upheld E { h with work := {} } :=
      ⟨{ hs.1 with }, ex.aside h.redactor _ h.lastFailures h.plan h.dirty h.origin hs.2⟩
    rw [Prog.wp_modify_bind]
    refine Prog.wp_bind_of (reclaim_keeps ex hstarted) ?_ ?_
    · intro tr disposed h' hs'
      exact ⟨{ hs'.1 with }, ex.aside h'.redactor h'.work (h'.lastFailures ++ h'.work.failures)
        h'.plan h'.dirty h'.origin hs'.2⟩
    · intro tr e h' hs'
      exact hs'

theorem upheld_stable : Stable (upheldRules E) (Upheld E) where
  holds := fun hs => hs
  interferes := fun _ _ hs => hs
  learn := fun {h} secrets hs => ⟨hs.1.of_same (h.learn_sameHoldings secrets),
    ex.aside _ h.work h.lastFailures h.plan h.dirty h.origin hs.2⟩
  note := fun {h} failures hs => ⟨hs.1.of_same (h.note_sameHoldings failures),
    ex.aside h.redactor _ h.lastFailures h.plan h.dirty h.origin hs.2⟩

end

/-! ## publication -/

section
variable {h : Harness}

/-- **Publication**: it is not refused, the new current generation reaches active instances only,
and what the live ones reached before was active already. -/
theorem publish_safe (c : Candidate)
    (g : Guarded (c.instances.map PluginInstance.instanceId) [] h) :
    ∃ previous m, (h.buildGeneration c).2.publish (h.buildGeneration c).1 = .ok (previous, m) ∧
      m.current = some { (h.buildGeneration c).1 with state := .active } ∧
      Harness.Safe { h with generations := m, origin := h.work.planned } := by
  obtain ⟨previous, m, hok, hacc, hcur, hprev, hdrain⟩ :=
    GenerationManager.publish_accounted g.accounted c.snapshotFactory c.instances
      ⟨c.instances.length, c.scopeTree.scopes.length, h.effectivePreferences⟩ c.scopeTree
  refine ⟨previous, m, hok, hcur, ?_⟩
  refine { g with accounted := hacc, reached := fun id hid => ?_ }
  show h.Active id
  obtain ⟨x, hx, hxid⟩ := GenerationManager.mem_reachable.1 hid
  rcases GenerationManager.mem_live.1 hx with hx | hx
  · obtain rfl := Option.some.inj (hcur.symm.trans hx)
    exact g.kept id hxid
  · have hx : x ∈ m.draining := hx
    rw [hdrain, List.mem_append, hprev] at hx
    refine g.reached id (GenerationManager.mem_reachable.2 ?_)
    rcases hx with hx | hx
    · exact ⟨x, GenerationManager.mem_live.2 (Or.inr hx), hxid⟩
    · obtain ⟨p, hp, rfl⟩ := Option.map_eq_some_iff.1 (Option.mem_toList.1 hx)
      exact ⟨p, GenerationManager.mem_live.2 (Or.inl hp), hxid⟩

/-- `E` survives publication -/
def Publishing (E : Harness → Prop) : Prop := ∀ {h : Harness} {c : Candidate} {previous m},
  Guarding E (c.instances.map PluginInstance.instanceId) [] h →
  (h.buildGeneration c).2.publish (h.buildGeneration c).1 = .ok (previous, m) →
  E { h with generations := m, origin := h.work.planned }

variable {N : PluginInstance → Prop} {E : Harness → Prop} (ex : Extra N E)
include ex

theorem keepGeneration_keeps (c : Candidate) (g : RuntimeGeneration) (hs : Upheld E h) :
    (keepGeneration c g).wp (upheldRules E) (fun _ _ h' => Upheld E h') h :=
  ⟨{ hs.1 with }, ex.aside h.redactor _ h.lastFailures h.plan h.dirty h.work.planned
    hs.2⟩

theorem publishCandidate_keeps (hp : Publishing E) (c : Candidate)
    (g : Guarding E (c.instances.map PluginInstance.instanceId) [] h) :
    (publishCandidate c).wp (upheldRules E) (fun _ _ h' => Upheld E h') h := by
  obtain ⟨previous, m, hok, -, hsafe⟩ := publish_safe c g.1
  unfold publishCandidate
  rw [Prog.wp_gets_bind]
  refine Prog.wp_ofExcept_bind ?_ ?_
  · intro p hp'
    obtain rfl := Except.ok.inj (hok.symm.trans hp')
    rw [Prog.wp_modify_bind]
    exact Prog.wp_bind_of (announce_inv (upheld_stable ex) _ previous ⟨hsafe, hp g hok⟩)
      (fun _ _ _ hs => hs) (fun _ _ _ hs => hs)
  · intro e he
    cases hok.symm.trans he

theorem enact_keeps (hp : Publishing E) (c : Candidate)
    (g : Guarding E (c.instances.map PluginInstance.instanceId) [] h) :
    (enact c).wp (upheldRules E) (fun _ _ h' => Upheld E h') h := by
  unfold enact
  cases c.reuse with
  | some g' => exact keepGeneration_keeps ex c g' ⟨g.1.toSafe, g.2⟩
  | none => exact publishCandidate_keeps ex hp c g

/-- **A reconcile**, from its start to any of its ends. -/
theorem reconcile_keeps (hp : Publishing E) (hs : Upheld E h) :
    reconcile.wp (upheldRules E) (fun _ _ h' => Upheld E h') h := by
  refine Prog.wp_bind_of (stage_keeps ex hs) (fun _ c h₁ g => ?_) (fun _ _ _ hs' => hs')
  exact Prog.wp_bind_of (enact_keeps ex hp c g) (fun _ g' _ hs' => conclude_keeps ex c g' hs')
    (fun _ _ _ hs' => hs')

theorem job_keeps (hp : Publishing E) (j : Job) (hs : Upheld E h) :
    j.program.wp (upheldRules E) (fun _ _ h' => Upheld E h') h := by
  cases j with
  | reconcile =>
    exact Prog.wp_bind_of (reconcile_keeps ex hp hs) (fun _ _ _ hs' => hs') (fun _ _ _ hs' => hs')
  | reclaimAfterDrain => exact reclaimAfterDrain_keeps ex hs

/-- what survives the effects of the control plane, and what the others do, holds in every run -/
theorem upheld_monitored (hp : Publishing E) {acts : Harness → Harness → Prop}
    (hacts : ∀ h h', acts h h' → Upheld E h → Upheld E h' ∧ Undisturbed h h') :
    Monitored (upheldRules E) acts Job.program (Upheld E) (fun _ _ => Upheld E) where
  refl := Undisturbed.refl
  trans := fun _ _ _ u hs ha => u.trans (hacts _ _ ha hs).2
  admits := fun _ _ _ => trivial
  idle := fun _ _ hs ha => (hacts _ _ ha hs).1
  held := fun _ _ hs ha => (hacts _ _ ha hs).1
  job := fun j _ hs => job_keeps ex hp j hs

theorem upheld_run (hp : Publishing E) {acts : Harness → Harness → Prop}
    (hacts : ∀ h h', acts h h' → Upheld E h → Upheld E h' ∧ Undisturbed h h') (h₀ : Upheld E h)
    {history : List (Event Job Err × HarnessConfig)} {c : HarnessConfig}
    (hrun : Run acts Job.program ⟨h, none⟩ history c) : Upheld E c.state := by
  have hsound := (upheld_monitored ex hp hacts).run h₀ hrun fun _ _ _ _ hs => hs
  unfold Config.Sound at hsound
  split at hsound
  · exact hsound
  · exact hsound.1

end

end

end Chassis
