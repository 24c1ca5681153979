import Chassis.Harness.Stability

/-!
# What the generations tell of an instance

An instance that is carried over belongs to several generations.  All of them tell the same
identity of it, also after it was disposed.

* `Ledger l h`      the ledger `l` has one identity for every instance that was ever published, and
                    the registry agrees with it;
* `materialize_ledger`   a pass enters its instances into the ledger;
* `job_ledger`      so every job keeps one, whatever it publishes or disposes;
* `retained_run`    **in every state of a run, what two generations tell of one instance agrees**.
-/

set_option linter.unusedSectionVars false

namespace Chassis
open Py Coop

/-- an instance and its identity -/
def PluginInstance.label (i : PluginInstance) : String × Option SemanticIdentity :=
  (i.instanceId, i.semanticIdentity)

/-- what all known generations tell of their instances -/
def GenerationManager.recorded (m : GenerationManager) :
    List (String × Option SemanticIdentity) :=
  (m.live ++ m.retired).flatMap fun g => g.instances.map PluginInstance.label

theorem GenerationManager.mem_recorded {m : GenerationManager}
    {p : String × Option SemanticIdentity} :
    p ∈ m.recorded ↔ ∃ g ∈ m.live ++ m.retired, ∃ i ∈ g.instances, i.label = p := by
  simp only [recorded, List.mem_flatMap, List.mem_map]

section
variable [Packaging] [Platform]

/-- one identity for every id that was drawn, which the registry and the generations agree with -/
structure Ledger (l : List (String × Option SemanticIdentity)) (h : Harness) : Prop where
  keyed : h.plugins.Keyed
  drawn : ∀ k i, h.plugins.instances.get? k = some i → ∃ n < h.drawn, k = freshId "plugin" n
  entered : ∀ p ∈ l, ∃ n < h.drawn, p.1 = freshId "plugin" n
  registered : ∀ p ∈ l, ∀ i, h.plugins.instances.get? p.1 = some i → i.semanticIdentity = p.2
  agree : ∀ p ∈ l, ∀ q ∈ l, p.1 = q.1 → p.2 = q.2
  recorded : ∀ p ∈ h.generations.recorded, p ∈ l

def Ledgered (h : Harness) : Prop := ∃ l, Ledger l h

/-- others leave the instances alone, and forget generations at most -/
def ledgerRules : Rules Harness Operation Answer where
  interferes := fun h h' => h'.plugins.instances = h.plugins.instances ∧ h.drawn ≤ h'.drawn ∧
    ∀ p ∈ h'.generations.recorded, p ∈ h.generations.recorded
  admits := fun _ _ => True
  holds := Ledgered

variable {l : List (String × Option SemanticIdentity)} {h h' : Harness}

namespace Ledger

theorem interferes (hl : Ledger l h) (hi : ledgerRules.interferes h h') : Ledger l h' := by
  obtain ⟨hinst, hdrawn, hrec⟩ := hi
  constructor
  · intro k i hget
    rw [hinst] at hget
    exact hl.keyed k i hget
  · intro k i hget
    rw [hinst] at hget
    obtain ⟨n, hn, hk⟩ := hl.drawn k i hget
    exact ⟨n, by omega, hk⟩
  · intro p hp
    obtain ⟨n, hn, hk⟩ := hl.entered p hp
    exact ⟨n, by omega, hk⟩
  · intro p hp i hget
    rw [hinst] at hget
    exact hl.registered p hp i hget
  · exact hl.agree
  · intro p hp
    exact hl.recorded p (hrec p hp)

theorem of_same (hl : Ledger l h) (hinst : h'.plugins.instances = h.plugins.instances)
    (hdrawn : h.drawn ≤ h'.drawn) (hgen : h'.generations = h.generations) : Ledger l h' :=
  hl.interferes ⟨hinst, hdrawn, fun _ hp => hgen ▸ hp⟩

/-- an update keeps the ledger, if it leaves the identity alone or the instance is not entered -/
theorem update (hl : Ledger l h) {i : PluginInstance} {f : PluginInstance → PluginInstance}
    (hid : ∀ x, (f x).instanceId = x.instanceId)
    (hsem : (∀ x, (f x).semanticIdentity = x.semanticIdentity) ∨ ∀ p ∈ l, p.1 ≠ i.instanceId) :
    Ledger l (h.updateInstance i f) := by
  have hget : ∀ k x, (h.updateInstance i f).plugins.instances.get? k = some x →
      ∃ y, h.plugins.instances.get? k = some y ∧ (k ≠ i.instanceId → x = y) ∧
        (k = i.instanceId → x = f y) := by
    intro k x hx
    replace hx := (PluginRegistry.get?_update _ _ _ k).symm.trans hx
    split at hx
    · rename_i hk
      obtain ⟨y, hy, rfl⟩ := Option.map_eq_some_iff.1 hx
      exact ⟨y, hk ▸ hy, fun hne => absurd hk hne, fun _ => rfl⟩
    · rename_i hk
      exact ⟨x, hx, fun _ => rfl, fun he => absurd he hk⟩
  constructor
  · exact hl.keyed.update hid
  · intro k x hx
    obtain ⟨y, hy, -⟩ := hget k x hx
    exact hl.drawn k y hy
  · exact hl.entered
  · intro p hp x hx
    obtain ⟨y, hy, hother, hsame⟩ := hget p.1 x hx
    by_cases hk : p.1 = i.instanceId
    · rw [hsame hk]
      rcases hsem with hf | hnot
      · rw [hf]
        exact hl.registered p hp y hy
      · exact absurd hk (hnot p hp)
    · rw [hother hk]
      exact hl.registered p hp y hy
  · exact hl.agree
  · exact hl.recorded

theorem forget (hl : Ledger l h) (i : PluginInstance) :
    Ledger l { h with plugins := h.plugins.forget i } := by
  have hget : ∀ k x, (h.plugins.forget i).instances.get? k = some x →
      h.plugins.instances.get? k = some x := by
    intro k x hx
    rw [PluginRegistry.get?_forget] at hx
    split at hx
    · cases hx
    · exact hx
  constructor
  · exact hl.keyed.forget i
  · intro k x hx
    exact hl.drawn k x (hget k x hx)
  · exact hl.entered
  · intro p hp x hx
    exact hl.registered p hp x (hget p.1 x hx)
  · exact hl.agree
  · exact hl.recorded

theorem enter (hl : Ledger l h) {i : PluginInstance}
    (hi : h.plugins.instances.get? i.instanceId = some i) : Ledger (i.label :: l) h := by
  have hreg : ∀ p ∈ l, p.1 = i.instanceId → p.2 = i.semanticIdentity := by
    intro p hp he
    exact (hl.registered p hp i (he ▸ hi)).symm
  constructor
  · exact hl.keyed
  · exact hl.drawn
  · intro p hp
    rcases List.mem_cons.1 hp with rfl | hp
    · exact hl.drawn _ i hi
    · exact hl.entered p hp
  · intro p hp x hx
    rcases List.mem_cons.1 hp with rfl | hp
    · obtain rfl := Option.some.inj (hi.symm.trans hx)
      rfl
    · exact hl.registered p hp x hx
  · intro p hp q hq he
    rcases List.mem_cons.1 hp with rfl | hp
    · rcases List.mem_cons.1 hq with rfl | hq
      · rfl
      · exact (hreg q hq he.symm).symm
    · rcases List.mem_cons.1 hq with rfl | hq
      · exact hreg p hp he
      · exact hl.agree p hp q hq he
  · intro p hp
    exact List.mem_cons_of_mem _ (hl.recorded p hp)

end Ledger

/-- a new instance is not entered yet -/
structure Unentered (l : List (String × Option SemanticIdentity)) (i : PluginInstance)
    (h : Harness) : Prop extends Ledger l h where
  new : ∀ p ∈ l, p.1 ≠ i.instanceId
  present : ∃ x, h.plugins.instances.get? i.instanceId = some x

theorem ledger_stable (l : List (String × Option SemanticIdentity)) :
    Stable ledgerRules (Ledger l) where
  holds := fun hl => ⟨l, hl⟩
  interferes := fun hl hi _ => hl.interferes hi
  learn := fun _ hl => hl.of_same rfl (le_refl _) rfl
  note := fun _ hl => hl.of_same rfl (le_refl _) rfl

theorem ledger_disposable (l : List (String × Option SemanticIdentity)) (i : PluginInstance) :
    Disposable ledgerRules i (Ledger l) where
  toStable := ledger_stable l
  unload := fun hl => hl.update (fun _ => rfl) (Or.inl fun _ => rfl)
  close := fun hl => hl.of_same rfl (le_refl _) rfl
  forget := fun hl => hl.forget i

theorem Ledger.adopt (hl : Ledger l h) (entry : PluginEntry)
    (resolved : Dict String CapabilityRegistration) :
    Unentered l (h.newInstance entry resolved) (h.adopt (h.newInstance entry resolved)) := by
  have hdrawn : h.drawn < h.drawn + 2 := by omega
  have hnew : ∀ p ∈ l, p.1 ≠ (h.newInstance entry resolved).instanceId := by
    intro p hp he
    obtain ⟨n, hn, hk⟩ := hl.entered p hp
    have hsame : n = h.drawn := freshId_injective "plugin" (hk.symm.trans he)
    omega
  have hget : ∀ k x, (h.adopt (h.newInstance entry resolved)).plugins.instances.get? k = some x →
      k = (h.newInstance entry resolved).instanceId ∨ h.plugins.instances.get? k = some x := by
    intro k x hx
    replace hx := (PluginRegistry.get?_adopt _ _ k).symm.trans hx
    split at hx
    · rename_i hk
      exact Or.inl hk
    · exact Or.inr hx
  refine { keyed := hl.keyed.adopt _, drawn := ?_, entered := ?_, registered := ?_,
           agree := hl.agree, recorded := hl.recorded, new := hnew, present := ?_ }
  · intro k x hx
    rcases hget k x hx with hk | hx
    · exact ⟨h.drawn, hdrawn, hk⟩
    · obtain ⟨n, hn, hk⟩ := hl.drawn k x hx
      exact ⟨n, hn.trans hdrawn, hk⟩
  · intro p hp
    obtain ⟨n, hn, hk⟩ := hl.entered p hp
    exact ⟨n, hn.trans hdrawn, hk⟩
  · intro p hp x hx
    rcases hget p.1 x hx with hk | hx
    · exact absurd hk (hnew p hp)
    · exact hl.registered p hp x hx
  · exact ⟨h.newInstance entry resolved, (PluginRegistry.get?_adopt _ _ _).trans (if_pos rfl)⟩

theorem Unentered.interferes {i : PluginInstance} (hu : Unentered l i h)
    (hi : ledgerRules.interferes h h') : Unentered l i h' where
  toLedger := hu.toLedger.interferes hi
  new := hu.new
  present := by
    rw [hi.1]
    exact hu.present

theorem Unentered.update {i : PluginInstance} (hu : Unentered l i h)
    {f : PluginInstance → PluginInstance} (hid : ∀ x, (f x).instanceId = x.instanceId) :
    Unentered l i (h.updateInstance i f) where
  toLedger := hu.toLedger.update hid (Or.inr hu.new)
  new := hu.new
  present := by
    obtain ⟨x, hx⟩ := hu.present
    refine ⟨f x, (PluginRegistry.get?_update _ _ _ _).trans ?_⟩
    rw [if_pos rfl, hx]
    rfl

theorem Unentered.identify {i : PluginInstance} (hu : Unentered l i h)
    (identity : SemanticIdentity) : Ledger
      ((i.instanceId, some identity) :: l)
      (h.updateInstance i fun x => { x with semanticIdentity := some identity }) := by
  obtain ⟨x, hx⟩ := hu.present
  have hu' := hu.update (f := fun x => { x with semanticIdentity := some identity }) fun _ => rfl
  have hget : (h.updateInstance i fun x => { x with semanticIdentity := some identity }
      ).plugins.instances.get? i.instanceId = some { x with semanticIdentity := some identity } := by
    refine (PluginRegistry.get?_update _ _ _ _).trans ?_
    rw [if_pos rfl, hx]
    rfl
  obtain hkey : x.instanceId = i.instanceId := hu.keyed _ x hx
  have hget' := hget
  rw [← hkey] at hget'
  have henter := hu'.toLedger.enter (i := { x with semanticIdentity := some identity }) hget'
  rw [PluginInstance.label] at henter
  rw [← hkey]
  exact henter

theorem unentered_stable (i : PluginInstance) : Stable ledgerRules (Unentered l i) where
  holds := fun hu => ⟨l, hu.toLedger⟩
  interferes := fun hu hi _ => hu.interferes hi
  learn := fun _ hu => hu.interferes ⟨rfl, le_refl _, fun _ hp => hp⟩
  note := fun _ hu => hu.interferes ⟨rfl, le_refl _, fun _ hp => hp⟩

/-- an instance that is mounted is entered once it has its identity -/
theorem ledger_mountable (l : List (String × Option SemanticIdentity)) (entry : PluginEntry) :
    Mountable ledgerRules entry (Ledger l) (Unentered l) (fun i => Ledger (i.label :: l)) where
  toStable := ledger_stable l
  adopt := fun _ hl => hl.adopt entry _
  loading := unentered_stable
  setup := fun {i h} answer hu => by
    have hsame := h.afterSetup_sameHoldings i answer
    refine hu.interferes ⟨hsame.instances, hsame.drawn, fun p hp => ?_⟩
    rw [hsame.generations] at hp
    exact hp
  close := fun hu => hu.interferes ⟨rfl, le_refl _, fun _ hp => hp⟩
  fail := fun hu => hu.update fun _ => rfl
  activate := fun {i h} identity hu =>
    (hu.update (f := fun x => { x with state := .active }) fun _ => rfl).identify identity
  mounted := fun i => ledger_stable (i.label :: l)
  record := fun hl => hl.of_same rfl (le_refl _) rfl

/-! ## a pass -/

/-- the instances of a pass are entered -/
def Entered (instances : List PluginInstance) (h : Harness) : Prop :=
  ∃ l, Ledger l h ∧ ∀ i ∈ instances, i.label ∈ l

theorem Entered.snoc {instances : List PluginInstance} {i : PluginInstance}
    (hl : Ledger (i.label :: l) h) (hin : ∀ j ∈ instances, j.label ∈ l) :
    Entered (instances ++ [i]) h := by
  refine ⟨_, hl, fun j hj => ?_⟩
  rcases List.mem_append.1 hj with hj | hj
  · exact List.mem_cons_of_mem _ (hin j hj)
  · rw [List.mem_singleton.1 hj]
    exact List.mem_cons_self

theorem mountEntry_ledger (plan : ResolutionPlan) (p : Progress) (entryId : String)
    (entry : PluginEntry) (identity : SemanticIdentity) (existing : Option PluginInstance)
    (hl : Ledger l h) (hin : ∀ j ∈ p.ordered, j.label ∈ l) : (do
      let i ← mountEntry plan entry identity existing
      return ⟨p.ordered ++ [i], p.identities.set entryId identity⟩ : Task Progress).wp ledgerRules
      (Prog.ends (fun p' => Entered p'.ordered) Ledgered) h := by
  refine Prog.wp_bind_of
    (mountEntry_inv (ledger_mountable l entry) plan identity existing hl) ?_ ?_
  · intro tr i h' hi
    exact Entered.snoc hi hin
  · intro tr e h' he
    rcases he with hl' | ⟨i, hu | hl'⟩
    · exact ⟨_, hl'⟩
    · exact ⟨_, hu.toLedger⟩
    · exact ⟨_, hl'⟩

theorem materializeEntry_ledger (plan : ResolutionPlan) (p : Progress) (entryId : String)
    (he : Entered p.ordered h) : (materializeEntry plan p entryId).wp ledgerRules
      (Prog.ends (fun p' => Entered p'.ordered) Ledgered) h := by
  obtain ⟨l, hl, hin⟩ := he
  unfold materializeEntry
  rw [Prog.wp_gets_bind]
  split
  · exact ⟨l, hl, hin⟩
  · rename_i entry _
    refine Prog.wp_ofExcept_bind (fun identity _ => ?_) fun _ _ => ⟨l, hl⟩
    split
    · rename_i existing hr
      obtain ⟨hi, -⟩ := Option.filter_eq_some_iff.1 hr
      have henter := hl.enter (hl.keyed.instance? hi)
      exact Entered.snoc (henter.of_same rfl (le_refl _) rfl) hin
    · simp only
      split
      · refine Prog.wp_bind_of (disposeInstance_inv (ledger_disposable l _) hl)
          (fun _ _ h' hl' => ?_) (fun _ _ _ hl' => ⟨l, hl'⟩)
        exact mountEntry_ledger plan p entryId entry identity _ hl' hin
      · exact mountEntry_ledger plan p entryId entry identity _ hl hin

/-- **A pass enters its instances.** -/
theorem materialize_ledger (plan : ResolutionPlan) (hl : Ledgered h) :
    (materialize plan).wp ledgerRules (Prog.ends Entered Ledgered) h := by
  obtain ⟨l, hl⟩ := hl
  have hnone : Entered ({} : Progress).ordered h := ⟨l, hl, fun _ hj => (nomatch hj)⟩
  refine Prog.wp_bind_of (Prog.wp_foldlM_ends (l := plan.activationOrder)
    (fun p entryId h hp => materializeEntry_ledger plan p entryId hp) hnone) ?_ ?_
  · intro tr p h' hp
    exact hp
  · intro tr e h' he
    exact he

theorem Entered.ledgered {instances : List PluginInstance} (he : Entered instances h) :
    Ledgered h := by
  obtain ⟨l, hl, -⟩ := he
  exact ⟨l, hl⟩

/-! ## the jobs -/

theorem disposeAll_ledger (instances : List PluginInstance) (hl : Ledgered h) :
    (instances.forM disposeInstance).wp ledgerRules (fun _ _ h' => Ledgered h') h := by
  obtain ⟨l, hl⟩ := hl
  refine Prog.wp_mono (disposeAll_inv (ledger_disposable l) instances hl) fun _ _ _ hl' => ?_
  exact ⟨l, hl'⟩

theorem stage_ledger (hl : Ledgered h) :
    stage.wp ledgerRules (Prog.ends (fun c => Entered c.instances) Ledgered) h := by
  have hsame : ∀ {h h' : Harness}, Ledgered h → h'.plugins.instances = h.plugins.instances →
      h.drawn ≤ h'.drawn → h'.generations = h.generations → Ledgered h' :=
    fun hl hi hd hg => hl.imp fun _ hl => hl.of_same hi hd hg
  have hassemble : ∀ plan h₁, Ledgered h₁ → (assemble plan).wp ledgerRules
      (Prog.ends (fun c => Entered c.instances) Ledgered) h₁ := by
    intro plan h₁ hl₁
    refine Prog.wp_bind_of (materialize_ledger plan hl₁) (fun _ instances h₂ he => ?_)
      (fun _ _ _ hl' => hl')
    refine Prog.wp_ofExcept_bind (s := h₂) (fun _ _ => ?_) (fun _ _ => he.ledgered)
    exact Prog.wp_ofExcept_bind (s := h₂) (fun _ _ => he) (fun _ _ => he.ledgered)
  have hrollback : ∀ e h₁, Ledgered h₁ → (rollback e).wp ledgerRules
      (Prog.ends (fun c => Entered c.instances) Ledgered) h₁ := by
    intro e h₁ hl₁
    unfold rollback
    rw [Prog.wp_gets_bind]
    refine Prog.wp_bind_of (disposeAll_ledger _ hl₁) (fun _ _ h₂ hl₂ => ?_) (fun _ _ _ hl' => hl')
    split
    · exact hsame hl₂ rfl (le_refl _) rfl
    · exact hsame hl₂ rfl (le_refl _) rfl
  have hcomposable : requireComposable.wp ledgerRules (fun _ _ h' => Ledgered h') h := by
    unfold requireComposable
    rw [Prog.wp_gets_bind]
    split
    · exact hl
    · exact hl
  refine Prog.wp_bind_of hcomposable (fun _ _ h₁ hl₁ => ?_) (fun _ _ _ hl' => hl')
  rw [Prog.wp_gets_bind]
  refine Prog.wp_ofExcept_bind (s := h₁) (fun plan _ => ?_) (fun _ _ => hl₁)
  refine Prog.wp_ofExcept_bind (s := h₁) (fun _ _ => ?_) (fun _ _ => hl₁)
  refine Prog.wp_tryCatch.2 (Prog.wp_mono
    (hassemble plan _ (hsame hl₁ rfl (le_refl _) rfl)) fun _ r h₂ hr => ?_)
  cases r with
  | ok c => exact hr
  | error e => exact hrollback e h₂ hr

theorem Entered.published {c : Candidate} (he : Entered c.instances h)
    {published : Option RuntimeGeneration × GenerationManager}
    (hok : (h.buildGeneration c).2.publish (h.buildGeneration c).1 = .ok published) :
    Ledgered { h with generations := published.2, origin := h.work.planned } := by
  obtain ⟨l, hl, hin⟩ := he
  have hm : published.2 = { h.generations with
      counter := h.generations.counter + 1
      draining := h.generations.draining ++
        (h.generations.current.map fun p => { p with state := .draining }).toList
      current := some { (h.buildGeneration c).1 with state := .active } } := by
    cases hok
    rfl
  have hrec : ∀ p ∈ published.2.recorded, p ∈ l := by
    intro p hp
    obtain ⟨g, hg, i, hi, rfl⟩ := GenerationManager.mem_recorded.1 hp
    rw [hm] at hg
    have hold : ∀ g' ∈ h.generations.live ++ h.generations.retired, i ∈ g'.instances →
        i.label ∈ l := fun g' hg' hi' =>
      hl.recorded _ (GenerationManager.mem_recorded.2 ⟨g', hg', i, hi', rfl⟩)
    rcases List.mem_append.1 hg with hg | hg
    · rcases GenerationManager.mem_live.1 hg with hc | hd
      · obtain rfl := Option.some.inj hc
        exact hin i hi
      · rcases List.mem_append.1 hd with hd | hd
        · exact hold g (List.mem_append_left _ (GenerationManager.mem_live.2 (Or.inr hd))) hi
        · obtain ⟨p, hcur, rfl⟩ := Option.map_eq_some_iff.1 (Option.mem_toList.1 hd)
          exact hold p (List.mem_append_left _ (GenerationManager.mem_live.2 (Or.inl hcur))) hi
    · exact hold g (List.mem_append_right _ hg) hi
  exact ⟨l, { hl with recorded := hrec }⟩

theorem ledgered_stable : Stable ledgerRules Ledgered where
  holds := fun hl => hl
  interferes := fun _ _ hl => hl
  learn := fun _ hl => hl.imp fun _ hl => hl.of_same rfl (le_refl _) rfl
  note := fun _ hl => hl.imp fun _ hl => hl.of_same rfl (le_refl _) rfl

theorem enact_ledger (c : Candidate) (he : Entered c.instances h) :
    (enact c).wp ledgerRules (fun _ _ h' => Ledgered h') h := by
  unfold enact
  cases c.reuse with
  | some g => exact he.ledgered.imp fun _ hl => hl.of_same rfl (le_refl _) rfl
  | none =>
    show (publishCandidate c).wp ledgerRules _ h
    unfold publishCandidate
    rw [Prog.wp_gets_bind]
    refine Prog.wp_ofExcept_bind (fun p hok => ?_) fun _ _ => he.ledgered
    rw [Prog.wp_modify_bind]
    exact Prog.wp_bind_of (announce_inv ledgered_stable _ _ (he.published hok))
      (fun _ _ _ hl' => hl') (fun _ _ _ hl' => hl')

theorem GenerationManager.recorded_retire {m m' : GenerationManager} {g : RuntimeGeneration}
    (hok : m.retire g = .ok m') {p : String × Option SemanticIdentity} (hp : p ∈ m'.recorded) :
    p ∈ m.recorded ∨ ∃ i ∈ g.instances, i.label = p := by
  obtain ⟨x, hx, i, hi, rfl⟩ := mem_recorded.1 hp
  unfold retire at hok
  split at hok
  · cases hok
    exact Or.inl (mem_recorded.2 ⟨x, hx, i, hi, rfl⟩)
  · cases hok
  · split at hok
    · cases hok
    · cases hok
      rcases List.mem_append.1 hx with hx | hx
      · refine Or.inl (mem_recorded.2 ⟨x, List.mem_append_left _ ?_, i, hi, rfl⟩)
        exact mem_live.2 ((mem_live.1 hx).imp_right fun hd => (List.mem_filter.1 hd).1)
      · rcases List.mem_append.1 (List.mem_of_mem_drop hx) with hx | hx
        · exact Or.inl (mem_recorded.2 ⟨x, List.mem_append_right _ hx, i, hi, rfl⟩)
        · rw [List.mem_singleton.1 hx] at hi
          exact Or.inr ⟨i, hi, rfl⟩

theorem retireIdle_ledger (hl : Ledger l h) :
    retireIdle.wp ledgerRules (fun _ _ h' => Ledger l h') h := by
  let Told (left : List RuntimeGeneration) (h' : Harness) : Prop :=
    Ledger l h' ∧ ∀ g ∈ left, ∀ i ∈ g.instances, i.label ∈ l
  have htold : Told (h.generations.draining.filter fun g => g.leases = 0) h := by
    refine ⟨hl, fun g hg i hi => hl.recorded _ (GenerationManager.mem_recorded.2 ?_)⟩
    have hlive := GenerationManager.mem_live.2 (Or.inr (List.mem_filter.1 hg).1)
    exact ⟨g, List.mem_append_left _ hlive, i, hi, rfl⟩
  unfold retireIdle
  rw [Prog.wp_gets_bind]
  refine Prog.wp_mono (Prog.wp_forM_ends (A := Told) (E := Ledger l) (fun g left h₁ ht => ?_)
    htold) ?_
  · obtain ⟨hl₁, htold⟩ := ht
    rw [Prog.wp_gets_bind]
    refine Prog.wp_ofExcept_bind (fun m hm => ?_) fun _ _ => hl₁
    refine ⟨{ hl₁ with recorded := fun p hp => ?_ }, fun x hx => htold x (List.mem_cons_of_mem _ hx)⟩
    rcases GenerationManager.recorded_retire hm hp with hp | ⟨i, hi, rfl⟩
    · exact hl₁.recorded p hp
    · exact htold g List.mem_cons_self i hi
  · intro tr r h' hr
    cases r with
    | ok _ => exact hr.1
    | error e => exact hr

theorem Ledger.refresh (hl : Ledger l h) : Ledger l h.refreshReferences := by
  have hget : ∀ k x, h.refreshReferences.plugins.instances.get? k = some x →
      ∃ y, h.plugins.instances.get? k = some y ∧ x.semanticIdentity = y.semanticIdentity ∧
        x.instanceId = y.instanceId := by
    intro k x hx
    rw [h.get?_refreshReferences k] at hx
    obtain ⟨y, hy, rfl⟩ := Option.map_eq_some_iff.1 hx
    exact ⟨y, hy, rfl, rfl⟩
  refine { hl with keyed := ?_, drawn := ?_, registered := ?_ }
  · intro k x hx
    obtain ⟨y, hy, -, hid⟩ := hget k x hx
    exact hid.trans (hl.keyed k y hy)
  · intro k x hx
    obtain ⟨y, hy, -⟩ := hget k x hx
    exact hl.drawn k y hy
  · intro p hp x hx
    obtain ⟨y, hy, hsem, -⟩ := hget p.1 x hx
    exact hsem.trans (hl.registered p hp y hy)

theorem reclaim_ledger (hl : Ledgered h) :
    reclaim.wp ledgerRules (fun _ _ h' => Ledgered h') h := by
  obtain ⟨l, hl⟩ := hl
  refine Prog.wp_bind_of (retireIdle_ledger hl) (fun _ _ h₁ hl₁ => ?_) (fun _ _ _ hl' => ⟨l, hl'⟩)
  rw [Prog.wp_modify_bind, Prog.wp_gets_bind]
  exact Prog.wp_bind_of (disposeAll_inv (ledger_disposable l) _ hl₁.refresh)
    (fun _ _ _ hl' => ⟨l, hl'.refresh⟩) (fun _ _ _ hl' => ⟨l, hl'⟩)

/-- **Every job keeps a ledger**, whether it succeeds or raises. -/
theorem job_ledger (j : Job) (hl : Ledgered h) :
    j.program.wp ledgerRules (fun _ _ h' => Ledgered h') h := by
  have hsame : ∀ {h h' : Harness}, Ledgered h → h'.plugins.instances = h.plugins.instances →
      h.drawn ≤ h'.drawn → h'.generations = h.generations → Ledgered h' :=
    fun hl hi hd hg => hl.imp fun _ hl => hl.of_same hi hd hg
  cases j with
  | reconcile =>
    refine Prog.wp_bind_of (P := fun _ _ h' => Ledgered h') ?_ (fun _ _ _ hl' => hl')
      (fun _ _ _ hl' => hl')
    refine Prog.wp_bind_of (stage_ledger hl) (fun _ c h₁ he => ?_) (fun _ _ _ hl' => hl')
    refine Prog.wp_bind_of (enact_ledger c he) (fun _ g h₂ hl₂ => ?_) (fun _ _ _ hl' => hl')
    refine Prog.wp_bind_of (reclaim_ledger hl₂) (fun _ _ h₃ hl₃ => ?_) (fun _ _ _ hl' => hl')
    exact hsame hl₃ rfl (le_refl _) rfl
  | reclaimAfterDrain =>
    show reclaimAfterDrain.wp ledgerRules _ h
    unfold reclaimAfterDrain
    rw [Prog.wp_gets_bind]
    split
    · exact hl
    · rw [Prog.wp_modify_bind]
      refine Prog.wp_bind_of (reclaim_ledger (hsame hl rfl (le_refl _) rfl))
        (fun _ _ h₁ hl₁ => ?_) (fun _ _ _ hl' => hl')
      exact hsame hl₁ rfl (le_refl _) rfl

/-! ## the runs -/

theorem GenerationManager.recorded_acquire {m m' : GenerationManager} {lease : GenerationLease}
    (hok : m.acquireLease = .ok (lease, m')) {p : String × Option SemanticIdentity}
    (hp : p ∈ m'.recorded) : p ∈ m.recorded := by
  obtain ⟨g, hg, i, hi, rfl⟩ := mem_recorded.1 hp
  have hmem : ∃ x ∈ m.live ++ m.retired, x.instances = g.instances := by
    rcases List.mem_append.1 hg with hlive | hret
    · obtain ⟨x, hx, -, -, hinst, -⟩ := (acquireLease_carried hok).live g hlive
      exact ⟨x, List.mem_append_left _ hx, hinst.symm⟩
    · refine ⟨g, List.mem_append_right _ ?_, rfl⟩
      unfold acquireLease at hok
      split at hok
      · cases hok
      · split at hok
        · cases hok
        · cases hok
          exact hret
  obtain ⟨x, hx, hinst⟩ := hmem
  exact mem_recorded.2 ⟨x, hx, i, hinst ▸ hi, rfl⟩

theorem GenerationManager.recorded_release {m m' : GenerationManager} {lease : GenerationLease}
    {idle : Bool} (hok : m.releaseLease lease = .ok (idle, m'))
    {p : String × Option SemanticIdentity} (hp : p ∈ m'.recorded) : p ∈ m.recorded := by
  unfold releaseLease at hok
  split at hok
  · cases hok
  · rename_i g hfind
    obtain ⟨⟨became, g'⟩, hrel, hok⟩ := bind_ok.1 hok
    cases hok
    have hinst : g'.instances = g.instances := by
      unfold RuntimeGeneration.release at hrel
      split at hrel
      · cases hrel
        rfl
      · cases hrel
    have hall : ∀ x ∈ (m.mapGeneration lease.generation.sequence fun _ => g').live ++
        (m.mapGeneration lease.generation.sequence fun _ => g').retired,
        ∃ y ∈ m.live ++ m.retired, y.instances = x.instances := by
      intro x hx
      have hx' : x ∈ (m.live ++ m.retired).map fun y =>
          if y.sequence = lease.generation.sequence then g' else y := by
        rw [List.map_append, ← live_mapGeneration]
        exact hx
      obtain ⟨y, hy, rfl⟩ := List.mem_map.1 hx'
      split
      · exact ⟨g, List.mem_of_find?_eq_some hfind, hinst.symm⟩
      · exact ⟨y, hy, rfl⟩
    obtain ⟨x, hx, i, hi, rfl⟩ := mem_recorded.1 hp
    obtain ⟨y, hy, hsame⟩ := hall x hx
    exact mem_recorded.2 ⟨y, hy, i, hsame ▸ hi, rfl⟩

theorem Acts.interferes (ha : Acts h h') : ledgerRules.interferes h h' := by
  cases ha with
  | desired ha =>
    have a := ha.sameRuntime
    refine ⟨a.instances, a.drawn, fun p hp => ?_⟩
    rw [a.generations] at hp
    exact hp
  | lease ha =>
    cases ha with
    | acquire ha =>
      obtain ⟨lease, m, hok, rfl⟩ := Harness.acquire_ok ha
      exact ⟨rfl, le_refl _, fun p hp => GenerationManager.recorded_acquire hok hp⟩
    | release n hr =>
      rcases Harness.release_ok hr with rfl | ⟨lease, idle, m, -, hok, rfl⟩
      · exact ⟨rfl, le_refl _, fun _ hp => hp⟩
      · exact ⟨rfl, le_refl _, fun p hp => GenerationManager.recorded_release hok hp⟩
  | start =>
    unfold Harness.start
    split
    · exact ⟨rfl, le_refl _, fun _ hp => hp⟩
    · exact ⟨rfl, le_refl _, fun _ hp => hp⟩
  | learn secrets => exact ⟨rfl, le_refl _, fun _ hp => hp⟩

theorem Fresh.ledgered (hf : Fresh h) : Ledgered h := by
  refine ⟨[], ?_, ?_, ?_, ?_, ?_, ?_⟩
  · exact hf.safe.keyed
  · exact hf.safe.drawn
  · exact fun _ hp => absurd hp List.not_mem_nil
  · exact fun _ hp => absurd hp List.not_mem_nil
  · exact fun _ hp => absurd hp List.not_mem_nil
  · intro p hp
    rw [hf.generations] at hp
    exact absurd hp List.not_mem_nil

theorem HarnessRun.ledgered {history : List (Event Job Err × HarnessConfig)} {c : HarnessConfig}
    (hrun : HarnessRun h history c) : Ledgered c.state := by
  have hm : Monitored ledgerRules Acts Job.program Ledgered (fun _ _ => Ledgered) :=
    { refl := fun _ => ⟨rfl, le_refl _, fun _ hp => hp⟩
      trans := by
        intro s s' s'' a _ hact
        have b := hact.interferes
        exact ⟨b.1.trans a.1, a.2.1.trans b.2.1, fun p hp => a.2.2 p (b.2.2 p hp)⟩
      admits := fun _ _ _ => trivial
      idle := fun s s' hl hact => hl.imp fun _ hl => hl.interferes hact.interferes
      held := fun s s' hl hact => hl.imp fun _ hl => hl.interferes hact.interferes
      job := fun j _ hl => job_ledger j hl }
  have hsound := hm.run hrun.1.ledgered hrun.2 fun _ _ _ _ hl => hl
  unfold Config.Sound at hsound
  split at hsound
  · exact hsound
  · exact hsound.1

/-- **What two generations tell of one instance agrees**, in every configuration of a run, also
when one of them has retired. -/
theorem retained_run {history : List (Event Job Err × HarnessConfig)} {c : HarnessConfig}
    (hrun : HarnessRun h history c) {g g' : RuntimeGeneration}
    (hg : g ∈ c.state.generations.live ++ c.state.generations.retired)
    (hg' : g' ∈ c.state.generations.live ++ c.state.generations.retired)
    {i j : PluginInstance} (hi : i ∈ g.instances) (hj : j ∈ g'.instances)
    (hid : i.instanceId = j.instanceId) : i.semanticIdentity = j.semanticIdentity := by
  obtain ⟨l, hl⟩ := hrun.ledgered
  exact hl.agree i.label (hl.recorded _ (GenerationManager.mem_recorded.2 ⟨g, hg, i, hi, rfl⟩))
    j.label (hl.recorded _ (GenerationManager.mem_recorded.2 ⟨g', hg', j, hj, rfl⟩)) hid

end

end Chassis
