import Chassis.Harness.Enrolment
import Chassis.Harness.Fates

/-!
# One instance for each entry

* `Singular l`            no two of the instances are of one entry, nor are two the same;
* `assemble_sole`         a pass comes to one instance for each entry that it turns to;
* `ControlRun.singular`   **so every live generation has one instance for each of its entries.**
-/

set_option linter.unusedSectionVars false

namespace Chassis
open Py Coop

/-- one instance for each entry, and each of them once -/
structure Singular (l : List PluginInstance) : Prop where
  entries : (l.map PluginInstance.entryId).Nodup
  instances : (l.map PluginInstance.instanceId).Nodup

section
variable [Packaging] [Platform] {h h' : Harness}

/-- the register knows all of them -/
def Harness.KnowsAll (l : List PluginInstance) (h : Harness) : Prop := ∀ j ∈ l, h.Knows j

namespace Harness.KnowsAll
variable {l : List PluginInstance}

theorem of_same (hk : h.KnowsAll l) (a : SameHosts h h') : h'.KnowsAll l :=
  fun j hj => (hk j hj).of_same a

theorem update (hk : h.KnowsAll l) (i : PluginInstance) {f : PluginInstance → PluginInstance}
    (hf : ∀ x, (f x).entryId = x.entryId) : (h.updateInstance i f).KnowsAll l := by
  intro j hj
  refine ⟨(hk j hj).1, fun x hx => ?_⟩
  replace hx := (PluginRegistry.get?_update _ _ _ _).symm.trans hx
  split at hx
  · rename_i hji
    obtain ⟨y, hy, rfl⟩ := Option.map_eq_some_iff.1 hx
    exact (hf y).trans ((hk j hj).2 y (hji ▸ hy))
  · exact (hk j hj).2 x hx

theorem forget (hk : h.KnowsAll l) (i : PluginInstance) :
    Harness.KnowsAll l { h with plugins := h.plugins.forget i } := by
  intro j hj
  refine ⟨(hk j hj).1, fun x hx => ?_⟩
  replace hx := (PluginRegistry.get?_forget _ _ _).symm.trans hx
  split at hx
  · cases hx
  · exact (hk j hj).2 x hx

theorem adopt (hk : h.KnowsAll l) (entry : PluginEntry)
    (resolved : Dict String CapabilityRegistration) :
    (h.adopt (h.newInstance entry resolved)).KnowsAll (l ++ [h.newInstance entry resolved]) := by
  intro j hj
  rcases List.mem_append.1 hj with hj | hj
  · refine ⟨(hk j hj).1.mono (Nat.le_add_right _ _), fun x hx => ?_⟩
    replace hx := (PluginRegistry.get?_adopt _ _ _).symm.trans hx
    split at hx
    · rename_i hnew
      obtain ⟨n, hn, hid⟩ := (hk j hj).1
      have heq := freshId_injective "plugin" (hid.symm.trans hnew)
      omega
    · exact (hk j hj).2 x hx
  · rw [List.mem_singleton.1 hj]
    refine ⟨⟨h.drawn, Nat.lt_add_of_pos_right Nat.two_pos, rfl⟩, fun x hx => ?_⟩
    replace hx := (PluginRegistry.get?_adopt _ _ _).symm.trans hx
    rw [if_pos rfl] at hx
    obtain rfl := Option.some.inj hx
    rfl

end Harness.KnowsAll

theorem known_stable (l : List PluginInstance) : Stable hostRules (Harness.KnowsAll l) :=
  host_stable fun hk a => hk.of_same a

theorem known_disposable (l : List PluginInstance) (i : PluginInstance) :
    Disposable hostRules i (Harness.KnowsAll l) where
  toStable := known_stable l
  unload := fun hk => hk.update i fun _ => rfl
  close := fun hk => hk.of_same ⟨rfl, rfl, rfl, le_refl _⟩
  forget := fun hk => hk.forget i

theorem known_mountable (l : List PluginInstance) (entry : PluginEntry) :
    Mountable hostRules entry (Harness.KnowsAll l)
      (fun i h => i.entryId = entry.entryId ∧ h.KnowsAll (l ++ [i]))
      (fun i h => i.entryId = entry.entryId ∧ h.KnowsAll (l ++ [i])) where
  toStable := known_stable l
  adopt := fun plan hk => ⟨rfl, hk.adopt entry _⟩
  loading := fun _ => host_stable fun hk a => ⟨hk.1, hk.2.of_same a⟩
  setup := fun {i h} answer hk => ⟨hk.1, hk.2.of_same (h.afterSetup_sameHosts i answer)⟩
  close := fun hk => ⟨hk.1, hk.2.of_same ⟨rfl, rfl, rfl, le_refl _⟩⟩
  fail := fun {i _} hk => ⟨hk.1, hk.2.update i fun _ => rfl⟩
  activate := fun {i h} identity hk => by
    have hup := (hk.2.update i (f := fun x => { x with state := .active }) fun _ => rfl).update i
      (f := fun x => { x with semanticIdentity := some identity }) fun _ => rfl
    refine ⟨hk.1, fun j hj => ?_⟩
    rcases List.mem_append.1 hj with hj | hj
    · exact hup j (List.mem_append_left _ hj)
    · have hi := hup i (List.mem_append_right _ (List.mem_singleton_self i))
      rw [List.mem_singleton.1 hj]
      exact hi
  mounted := fun _ => host_stable fun hk a => ⟨hk.1, hk.2.of_same a⟩
  record := fun hk => ⟨hk.1, hk.2⟩

/-! ## a pass -/

/-- others leave the instances alone, and the declarations in order -/
def soleRules : Rules Harness Operation Answer where
  interferes := fun h h' => SameHosts h h' ∧ (h.Orderly → h'.Orderly)
  admits := fun _ _ => True
  holds := fun _ => True

theorem wp_soleRules {α : Type} {p : Task α} {h : Harness}
    {Q : Trace Operation Answer → Except Err α → Harness → Prop} (hp : p.wp hostRules Q h) :
    p.wp soleRules Q h :=
  Prog.wp_stricter hp (fun _ _ a => a.1) (fun _ _ ha => ha) fun _ => Iff.rfl

theorem orderly_sole : Enduring soleRules Harness.Orderly :=
  { declared_enduring fun _ _ ho hs => Harness.Orderly.of_same ho hs with
    holds := fun _ => trivial
    interferes := fun ho hint _ => hint.2 ho }

theorem Harness.Orderly.named (ho : h.Orderly) : h.Named :=
  fun e entry hentry => (ho.housed e entry hentry).1

/-- what holds of a pass that has the entries of `left` before it -/
structure Sole (left : List String) (p : Progress) (h : Harness) : Prop where
  orderly : h.Orderly
  enrolled : h.Enrolled
  known : h.KnowsAll p.ordered
  entries : (p.ordered.map PluginInstance.entryId ++ left).Nodup

theorem mountEntry_sole (plan : ResolutionPlan) {entry : PluginEntry} (identity : SemanticIdentity)
    (existing : Option PluginInstance) {l : List PluginInstance} (he : h.Enrolled)
    (hd : h.Dates identity) (hk : h.KnowsAll l) :
    (mountEntry plan entry identity existing).wp hostRules (Prog.ends (fun i h' => h'.Enrolled ∧
      i.entryId = entry.entryId ∧ h'.KnowsAll (l ++ [i])) fun _ => True) h := by
  refine Prog.wp_mono (Prog.wp_and (mountEntry_enrolled plan entry identity existing he hd)
    (mountEntry_inv (known_mountable l entry) plan identity existing hk)) ?_
  rintro _ r h' ⟨he', hend⟩
  cases r with
  | ok i => exact ⟨he', hend⟩
  | error e => exact trivial

theorem materializeEntry_known (plan : ResolutionPlan) (p : Progress) (entryId : String)
    (hn : h.Named) (he : h.Enrolled) (hk : h.KnowsAll p.ordered) :
    (materializeEntry plan p entryId).wp hostRules (Prog.ends (fun p' h' => h'.Enrolled ∧
      h'.KnowsAll p'.ordered ∧ (p'.ordered = p.ordered ∨
        ∃ i, p'.ordered = p.ordered ++ [i] ∧ i.entryId = entryId)) fun _ => True) h := by
  have hmount : ∀ entry identity existing h₁, entry.entryId = entryId → Harness.Enrolled h₁ →
      h₁.Dates identity → h₁.KnowsAll p.ordered → (do
        let i ← mountEntry plan entry identity existing
        return ⟨p.ordered ++ [i], p.identities.set entryId identity⟩ : Task Progress).wp hostRules
        (Prog.ends (fun p' h' => h'.Enrolled ∧ h'.KnowsAll p'.ordered ∧
          (p'.ordered = p.ordered ∨ ∃ i, p'.ordered = p.ordered ++ [i] ∧ i.entryId = entryId))
          fun _ => True) h₁ := by
    intro entry identity existing h₁ hentry he₁ hd₁ hk₁
    refine Prog.wp_bind_of (mountEntry_sole plan identity existing he₁ hd₁ hk₁) ?_
      (fun _ _ _ _ => trivial)
    rintro _ i h₂ ⟨he₂, hi, hk₂⟩
    exact ⟨he₂, hk₂, Or.inr ⟨i, rfl, hi.trans hentry⟩⟩
  unfold materializeEntry
  rw [Prog.wp_gets_bind]
  split
  · exact ⟨he, hk, Or.inl rfl⟩
  · rename_i entry hentry
    have hname : entry.entryId = entryId := hn entryId entry hentry
    refine Prog.wp_ofExcept_bind (fun identity hid => ?_) fun _ _ => trivial
    have hd := he.semanticIdentity hid
    split
    · rename_i existing hreuse
      obtain ⟨hi, -⟩ := Option.filter_eq_some_iff.1 hreuse
      obtain ⟨hown, hget, hissued⟩ := he.instance? hi
      refine ⟨he.of_same ⟨rfl, rfl, rfl, le_refl _⟩, fun j hj => ?_,
        Or.inr ⟨existing, rfl, hown.trans hname⟩⟩
      rcases List.mem_append.1 hj with hj | hj
      · exact hk j hj
      · rw [List.mem_singleton.1 hj]
        refine ⟨hissued, fun x hx => ?_⟩
        obtain rfl := Option.some.inj (hget.symm.trans hx)
        rfl
    · simp only
      split
      · rename_i failed hf
        obtain ⟨hi, -⟩ := Option.filter_eq_some_iff.1 hf
        have hone : EnrolledWith failed h := by
          obtain ⟨-, hget, hiss⟩ := he.instance? hi
          refine ⟨he, hiss, fun x hx => ?_⟩
          obtain rfl := Option.some.inj (hget.symm.trans hx)
          rfl
        have hdated : Stable hostRules fun h' => h'.Dates identity :=
          host_stable fun hb a => hb.mono a.drawn
        have hdispose : (disposeInstance failed).wp hostRules
            (fun _ _ h' => h'.Enrolled ∧ h'.Dates identity ∧ h'.KnowsAll p.ordered) h := by
          refine Prog.wp_and (disposeInstance_enrolled hone) (Prog.wp_and (disposeInstance_inv ?_ hd)
            (disposeInstance_inv (known_disposable p.ordered failed) hk))
          exact { hdated with unload := fun hb => hb, close := fun hb => hb, forget := fun hb => hb }
        exact Prog.wp_bind_of hdispose (fun _ _ h' hb => hmount _ _ _ h' hname hb.1 hb.2.1 hb.2.2)
          (fun _ _ _ _ => trivial)
      · exact hmount _ _ _ h hname he hd hk

theorem materializeEntry_sole (plan : ResolutionPlan) (p : Progress) (entryId : String)
    (left : List String) (hs : Sole (entryId :: left) p h) :
    (materializeEntry plan p entryId).wp soleRules (Prog.ends (Sole left) fun _ => True) h := by
  refine Prog.wp_mono (Prog.wp_and (materializeEntry_inv
      orderly_sole.turning plan p entryId hs.orderly)
    (wp_soleRules (materializeEntry_known plan p entryId hs.orderly.named hs.enrolled hs.known))) ?_
  rintro _ r h' ⟨ho, hend⟩
  cases r with
  | error e => exact trivial
  | ok p' =>
    obtain ⟨he, hk, hgrown⟩ := hend
    refine ⟨ho, he, hk, ?_⟩
    rcases hgrown with hsame | ⟨i, hnew, rfl⟩
    · rw [hsame]
      exact hs.entries.sublist (List.Sublist.append_left (List.sublist_cons_self _ _) _)
    · rw [hnew, List.map_append, List.append_assoc]
      exact hs.entries

/-- the instances of a candidate -/
structure Candidate.Known (c : Candidate) (h : Harness) : Prop where
  known : h.KnowsAll c.instances
  entries : (c.instances.map PluginInstance.entryId).Nodup

theorem assemble_sole {plan : ResolutionPlan} (hnodup : plan.activationOrder.Nodup) (ho : h.Orderly)
    (he : h.Enrolled) : (assemble plan).wp soleRules (Prog.ends Candidate.Known fun _ => True) h := by
  have hloop : (materialize plan).wp soleRules (Prog.ends (fun instances h' =>
      h'.KnowsAll instances ∧ (instances.map PluginInstance.entryId).Nodup) fun _ => True) h := by
    have hstart : Sole plan.activationOrder {} h := ⟨ho, he, fun j hj => absurd hj List.not_mem_nil, hnodup⟩
    refine Prog.wp_bind_of (Prog.wp_foldlM_rest (A := Sole)
      (fun p entryId left h hs => materializeEntry_sole plan p entryId left hs) hstart) ?_
      (fun _ _ _ _ => trivial)
    intro _ p h' hs
    have hall := hs.entries
    rw [List.append_nil] at hall
    exact ⟨hs.known, hall⟩
  refine Prog.wp_bind_of hloop (fun _ instances h₁ hk => ?_) (fun _ _ _ _ => trivial)
  refine Prog.wp_ofExcept_bind (s := h₁) (fun _ _ => ?_) (fun _ _ => trivial)
  exact Prog.wp_ofExcept_bind (s := h₁) (fun _ _ => ⟨hk.1, hk.2⟩) (fun _ _ => trivial)

theorem stage_sole (ho : h.Orderly) (he : h.Listed) :
    stage.wp soleRules (Prog.ends Candidate.Known fun _ => True) h := by
  refine Prog.wp_bind_of (P := fun _ _ h' => h' = h) ?_ ?_ (fun _ _ _ _ => trivial)
  · unfold requireComposable
    rw [Prog.wp_gets_bind]
    split <;> exact rfl
  · rintro _ _ h₁ rfl
    refine Prog.wp_ofExcept_bind (s := h₁) (fun plan hplan => ?_) (fun _ _ => trivial)
    refine Prog.wp_ofExcept_bind (s := h₁) (fun _ _ => ?_) (fun _ _ => trivial)
    have hstart : Harness.Enrolled { h₁ with work := { planned := some h₁.desired } } :=
      he.working _ rfl
    refine Prog.wp_tryCatch.2 (Prog.wp_mono
      (assemble_sole (activationOrder_nodup_of_resolve hplan) (h := { h₁ with work := _ })
        { ho with } hstart)
      fun _ r h₂ hr => ?_)
    cases r with
    | ok c => exact hr
    | error e =>
      have hany : ∀ (l : List PluginInstance) (h : Harness), (l.forM disposeInstance).wp soleRules
          (fun _ _ _ => True) h := fun l h => Prog.wp_true (fun _ => trivial) _ h
      show (rollback e).wp soleRules _ h₂
      unfold rollback
      rw [Prog.wp_gets_bind]
      refine Prog.wp_bind_of (hany _ _) (fun _ _ h₃ _ => ?_) (fun _ _ _ _ => trivial)
      split
      · exact trivial
      · exact trivial

/-! ## what is published -/

/-- of an entry, no live generation has two instances -/
def Harness.Singular (h : Harness) : Prop := ∀ g ∈ h.generations.live, Chassis.Singular g.instances

theorem Candidate.Known.singular {c : Candidate} (hk : c.Known h) {K D : List String}
    (hg : Guarded K D h) (hK : ∀ i ∈ c.instances, i.instanceId ∈ K) : Chassis.Singular c.instances := by
  refine ⟨hk.entries, List.Nodup.map_on (fun i hi j hj hid => ?_) ?_⟩
  · obtain ⟨x, hx, -⟩ := hg.kept _ (hK i hi)
    have hsame : i.entryId = j.entryId :=
      ((hk.known i hi).2 x hx).symm.trans ((hk.known j hj).2 x (hid ▸ hx))
    exact List.inj_on_of_nodup_map hk.entries hi hj hsame
  · exact hk.entries.of_map _

theorem singular_extra : Extra (fun _ => True) Harness.Singular where
  aside := fun _ _ _ _ _ _ hs => hs
  fresh := fun _ _ _ => trivial
  renamed := fun _ _ => trivial
  known := fun _ _ => trivial
  update := fun _ _ _ hs => hs
  adopt := fun _ _ _ hs => hs
  forget := fun _ hs => hs
  refresh := fun hs => hs
  retire := by
    intro h g m hr hs g' hg'
    refine hs g' ?_
    rcases GenerationManager.mem_live.1 hg' with hc | hd
    · refine GenerationManager.mem_live.2 (Or.inl ?_)
      rw [← GenerationManager.retire_current hr]
      exact hc
    · unfold GenerationManager.retire at hr
      split at hr
      · cases hr
        exact GenerationManager.mem_live.2 (Or.inr hd)
      · cases hr
      · split at hr
        · cases hr
        · cases hr
          exact GenerationManager.mem_live.2 (Or.inr (List.mem_filter.1 hd).1)
  setup := fun {h} i answer _ _ _ hs => by
    unfold Harness.Singular
    rw [(h.afterSetup_sameHoldings i answer).generations]
    exact hs
  close := fun _ _ _ _ hs => hs

theorem enact_singular (c : Candidate)
    (g : Guarding Harness.Singular (c.instances.map PluginInstance.instanceId) [] h)
    (hc : Chassis.Singular c.instances) :
    (enact c).wp (upheldRules Harness.Singular) (fun _ _ h' => Upheld Harness.Singular h') h := by
  unfold enact
  cases c.reuse with
  | some g' => exact keepGeneration_keeps singular_extra c g' ⟨g.1.toSafe, g.2⟩
  | none =>
    obtain ⟨previous, m, hok, -, hcur, hprev, hdrain⟩ :=
      GenerationManager.publish_accounted g.1.accounted c.snapshotFactory c.instances
        ⟨c.instances.length, c.scopeTree.scopes.length, h.effectivePreferences⟩ c.scopeTree
    obtain ⟨previous', m', hok', -, hsafe⟩ := publish_safe c g.1
    obtain ⟨rfl, rfl⟩ := Prod.mk.inj (Except.ok.inj (hok.symm.trans hok'))
    show (publishCandidate c).wp (upheldRules Harness.Singular) _ h
    unfold publishCandidate
    rw [Prog.wp_gets_bind]
    refine Prog.wp_ofExcept_bind (fun p hp => ?_) fun e he => ?_
    · obtain rfl := Except.ok.inj (hok.symm.trans hp)
      rw [Prog.wp_modify_bind]
      have hs : Harness.Singular { h with generations := m, origin := h.work.planned } := by
        intro g' hg'
        rcases GenerationManager.mem_live.1 hg' with hc' | hd
        · obtain rfl := Option.some.inj (hcur.symm.trans hc')
          exact hc
        · change g' ∈ m.draining at hd
          rw [hdrain, hprev] at hd
          rcases List.mem_append.1 hd with hold | hnew
          · exact g.2 g' (GenerationManager.mem_live.2 (Or.inr hold))
          · obtain ⟨p, hp', rfl⟩ := Option.map_eq_some_iff.1 (Option.mem_toList.1 hnew)
            exact g.2 p (GenerationManager.mem_live.2 (Or.inl hp'))
      exact Prog.wp_bind_of (announce_inv (upheld_stable singular_extra) _ _ ⟨hsafe, hs⟩)
        (fun _ _ _ hu => hu) (fun _ _ _ hu => hu)
    · cases hok.symm.trans he

/-! ## every run -/

/-- others leave the instances alone, of the generations change leases only, and leave the
declarations in order -/
def singleRules : Rules Harness Operation Answer where
  interferes := fun h h' => Undisturbed h h' ∧ SameHosts h h' ∧ (h.Orderly → h'.Orderly)
  admits := fun _ _ => True
  holds := Upheld Harness.Singular

theorem wp_singleRules {α : Type} {p : Task α} {h : Harness}
    {Q : Trace Operation Answer → Except Err α → Harness → Prop}
    (hp : p.wp (upheldRules Harness.Singular) Q h) : p.wp singleRules Q h :=
  Prog.wp_stricter hp (fun _ _ a => a.1) (fun _ _ ha => ha) fun _ => Iff.rfl

theorem reconcile_singular (hu : Upheld Harness.Singular h) (ho : h.Orderly) (hl : h.Listed) :
    reconcile.wp singleRules (fun _ _ h' => Upheld Harness.Singular h') h := by
  have hstage := Prog.wp_beside (wp_singleRules (stage_keeps singular_extra hu)) (stage_sole ho hl)
    (fun _ _ a => a.2) (fun _ _ ha => ha) fun _ => trivial
  refine Prog.wp_bind_of hstage (fun _ c h₁ hc => ?_) (fun _ _ _ he => he.1)
  have hsingular := hc.2.singular hc.1.1 fun i hi => List.mem_map_of_mem hi
  refine Prog.wp_bind_of (wp_singleRules (enact_singular c hc.1 hsingular)) (fun _ g h₂ hu₂ => ?_)
    (fun _ _ _ he => he)
  exact wp_singleRules (conclude_keeps singular_extra c g hu₂)

/-- what holds whenever nobody composes -/
structure Harness.Tenanted (h : Harness) : Prop where
  upheld : Upheld Harness.Singular h
  listed : h.Listed
  orderly : h.Orderly

theorem job_singular (j : Job) (ht : h.Tenanted) :
    j.program.wp singleRules (fun _ _ h' => h'.Tenanted) h := by
  have hkeep : j.program.wp singleRules (fun _ _ h' => Upheld Harness.Singular h') h := by
    cases j with
    | reconcile =>
      exact Prog.wp_bind_of (reconcile_singular ht.upheld ht.orderly ht.listed)
        (fun _ _ _ hu => hu) (fun _ _ _ hu => hu)
    | reclaimAfterDrain => exact wp_singleRules (reclaimAfterDrain_keeps singular_extra ht.upheld)
  have hsole := Prog.wp_and (wp_soleRules (job_enrolled j ht.listed))
    (job_inv orderly_sole j ht.orderly)
  refine Prog.wp_mono (Prog.wp_beside hkeep hsole (fun _ _ a => a.2) (fun _ _ ha => ha)
    fun _ => trivial) ?_
  rintro _ _ h' ⟨hu, hl, ho⟩
  exact ⟨hu, hl, ho⟩

theorem ControlAct.singular (ha : ControlAct h h') (hu : Upheld Harness.Singular h) :
    Upheld Harness.Singular h' := by
  refine ⟨(ha.safe hu.1).1, fun g hg => ?_⟩
  have hin : (g.sequence, g.instances) ∈ h'.generations.footprint := List.mem_map_of_mem hg
  rw [(ha.safe hu.1).2.footprint] at hin
  obtain ⟨g', hg', heq⟩ := List.mem_map.1 hin
  rw [← (Prod.mk.inj heq).2]
  exact hu.2 g' hg'

/-- **In every configuration** a live generation has one instance for each of its entries, and each
of them once. -/
theorem ControlRun.singular {h₀ : Harness} {history : List (Event Job Err × HarnessConfig)}
    {c : HarnessConfig} (hrun : ControlRun h₀ history c) : c.state.Singular := by
  have hm : Monitored singleRules ControlAct Job.program Harness.Tenanted
      (fun _ _ => Harness.Tenanted) :=
    { refl := fun h => ⟨(SameRuntime.refl h).sameHoldings.undisturbed, SameHosts.refl h, fun ho => ho⟩
      trans := fun _ _ _ a hu ha => ⟨a.1.trans (ha.safe hu.1).2, a.2.1.trans ha.sameHosts,
        fun ho => (a.2.2 ho).control ha⟩
      admits := fun _ _ _ => trivial
      idle := fun _ _ ht ha => ⟨ha.singular ht.upheld, ht.listed.of_same ha.sameHosts,
        ht.orderly.control ha⟩
      held := fun _ _ hu ha => ha.singular hu
      job := fun j _ ht => job_singular j ht }
  have hstart : h₀.Tenanted := by
    refine ⟨⟨hrun.1.toFresh.safe, fun g hg => ?_⟩, hrun.1.toFresh.listed, hrun.1.orderly⟩
    rw [hrun.1.toFresh.generations] at hg
    cases hg
  have hsound := hm.run hstart hrun.2 fun _ _ _ _ ht => ht
  unfold Config.Sound at hsound
  split at hsound
  · exact hsound.upheld.2
  · exact hsound.1.2

end

end Chassis
