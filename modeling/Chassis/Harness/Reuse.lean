import Chassis.Harness.Revisions

/-!
# Which instances are carried over

* `Harness.Settled`     the newest instance of an entry is the one a pass would carry over;
* `materialize_settled`   a pass mounts nothing iff every entry it activates is settled;
* `reconcile_settled`   so does a reconcile that succeeds.
-/

set_option linter.unusedSectionVars false

namespace Chassis
open Py Coop

section
variable [Packaging] [Platform]

namespace Harness
variable (h : Harness)

/-- entries are kept under their own ids -/
def Named : Prop := ∀ e entry, h.plugins.entry? e = some entry → entry.entryId = e

/-- the newest instance of an entry is active, of its revision, and was mounted under the identity
the entry has now -/
def Settled (plan : ResolutionPlan) (entry : PluginEntry) : Prop :=
  ∃ i identity, h.plugins.instance? entry.entryId = some i ∧ i.state = .active ∧
    i.entryRevision = entry.revision ∧ i.semanticIdentity = some identity ∧
    h.semanticIdentity entry plan Dict.empty = .ok identity

/-- all entries that a plan activates are -/
def AllSettled (plan : ResolutionPlan) : Prop :=
  ∀ e ∈ plan.activationOrder, ∀ entry, h.plugins.entry? e = some entry → h.Settled plan entry

variable {h}

theorem reusable_eq_some {entry : PluginEntry} {identity : SemanticIdentity} {i : PluginInstance} :
    h.reusable entry identity = some i ↔ h.plugins.instance? entry.entryId = some i ∧
      i.state = .active ∧ i.entryRevision = entry.revision ∧ i.semanticIdentity = some identity := by
  unfold reusable
  rw [Option.filter_eq_some_iff]
  simp only [Bool.and_eq_true, decide_eq_true_eq, and_assoc]

theorem identityOf_eq {identities : Dict String SemanticIdentity}
    (hrec : ∀ e identity, identities.get? e = some identity →
      ∃ i, h.plugins.instance? e = some i ∧ i.semanticIdentity = some identity) :
    h.identityOf identities = h.identityOf Dict.empty := by
  funext provider
  unfold identityOf
  cases hp : identities.get? provider with
  | none => rfl
  | some known =>
    obtain ⟨i, hi, hk⟩ := hrec provider known hp
    show some known.identityDigest = (h.plugins.instance? provider).bind _
    rw [hi, Option.bind_some, hk]
    rfl

end Harness

/-! ## a pass -/

/-- what holds of a pass as long as it mounts nothing -/
structure Carrying (h : Harness) (plan : ResolutionPlan) (done : List String) (p : Progress)
    (h' : Harness) : Prop where
  rest : ∃ reused, h' = { h with work := { h.work with reused := reused } }
  recorded : ∀ e identity, p.identities.get? e = some identity →
    ∃ i, h.plugins.instance? e = some i ∧ i.semanticIdentity = some identity
  settled : ∀ e ∈ done, ∀ entry, h.plugins.entry? e = some entry → h.Settled plan entry

/-- what holds once it has mounted something -/
structure Unsettled (h : Harness) (plan : ResolutionPlan) (h' : Harness) : Prop where
  mounted : h'.work.mounted ≠ []
  unsettled : ¬ h.AllSettled plan

theorem mounted_turning : Turning .alone fun h => h.work.mounted ≠ [] where
  holds := fun _ => trivial
  interferes := fun hj he _ => he ▸ hj
  learn := fun _ hj => hj
  note := fun _ hj => hj
  update := fun _ _ hj => hj
  adopt := fun _ hj => hj
  forget := fun _ hj => hj
  setup := by
    intro h i a hj
    rw [(h.afterSetup_sameHoldings i a).mounted]
    exact hj
  close := fun _ hj => hj
  record := fun _ _ => List.append_ne_nil_of_right_ne_nil _ (List.cons_ne_nil _ _)
  reused := fun _ hj => hj

theorem rollback_raises {Q : Trace Operation Answer → Except Err Candidate → Harness → Prop}
    (hq : ∀ tr e h', Q tr (.error e) h') (e : Err) (h : Harness) : (rollback e).wp .alone Q h := by
  have hany : Robust .alone fun _ => True :=
    { holds := fun _ => trivial, interferes := fun _ _ _ => trivial, learn := fun _ _ => trivial
      note := fun _ _ => trivial, update := fun _ _ _ => trivial, adopt := fun _ _ => trivial
      forget := fun _ _ => trivial, setup := fun _ _ _ => trivial, close := fun _ _ => trivial
      mounted := fun _ _ => trivial, reused := fun _ _ => trivial, report := fun _ _ => trivial }
  refine Prog.wp_mono (rollback_inv hany e trivial) fun tr r h' hr => ?_
  obtain ⟨⟨e', rfl⟩, -⟩ := hr
  exact hq tr e' h'

theorem mountEntry_records (plan : ResolutionPlan) (entry : PluginEntry) (identity : SemanticIdentity)
    (existing : Option PluginInstance) (h : Harness) :
    (mountEntry plan entry identity existing).wp .alone
      (Prog.ends (fun _ h' => h'.work.mounted ≠ []) fun _ => True) h := by
  have hany : ∀ {α : Type} (p : Task α) (s : Harness), p.wp .alone (fun _ _ _ => True) s :=
    fun _ _ => Prog.wp_of_outcome fun _ _ _ _ => trivial
  refine Prog.wp_bind_of (hany _ _) (fun _ _ h₁ _ => ?_) (fun _ _ _ _ => trivial)
  rw [Prog.wp_gets_bind]
  refine Prog.wp_bind_of (hany _ _) (fun _ i h₂ _ => ?_) (fun _ _ _ _ => trivial)
  show (observed _ >>= _ : Task PluginInstance).wp .alone _ _
  refine Prog.wp_bind_of (hany _ _) (fun _ _ h₃ _ => ?_) (fun _ _ _ _ => trivial)
  exact List.append_ne_nil_of_right_ne_nil _ (List.cons_ne_nil _ _)

variable {h : Harness} {plan : ResolutionPlan}

theorem Unsettled.turn (p : Progress) (e : String) {h' : Harness} (hu : Unsettled h plan h') :
    (materializeEntry plan p e).wp .alone (fun _ _ h'' => Unsettled h plan h'') h' :=
  Prog.wp_mono (materializeEntry_inv mounted_turning plan p e hu.mounted)
    fun _ _ _ hm => ⟨hm, hu.unsettled⟩

/-- **One turn**: a settled entry is carried over, and the first that is not is mounted. -/
theorem Carrying.turn (hn : h.Named) {done : List String} {p : Progress} {e : String}
    {h' : Harness} (hc : Carrying h plan done p h') (he : e ∈ plan.activationOrder) :
    (materializeEntry plan p e).wp .alone (Prog.ends
      (fun p' h'' => Carrying h plan (done ++ [e]) p' h'' ∨ Unsettled h plan h'')
      fun _ => True) h' := by
  obtain ⟨reused, hrest⟩ := hc.rest
  have hplugins : h'.plugins = h.plugins := by rw [hrest]
  unfold materializeEntry
  rw [Prog.wp_gets_bind]
  simp only [id_eq]
  rw [hplugins]
  cases hent : h.plugins.entry? e with
  | none =>
    refine Or.inl ⟨hc.rest, hc.recorded, fun e' he' entry hentry => ?_⟩
    rcases List.mem_append.1 he' with hd | hd
    · exact hc.settled e' hd entry hentry
    · rw [List.mem_singleton.1 hd, hent] at hentry
      cases hentry
  | some entry =>
    have hid : h'.semanticIdentity entry plan p.identities =
        h.semanticIdentity entry plan Dict.empty := by
      unfold Harness.semanticIdentity
      rw [← Harness.identityOf_eq hc.recorded, hrest]
      rfl
    refine Prog.wp_ofExcept_bind (fun identity hok => ?_) fun _ _ => trivial
    replace hok := hid.symm.trans hok
    have hreusable : h'.reusable entry identity = h.reusable entry identity := by
      rw [hrest]
      rfl
    rw [hreusable]
    cases hr : h.reusable entry identity with
    | some existing =>
      obtain ⟨hi, hact, hrev, hrec⟩ := Harness.reusable_eq_some.1 hr
      refine Or.inl ⟨⟨reused ++ [e], ?_⟩, fun e' known hk => ?_, fun e' he' entry' hentry => ?_⟩
      · rw [hrest]
      · rw [Dict.get?_set] at hk
        split at hk
        · rename_i hee
          cases hk
          rw [hee, ← hn e entry hent]
          exact ⟨existing, hi, hrec⟩
        · exact hc.recorded e' known hk
      · rcases List.mem_append.1 he' with hd | hd
        · exact hc.settled e' hd entry' hentry
        · rw [List.mem_singleton.1 hd, hent] at hentry
          cases hentry
          exact ⟨existing, identity, hi, hact, hrev, hrec, hok⟩
    | none =>
      have hunsettled : ¬ h.AllSettled plan := by
        intro hall
        obtain ⟨i, identity', hi, hact, hrev, hrec, hok'⟩ := hall e he entry hent
        rw [hok] at hok'
        cases hok'
        rw [Harness.reusable_eq_some.2 ⟨hi, hact, hrev, hrec⟩] at hr
        cases hr
      have hmount : ∀ h₁, (do
          let i ← mountEntry plan entry identity (h.plugins.instance? e)
          return ⟨p.ordered ++ [i], p.identities.set e identity⟩ : Task Progress).wp .alone
          (Prog.ends (fun p' h'' => Carrying h plan (done ++ [e]) p' h'' ∨ Unsettled h plan h'')
            fun _ => True) h₁ := fun h₁ =>
        Prog.wp_bind_of (mountEntry_records plan entry identity _ h₁)
          (fun _ _ _ hm => Or.inr ⟨hm, hunsettled⟩) (fun _ _ _ _ => trivial)
      rw [hrest]
      simp only
      split
      · refine Prog.wp_bind_of (P := fun _ _ _ => True) ?_ (fun _ _ h₁ _ => hmount h₁)
          (fun _ _ _ _ => trivial)
        exact Prog.wp_of_outcome fun _ _ _ _ => trivial
      · exact hmount _

/-- **A pass mounts nothing iff every entry it activates is settled.** -/
theorem materialize_settled (hn : h.Named) (hw : h.work.mounted = []) :
    (materialize plan).wp .alone (Prog.ends
      (fun _ h' => h'.work.mounted = [] ↔ h.AllSettled plan) fun _ => True) h := by
  have hloop : (plan.activationOrder.foldlM (materializeEntry plan) {}).wp .alone (Prog.ends
      (fun p h' => Carrying h plan plan.activationOrder p h' ∨ Unsettled h plan h')
      fun _ => True) h := by
    have hstart : Carrying h plan [] {} h :=
      ⟨⟨h.work.reused, rfl⟩, fun _ _ hk => (nomatch hk), fun _ hd => (nomatch hd)⟩
    have hrest : (plan.activationOrder.foldlM (materializeEntry plan) {}).wp .alone (Prog.ends
        (fun p h' => (∃ done, plan.activationOrder = done ++ [] ∧ Carrying h plan done p h') ∨
          Unsettled h plan h') fun _ => True) h := by
      refine Prog.wp_foldlM_rest (A := fun left p h' =>
        (∃ done, plan.activationOrder = done ++ left ∧ Carrying h plan done p h') ∨
          Unsettled h plan h') ?_ (Or.inl ⟨[], rfl, hstart⟩)
      rintro p e left h₁ (⟨done, horder, hc⟩ | hu)
      · have he : e ∈ plan.activationOrder := by
          rw [horder]
          exact List.mem_append_right _ List.mem_cons_self
        refine Prog.wp_mono (hc.turn hn he) fun tr' r h₂ hr => ?_
        cases r with
        | ok p' =>
          refine hr.imp (fun hc' => ⟨done ++ [e], ?_, hc'⟩) id
          rw [horder, List.append_assoc]
          rfl
        | error e' => trivial
      · refine Prog.wp_mono (hu.turn p e) fun tr' r h₂ hr => ?_
        cases r with
        | ok p' => exact Or.inr hr
        | error e' => trivial
    refine Prog.wp_mono hrest fun tr r h' hr => ?_
    cases r with
    | ok p =>
      refine hr.imp (fun ⟨done, horder, hc⟩ => ?_) id
      rw [List.append_nil] at horder
      exact horder ▸ hc
    | error e => trivial
  refine Prog.wp_bind_of hloop (fun _ p h' hp => ?_) (fun _ _ _ _ => trivial)
  show h'.work.mounted = [] ↔ h.AllSettled plan
  rcases hp with hc | hu
  · obtain ⟨reused, hrest⟩ := hc.rest
    refine iff_of_true ?_ hc.settled
    rw [hrest]
    exact hw
  · exact iff_of_false hu.mounted hu.unsettled

/-! ## a reconcile -/

theorem mounted_stable (m : List PluginInstance) : Stable .alone fun h => h.work.mounted = m where
  holds := fun _ => trivial
  interferes := fun hj he _ => he ▸ hj
  learn := fun _ hj => hj
  note := fun _ hj => hj

theorem mounted_clearing (m : List PluginInstance) :
    Clearing .alone fun h => h.work.mounted = m where
  toStable := mounted_stable m
  disposable := fun _ =>
    { toStable := mounted_stable m
      unload := fun hj => hj
      close := fun hj => hj
      forget := fun hj => hj }
  retire := fun _ hj => hj
  refresh := fun hj => hj

/-- what a reconcile reports as mounted is what its pass mounted -/
theorem commit_mounted (c : Candidate) (h : Harness) : (commit c).wp .alone (Prog.ends
    (fun res _ => res.plan = c.plan ∧ res.mounted = h.work.mounted.map PluginInstance.entryId)
    fun _ => True) h := by
  have henact : (enact c).wp .alone (fun _ _ h' => h'.work.mounted = h.work.mounted) h := by
    unfold enact
    cases c.reuse with
    | some g => exact rfl
    | none =>
      show (publishCandidate c).wp .alone _ h
      unfold publishCandidate
      rw [Prog.wp_gets_bind]
      refine Prog.wp_ofExcept_bind (fun published _ => ?_) fun _ _ => rfl
      rw [Prog.wp_modify_bind]
      exact Prog.wp_bind_of (announce_inv (mounted_stable h.work.mounted) _ _ rfl)
        (fun _ _ _ hm => hm) (fun _ _ _ hm => hm)
  refine Prog.wp_bind_of henact (fun _ g h₁ hm => ?_) (fun _ _ _ _ => trivial)
  refine Prog.wp_bind_of (reclaim_inv (mounted_clearing _) hm) (fun _ disposed h₂ hm₂ => ?_)
    (fun _ _ _ _ => trivial)
  exact ⟨rfl, congrArg (List.map PluginInstance.entryId) hm₂⟩

/-- **A reconcile that succeeds** mounts nothing iff every entry it activates was settled. -/
theorem reconcile_settled (hn : h.Named) : reconcile.wp .alone (Prog.ends
    (fun res _ =>
      resolve h.candidates h.effectivePreferences (some h.composition.specs) = .ok res.plan ∧
        (res.mounted = [] ↔ h.AllSettled res.plan)) fun _ => True) h := by
  have hstage : stage.wp .alone (Prog.ends (fun c h' =>
      resolve h.candidates h.effectivePreferences (some h.composition.specs) = .ok c.plan ∧
        (h'.work.mounted = [] ↔ h.AllSettled c.plan)) fun _ => True) h := by
    refine Prog.wp_bind_of (P := fun _ _ h' => h' = h) ?_ ?_ fun _ _ _ _ => trivial
    · unfold requireComposable
      rw [Prog.wp_gets_bind]
      split <;> exact rfl
    · rintro tr _ h₁ rfl
      refine Prog.wp_ofExcept_bind (s := h₁) (fun plan hplan => ?_) fun _ _ => trivial
      refine Prog.wp_ofExcept_bind (s := h₁) (fun _ _ => ?_) fun _ _ => trivial
      refine Prog.wp_tryCatch.2 ?_
      refine Prog.wp_bind_of (materialize_settled
        (h := { h₁ with work := { planned := some h₁.desired } }) hn rfl)
        (fun tr' instances h₂ hm => ?_) (fun tr' e h₂ _ => ?_)
      · refine Prog.wp_ofExcept_bind (s := h₂) (fun _ _ => ?_) (fun e _ => ?_)
        · refine Prog.wp_ofExcept_bind (s := h₂) (fun tree _ => ?_) (fun e _ => ?_)
          · exact ⟨hplan, hm⟩
          · exact rollback_raises (fun _ _ _ => trivial) e h₂
        · exact rollback_raises (fun _ _ _ => trivial) e h₂
      · exact rollback_raises (fun _ _ _ => trivial) e h₂
  refine Prog.wp_bind_of hstage (fun _ c h₁ hc => ?_) (fun _ _ _ _ => trivial)
  refine Prog.wp_mono (commit_mounted c h₁) fun _ r h₂ hr => ?_
  cases r with
  | error e => trivial
  | ok res =>
    obtain ⟨hplan, hmounted⟩ := hr
    refine ⟨by rw [hplan]; exact hc.1, ?_⟩
    rw [hplan, hmounted, List.map_eq_nil_iff]
    exact hc.2

/-! ## what the redactor learns -/

namespace Harness
variable (h : Harness)

/-- an entry is settled if `display` is the digest of its configuration as it may be displayed -/
def SettledBut (plan : ResolutionPlan) (entry : PluginEntry) (display : String) : Prop :=
  ∃ i identity, h.plugins.instance? entry.entryId = some i ∧ i.state = .active ∧
    i.entryRevision = entry.revision ∧
    i.semanticIdentity = some { identity with configDisplayFingerprint := display } ∧
    h.semanticIdentity entry plan Dict.empty = .ok identity

variable {h} {plan : ResolutionPlan} {entry : PluginEntry}

theorem semanticIdentity_display {identities : Dict String SemanticIdentity}
    {identity : SemanticIdentity} (hok : h.semanticIdentity entry plan identities = .ok identity) :
    identity.configDisplayFingerprint = configDisplay h.redactor entry.config := by
  obtain ⟨-, rfl⟩ := buildSemanticIdentity_ok.1 hok
  rfl

theorem settled_iff : h.Settled plan entry ↔
    h.SettledBut plan entry (configDisplay h.redactor entry.config) := by
  constructor
  · rintro ⟨i, identity, hi, hact, hrev, hrec, hok⟩
    refine ⟨i, identity, hi, hact, hrev, ?_, hok⟩
    rw [← semanticIdentity_display hok]
    exact hrec
  · rintro ⟨i, identity, hi, hact, hrev, hrec, hok⟩
    refine ⟨i, identity, hi, hact, hrev, ?_, hok⟩
    rw [← semanticIdentity_display hok] at hrec
    exact hrec

theorem SettledBut.unique {d d' : String} (hd : h.SettledBut plan entry d)
    (hd' : h.SettledBut plan entry d') : d = d' := by
  obtain ⟨i, identity, hi, -, -, hrec, -⟩ := hd
  obtain ⟨i', identity', hi', -, -, hrec', -⟩ := hd'
  obtain rfl := Option.some.inj (hi.symm.trans hi')
  exact congrArg SemanticIdentity.configDisplayFingerprint
    (Option.some.inj (hrec.symm.trans hrec'))

/-- what the redactor knows changes nothing but the display -/
theorem SettledBut.redactor {display : String} (hd : h.SettledBut plan entry display)
    (r : Redactor) : Harness.SettledBut { h with redactor := r } plan entry display := by
  obtain ⟨i, identity, hi, hact, hrev, hrec, hok⟩ := hd
  obtain ⟨hdata, hid⟩ := buildSemanticIdentity_ok.1 hok
  refine ⟨i, { identity with configDisplayFingerprint := configDisplay r entry.config }, hi, hact,
    hrev, hrec, buildSemanticIdentity_ok.2 ⟨hdata, ?_⟩⟩
  rw [← hid]
  rfl

theorem settled_learn {secrets : List String} : (h.learn secrets).Settled plan entry ↔
    h.SettledBut plan entry (configDisplay (h.learn secrets).redactor entry.config) := by
  rw [settled_iff]
  constructor
  · intro hd
    exact hd.redactor h.redactor
  · intro hd
    exact hd.redactor (h.learn secrets).redactor

end Harness

theorem ControlRun.named {h h' : Harness} {history : List (Event Job Err × HarnessConfig)}
    (hrun : ControlRun h history ⟨h', none⟩) : h'.Named :=
  fun e entry hentry => (hrun.orderly.housed e entry hentry).1

/-- **When what is learned forces no rebuild.**  An identity does not depend on what the redactor
knows iff the configuration is displayed alike (or is no data, and has no identity).  In any
reachable state, whatever is learned, a reconcile that succeeds then mounts nothing iff every entry
is settled for the display of its configuration; where it would have mounted nothing without the
learning, iff every configuration is still displayed alike. -/
theorem learning_reuses_iff :
    (∀ (own : OwnInputs) (resolutions : List RequirementResolution)
      (instanceOf identityOf : String → Option String) (r r' : Redactor),
      buildSemanticIdentity own resolutions instanceOf identityOf r =
          buildSemanticIdentity own resolutions instanceOf identityOf r' ↔
        (IsData own.config → configDisplay r own.config = configDisplay r' own.config)) ∧
    ∀ {h₀ h : Harness} {history : List (Event Job Err × HarnessConfig)},
      ControlRun h₀ history ⟨h, none⟩ → ∀ {secrets : List String} {tr : Trace Operation Answer}
      {res : ReconcileResult} {h' : Harness}, reconcile.Outcome (h.learn secrets) tr (.ok res) h' →
      (res.mounted = [] ↔ ∀ e ∈ res.plan.activationOrder, ∀ entry, h.plugins.entry? e = some entry →
        h.SettledBut res.plan entry (configDisplay (h.learn secrets).redactor entry.config)) ∧
      ∀ {tr₁ : Trace Operation Answer} {res₁ : ReconcileResult} {h₁ : Harness},
        reconcile.Outcome h tr₁ (.ok res₁) h₁ → res₁.mounted = [] →
        (res.mounted = [] ↔ ∀ e ∈ res.plan.activationOrder, ∀ entry,
          h.plugins.entry? e = some entry → configDisplay h.redactor entry.config =
            configDisplay (h.learn secrets).redactor entry.config) := by
  refine ⟨fun own resolutions instanceOf identityOf r r' => buildSemanticIdentity_redactor r r',
    fun {h₀ h history} hreach {secrets tr res h'} hrun => ?_⟩
  have hlearned : (h.learn secrets).Named := hreach.named
  obtain ⟨hplan, hmounted⟩ := Prog.wp_alone (reconcile_settled hlearned) hrun
  have hexact : res.mounted = [] ↔ ∀ e ∈ res.plan.activationOrder, ∀ entry,
      h.plugins.entry? e = some entry →
      h.SettledBut res.plan entry (configDisplay (h.learn secrets).redactor entry.config) := by
    rw [hmounted]
    refine forall₂_congr fun e _ => forall₂_congr fun entry _ => ?_
    exact Harness.settled_learn
  refine ⟨hexact, fun {tr₁ res₁ h₁} hrun₁ hnone => ?_⟩
  obtain ⟨hplan₁, hmounted₁⟩ := Prog.wp_alone (reconcile_settled hreach.named) hrun₁
  have hsame : res₁.plan = res.plan := Except.ok.inj (hplan₁.symm.trans hplan)
  rw [hsame] at hmounted₁
  have hsettled := hmounted₁.1 hnone
  rw [hexact]
  refine forall₂_congr fun e he => forall₂_congr fun entry hentry => ?_
  have hnow := Harness.settled_iff.1 (hsettled e he entry hentry)
  constructor
  · intro hthen
    exact hnow.unique hthen
  · intro hdisplay
    rw [← hdisplay]
    exact hnow

end

section
open scoped Plain

/-- a plugin whose configuration shows a text -/
def greeter : Plugin :=
  { plainPlugin "greeter" [] [] [] with config := Dict.ofList [("greeting", .str "hello")] }

/-- the greeter is installed and mounted -/
def greeting : HarnessCourse :=
  (((Course.begin {}).act (Harness.installed greeter)).start Job.program .reconcile).resume honest

@[irreducible] def greeted : Harness := greeting.config.state

theorem greeted_run : ControlRun {} greeting.history ⟨greeted, none⟩ := by
  have hbegin : Run ControlAct Job.program ⟨{}, none⟩ (Course.begin {} : HarnessCourse).history
      (Course.begin {} : HarnessCourse).config := .refl
  have hrun : Run ControlAct Job.program ⟨{}, none⟩ greeting.history greeting.config := by
    unfold greeting
    refine Course.resume_run (Course.start_run (Course.act_run hbegin ?_) .reconcile) fun _ => trivial
    exact .act (Harness.installed_acts _ _)
  have hidle : greeting.config.running.isNone = true := by decide +kernel
  have hconfig : greeting.config = ⟨greeted, none⟩ := by
    unfold greeted
    rw [← Option.isNone_iff_eq_none.1 hidle]
  rw [hconfig] at hrun
  exact ⟨pristine_new, hrun⟩

/-- the reconcile after something was learned -/
@[irreducible] def greetedAfter (secrets : List String) :
    Trace Operation Answer × Except Err ReconcileResult × Harness :=
  reconcile.execute honest (greeted.learn secrets)

theorem greetedAfter_outcome {secrets : List String} {res : ReconcileResult}
    (h : (greetedAfter secrets).2.1 = .ok res) :
    reconcile.Outcome (greeted.learn secrets) (greetedAfter secrets).1 (.ok res)
      (greetedAfter secrets).2.2 := by
  rw [← h]
  unfold greetedAfter
  exact Prog.execute_outcome honest reconcile (greeted.learn secrets)

theorem learning_reuses_greeted : (greetedAfter ["bye"]).2.1.isOk = true ∧
    ∀ res, (greetedAfter ["bye"]).2.1 = .ok res →
      (res.mounted = [] ↔ ∀ e ∈ res.plan.activationOrder, ∀ entry,
        greeted.plugins.entry? e = some entry → greeted.SettledBut res.plan entry
          (configDisplay (greeted.learn ["bye"]).redactor entry.config)) :=
  ⟨by decide +kernel, fun _ hres =>
    (learning_reuses_iff.2 greeted_run (greetedAfter_outcome hres)).1⟩

/-- **A rebuild that learning forces**: the greeting was learned as a secret, so it is displayed
otherwise, and the greeter is mounted anew, which a reconcile without the learning would have carried
over. -/
theorem rebuilt_after_learning :
    (∃ (own : OwnInputs) (r r' : Redactor), (∀ v ∈ r, v ∈ r') ∧
      buildSemanticIdentity own [] (fun _ => none) (fun _ => none) r ≠
        buildSemanticIdentity own [] (fun _ => none) (fun _ => none) r') ∧
    ∃ history h, ControlRun {} history ⟨h, none⟩ ∧ h.hasPendingChanges = false ∧
      (∃ tr res h₁, reconcile.Outcome (h.learn []) tr (.ok res) h₁ ∧ res.mounted = []) ∧
      ∃ tr res h', reconcile.Outcome (h.learn ["hello"]) tr (.ok res) h' ∧
        res.mounted = ["greeter"] := by
  constructor
  · refine ⟨⟨"greeter", rootScope, greeter.manifest, greeter.config, greeter.implementation⟩, [],
      ["hello"], fun _ hv => (nomatch hv), fun he => ?_⟩
    have hshown := (buildSemanticIdentity_redactor [] ["hello"]).1 he rfl
    exact absurd hshown (by decide +kernel)
  · have hthen : (greetedAfter []).2.1.toOption.map ReconcileResult.mounted = some [] := by
      decide +kernel
    have hnow : (greetedAfter ["hello"]).2.1.toOption.map ReconcileResult.mounted =
        some ["greeter"] := by decide +kernel
    obtain ⟨res₁, hres₁, hnone⟩ := ok_of_map _ _ _ hthen
    obtain ⟨res, hres, hone⟩ := ok_of_map _ _ _ hnow
    exact ⟨_, _, greeted_run, by decide +kernel,
      ⟨_, _, _, greetedAfter_outcome hres₁, hnone⟩, _, _, _, greetedAfter_outcome hres, hone⟩

end

end Chassis
