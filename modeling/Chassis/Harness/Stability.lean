import Chassis.Capabilities.Plain
import Chassis.Harness.Leases
import Chassis.Harness.Ownership
import Chassis.Lib.Handover

/-!
# The view of a generation stands still

* `View`, `Harness.view`   what the snapshots of a generation are made of;
* `Steady h h'`        the live generations are old ones, and are seen as before;
* `tracing_extra`      every effect of the control plane is steady, but publication;
* `Unborn n`, `Seen n v`   what holds before the generation with number `n` is published, and after;
* `reconcile_until`    the reconcile that publishes it hands over from one to the other;
* `snapshots_stable_iff`   so the snapshots of a generation stay as they are, iff nothing is
                       registered late for its instances, or withdrawn.
-/

set_option linter.unusedSectionVars false

namespace Chassis
open Py Coop

section
variable [Packaging] [Platform]

structure View where
  generationId : String
  instanceIds : List String
  scopes : ScopeTree
  tools : List RegisteredTool
  hooks : List HookRegistration

namespace Harness
variable {h h' : Harness} {g g' : RuntimeGeneration}

def view (h : Harness) (g : RuntimeGeneration) : View :=
  ⟨g.generationId, g.instanceIds, g.scopes, h.toolsOf g.instanceIds, h.hooksOf g.instanceIds⟩

theorem toolEntries_eq (h : Harness) (ids : List String) : ToolRegistry.snapshot h.tools ids =
    sortedBy RegisteredTool.name
      (sortedBy (fun t => [t.name, t.registrationId]) (h.toolsOf ids)) := by
  unfold ToolRegistry.snapshot ToolRegistry.entries toolsOf
  rw [sortedBy_filter (fun t : RegisteredTool => [t.name, t.registrationId])]

theorem hookRegistrations_eq (h : Harness) (g : RuntimeGeneration) : h.hookSnapshot g =
    ⟨g.generationId, sortedBy (fun r => r.event.value) (sortedBy HookRegistration.priority
      (sortedBy HookRegistration.sequence (h.hooksOf g.instanceIds)))⟩ := by
  unfold hookSnapshot HookRegistry.snapshot HookRegistry.registrations hooksOf
  rw [← sortedBy_filter, ← sortedBy_filter, ← sortedBy_filter]

theorem toolSnapshot_congr (hv : h'.view g' = h.view g) (scope : Option String) :
    h'.toolSnapshot g' scope = h.toolSnapshot g scope := by
  obtain ⟨hid, -, hscopes, htools, -⟩ := View.mk.inj hv
  have hentries : ToolRegistry.snapshot h'.tools g'.instanceIds =
      ToolRegistry.snapshot h.tools g.instanceIds := by
    rw [toolEntries_eq, toolEntries_eq, htools]
  unfold toolSnapshot RuntimeGeneration.resolvedScope
  rw [hentries, hscopes, hid]

theorem hookSnapshot_congr (hv : h'.view g' = h.view g) : h'.hookSnapshot g' = h.hookSnapshot g := by
  obtain ⟨hid, -, -, -, hhooks⟩ := View.mk.inj hv
  rw [hookRegistrations_eq, hookRegistrations_eq, hhooks, hid]

end Harness

/-! ## generations that are carried over -/

namespace GenerationManager

/-- the live generations are old ones, perhaps with other leases or in another state -/
structure Carried (m m' : GenerationManager) : Prop where
  counter : m'.counter = m.counter
  live : ∀ g' ∈ m'.live, ∃ g ∈ m.live, g.sequence = g'.sequence ∧
    g'.generationId = g.generationId ∧ g'.instances = g.instances ∧ g'.scopes = g.scopes

theorem Carried.refl (m : GenerationManager) : Carried m m :=
  ⟨rfl, fun g hg => ⟨g, hg, rfl, rfl, rfl, rfl⟩⟩

theorem acquireLease_carried {m m' : GenerationManager} {l : GenerationLease}
    (h : m.acquireLease = .ok (l, m')) : Carried m m' := by
  obtain ⟨g, hg, rfl, rfl⟩ := acquireLease_ok h
  refine ⟨rfl, fun g' hg' => ?_⟩
  rcases mem_live.1 hg' with hc | hd
  · obtain rfl := Option.some.inj hc
    exact ⟨g, mem_live.2 (Or.inl hg), rfl, rfl, rfl, rfl⟩
  · exact ⟨g', mem_live.2 (Or.inr hd), rfl, rfl, rfl, rfl⟩

theorem releaseLease_carried {m m' : GenerationManager} {runs : List GenerationLease}
    (ha : m.Accounted runs) {l : GenerationLease} (hl : l ∈ runs) {idle : Bool}
    (h : m.releaseLease l = .ok (idle, m')) : Carried m m' := by
  obtain ⟨g, hg, hs, hok⟩ := releaseLease_ok ha hl
  rw [hok] at h
  cases h
  refine ⟨rfl, fun g' hg' => ?_⟩
  rw [← hs] at hg'
  rcases mem_released l.leaseId hg' with rfl | ⟨hg', -⟩
  · exact ⟨g, hg, rfl, rfl, rfl, rfl⟩
  · exact ⟨g', hg', rfl, rfl, rfl, rfl⟩

theorem retire_carried {m m' : GenerationManager} {g : RuntimeGeneration}
    (h : m.retire g = .ok m') : Carried m m' := by
  unfold retire at h
  split at h
  · cases h
    exact Carried.refl m
  · cases h
  · split at h
    · cases h
    · cases h
      refine ⟨rfl, fun g' hg' => ⟨g', ?_, rfl, rfl, rfl, rfl⟩⟩
      exact mem_live.2 ((mem_live.1 hg').imp_right fun hd => (List.mem_filter.1 hd).1)

end GenerationManager

/-- the live generations are old ones, and are seen as before -/
structure Steady (h h' : Harness) : Prop where
  counter : h'.generations.counter = h.generations.counter
  live : ∀ g' ∈ h'.generations.live, ∃ g ∈ h.generations.live,
    g.sequence = g'.sequence ∧ h'.view g' = h.view g

section
variable {h h' : Harness}

theorem Beyond.view (b : Beyond h h') {g : RuntimeGeneration} (hg : g ∈ h.generations.live) :
    h'.view g = h.view g := by
  have hids : ∀ id ∈ g.instanceIds, id ∈ h.generations.reachableInstanceIds := fun id hid =>
    GenerationManager.mem_reachable.2 ⟨g, hg, hid⟩
  unfold Harness.view
  rw [b.tools _ hids, b.hooks _ hids]

theorem Beyond.steady (b : Beyond h h') : Steady h h' where
  counter := by rw [b.generations]
  live := by
    intro g hg
    rw [b.generations] at hg
    exact ⟨g, hg, rfl, b.view hg⟩

theorem steady_of_carried (hc : GenerationManager.Carried h.generations h'.generations)
    (ht : h'.tools = h.tools) (hh : h'.hooks = h.hooks) : Steady h h' where
  counter := hc.counter
  live := by
    intro g' hg'
    obtain ⟨g, hg, hs, hid, hinst, hscopes⟩ := hc.live g' hg'
    refine ⟨g, hg, hs, ?_⟩
    have hids : g'.instanceIds = g.instanceIds := congrArg (List.map _) hinst
    unfold Harness.view Harness.toolsOf Harness.hooksOf
    rw [ht, hh, hids, hid, hscopes]

theorem steady_of_same (hg : h'.generations = h.generations) (ht : h'.tools = h.tools)
    (hh : h'.hooks = h.hooks) : Steady h h' :=
  steady_of_carried (hg ▸ GenerationManager.Carried.refl _) ht hh

theorem steady_keeps {P : Harness → Prop} (hP : ∀ {h h'}, Steady h h' → P h → P h') (hp : P h)
    (hg : h'.generations = h.generations) (ht : h'.tools = h.tools) (hh : h'.hooks = h.hooks) :
    P h' := hP (steady_of_same hg ht hh) hp

theorem Harness.Traceable.later (ht : h.Traceable)
    (hinst : h'.plugins.instances = h.plugins.instances)
    (hcaps : h'.capabilities = h.capabilities)
    (htools : h'.tools = h.tools) (hhooks : h'.hooks = h.hooks) (hdrawn : h.drawn ≤ h'.drawn) :
    h'.Traceable where
  instances := hinst ▸ ht.instances
  capabilities := hcaps ▸ ht.capabilities.later hdrawn
  tools := htools ▸ ht.tools.later hdrawn
  hooks := hhooks ▸ ht.hooks.later hdrawn

/-! ## what the control plane does -/

/-- **What survives steady effects survives the control plane**, publication apart. -/
theorem tracing_extra {P : Harness → Prop} (hP : ∀ {h h'}, Steady h h' → P h → P h') :
    Extra (fun i => Owns i.instanceId i.scopeId) fun h => h.Traceable ∧ P h where
  aside := fun _ _ _ _ _ _ e => ⟨{ e.1 with }, steady_keeps hP e.2 rfl rfl rfl⟩
  fresh := fun h _ _ => ⟨h.drawn, rfl, rfl⟩
  renamed := by
    intro i i' s ho
    rw [s.instanceId, s.scopeId]
    exact ho
  known := fun e hk => e.1.instances _ _ hk
  update := by
    intro h i f hf e
    refine ⟨{ e.1 with instances := fun k x hx => ?_ }, steady_keeps hP e.2 rfl rfl rfl⟩
    replace hx := (PluginRegistry.get?_update _ _ _ k).symm.trans hx
    split at hx
    · obtain ⟨y, hy, rfl⟩ := Option.map_eq_some_iff.1 hx
      rw [(hf y).instanceId, (hf y).scopeId]
      exact e.1.instances _ y hy
    · exact e.1.instances k x hx
  adopt := by
    intro h entry plan _ e
    have hlater : h.drawn ≤ h.drawn + 2 := by omega
    refine ⟨?_, steady_keeps hP e.2 rfl rfl rfl⟩
    exact
      { e.1 with
        capabilities := e.1.capabilities.later hlater
        tools := e.1.tools.later hlater
        hooks := e.1.hooks.later hlater
        instances := by
          intro k x hx
          replace hx := (PluginRegistry.get?_adopt _ _ k).symm.trans hx
          split at hx
          · obtain rfl := Option.some.inj hx
            exact ⟨h.drawn, rfl, rfl⟩
          · exact e.1.instances k x hx }
  forget := by
    intro h i e
    refine ⟨{ e.1 with instances := fun k x hx => ?_ }, steady_keeps hP e.2 rfl rfl rfl⟩
    replace hx := (PluginRegistry.get?_forget _ _ k).symm.trans hx
    split at hx
    · cases hx
    · exact e.1.instances k x hx
  refresh := by
    intro h e
    refine ⟨{ e.1 with instances := fun k x hx => ?_ }, steady_keeps hP e.2 rfl rfl rfl⟩
    replace hx := (h.get?_refreshReferences k).symm.trans hx
    obtain ⟨y, hy, rfl⟩ := Option.map_eq_some_iff.1 hx
    exact e.1.instances k y hy
  retire := fun hr e => ⟨{ e.1 with },
    hP (steady_of_carried (GenerationManager.retire_carried hr) rfl rfl) e.2⟩
  setup := fun i answer _ hfree ho e =>
    ⟨(afterSetup_beyond e.1 ho hfree answer).traceable,
      hP (afterSetup_beyond e.1 ho hfree answer).steady e.2⟩
  close := fun i _ hfree ho e =>
    ⟨(closeScope_beyond e.1 ho hfree).traceable, hP (closeScope_beyond e.1 ho hfree).steady e.2⟩

end

/-! ## what the others do -/

section
variable {h h' : Harness}

theorem LateAct.sameHoldings {owner : String} (ha : LateAct owner h h') : SameHoldings h h' := by
  cases ha with
  | registerTool i t _ _ hn hd =>
    unfold Harness.registerTool
    rw [if_neg (not_or.2 ⟨hn, hd⟩)]
    exact ⟨rfl, rfl, rfl, rfl, Nat.le_succ _⟩
  | registerHook i d _ _ => exact ⟨rfl, rfl, rfl, rfl, Nat.le_succ _⟩
  | unregisterTool name _ => exact ⟨rfl, rfl, rfl, rfl, le_refl _⟩
  | unregisterHook _ _ => exact ⟨rfl, rfl, rfl, rfl, le_refl _⟩

theorem Acts.traceable (ha : Acts h h') (hs : h.Safe) (ht : h.Traceable) :
    h'.Traceable ∧ Steady h h' := by
  have hsame : ∀ {h'}, SameRuntime h h' → h'.Traceable ∧ Steady h h' := fun a =>
    ⟨ht.later a.instances a.capabilities a.tools a.hooks a.drawn,
      steady_of_same a.generations a.tools a.hooks⟩
  cases ha with
  | desired ha => exact hsame ha.sameRuntime
  | lease ha =>
    cases ha with
    | acquire ha =>
      obtain ⟨lease, m, hok, rfl⟩ := Harness.acquire_ok ha
      exact ⟨{ ht with }, steady_of_carried (GenerationManager.acquireLease_carried hok) rfl rfl⟩
    | release n hr =>
      rcases Harness.release_ok hr with rfl | ⟨lease, idle, m, hl, hok, rfl⟩
      · exact hsame (SameRuntime.refl _)
      · exact ⟨{ ht with }, steady_of_carried (GenerationManager.releaseLease_carried hs.accounted
          (List.mem_of_getElem? hl) hok) rfl rfl⟩
  | start =>
    unfold Harness.start
    split
    · exact ⟨{ ht with }, steady_of_same rfl rfl rfl⟩
    · exact hsame (SameRuntime.refl _)
  | learn secrets => exact ⟨{ ht with }, steady_of_same rfl rfl rfl⟩

/-- of no live generation -/
def Harness.Unpublished (h : Harness) (owner : String) : Prop :=
  owner ∉ h.generations.reachableInstanceIds

theorem LiveActs.upheld {P : Harness → Prop} (hP : ∀ {h h'}, Steady h h' → P h → P h')
    (ha : LiveActs Harness.Unpublished h h') (hu : Upheld (fun h => h.Traceable ∧ P h) h) :
    Upheld (fun h => h.Traceable ∧ P h) h' ∧ Undisturbed h h' := by
  cases ha with
  | other ha =>
    obtain ⟨hs, u⟩ := ha.safe hu.1
    obtain ⟨ht, hsteady⟩ := ha.traceable hu.1 hu.2.1
    exact ⟨⟨hs, ht, hP hsteady hu.2.2⟩, u⟩
  | late hfree ha =>
    have b := ha.beyond hu.2.1 hfree
    have a := ha.sameHoldings
    exact ⟨⟨hu.1.of_same a, b.traceable, hP b.steady hu.2.2⟩, a.undisturbed⟩

end

/-! ## before the generation with a number is published, and after -/

def Unborn (n : Nat) (h : Harness) : Prop := h.generations.counter ≤ n

def Seen (n : Nat) (v : View) (h : Harness) : Prop :=
  n < h.generations.counter ∧ ∀ g ∈ h.generations.live, g.sequence = n → h.view g = v

section
variable {n : Nat} {v : View} {h h' : Harness}

theorem Unborn.steady (s : Steady h h') (hu : Unborn n h) : Unborn n h' :=
  le_of_eq_of_le s.counter hu

theorem Seen.steady (s : Steady h h') (hv : Seen n v h) : Seen n v h' := by
  refine ⟨s.counter ▸ hv.1, fun g' hg' hn => ?_⟩
  obtain ⟨g, hg, hs, hview⟩ := s.live g' hg'
  exact hview.trans (hv.2 g hg (hs.trans hn))

def Before (n : Nat) (h : Harness) : Prop := h.Traceable ∧ Unborn n h

def After (n : Nat) (v : View) (h : Harness) : Prop := h.Traceable ∧ Seen n v h

theorem before_extra (n : Nat) : Extra (fun i => Owns i.instanceId i.scopeId) (Before n) :=
  tracing_extra Unborn.steady

theorem after_extra (n : Nat) (v : View) :
    Extra (fun i => Owns i.instanceId i.scopeId) (After n v) := tracing_extra Seen.steady

/-- what publication makes of the live generations: one is new, and the others are old ones -/
theorem published_live {c : Candidate} {previous : Option RuntimeGeneration}
    {m : GenerationManager}
    (hok : (h.buildGeneration c).2.publish (h.buildGeneration c).1 = .ok (previous, m)) :
    m.counter = h.generations.counter + 1 ∧ ∀ g' ∈ m.live,
      g'.sequence = h.generations.counter ∨ ∃ g ∈ h.generations.live, g.sequence = g'.sequence ∧
        g'.generationId = g.generationId ∧ g'.instances = g.instances ∧ g'.scopes = g.scopes := by
  let outgoing := h.generations.current.map fun p => { p with state := .draining }
  have hpub : (h.buildGeneration c).2.publish (h.buildGeneration c).1 =
      .ok (outgoing, { h.generations with
        counter := h.generations.counter + 1
        draining := h.generations.draining ++ outgoing.toList
        current := some { (h.buildGeneration c).1 with state := .active } }) := rfl
  obtain ⟨-, rfl⟩ := Prod.mk.inj (Except.ok.inj (hpub.symm.trans hok))
  refine ⟨rfl, fun g' hg' => ?_⟩
  rcases GenerationManager.mem_live.1 hg' with hc | hd
  · obtain rfl := Option.some.inj hc
    exact Or.inl rfl
  · rcases List.mem_append.1 hd with hd | hp
    · exact Or.inr ⟨g', GenerationManager.mem_live.2 (Or.inr hd), rfl, rfl, rfl, rfl⟩
    · obtain ⟨p, hcur, rfl⟩ := Option.map_eq_some_iff.1 (Option.mem_toList.1 hp)
      exact Or.inr ⟨p, GenerationManager.mem_live.2 (Or.inl hcur), rfl, rfl, rfl, rfl⟩

/-- the publication of another generation leaves the view as it is -/
theorem Seen.published {c : Candidate} {previous : Option RuntimeGeneration}
    {m : GenerationManager} (hv : Seen n v h)
    (hok : (h.buildGeneration c).2.publish (h.buildGeneration c).1 = .ok (previous, m)) :
    Seen n v { h with generations := m, origin := h.work.planned } := by
  obtain ⟨hcount, hlive⟩ := published_live hok
  have hlater : n < m.counter := by
    rw [hcount]
    exact Nat.lt_succ_of_lt hv.1
  refine ⟨hlater, fun g' hg' hn => ?_⟩
  rcases hlive g' hg' with hnew | ⟨g, hg, hs, hid, hinst, hscopes⟩
  · have hlt := hv.1
    omega
  · have hids : g'.instanceIds = g.instanceIds := congrArg (List.map _) hinst
    rw [← hv.2 g hg (hs.trans hn)]
    show View.mk _ _ _ (h.toolsOf _) (h.hooksOf _) = h.view g
    rw [hids, hid, hscopes]
    rfl

theorem after_publishing : Publishing (After n v) := fun g hok =>
  ⟨{ g.2.1 with }, g.2.2.published hok⟩

end

section
variable {n : Nat} {h : Harness}

/-- **The handover**: from the publication of the generation on, its view is what it is then. -/
theorem publishCandidate_until (c : Candidate)
    (g : Guarding (Before n) (c.instances.map PluginInstance.instanceId) [] h) :
    (publishCandidate c).Until (upheldRules (Before n)) (fun v => upheldRules (After n v))
      (fun _ => Upheld (Before n)) (fun v _ => Upheld (After n v)) h := by
  obtain ⟨previous, m, hok, hcur, hsafe⟩ := publish_safe c g.1
  obtain ⟨hcount, hlive⟩ := published_live hok
  let h₁ : Harness := { h with generations := m, origin := h.work.planned }
  have htrace : h₁.Traceable := { g.2.1 with }
  have hunborn : h.generations.counter ≤ n := g.2.2
  refine .read ?_
  show (Prog.ofExcept ((h.buildGeneration c).2.publish (h.buildGeneration c).1) >>= fun published =>
    Prog.modify (fun h => { h with generations := published.2, origin := h.work.planned }) >>=
      fun _ => announce (h.buildGeneration c).1 published.1 >>=
      fun _ => pure (h.buildGeneration c).1 : Task RuntimeGeneration).Until _ _ _ _ h
  rw [hok]
  refine .read (.write ?_)
  show (announce (h.buildGeneration c).1 previous >>= fun _ => pure (h.buildGeneration c).1 :
    Task RuntimeGeneration).Until _ _ _ _ h₁
  by_cases hn : h.generations.counter = n
  · have hseen : Seen n (h₁.view { (h.buildGeneration c).1 with state := .active }) h₁ := by
      have hlater : n < m.counter := by omega
      refine ⟨hlater, fun x hx hxn => ?_⟩
      rw [hsafe.accounted.eq_of_sequence hx (GenerationManager.mem_live.2 (Or.inl hcur))
        (hxn.trans hn.symm)]
    refine .now _ (Prog.wp_bind_of (announce_inv (upheld_stable (after_extra n _)) _ previous
      ⟨hsafe, htrace, hseen⟩) ?_ ?_)
    · exact fun _ _ _ hu => hu
    · exact fun _ _ _ hu => hu
  · have hlater : Unborn n h₁ := by
      show m.counter ≤ n
      omega
    refine Prog.until_of_wp (Prog.wp_bind_of (announce_inv (upheld_stable (before_extra n)) _
      previous ⟨hsafe, htrace, hlater⟩) ?_ ?_)
    · exact fun _ _ _ hu => hu
    · exact fun _ _ _ hu => hu

theorem enact_until (c : Candidate)
    (g : Guarding (Before n) (c.instances.map PluginInstance.instanceId) [] h) :
    (enact c).Until (upheldRules (Before n)) (fun v => upheldRules (After n v))
      (fun _ => Upheld (Before n)) (fun v _ => Upheld (After n v)) h := by
  unfold enact
  cases c.reuse with
  | some g' =>
    exact Prog.until_of_wp (keepGeneration_keeps (before_extra n) c g' ⟨g.1.toSafe, g.2⟩)
  | none => exact publishCandidate_until c g

theorem reconcile_until (hu : Upheld (Before n) h) :
    reconcile.Until (upheldRules (Before n)) (fun v => upheldRules (After n v))
      (fun _ => Upheld (Before n)) (fun v _ => Upheld (After n v)) h := by
  have hstage : stage.Until (upheldRules (Before n)) (fun v => upheldRules (After n v))
      (Prog.ends (fun c => Guarding (Before n) (c.instances.map PluginInstance.instanceId) [])
        (Upheld (Before n)) ([] : Trace Operation Answer)) (fun _ _ _ => False) h :=
    Prog.until_of_wp (stage_keeps (before_extra n) hu)
  refine hstage.bind (fun c h₁ g => ?_) (fun _ _ hu' => hu') (fun _ _ _ hf => hf.elim)
    (fun _ _ _ hf => hf.elim)
  refine (enact_until c g).bind (fun g' h₂ hu' => ?_) (fun _ _ hu' => hu') (fun v g' h₂ hu' => ?_)
    (fun _ _ _ hu' => hu')
  · exact Prog.until_of_wp (conclude_keeps (before_extra n) c g' hu')
  · exact conclude_keeps (after_extra n v) c g' hu'

theorem job_until (j : Job) (hu : Upheld (Before n) h) :
    j.program.Until (upheldRules (Before n)) (fun v => upheldRules (After n v))
      (fun _ => Upheld (Before n)) (fun v _ => Upheld (After n v)) h := by
  cases j with
  | reconcile =>
    exact (reconcile_until hu).bind (fun _ _ hu' => .ret hu') (fun _ _ hu' => hu')
      (fun _ _ _ hu' => hu') (fun _ _ _ hu' => hu')
  | reclaimAfterDrain => exact Prog.until_of_wp (reclaimAfterDrain_keeps (before_extra n) hu)

theorem views_handing (n : Nat) : Handing (upheldRules (Before n))
    (fun v => upheldRules (After n v)) (LiveActs Harness.Unpublished) Job.program
    (Upheld (Before n)) (fun v => Upheld (After n v)) where
  refl := Undisturbed.refl
  trans := fun _ _ _ u hu ha => u.trans (ha.upheld Unborn.steady hu).2
  admits := fun _ _ => trivial
  idle := fun _ _ hu ha => (ha.upheld Unborn.steady hu).1
  held := fun _ _ hu ha => (ha.upheld Unborn.steady hu).1
  job := fun j _ hu => job_until j hu
  after := fun v => upheld_monitored (after_extra n v) after_publishing
    fun _ _ ha hu => ha.upheld Seen.steady hu

end

/-! ## the runs -/

/-- what a run sees of a generation that is live at both moments is the same -/
def SameSnapshots (earlier later : Harness) : Prop :=
  ∀ g ∈ earlier.generations.live, ∀ g' ∈ later.generations.live,
    g'.generationId = g.generationId →
      (∀ scope, later.toolSnapshot g' scope = earlier.toolSnapshot g scope) ∧
      later.hookSnapshot g' = earlier.hookSnapshot g

section
variable {h : Harness}

theorem Fresh.no_live (hf : Fresh h) (g : RuntimeGeneration) : g ∉ h.generations.live := by
  rw [hf.generations]
  exact List.not_mem_nil

theorem Fresh.traceable (hf : Fresh h) : h.Traceable := by
  obtain ⟨hcaps, htools, hhooks⟩ := hf.registries
  refine ⟨fun k i hi => ?_, ?_, ?_, ?_⟩
  · rw [hf.plugins] at hi
    cases hi
  · rw [hcaps]
    exact traced_empty
  · rw [htools]
    exact traced_empty
  · rw [hhooks]
    exact traced_empty

variable {history : List (Event Job Err × HarnessConfig)} {c : HarnessConfig}

theorem LiveRun.traceable (hrun : LiveRun Harness.Unpublished h history c) :
    c.state.Safe ∧ c.state.Traceable := by
  have hsteady : ∀ {h h' : Harness}, Steady h h' → True → True := fun _ ht => ht
  have hu := upheld_run (tracing_extra hsteady) (fun g _ => ⟨{ g.2.1 with }, trivial⟩)
    (fun _ _ ha hu => ha.upheld hsteady hu) ⟨hrun.1.safe, hrun.1.traceable, trivial⟩ hrun.2
  exact ⟨hu.1, hu.2.1⟩

theorem not_live_of_before {n : Nat}
    (hb : c.Before (upheldRules (Before n)) (fun v => upheldRules (After n v)) (Upheld (Before n))
      fun v => Upheld (After n v)) {g : RuntimeGeneration} (hg : g ∈ c.state.generations.live) :
    g.sequence ≠ n := by
  have hu : Upheld (Before n) c.state := by
    unfold Config.Before at hb
    split at hb
    · exact hb
    · exact hb.1
  have hlt := hu.1.accounted.below g hg
  have hle : c.state.generations.counter ≤ n := hu.2.2
  omega

/-- **A generation that is live is seen the same from now on.** -/
theorem LiveRun.sound (hrun : LiveRun Harness.Unpublished h history c) {g : RuntimeGeneration}
    (hg : g ∈ c.state.generations.live) : ∃ v, c.Sound (upheldRules (After g.sequence v))
      (Upheld (After g.sequence v)) fun _ _ => Upheld (After g.sequence v) := by
  rcases Nat.lt_or_ge g.sequence h.generations.counter with hold | hnew
  · have hafter : After g.sequence (h.view g) h :=
      ⟨hrun.1.traceable, hold, fun g' hg' => absurd hg' (hrun.1.no_live g')⟩
    refine ⟨h.view g, ((views_handing g.sequence).after _).onward (fun _ _ _ hu => hu) ?_ hrun.2⟩
    exact ⟨hrun.1.safe, hafter⟩
  · refine ((views_handing g.sequence).run ⟨hrun.1.safe, hrun.1.traceable, hnew⟩ hrun.2).resolve_left
      fun hb => ?_
    exact not_live_of_before hb hg rfl

theorem upheld_of_sound {E : Harness → Prop}
    (hc : c.Sound (upheldRules E) (Upheld E) fun _ _ => Upheld E) : Upheld E c.state := by
  unfold Config.Sound at hc
  split at hc
  · exact hc
  · exact hc.1

theorem LiveRun.sameSnapshots (hrun : LiveRun Harness.Unpublished h history c)
    {later : List (Event Job Err × HarnessConfig)} {c' : HarnessConfig}
    (hlater : Run (LiveActs Harness.Unpublished) Job.program c later c') :
    SameSnapshots c.state c'.state := by
  intro g hg g' hg' hid
  obtain ⟨v, hsound⟩ := hrun.sound hg
  have hnow := upheld_of_sound hsound
  have hthen := upheld_of_sound
    (((views_handing g.sequence).after v).onward (fun _ _ _ hu => hu) hsound hlater)
  have hs : g'.sequence = g.sequence := by
    refine generationId_injective ?_
    rw [← hthen.1.accounted.numbered g' hg', hid, hnow.1.accounted.numbered g hg]
  have hview : c'.state.view g' = c.state.view g :=
    (hthen.2.2.2 g' hg' hs).trans (hnow.2.2.2 g hg rfl).symm
  exact ⟨fun scope => Harness.toolSnapshot_congr hview scope, Harness.hookSnapshot_congr hview⟩

end

/-! ## late acts are seen -/

section
variable {h h' : Harness} {owner : String}

theorem LateAct.counted (ha : LateAct owner h h') (ht : h.Traceable) {ids : List String}
    (ho : owner ∈ ids) : (h'.toolsOf ids).length ≠ (h.toolsOf ids).length ∨
      (h'.hooksOf ids).length ≠ (h.hooksOf ids).length := by
  cases ha with
  | registerTool i t _ hi hn hd =>
    refine Or.inl ?_
    have hmem : i.instanceId ∈ ids := hi ▸ ho
    unfold Harness.registerTool
    rw [if_neg (not_or.2 ⟨hn, hd⟩)]
    unfold Harness.toolsOf
    rw [Owned.all_add (ht.tools.new rfl), List.filter_append, List.length_append]
    simp [hmem]
  | registerHook i d _ hi =>
    refine Or.inr ?_
    have hmem : i.instanceId ∈ ids := hi ▸ ho
    unfold Harness.registerHook Harness.hooksOf
    rw [Owned.all_add (ht.hooks.new rfl), List.filter_append, List.length_append]
    simp [hmem]
  | unregisterTool name hgone =>
    refine Or.inl (Nat.ne_of_lt ?_)
    obtain ⟨t, hin, hgone⟩ := List.any_eq_true.1 hgone
    unfold Harness.toolsOf
    rw [show (ToolRegistry.unregister h.tools name (some owner)).2.all = _ from
      Owned.all_discard h.tools _, List.filter_comm]
    refine List.length_filter_lt_length_iff_exists.2 ⟨t, List.mem_filter.2 ⟨hin, ?_⟩, ?_⟩
    · rw [Bool.and_eq_true, decide_eq_true_eq, decide_eq_true_eq] at hgone
      exact decide_eq_true (hgone.2 ▸ ho)
    · rw [hgone]
      exact Bool.false_ne_true
  | @unregisterHook registration hget hown =>
    refine Or.inr (Nat.ne_of_lt ?_)
    have hin : registration ∈ h.hooks.all := Dict.mem_values.2 ⟨_, hget⟩
    unfold Harness.hooksOf
    rw [show (HookRegistry.unregister h.hooks registration.registrationId).2.all = _ from
      Owned.all_discard h.hooks _, List.filter_comm]
    refine List.length_filter_lt_length_iff_exists.2 ⟨registration, List.mem_filter.2 ⟨hin, ?_⟩, ?_⟩
    · exact decide_eq_true (hown ▸ ho)
    · simp

/-- **A late act for an instance of a live generation is seen** by the runs of that generation. -/
theorem LateAct.seen (ha : LateAct owner h h') (ht : h.Traceable)
    (ho : owner ∈ h.generations.reachableInstanceIds) : ¬ SameSnapshots h h' := by
  intro hsame
  obtain ⟨g, hg, hid⟩ := GenerationManager.mem_reachable.1 ho
  have hg' : g ∈ h'.generations.live := by
    rw [ha.sameHoldings.generations]
    exact hg
  obtain ⟨htools, hhooks⟩ := hsame g hg g hg' rfl
  rcases ha.counted ht hid with hne | hne
  · refine hne ?_
    have hentries : ToolRegistry.snapshot h'.tools g.instanceIds =
        ToolRegistry.snapshot h.tools g.instanceIds :=
      (ToolSnapshot.mk.inj (Except.ok.inj (htools none))).2
    rw [Harness.toolEntries_eq, Harness.toolEntries_eq] at hentries
    simpa using congrArg List.length hentries
  · refine hne ?_
    rw [Harness.hookRegistrations_eq, Harness.hookRegistrations_eq] at hhooks
    simpa using congrArg List.length (HookSnapshot.mk.inj hhooks).2

end

/-- **The view of a generation stands still** throughout a run, at any two moments at which it is
live, iff at every late act of the run the owner of what is registered or withdrawn is of no live
generation.  Before the first step there is none. -/
theorem snapshots_stable_iff {h : Harness} {history : List (Event Job Err × HarnessConfig)}
    {c : HarnessConfig} (hrun : LiveRun (fun _ _ => True) h history c) :
    (history.Pairwise fun later earlier => SameSnapshots earlier.2.state later.2.state) ↔
      LiveRun Harness.Unpublished h history c := by
  obtain ⟨hf, hrun⟩ := hrun
  constructor
  · intro hpair
    refine ⟨hf, ?_⟩
    induction hrun with
    | refl => exact .refl
    | @tail history c c' ev _ hstep ih =>
      rw [List.pairwise_cons] at hpair
      have hbefore := ih hpair.2
      refine hbefore.tail ?_
      cases hstep with
      | start j hset => exact .start j hset
      | resume a ha hset => exact .resume a ha hset
      | act ha =>
        refine .act ?_
        cases ha with
        | other ha => exact .other ha
        | late _ ha =>
          refine .late (fun ho => ?_) ha
          have htrace := (LiveRun.traceable ⟨hf, hbefore⟩).2
          cases hbefore with
          | refl =>
            obtain ⟨g, hg, -⟩ := GenerationManager.mem_reachable.1 ho
            exact hf.no_live g hg
          | tail _ _ => exact ha.seen htrace ho (hpair.1 _ List.mem_cons_self)
  · rintro ⟨-, hkept⟩
    exact hkept.pairwise fun hearlier hlater => LiveRun.sameSnapshots ⟨hf, hearlier⟩ hlater

end

section
open scoped Plain

/-- a tool that its plugin registers when it comes to it -/
def probe : ToolDeclaration := ⟨"probe", "says whether the plugin is well", .absent, {}⟩

/-- the harness after the first of its instances registered the tool -/
def Harness.probed (h : Harness) : Harness :=
  match h.plugins.sortedInstances.head? with
  | none => h
  | some i => h.registerTool i probe

/-- the names of the tools that a run of the generation sees -/
def Harness.toolNames (h : Harness) (g : RuntimeGeneration) : Except Err (List String) :=
  (h.toolSnapshot g none).map fun v => v.entries.map RegisteredTool.name

theorem Harness.probed_acts {may : Harness → String → Prop} {h : Harness} (hk : h.plugins.Keyed)
    (hopen : ∀ i ∈ h.plugins.sortedInstances, i.state ≠ .failed ∧ may h i.instanceId) :
    LiveActs may h h.probed := by
  unfold Harness.probed
  split
  · exact .other (.refl h)
  · rename_i i hi
    have hin : i ∈ h.plugins.sortedInstances := List.mem_of_mem_head? hi
    refine .late (hopen i hin).2 (.registerTool i probe ⟨hk.of_mem hin, (hopen i hin).1⟩ rfl ?_ ?_)
    · decide
    · decide

theorem HarnessRun.live {may : Harness → String → Prop} {h : Harness}
    {history : List (Event Job Err × HarnessConfig)} {c : HarnessConfig}
    (hrun : HarnessRun h history c) : LiveRun may h history c :=
  ⟨hrun.1, hrun.2.mono fun _ _ ha => .other ha⟩

/-- the first plugin is set up, and the reconcile waits for the `setup` of the second -/
def halfMounted : HarnessCourse :=
  play [.install (plainPlugin "a" [] [] []), .install (plainPlugin "b" [] [] []),
    .start .reconcile, .resume honest]

/-- the first plugin registers its tool before there is a generation, which is then published -/
def probedEarly : HarnessCourse := (halfMounted.act Harness.probed).resume honest

theorem probedEarly_run {may : Harness → String → Prop} (hmay : ∀ i ∈
    halfMounted.config.state.plugins.sortedInstances, may halfMounted.config.state i.instanceId) :
    LiveRun may {} probedEarly.history probedEarly.config := by
  have hrun : HarnessRun {} halfMounted.history halfMounted.config := play_run _
  have hopen : ∀ i ∈ halfMounted.config.state.plugins.sortedInstances, i.state ≠ .failed := by
    decide +kernel
  refine ⟨hrun.1, Course.resume_run (Course.act_run hrun.live.2 ?_) fun _ => trivial⟩
  exact Harness.probed_acts hrun.safe.keyed fun i hi => ⟨hopen i hi, hmay i hi⟩

theorem snapshots_stable_early :
    probedEarly.config.state.generations.live.map probedEarly.config.state.toolNames =
      [.ok ["probe"]] ∧
    probedEarly.history.Pairwise fun later earlier =>
      SameSnapshots earlier.2.state later.2.state := by
  have hearly : ∀ i ∈ halfMounted.config.state.plugins.sortedInstances,
      i.instanceId ∉ halfMounted.config.state.generations.reachableInstanceIds := by
    decide +kernel
  exact ⟨by decide +kernel,
    (snapshots_stable_iff (probedEarly_run fun _ _ => trivial)).2 (probedEarly_run hearly)⟩

/-- a plugin is mounted and published -/
def seated : HarnessCourse :=
  play [.install (plainPlugin "a" [] [] []), .start .reconcile, .resume honest]

/-- its plugin registers the tool while the generation is live -/
def probedLate : HarnessCourse := seated.act Harness.probed

theorem probedLate_run :
    LiveRun (fun _ _ => True) {} probedLate.history probedLate.config := by
  have hrun : HarnessRun {} seated.history seated.config := play_run _
  have hopen : ∀ i ∈ seated.config.state.plugins.sortedInstances, i.state ≠ .failed := by
    decide +kernel
  refine ⟨hrun.1, Course.act_run hrun.live.2 ?_⟩
  exact Harness.probed_acts hrun.safe.keyed fun i hi => ⟨hopen i hi, trivial⟩

/-- **Two runs of one generation see different tools**, if its plugin registers one between them. -/
theorem snapshots_unstable : ¬ ∀ (h : Harness) (history : List (Event Job Err × HarnessConfig))
    (c : HarnessConfig), LiveRun (fun _ _ => True) h history c →
      history.Pairwise fun later earlier => SameSnapshots earlier.2.state later.2.state := by
  intro hall
  have hpair := hall _ _ _ probedLate_run
  have hsame : SameSnapshots seated.config.state probedLate.config.state :=
    (List.pairwise_cons.1 hpair).1 (.ended .reconcile (.ok ()), seated.config) List.mem_cons_self
  have hlive : seated.config.state.generations.live ≠ [] := by decide +kernel
  have hkept : probedLate.config.state.generations = seated.config.state.generations := rfl
  have hseen : ∀ g ∈ seated.config.state.generations.live,
      seated.config.state.toolNames g = .ok [] ∧
      probedLate.config.state.toolNames g = .ok ["probe"] := by decide +kernel
  obtain ⟨g, hg⟩ := List.exists_mem_of_ne_nil _ hlive
  have hsnap := (hsame g hg g (hkept ▸ hg) rfl).1 none
  have hnames : probedLate.config.state.toolNames g = seated.config.state.toolNames g :=
    congrArg (Except.map fun v : ToolSnapshot => v.entries.map RegisteredTool.name) hsnap
  rw [(hseen g hg).1, (hseen g hg).2] at hnames
  exact absurd (Except.ok.inj hnames) (by decide)

end

end Chassis
