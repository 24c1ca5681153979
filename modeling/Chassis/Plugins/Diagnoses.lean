import Chassis.Plugins.Standing

/-!
# Pending entries, cycles and ambiguity in a plan

* `pending_explained_iff`  a pending entry has an unmet hard requirement to show, exactly where
                           the candidates are `NeverContested`;
* `cycles_taint_iff`       what depends on a cycle is pending, exactly where they are
                           `CyclesApart`;
* `ambiguity_between_iff`  ambiguity is between providers, exactly where they are `SoleDecided`.
-/

set_option linter.unusedSectionVars false

namespace Chassis
open Py

section
variable [Packaging]

/-! ## pending entries -/

/-- every pending entry outside the reported cycles has an unmet hard requirement in its plan,
and says so -/
def ResolutionPlan.Explained (plan : ResolutionPlan) : Prop :=
  ∀ pl ∈ plan.plugins, pl.status = .pending → pl.entryId ∉ plan.cycles.flatten →
    (∃ r ∈ pl.requirements, r.requirement.optional = false ∧ r.satisfied = false) ∧
      pl.reasons ≠ []

theorem pendingPlan_explained {resolve : Prepared → List RequirementResolution} {p : Prepared} :
    (∃ r ∈ (pendingPlan resolve p).requirements,
        r.requirement.optional = false ∧ r.satisfied = false) ∧
      (pendingPlan resolve p).reasons ≠ [] ↔
    (resolve p).any RequirementResolution.blocks = true := by
  have hreasons : (pendingPlan resolve p).reasons ≠ [] ↔
      (resolve p).any RequirementResolution.blocks = true := by
    rw [pendingPlan, entryPlan, Ne, List.map_eq_nil_iff, List.filter_eq_nil_iff, List.any_eq_true]
    push Not
    rfl
  rw [hreasons, and_iff_right_iff_imp, List.any_eq_true]
  rintro ⟨r, hr, hb⟩
  simp only [RequirementResolution.blocks, Bool.and_eq_true, Bool.not_eq_true'] at hb
  exact ⟨r, hr, hb.2, hb.1⟩

/-- the plans `Explained` speaks of are those of the pending entries outside the cycles -/
theorem mem_plugins_pending {index : ScopeIndex} {entries : List Prepared}
    {selection : Dict String String} (hn : (ids entries).Nodup) {pl : PluginPlan} :
    (pl ∈ (composePlan index entries selection).plugins ∧ pl.status = .pending ∧
        pl.entryId ∉ (detectCycles index entries).flatten) ↔
      ∃ p ∈ entries, p.entryId ∉ survivors index entries selection ∧
        p.entryId ∉ (detectCycles index entries).flatten ∧
        pendingPlan (resolutionsIn index entries selection
          (survivors index entries selection)) p = pl := by
  rw [plugins_eq hn, List.mem_append, List.mem_append]
  constructor
  · rintro ⟨(hpl | hpl) | hpl, hst, hcyc⟩
    · obtain ⟨e, -, h⟩ := List.mem_filterMap.1 hpl
      obtain ⟨p, -, h⟩ := Option.bind_eq_some_iff.1 h
      obtain ⟨rs, -, rfl⟩ := Option.map_eq_some_iff.1 h
      cases hst
    · obtain ⟨p, hp, rfl⟩ := List.mem_map.1 hpl
      obtain ⟨hp, hout⟩ := List.mem_filter.1 hp
      rw [decide_eq_true_eq] at hout
      exact ⟨p, hp, hout.1, hout.2, rfl⟩
    · obtain ⟨e, he, h⟩ := List.mem_filterMap.1 hpl
      obtain ⟨p, hp, rfl⟩ := Option.map_eq_some_iff.1 h
      have hid : p.entryId = e := ((byEntry_eq_some hn).1 hp).2
      exact absurd (mem_sortedBy.1 he) (hid ▸ hcyc)
  · rintro ⟨p, hp, hout, hcyc, rfl⟩
    refine ⟨Or.inl (Or.inr (List.mem_map_of_mem ?_)), rfl, hcyc⟩
    exact List.mem_filter.2 ⟨hp, by simp [hout, hcyc]⟩

/-- **Every pending entry can be explained, exactly where nobody was robbed of a requirement that
is met in the end by an earlier contest.** -/
theorem pending_explained_iff {candidates : List PluginCandidate} {prefer : Dict String String}
    {scopes : Option (List ScopeSpec)} {plan : ResolutionPlan}
    (h : resolve candidates prefer scopes = .ok plan) :
    plan.Explained ↔ NeverContested candidates (scopes.getD [rootSpec]) prefer := by
  obtain ⟨index, entries, hprep, rfl⟩ := resolve_ok.1 h
  have hcomp := prepareAll_ok hprep
  have hn := hcomp.ids_nodup
  have hviable : ∀ p ∈ entries, (market index entries prefer).viable
      (survivors index entries prefer) p.entryId = true ↔ ∀ q, p.candidate.Needs q →
        q.Met candidates (scopes.getD [rootSpec]) prefer
          (Stands candidates (scopes.getD [rootSpec]) prefer) := by
    intro p hp
    rw [← survivors_eq hcomp]
    exact viable_iff_met hcomp hp _
  have hstands : ∀ p ∈ entries, (∀ q, p.candidate.Needs q →
      q.Met candidates (scopes.getD [rootSpec]) prefer
        (Stands candidates (scopes.getD [rootSpec]) prefer)) →
      (p.entryId ∈ survivors index entries prefer ↔ ∀ q, p.candidate.Needs q → ∀ n,
        ¬ q.Contested candidates (scopes.getD [rootSpec]) prefer
          (Lasts candidates (scopes.getD [rootSpec]) prefer n)) := by
    intro p hp hmet
    rw [stands_iff hcomp]
    exact stands_iff_uncontested hcomp.inj ((hcomp.mem _).2 ⟨p, hp, rfl⟩) hmet
  constructor
  · intro hex c hc hcyc hmet
    obtain ⟨p, hp, rfl⟩ := (hcomp.mem c).1 hc
    refine (hstands p hp hmet).1 ?_
    by_contra hout
    have hcycle : p.entryId ∉ (detectCycles index entries).flatten := fun hin =>
      hcyc ((onCycle_iff hprep).1 hin)
    obtain ⟨hpl, hst, -⟩ := (mem_plugins_pending hn).2 ⟨p, hp, hout, hcycle, rfl⟩
    have hblocks := pendingPlan_explained.1 (hex _ hpl hst hcycle)
    rw [blocks_iff hn hp, (hviable p hp).2 hmet] at hblocks
    cases hblocks
  · intro hnever pl hpl hst hcyc
    obtain ⟨p, hp, hout, hcycle, rfl⟩ := (mem_plugins_pending hn).1 ⟨hpl, hst, hcyc⟩
    refine pendingPlan_explained.2 ?_
    rw [blocks_iff hn hp, Bool.not_eq_true']
    by_contra hyes
    rw [Bool.not_eq_false] at hyes
    have hmet := (hviable p hp).1 hyes
    refine hout ((hstands p hp hmet).2 (hnever p.candidate ((hcomp.mem _).2 ⟨p, hp, rfl⟩) ?_ hmet))
    exact fun hon => hcycle ((onCycle_iff hprep).2 hon)

end

section
open scoped Plain

theorem pending_explained_iff_chain : ∃ plan, resolve chain Dict.empty none = .ok plan ∧
    (plan.Explained ↔ NeverContested chain [rootSpec] Dict.empty) := by
  obtain ⟨plan, hplan, -⟩ := ok_of_map (resolve chain Dict.empty none)
    ResolutionPlan.cycles [] (by decide +kernel)
  exact ⟨plan, hplan, pending_explained_iff hplan⟩

/-- `c` requires what both `p` and `q` provide, and `q` requires what nobody provides -/
def rivals : List PluginCandidate :=
  [plainCandidate "c" [] [("db", "")] [], plainCandidate "p" [("db", "1.0.0")] [] [],
    plainCandidate "q" [("db", "1.0.0")] [("missing", "")] []]

/-- The first pass drops `c`, its requirement being ambiguous, together with `q`: what is left of
the ambiguity is one provider, and `c` is pending without a reason. -/
theorem not_explained : ∃ plan, resolve rivals Dict.empty none = .ok plan ∧
    plan.activationOrder = ["p"] ∧ plan.cycles = [] ∧ ¬ plan.Explained := by
  obtain ⟨plan, hplan, hf⟩ := ok_of_map (resolve rivals Dict.empty none)
    (fun plan => (plan.activationOrder, plan.cycles, plan.plugins.any fun pl =>
      pl.entryId = "c" && pl.status = .pending && pl.reasons = []))
    (["p"], [], true) (by decide +kernel)
  obtain ⟨hord, hf⟩ := Prod.mk.inj hf
  obtain ⟨hcyc, hany⟩ := Prod.mk.inj hf
  refine ⟨plan, hplan, hord, hcyc, fun hex => ?_⟩
  obtain ⟨pl, hpl, hb⟩ := List.any_eq_true.1 hany
  simp only [Bool.and_eq_true, decide_eq_true_eq] at hb
  refine (hex pl hpl hb.1.2 ?_).2 hb.2
  rw [hcyc]
  simp

end

section
variable [Packaging]

/-! ## cycles -/

/-- a hard requirement of `e` selects `p` -/
def ResolutionPlan.DependsOn (plan : ResolutionPlan) (e p : String) : Prop :=
  ∃ pl, plan.planFor e = some pl ∧
    ∃ r ∈ pl.requirements, r.requirement.optional = false ∧ r.providerEntryId = some p

/-- no member of a cycle is behind anything that is activated -/
structure ResolutionPlan.CyclesTaint (plan : ResolutionPlan) : Prop where
  activated : ∀ e ∈ plan.activationOrder, ∀ pl, plan.planFor e = some pl →
    ∀ r ∈ pl.requirements, r.requirement.optional = false →
      ∃ p ∈ plan.activationOrder, r.providerEntryId = some p
  pending : ∀ e c, c ∈ plan.cycles.flatten → Relation.ReflTransGen plan.DependsOn e c →
    e ∉ plan.activationOrder ∧ e ∈ plan.pending

section
variable {index : ScopeIndex} {entries : List Prepared} {selection : Dict String String}

theorem planFor_mem (hn : (ids entries).Nodup) {e : String} {pl : PluginPlan}
    (h : (composePlan index entries selection).planFor e = some pl) : e ∈ ids entries := by
  have hid : pl.entryId = e := by simpa using List.find?_some h
  have hmem := List.mem_of_find?_eq_some h
  rw [plugins_eq hn, List.mem_append, List.mem_append] at hmem
  rw [← hid]
  rcases hmem with (hmem | hmem) | hmem
  · obtain ⟨e, -, hmem⟩ := List.mem_filterMap.1 hmem
    obtain ⟨p, hp, hmem⟩ := Option.bind_eq_some_iff.1 hmem
    obtain ⟨rs, -, rfl⟩ := Option.map_eq_some_iff.1 hmem
    exact List.mem_map_of_mem ((byEntry_eq_some hn).1 hp).1
  · obtain ⟨p, hp, rfl⟩ := List.mem_map.1 hmem
    exact List.mem_map_of_mem (List.mem_filter.1 hp).1
  · obtain ⟨e, -, hmem⟩ := List.mem_filterMap.1 hmem
    obtain ⟨p, hp, rfl⟩ := Option.map_eq_some_iff.1 hmem
    exact List.mem_map_of_mem ((byEntry_eq_some hn).1 hp).1

theorem plan_pending (hn : (ids entries).Nodup) {e : String} (he : e ∈ ids entries) :
    e ∈ (composePlan index entries selection).pending ↔
      e ∉ (composePlan index entries selection).activationOrder := by
  have hpending : (composePlan index entries selection).pending =
      sorted ((pendingEntries entries (survivors index entries selection)
        (detectCycles index entries).flatten).map Prepared.entryId ++
          (detectCycles index entries).flatten) := by
    rw [survivors, ← finalEligibility_eligible hn]
    rfl
  rw [hpending, mem_sortedBy, List.mem_append, mem_activationOrder hn, not_and_or, not_not]
  refine or_congr_left' fun hcyc => ?_
  constructor
  · intro h
    obtain ⟨p, hp, rfl⟩ := List.mem_map.1 h
    have hout := (List.mem_filter.1 hp).2
    rw [decide_eq_true_eq] at hout
    exact hout.1
  · intro hout
    obtain ⟨p, hp, rfl⟩ := List.mem_map.1 he
    exact List.mem_map_of_mem (List.mem_filter.2 ⟨hp, by simp [hout, hcyc]⟩)

theorem planFor_resolutions (hn : (ids entries).Nodup) {e : String} {pl : PluginPlan}
    (he : e ∈ (composePlan index entries selection).activationOrder)
    (h : (composePlan index entries selection).planFor e = some pl) :
    ∃ p ∈ entries, p.entryId = e ∧
      pl.requirements = resolutionsIn index entries selection (survivors index entries selection) p := by
  obtain ⟨p, hp, rfl⟩ := survivors_mem ((mem_activationOrder hn).1 he).1
  rw [planFor_activated hn hp he] at h
  cases h
  exact ⟨p, hp, rfl, rfl⟩

/-- a hard requirement of an activated entry is met by a survivor -/
theorem activated_selects (hn : (ids entries).Nodup) {p : Prepared} (hp : p ∈ entries)
    (he : p.entryId ∈ survivors index entries selection) {r : RequirementResolution}
    (hr : r ∈ resolutionsIn index entries selection (survivors index entries selection) p)
    (hhard : r.requirement.optional = false) : ∃ q, r.providerEntryId = some q ∧
      q ∈ survivors index entries selection ∧
      (market index entries selection).Selects (ids entries) q p.entryId r.requirement := by
  obtain ⟨hmem, hent, -⟩ := mem_resolutionsIn hn hp hr
  have hdemand : r.requirement ∈ (market index entries selection).demands p.entryId := by
    rw [market_demands hn hp]
    exact hmem
  obtain ⟨o, ho⟩ := Selection.Market.viable_iff.1 (Selection.Market.viable_survivors he)
    r.requirement hdemand (by simp [market, hhard])
  have hpick : picked index entries selection (survivors index entries selection) p r.requirement =
    some o := ho
  refine ⟨o.entryId, ?_, (Selection.Market.pick_mem ho).2, he, hdemand, o, ho, rfl⟩
  rw [hent, hpick]
  rfl

end

/-- **What depends on a cycle is pending, exactly where the cycles are apart.** -/
theorem cycles_taint_iff {candidates : List PluginCandidate} {prefer : Dict String String}
    {scopes : Option (List ScopeSpec)} {plan : ResolutionPlan}
    (h : resolve candidates prefer scopes = .ok plan) :
    plan.CyclesTaint ↔ CyclesApart candidates (scopes.getD [rootSpec]) prefer := by
  obtain ⟨index, entries, hprep, rfl⟩ := resolve_ok.1 h
  have hcomp := prepareAll_ok hprep
  have hn := hcomp.ids_nodup
  have horder : ∀ c, c ∈ (composePlan index entries prefer).activationOrder ↔
      Stands candidates (scopes.getD [rootSpec]) prefer c ∧
        ¬ OnCycle candidates (scopes.getD [rootSpec]) c := by
    intro c
    rw [mem_activationOrder hn, stands_iff hcomp, onCycle_iff hprep]
  constructor
  · rintro htaint c hc hstands hcyc q ⟨hard, hhard, r, hr, rfl⟩ d hd hby
    obtain ⟨p, hp, rfl⟩ := (hcomp.mem c).1 hc
    rw [(hcomp.parsed p hp).required] at hhard
    cases hhard
    rw [← survivors_eq hcomp] at hby
    obtain ⟨o, ho, hid⟩ := (pick_iff hcomp hp hd).2 hby
    obtain ⟨hreq, hent, -⟩ := resolveOne_picked index prefer hn hp r
      (survivors index entries prefer) (entries.flatMap Prepared.options) p.providedKeys
    have hpick : picked index entries prefer (survivors index entries prefer) p r = some o := ho
    have hin := (horder p.entryId).2 ⟨hstands, hcyc⟩
    have hmem : r ∈ p.requirements := List.mem_append_left _ hr
    obtain ⟨p', hp', hprov⟩ := htaint.activated _ hin _ (planFor_activated hn hp hin) _
      (List.mem_map_of_mem hmem) (by
        rw [hreq]
        exact (PluginManifest.requiredCapabilities_hard (hcomp.parsed p hp).required hr).1)
    rw [hent, hpick, Option.map_some, Option.some_inj, hid] at hprov
    rw [hprov]
    exact ((horder p').1 hp').2
  · intro hapart
    have hactivated : ∀ e ∈ (composePlan index entries prefer).activationOrder, ∀ pl,
        (composePlan index entries prefer).planFor e = some pl → ∀ r ∈ pl.requirements,
        r.requirement.optional = false →
        ∃ p ∈ (composePlan index entries prefer).activationOrder, r.providerEntryId = some p := by
      intro e he pl hpl r hr hhard
      obtain ⟨hstands, hcyc⟩ := (horder e).1 he
      obtain ⟨p, hp, rfl, hreqs⟩ := planFor_resolutions hn he hpl
      rw [hreqs] at hr
      obtain ⟨q, hprov, hq, -, hdemand, o, ho, hown⟩ :=
        activated_selects hn hp ((stands_iff hcomp).2 hstands) hr hhard
      obtain ⟨p', hp', rfl⟩ := survivors_mem hq
      have hd : p'.candidate ∈ candidates := (hcomp.mem _).2 ⟨p', hp', rfl⟩
      have hby := (pick_iff hcomp hp hd).1 ⟨o, ho, hown⟩
      have hneeds : p.candidate.Needs (p.candidate.demand r.requirement) := by
        rw [market_demands hn hp] at hdemand
        rcases List.mem_append.1 hdemand with hin | hin
        · exact ⟨_, (hcomp.parsed p hp).required, _, hin, rfl⟩
        · have hsoft := (PluginManifest.optionalCapabilities_soft
            (hcomp.parsed p hp).optional hin).1
          rw [hhard] at hsoft
          cases hsoft
      refine ⟨p'.entryId, (horder _).2 ⟨(stands_iff hcomp).1 hq, ?_⟩, hprov⟩
      refine hapart p.candidate ((hcomp.mem _).2 ⟨p, hp, rfl⟩) hstands hcyc _ hneeds
        p'.candidate hd ?_
      rw [← survivors_eq hcomp]
      exact hby
    refine ⟨hactivated, fun e c hc hdep => ?_⟩
    -- along its hard requirements an activated entry never leaves the activation order
    have hstays : ∀ {a b}, Relation.ReflTransGen (composePlan index entries prefer).DependsOn a b →
        a ∈ (composePlan index entries prefer).activationOrder →
        b ∈ (composePlan index entries prefer).activationOrder := by
      intro a b hab ha
      induction hab with
      | refl => exact ha
      | tail _ hstep ih =>
        obtain ⟨pl, hpl, r, hr, hhard, hprov⟩ := hstep
        obtain ⟨p, hp, hprov'⟩ := hactivated _ ih pl hpl r hr hhard
        rw [hprov] at hprov'
        cases hprov'
        exact hp
    have hnot : e ∉ (composePlan index entries prefer).activationOrder := fun he =>
      ((mem_activationOrder hn).1 (hstays hdep he)).2 hc
    refine ⟨hnot, ?_⟩
    rcases Relation.ReflTransGen.cases_head hdep with rfl | ⟨p, ⟨pl, hpl, -⟩, -⟩
    · exact mem_sortedBy.2 (List.mem_append_right _ hc)
    · exact (plan_pending hn (planFor_mem hn hpl)).2 hnot

end

section
open scoped Plain

theorem cycles_taint_iff_chain : ∃ plan, resolve chain Dict.empty none = .ok plan ∧
    (plan.CyclesTaint ↔ CyclesApart chain [rootSpec] Dict.empty) := by
  obtain ⟨plan, hplan, -⟩ := ok_of_map (resolve chain Dict.empty none)
    ResolutionPlan.cycles [] (by decide +kernel)
  exact ⟨plan, hplan, cycles_taint_iff hplan⟩

/-- The members of the cycle are left out of the order, but `c` is activated without its
provider. -/
theorem cycles_do_not_taint : ∃ plan, resolve taintedConsumer Dict.empty none = .ok plan ∧
    plan.cycles = [["a", "b"]] ∧ plan.activationOrder = ["c"] ∧ ¬ plan.CyclesTaint := by
  obtain ⟨plan, hplan, hf⟩ := ok_of_map (resolve taintedConsumer Dict.empty none)
    (fun plan => (plan.cycles, plan.activationOrder, (plan.planFor "c").map fun pl =>
      pl.requirements.any fun r => !r.requirement.optional && r.providerEntryId = some "a"))
    ([["a", "b"]], ["c"], some true) (by decide +kernel)
  obtain ⟨hcyc, hf⟩ := Prod.mk.inj hf
  obtain ⟨hord, hreq⟩ := Prod.mk.inj hf
  refine ⟨plan, hplan, hcyc, hord, fun htaint => ?_⟩
  obtain ⟨pl, hpl, hany⟩ := Option.map_eq_some_iff.1 hreq
  obtain ⟨r, hr, ha⟩ := List.any_eq_true.1 hany
  rw [Bool.and_eq_true, Bool.not_eq_true', decide_eq_true_eq] at ha
  obtain ⟨p, hp, hprov⟩ := htaint.activated "c" (by rw [hord]; decide) pl hpl r hr ha.1
  rw [ha.2] at hprov
  cases hprov
  rw [hord] at hp
  exact absurd hp (by decide)

end

section
variable [Packaging]

/-! ## ambiguity -/

/-- `e` could answer: it is another entry that remains, and an option of it that the consumer sees
is accepted -/
def Question.Provider (q : Question) (index : ScopeIndex) (entries : List Prepared)
    (E : List String) (e : String) : Prop :=
  ∃ o ∈ visibleOptions index entries q.path, o.entryId = e ∧ e ∈ E ∧ some e ≠ q.exclude ∧
    o.key.name = q.requirement.name ∧ q.requirement.accepts o.key o.version = true

theorem Question.provider_iff {q : Question} {index : ScopeIndex} {entries : List Prepared}
    {E : List String} {e : String} : q.Provider index entries E e ↔
      ∃ o ∈ q.rivals index entries E, o.entryId = e := by
  constructor
  · rintro ⟨o, hvisible, rfl, hE, hself, hname, haccepts⟩
    exact ⟨o, Question.mem_rivals.2 ⟨hvisible, hname, hE, hself, haccepts⟩, rfl⟩
  · rintro ⟨o, ho, rfl⟩
    obtain ⟨hvisible, hname, hE, hself, haccepts⟩ := Question.mem_rivals.1 ho
    exact ⟨o, hvisible, rfl, hE, hself, hname, haccepts⟩

/-- whatever is reported as ambiguous could be answered by two different entries -/
def ResolutionPlan.AmbiguityBetween (plan : ResolutionPlan) (index : ScopeIndex)
    (entries : List Prepared) (selection : Dict String String) : Prop :=
  ∀ r ∈ plan.resolutions, ∀ q ∈ questions index entries,
    q.answer index entries selection (survivors index entries selection) = r →
    r.status = .ambiguous → ∃ e e', e ≠ e' ∧
      q.Provider index entries (survivors index entries selection) e ∧
      q.Provider index entries (survivors index entries selection) e'

/-- **Ambiguity is between providers, exactly where whoever is the only one to answer has one
offer that would do or is preferred.** -/
theorem ambiguity_between_iff {candidates : List PluginCandidate} {prefer : Dict String String}
    {scopes : Option (List ScopeSpec)} {plan : ResolutionPlan}
    (h : resolve candidates prefer scopes = .ok plan) :
    (∀ index entries, prepareAll candidates scopes = .ok (index, entries) →
      plan.AmbiguityBetween index entries prefer) ↔
    SoleDecided candidates (scopes.getD [rootSpec]) prefer := by
  obtain ⟨index, entries, hprep, rfl⟩ := resolve_ok.1 h
  have hcomp := prepareAll_ok hprep
  have hn := hcomp.ids_nodup
  have hprovider : ∀ q ∈ questions index entries, ∀ d ∈ candidates,
      q.Provider index entries (survivors index entries prefer) d.entryId ↔
        Stands candidates (scopes.getD [rootSpec]) prefer d.entryId ∧
          q.demand.Answers (scopes.getD [rootSpec]) d := by
    intro q hq d hd
    rw [Question.provider_iff, Question.exists_rival hcomp (mem_questions hcomp hq).1 hd,
      stands_iff hcomp]
  constructor
  · intro hbetween dm hasked d hd hstands ha honly
    obtain ⟨q, hq, rfl⟩ := exists_question hcomp hasked
    by_contra hundecided
    rw [not_or] at hundecided
    obtain ⟨hmany, hprefer⟩ := hundecided
    have hpath := (mem_questions hcomp hq).1
    have hmet : ¬ q.demand.Met candidates (scopes.getD [rootSpec]) prefer
        (Stands candidates (scopes.getD [rootSpec]) prefer) := by
      rintro ⟨m, hm, hby⟩
      obtain rfl := honly m hm hby.member hby.answers
      rcases hby.decided with hby | ⟨hone, -⟩
      · exact hprefer hby
      · exact hmany hone
    obtain ⟨o, ho, -⟩ := (Question.exists_rival hcomp hpath hd).2 ⟨(stands_iff hcomp).2 hstands, ha⟩
    have hnone : q.choice index entries prefer (survivors index entries prefer) = none := by
      by_contra hsome
      obtain ⟨o, ho⟩ := Option.ne_none_iff_exists'.1 hsome
      refine hmet ?_
      rw [← survivors_eq hcomp]
      exact (Question.exists_choice_iff hcomp hpath).1 ⟨o, ho⟩
    obtain ⟨hspec, -⟩ := Question.answer_spec q index entries prefer
      (survivors index entries prefer)
    obtain ⟨e, e', hne, he, he'⟩ := hbetween index entries hprep _
      ((mem_resolutions hn).2 ⟨q, hq, rfl⟩) q hq rfl
      (hspec.ambiguous.2 ⟨List.ne_nil_of_mem ho, hnone⟩)
    have hsame : ∀ e, q.Provider index entries (survivors index entries prefer) e →
        e = d.entryId := by
      intro e he
      obtain ⟨o, ho, rfl⟩ := Question.provider_iff.1 he
      obtain ⟨m, hm, hid⟩ := Question.rival_candidate hcomp ho
      rw [← hid] at he ⊢
      obtain ⟨hstands, ha⟩ := (hprovider q hq m hm).1 he
      rw [honly m hm hstands ha]
    exact hne ((hsame e he).trans (hsame e' he').symm)
  · intro hsole index' entries' hprep' r hr q hq hanswer hambiguous
    rw [hprep] at hprep'
    cases hprep'
    subst hanswer
    obtain ⟨hpath, hasked⟩ := mem_questions hcomp hq
    obtain ⟨hspec, -⟩ := Question.answer_spec q index entries prefer
      (survivors index entries prefer)
    obtain ⟨hne, hnone⟩ := hspec.ambiguous.1 hambiguous
    obtain ⟨o, ho⟩ := List.exists_mem_of_ne_nil _ hne
    obtain ⟨d, hd, hid⟩ := Question.rival_candidate hcomp ho
    have hd' : q.Provider index entries (survivors index entries prefer) d.entryId :=
      Question.provider_iff.2 ⟨o, ho, hid.symm⟩
    obtain ⟨hstands, ha⟩ := (hprovider q hq d hd).1 hd'
    by_contra hsame
    push Not at hsame
    have honly : ∀ m ∈ candidates, Stands candidates (scopes.getD [rootSpec]) prefer m.entryId →
        q.demand.Answers (scopes.getD [rootSpec]) m → m = d := by
      intro m hm hmS hma
      by_contra hmd
      exact hsame m.entryId d.entryId (fun hid => hmd (hcomp.inj m hm d hd hid))
        ((hprovider q hq m hm).2 ⟨hmS, hma⟩) hd'
    have hmet : q.demand.Met candidates (scopes.getD [rootSpec]) prefer
        (· ∈ survivors index entries prefer) := by
      rw [survivors_eq hcomp]
      refine ⟨d, hd, hstands, ha, ?_⟩
      rcases hsole _ hasked d hd hstands ha honly with hone | hprefer
      · exact Or.inr ⟨hone, honly⟩
      · exact Or.inl hprefer
    obtain ⟨o, ho⟩ := (Question.exists_choice_iff hcomp hpath).2 hmet
    rw [hnone] at ho
    cases ho

end

section
open scoped Plain

theorem ambiguity_between_iff_chain : ∃ plan, resolve chain Dict.empty none = .ok plan ∧
    ((∀ index entries, prepareAll chain none = .ok (index, entries) →
      plan.AmbiguityBetween index entries Dict.empty) ↔
    SoleDecided chain [rootSpec] Dict.empty) := by
  obtain ⟨plan, hplan, -⟩ := ok_of_map (resolve chain Dict.empty none)
    ResolutionPlan.cycles [] (by decide +kernel)
  exact ⟨plan, hplan, ambiguity_between_iff hplan⟩

/-- `p` provides two generations of what `c` requires, whichever it is -/
def twoGenerations : List PluginCandidate :=
  [plainCandidate "c" [] [("db", "")] [],
    { entryId := "p"
      manifest :=
        { name := "plugin-p", version := "1.0.0",
          provides := Dict.ofList [("db", .many ["1.0.0", "2.0.0"])] } }]

/-- The only provider is ambiguous with itself, and its consumer stays pending. -/
theorem ambiguous_with_itself : ∃ plan index entries,
    resolve twoGenerations Dict.empty none = .ok plan ∧
    prepareAll twoGenerations none = .ok (index, entries) ∧ plan.activationOrder = ["p"] ∧
    ¬ plan.AmbiguityBetween index entries Dict.empty := by
  obtain ⟨plan, hplan, hord⟩ := ok_of_map (resolve twoGenerations Dict.empty none)
    ResolutionPlan.activationOrder ["p"] (by decide +kernel)
  obtain ⟨⟨index, entries⟩, hprep, hany⟩ := ok_of_map (prepareAll twoGenerations none)
    (fun c => (questions c.1 c.2).any fun q =>
      (q.answer c.1 c.2 Dict.empty (survivors c.1 c.2 Dict.empty)).status = .ambiguous &&
        (q.rivals c.1 c.2 (survivors c.1 c.2 Dict.empty)).all fun o => o.entryId = "p") true
    (by decide +kernel)
  refine ⟨plan, index, entries, hplan, hprep, hord, fun hbetween => ?_⟩
  obtain ⟨q, hq, hb⟩ := List.any_eq_true.1 hany
  simp only [Bool.and_eq_true, decide_eq_true_eq, List.all_eq_true] at hb
  obtain ⟨index', entries', hprep', rfl⟩ := resolve_ok.1 hplan
  rw [hprep] at hprep'
  cases hprep'
  have hn : (ids entries).Nodup := (prepareAll_ok hprep).sorted.imp ne_of_lt
  obtain ⟨e, e', hne, he, he'⟩ := hbetween _ ((mem_resolutions hn).2 ⟨q, hq, rfl⟩) q hq rfl hb.1
  have hp : ∀ e, q.Provider index entries (survivors index entries Dict.empty) e → e = "p" := by
    intro e he
    obtain ⟨o, ho, rfl⟩ := Question.provider_iff.1 he
    exact hb.2 o ho
  exact hne ((hp e he).trans (hp e' he').symm)

end

end Chassis
