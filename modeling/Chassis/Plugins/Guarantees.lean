import Chassis.Plugins.Plan
import Chassis.Capabilities.Plain

/-!
# What a resolution plan guarantees

* `resolve_sound`           the selected providers of activated entries are activated, visible
                            and acceptable, and no hard requirement is without one;
* `providersFirst_iff`      providers of hard requirements come first, exactly unless one of
                            them is `Tangled` in the selection graph and above its consumer.
-/

set_option linter.unusedSectionVars false

namespace Chassis
open Py

section
variable [Packaging]

/-- `c` offers `key` at `version`: it registered it, or, not being active, declares it -/
def PluginCandidate.Offers (c : PluginCandidate) (key : CapabilityKey) (version : Version) : Prop :=
  if c.active then ∃ r ∈ c.registrations, r.key = key ∧ r.version = version
  else ∃ nv ∈ c.manifest.providedContracts,
    CapabilityKey.fromVersion nv.1 nv.2 = .ok key ∧ parseVersion nv.2 nv.1 = .ok version

theorem offers_of_mem {q : Prepared} (hq : q.Parsed) {o : ProviderOption} (ho : o ∈ q.options) :
    q.candidate.Offers o.key o.version := by
  simp only [Prepared.options] at ho
  simp only [PluginCandidate.Offers]
  split at ho
  · rename_i hactive
    obtain ⟨r, hr, rfl⟩ := List.mem_map.1 ho
    rw [if_pos hactive]
    exact ⟨r, hr, rfl, rfl⟩
  · rename_i hactive
    rw [if_neg hactive]
    exact (mem_declaredOptions hq.declared).1 ⟨o, ho, rfl, rfl⟩

/-! ## soundness -/

/-- **Every selection among activated entries is sound.**  Where no cycle is reported, the
selected provider of a requirement is activated too, is another entry, lives in the consumer's
scope or above, and offers an accepted option of a capability that every view on the consumer's
lineage contains; and every hard requirement has one. -/
theorem resolve_sound {candidates : List PluginCandidate} {prefer : Dict String String}
    {scopes : Option (List ScopeSpec)} {plan : ResolutionPlan}
    (h : resolve candidates prefer scopes = .ok plan) (hcyc : plan.cycles = []) :
    ∀ e ∈ plan.activationOrder, ∃ pl, plan.planFor e = some pl ∧ ∃ c ∈ candidates,
      c.entryId = e ∧
      (∃ hard soft, c.manifest.requiredCapabilities = .ok hard ∧
        c.manifest.optionalCapabilities = .ok soft ∧
        pl.requirements.map RequirementResolution.requirement = hard ++ soft) ∧
      (∀ r ∈ pl.requirements, ∀ p, r.providerEntryId = some p →
        p ∈ plan.activationOrder ∧ p ≠ e ∧ ∃ d ∈ candidates, d.entryId = p ∧
          OnLineage (scopes.getD [rootSpec]) c.scope d.scope ∧
          (∃ key version, d.Offers key version ∧ key.name = r.requirement.name ∧
            r.requirement.accepts key version = true) ∧
          ∀ s ∈ scopes.getD [rootSpec], OnLineage (scopes.getD [rootSpec]) c.scope s.path →
            ∀ view, s.capabilities = some view → r.requirement.name ∈ view) ∧
      (∀ r ∈ pl.requirements, r.requirement.optional = false → r.providerEntryId ≠ none) := by
  obtain ⟨index, entries, hprep, rfl⟩ := resolve_ok.1 h
  have hcomp := prepareAll_ok hprep
  have hn : (ids entries).Nodup := hcomp.sorted.imp ne_of_lt
  have hflat : (detectCycles index entries).flatten = [] := by
    rw [show detectCycles index entries = [] from hcyc, List.flatten_nil]
  intro e he
  obtain ⟨hin, -⟩ := (mem_activationOrder hn).1 he
  obtain ⟨p, hp, rfl⟩ := survivors_mem hin
  have hparsed := hcomp.parsed p hp
  refine ⟨_, planFor_activated hn hp he, p.candidate, (hcomp.mem _).2 ⟨p, hp, rfl⟩, rfl,
    ⟨p.required, p.optional, hparsed.required, hparsed.optional, resolutionsIn_requirement _ p⟩,
    ?_, ?_⟩
  · intro r hr q hq
    obtain ⟨-, hent, -⟩ := mem_resolutionsIn hn hp hr
    rw [hq] at hent
    obtain ⟨o, ho, hown⟩ := Option.map_eq_some_iff.1 hent.symm
    obtain ⟨hvis, hname, hne, hacc, hS⟩ := picked_spec hn hp ho
    obtain ⟨d, hd, hlin, hdo, hexp⟩ := mem_visibleOptions hvis
    have hid : o.entryId = d.entryId := options_entryId (hcomp.parsed d hd) hdo
    rw [← hown]
    refine ⟨(mem_activationOrder hn).2 ⟨hS, by rw [hflat]; exact List.not_mem_nil⟩, hne,
      d.candidate, (hcomp.mem _).2 ⟨d, hd, rfl⟩, hid.symm, ?_, ?_, ?_⟩
    · rw [← hcomp.specs]
      exact (index.mem_lineage (hcomp.scope p hp)).1 hlin
    · exact ⟨o.key, o.version, offers_of_mem (hcomp.parsed d hd) hdo, hname, hacc⟩
    · rw [← hcomp.specs, ← hname]
      exact (index.exposes_iff (hcomp.scope p hp)).1 hexp
  · intro r hr hhard
    obtain ⟨hmem, hent, -⟩ := mem_resolutionsIn hn hp hr
    have hviable := Selection.Market.viable_iff.1 (Selection.Market.viable_survivors hin)
    obtain ⟨o, ho⟩ := hviable r.requirement (by rw [market_demands hn hp]; exact hmem)
      (by simp [market, hhard])
    have hpick : picked index entries prefer (survivors index entries prefer) p r.requirement
        = some o := ho
    rw [hent, hpick]
    simp

end

section
open scoped Plain

/-- a candidate in the root scope; names and texts of what it provides and requires -/
def plainCandidate (entryId : String) (provides requires optional : List (String × String)) :
    PluginCandidate where
  entryId := entryId
  manifest :=
    { name := "plugin-" ++ entryId, version := "1.0.0",
      provides := Dict.ofList (provides.map fun p => (p.1, .one p.2)),
      requires := Dict.ofList requires, optional := Dict.ofList optional }

/-- `c` requires what `p` provides -/
def chain : List PluginCandidate :=
  [plainCandidate "c" [] [("db", ">=1")] [], plainCandidate "p" [("db", "1.2.0")] [] []]

theorem resolve_sound_chain : ∃ plan, resolve chain Dict.empty none = .ok plan ∧
    plan.activationOrder = ["p", "c"] ∧ ∃ pl, plan.planFor "c" = some pl ∧
      ∀ r ∈ pl.requirements, r.requirement.optional = false → r.providerEntryId ≠ none := by
  obtain ⟨plan, hplan, hf⟩ := ok_of_map (resolve chain Dict.empty none)
    (fun plan => (plan.cycles, plan.activationOrder)) ([], ["p", "c"])
    (by decide +kernel)
  obtain ⟨hcyc, hord⟩ := Prod.mk.inj hf
  obtain ⟨pl, hpl, -, -, -, -, -, hhard⟩ := resolve_sound hplan hcyc "c" (by rw [hord]; decide)
  exact ⟨plan, hplan, hord, pl, hpl, hhard⟩

end

section
variable [Packaging]

/-! ## order -/

/-- every activated entry comes after the selected provider of each of its hard requirements -/
def ResolutionPlan.ProvidersFirst (plan : ResolutionPlan) : Prop :=
  ∀ e ∈ plan.activationOrder, ∀ pl, plan.planFor e = some pl → ∀ r ∈ pl.requirements,
    r.requirement.optional = false → ∀ p, r.providerEntryId = some p →
      Kahn.Before plan.activationOrder p e

/-- no hard requirement selects a provider on or downstream of a cycle of the selection graph,
unless the provider is below its consumer in the order of the entry ids -/
def Untangled (m : Selection.Market String CapabilityRequirement ProviderOption)
    (E : List String) : Prop :=
  ∀ p c r, m.Selects E p c r → m.hard r = true → m.Tangled E p → p < c

theorem edge_eq_feeds {index : ScopeIndex} {entries : List Prepared}
    {selection : Dict String String} (hn : (ids entries).Nodup)
    (hcyc : detectCycles index entries = []) :
    Kahn.Edge (sorted ((survivors index entries selection).filter
        (· ∉ (detectCycles index entries).flatten))) (composePlan index entries selection).edges
      = (market index entries selection).Feeds (ids entries) := by
  funext p c
  rw [Kahn.Edge, mem_edges hn, hcyc]
  simp only [List.flatten_nil, List.not_mem_nil, not_false_eq_true, decide_true, List.filter_true,
    mem_sortedBy, eq_iff_iff]
  exact ⟨fun h => h.1, fun h => ⟨h, h.survivors⟩⟩

/-- a selected provider comes first unless it is tangled and above its consumer -/
theorem before_iff {index : ScopeIndex} {entries : List Prepared} {prefer : Dict String String}
    (hn : (ids entries).Nodup) (hc : detectCycles index entries = []) {p c : String}
    (hfeeds : (market index entries prefer).Feeds (ids entries) p c) :
    Kahn.Before (composePlan index entries prefer).activationOrder p c ↔
      ((market index entries prefer).Tangled (ids entries) p → p < c) := by
  have hlt : (sorted ((survivors index entries prefer).filter
      (· ∉ (detectCycles index entries).flatten))).Pairwise (· < ·) := by
    exact ((sortedBy_pairwise id _).and (sortedBy_nodup ((survivors_nodup hn).filter _))).imp
      fun h => lt_of_le_of_ne h.1 h.2
  rw [activationOrder_eq hn, activationOrder, Kahn.sort_before_iff hlt, Kahn.not_acc_iff]
  · rw [edge_eq_feeds hn hc]
    rfl
  · rw [edge_eq_feeds hn hc]
    exact hfeeds

/-- **Providers of hard requirements are activated first, exactly for untangled selections.** -/
theorem providersFirst_iff {candidates : List PluginCandidate} {prefer : Dict String String}
    {scopes : Option (List ScopeSpec)} {plan : ResolutionPlan}
    (h : resolve candidates prefer scopes = .ok plan) (hcyc : plan.cycles = []) :
    plan.ProvidersFirst ↔ ∀ index entries, prepareAll candidates scopes = .ok (index, entries) →
      Untangled (market index entries prefer) (ids entries) := by
  obtain ⟨index, entries, hprep, rfl⟩ := resolve_ok.1 h
  have hcomp := prepareAll_ok hprep
  have hn : (ids entries).Nodup := hcomp.sorted.imp ne_of_lt
  have hc : detectCycles index entries = [] := hcyc
  have hone : ∀ p c r, (market index entries prefer).Selects (ids entries) p c r →
      (Kahn.Before (composePlan index entries prefer).activationOrder p c ↔
        ((market index entries prefer).Tangled (ids entries) p → p < c)) :=
    fun p c r hsel => before_iff hn hc ⟨r, hsel⟩
  have hmem : ∀ {e}, e ∈ (composePlan index entries prefer).activationOrder ↔
      e ∈ survivors index entries prefer := fun {e} => by
    rw [mem_activationOrder hn, hc]
    simp
  constructor
  · intro hfirst index' entries' hprep' p c r hsel hhard
    rw [hprep] at hprep'
    cases hprep'
    obtain ⟨q, hq, rfl⟩ := survivors_mem hsel.1
    obtain ⟨-, hr, o, ho, hown⟩ := id hsel
    rw [market_demands hn hq] at hr
    obtain ⟨hreq, hent, -⟩ := resolveOne_picked index prefer hn hq r
      (survivors index entries prefer) (entries.flatMap Prepared.options) q.providedKeys
    have hpick : picked index entries prefer (survivors index entries prefer) q r = some o := ho
    refine (hone p _ r hsel).1 (hfirst _ (hmem.2 hsel.1) _ (planFor_activated hn hq
      (hmem.2 hsel.1)) _ (List.mem_map_of_mem hr) ?_ p ?_)
    · rw [hreq]
      simpa [market] using hhard
    · rw [hent, hpick]
      exact congrArg some hown
  · intro hun e he pl hpl r hr hhard p hprov
    obtain ⟨q, hq, rfl⟩ := survivors_mem (hmem.1 he)
    rw [planFor_activated hn hq he] at hpl
    cases hpl
    obtain ⟨hmr, hent, -⟩ := mem_resolutionsIn hn hq hr
    rw [hprov] at hent
    obtain ⟨o, ho, hown⟩ := Option.map_eq_some_iff.1 hent.symm
    have hsel : (market index entries prefer).Selects (ids entries) p q.entryId r.requirement :=
      ⟨hmem.1 he, by rw [market_demands hn hq]; exact hmr, o, ho, hown⟩
    exact (hone p _ _ hsel).2 (hun index entries hprep p _ _ hsel (by simp [market, hhard]))

end

section
open scoped Plain

theorem providersFirst_iff_chain : ∃ plan, resolve chain Dict.empty none = .ok plan ∧
    (plan.ProvidersFirst ↔ ∀ index entries, prepareAll chain none = .ok (index, entries) →
      Untangled (market index entries Dict.empty) (ids entries)) := by
  obtain ⟨plan, hplan, hcyc⟩ := ok_of_map (resolve chain Dict.empty none)
    ResolutionPlan.cycles [] (by decide +kernel)
  exact ⟨plan, hplan, providersFirst_iff hplan hcyc⟩

/-- `a` requires what `b` provides, and `b` would like what `a` provides -/
def optionalCycle : List PluginCandidate :=
  [plainCandidate "a" [("alpha", "1.0.0")] [("beta", "")] [],
    plainCandidate "b" [("beta", "1.0.0")] [] [("alpha", "")]]

/-- The optional edge closes a cycle that is not reported: the sort gets stuck, and the fallback
activates `a` before the provider it requires. -/
theorem not_providersFirst : ∃ plan, resolve optionalCycle Dict.empty none = .ok plan ∧
    plan.cycles = [] ∧ ¬ plan.ProvidersFirst := by
  obtain ⟨plan, hplan, hf⟩ := ok_of_map (resolve optionalCycle Dict.empty none)
    (fun plan => (plan.cycles, plan.activationOrder, (plan.planFor "a").map fun pl =>
      pl.requirements.any fun r => !r.requirement.optional && r.providerEntryId = some "b"))
    ([], ["a", "b"], some true) (by decide +kernel)
  obtain ⟨hcyc, hf⟩ := Prod.mk.inj hf
  obtain ⟨hord, hreq⟩ := Prod.mk.inj hf
  refine ⟨plan, hplan, hcyc, fun hfirst => ?_⟩
  obtain ⟨pl, hpl, hany⟩ := Option.map_eq_some_iff.1 hreq
  obtain ⟨r, hr, hb⟩ := List.any_eq_true.1 hany
  rw [Bool.and_eq_true, Bool.not_eq_true', decide_eq_true_eq] at hb
  have hba := hfirst "a" (by rw [hord]; decide) pl hpl r hr hb.1 "b" hb.2
  rw [hord] at hba
  have hab : Kahn.Before ["a", "b"] "a" "b" := Kahn.before_cons.2 (Or.inl ⟨rfl, by decide⟩)
  exact hab.asymm (by decide) hba

end

end Chassis
