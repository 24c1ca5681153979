import Chassis.Plugins.Market

/-!
# What is in a resolution plan

* `prepareAll_ok`          what a successful validation and parse guarantees of the entries;
* `mem_activationOrder`    the activated entries are the survivors outside the cycles;
* `planFor_activated`      the plan of an activated entry resolves it against the survivors;
* `mem_edges`              the edges are the selection graph.
-/

set_option linter.unusedSectionVars false

namespace Chassis
open Py
variable [Packaging]

/-- everything in a prepared entry is parsed out of its candidate -/
structure Prepared.Parsed (p : Prepared) : Prop where
  declared : declaredOptions p.candidate = .ok p.declared
  required : p.candidate.manifest.requiredCapabilities = .ok p.required
  optional : p.candidate.manifest.optionalCapabilities = .ok p.optional
  providedKeys : p.candidate.manifest.providedKeys = .ok p.providedKeys

/-- what the plan is computed from, after validation -/
structure Composition (candidates : List PluginCandidate) (specs : List ScopeSpec)
    (index : ScopeIndex) (entries : List Prepared) : Prop where
  specs : index.specs = specs
  mem : ∀ c, c ∈ candidates ↔ ∃ p ∈ entries, p.candidate = c
  sorted : (ids entries).Pairwise (· < ·)
  scope : ∀ p ∈ entries, p.scope ∈ index.paths
  parsed : ∀ p ∈ entries, p.Parsed

/-! ## validation and parsing -/

theorem mem_declaredOptions {c : PluginCandidate} {os : List ProviderOption}
    (hos : declaredOptions c = .ok os) {key : CapabilityKey} {version : Version} :
    (∃ o ∈ os, o.key = key ∧ o.version = version) ↔ c.manifest.Contract key version := by
  constructor
  · rintro ⟨o, ho, rfl, rfl⟩
    obtain ⟨nv, hnv, h⟩ := mapM_ok_mem hos ho
    obtain ⟨k, hk, h⟩ := bind_ok.1 h
    obtain ⟨v, hv, h⟩ := bind_ok.1 h
    cases h
    exact ⟨nv, hnv, hk, hv⟩
  · rintro ⟨nv, hnv, hk, hv⟩
    obtain ⟨o, ho, h⟩ := mapM_ok_mem_left hos hnv
    simp only [hk, hv, bind, Except.bind, pure, Except.pure, Except.ok.injEq] at h
    exact ⟨o, ho, by rw [← h], by rw [← h]⟩

theorem declaredOptions_place {c : PluginCandidate} {os : List ProviderOption}
    (hos : declaredOptions c = .ok os) {o : ProviderOption} (ho : o ∈ os) :
    o.entryId = c.entryId ∧ o.scope = c.scope := by
  obtain ⟨nv, -, h⟩ := mapM_ok_mem hos ho
  obtain ⟨k, -, h⟩ := bind_ok.1 h
  obtain ⟨v, -, h⟩ := bind_ok.1 h
  cases h
  exact ⟨rfl, rfl⟩

theorem firstRepeated_none {seen l : List String} (h : firstRepeated seen l = none) :
    l.Nodup ∧ ∀ x ∈ l, x ∉ seen := by
  induction l generalizing seen with
  | nil => simp
  | cons a l ih =>
    simp only [firstRepeated] at h
    split at h
    · cases h
    · rename_i ha
      obtain ⟨hl, hout⟩ := ih h
      refine ⟨List.nodup_cons.2 ⟨fun hal => ?_, hl⟩, fun x hx => ?_⟩
      · exact hout a hal (List.mem_append_right _ (List.mem_singleton_self a))
      · rcases List.mem_cons.1 hx with rfl | hx
        · exact ha
        · exact fun hs => hout x hx (List.mem_append_left _ hs)

theorem orderedCandidates_ok {candidates ordered : List PluginCandidate}
    (h : orderedCandidates candidates = .ok ordered) :
    (∀ c, c ∈ candidates ↔ c ∈ ordered) ∧
      (ordered.map PluginCandidate.entryId).Pairwise (· < ·) := by
  simp only [orderedCandidates] at h
  split at h
  · cases h
  · rename_i hnone
    cases h
    refine ⟨fun c => mem_sortedBy.symm, ?_⟩
    have hle := (sortedBy_pairwise PluginCandidate.entryId candidates).map
      PluginCandidate.entryId (S := (· ≤ ·)) fun _ _ h => h
    exact (hle.and (firstRepeated_none hnone).1).imp fun h => lt_of_le_of_ne h.1 h.2

theorem prepare_ok {ordered : List PluginCandidate} {entries : List Prepared}
    (h : prepare ordered = .ok entries) :
    entries.map Prepared.candidate = ordered ∧ ∀ p ∈ entries, p.Parsed := by
  obtain ⟨declared, hdec, h⟩ := bind_ok.1 h
  obtain ⟨required, hreq, h⟩ := bind_ok.1 h
  have hd : ∀ c d, (do return (c, ← declaredOptions c) : Except Err _) = .ok d →
      declaredOptions c = .ok d.2 ∧ d.1 = c := by
    intro c d hd
    obtain ⟨o, ho, hd⟩ := bind_ok.1 hd
    cases hd
    exact ⟨ho, rfl⟩
  have hr : ∀ (d : PluginCandidate × List ProviderOption) r,
      (do return (d, ← d.1.manifest.requiredCapabilities) : Except Err _) = .ok r →
      d.1.manifest.requiredCapabilities = .ok r.2 ∧ r.1 = d := by
    intro d r hr
    obtain ⟨o, ho, hr⟩ := bind_ok.1 hr
    cases hr
    exact ⟨ho, rfl⟩
  have hp : ∀ (r : (PluginCandidate × List ProviderOption) × List CapabilityRequirement)
      (p : Prepared), (do
        let optional ← r.1.1.manifest.optionalCapabilities
        let providedKeys ← r.1.1.manifest.providedKeys
        return ⟨r.1.1, r.1.2, providedKeys, r.2, optional⟩ : Except Err Prepared) = .ok p →
      p.candidate.manifest.optionalCapabilities = .ok p.optional ∧
        p.candidate.manifest.providedKeys = .ok p.providedKeys ∧
        ((p.candidate, p.declared), p.required) = r := by
    intro r p hp
    obtain ⟨o, ho, hp⟩ := bind_ok.1 hp
    obtain ⟨k, hk, hp⟩ := bind_ok.1 hp
    cases hp
    exact ⟨ho, hk, rfl⟩
  constructor
  · have h3 : entries.map (fun p => ((p.candidate, p.declared), p.required)) = required :=
      mapM_ok_map (fun r p h => (hp r p h).2.2) h
    have h2 : required.map Prod.fst = declared := mapM_ok_map (fun d r h => (hr d r h).2) hreq
    have h1 : declared.map Prod.fst = ordered := mapM_ok_map (fun c d h => (hd c d h).2) hdec
    rw [← h1, ← h2, ← h3, List.map_map, List.map_map]
    rfl
  · intro p hpm
    obtain ⟨r, hrm, hpr⟩ := mapM_ok_mem h hpm
    obtain ⟨hopt, hkeys, rfl⟩ := hp r p hpr
    obtain ⟨d, hdm, hdr⟩ := mapM_ok_mem hreq hrm
    obtain ⟨hrq, rfl⟩ := hr d _ hdr
    obtain ⟨c, -, hcd⟩ := mapM_ok_mem hdec hdm
    obtain ⟨hdq, hc⟩ := hd c _ hcd
    cases hc
    exact ⟨hdq, hrq, hopt, hkeys⟩

/-- **What `resolve` has checked before it plans.** -/
theorem prepareAll_ok {candidates : List PluginCandidate} {scopes : Option (List ScopeSpec)}
    {index : ScopeIndex} {entries : List Prepared}
    (h : prepareAll candidates scopes = .ok (index, entries)) :
    Composition candidates (scopes.getD [rootSpec]) index entries := by
  obtain ⟨ordered, hord, h⟩ := bind_ok.1 h
  obtain ⟨ix, hix, h⟩ := bind_ok.1 h
  obtain ⟨u, hscopes, h⟩ := bind_ok.1 h
  obtain ⟨es, hes, h⟩ := bind_ok.1 h
  cases h
  obtain ⟨hmem, hlt⟩ := orderedCandidates_ok hord
  obtain ⟨hmap, hparsed⟩ := prepare_ok hes
  have hids : ids entries = ordered.map PluginCandidate.entryId := by
    rw [← hmap, List.map_map]
    rfl
  refine ⟨ScopeIndex.make_specs hix, ?_, ?_, ?_, hparsed⟩
  · intro c
    rw [hmem, ← hmap, List.mem_map]
  · rw [hids]
    exact hlt
  · intro p hp
    have hc : p.candidate ∈ ordered := hmap ▸ List.mem_map_of_mem hp
    have hreq := forM_ok hscopes hc
    simp only [ScopeIndex.require] at hreq
    split at hreq
    · assumption
    · cases hreq

theorem resolve_ok {candidates : List PluginCandidate} {prefer : Dict String String}
    {scopes : Option (List ScopeSpec)} {plan : ResolutionPlan} :
    resolve candidates prefer scopes = .ok plan ↔ ∃ index entries,
      prepareAll candidates scopes = .ok (index, entries) ∧
        composePlan index entries prefer = plan := by
  rw [resolve, bind_ok]
  constructor
  · rintro ⟨⟨index, entries⟩, h, hp⟩
    cases hp
    exact ⟨index, entries, h, rfl⟩
  · rintro ⟨index, entries, h, rfl⟩
    exact ⟨(index, entries), h, rfl⟩

theorem resolve_scopes {candidates : List PluginCandidate} {prefer : Dict String String}
    {specs : List ScopeSpec} {plan : ResolutionPlan}
    (h : resolve candidates prefer (some specs) = .ok plan) {s : ScopePlan} (hs : s ∈ plan.scopes) :
    ∃ spec ∈ specs, spec.path = s.path ∧ spec.metadata = s.metadata := by
  obtain ⟨index, entries, hprepare, rfl⟩ := resolve_ok.1 h
  obtain ⟨spec, hspec, rfl⟩ := List.mem_map.1 hs
  have hin := index.mem_specs_of_walk hspec
  rw [(prepareAll_ok hprepare).specs] at hin
  exact ⟨spec, hin, rfl, rfl⟩

/-! ## the plan -/

section
variable {index : ScopeIndex} {entries : List Prepared} {selection : Dict String String}

/-- the entries that the elimination leaves -/
def survivors (index : ScopeIndex) (entries : List Prepared) (selection : Dict String String) :
    List String := (market index entries selection).survivors (ids entries)

theorem survivors_mem {e : String} (h : e ∈ survivors index entries selection) :
    ∃ p ∈ entries, p.entryId = e :=
  List.mem_map.1 ((Selection.Market.survivors_sublist _).subset h)

theorem survivors_nodup (hn : (ids entries).Nodup) :
    (survivors index entries selection).Nodup :=
  hn.sublist (Selection.Market.survivors_sublist _)

theorem plugins_eq (hn : (ids entries).Nodup) :
    (composePlan index entries selection).plugins
      = activePlans entries (finalEligibility index entries selection)
          (composePlan index entries selection).activationOrder ++
        (pendingEntries entries (survivors index entries selection)
            (detectCycles index entries).flatten).map
          (pendingPlan (resolutionsIn index entries selection
            (survivors index entries selection))) ++
        cyclicPlans (resolutionsIn index entries selection (survivors index entries selection))
          entries (detectCycles index entries).flatten := by
  rw [survivors, ← finalEligibility_eligible hn]
  rfl

theorem activationOrder_eq (hn : (ids entries).Nodup) :
    (composePlan index entries selection).activationOrder
      = activationOrder (survivors index entries selection)
          (composePlan index entries selection).edges (detectCycles index entries).flatten := by
  rw [survivors, ← finalEligibility_eligible hn]
  rfl

theorem activationOrder_nodup (hn : (ids entries).Nodup) :
    (composePlan index entries selection).activationOrder.Nodup := by
  rw [activationOrder_eq hn]
  exact Kahn.sort_nodup (sortedBy_nodup ((survivors_nodup hn).filter _))

/-- **The activated entries are the survivors outside the reported cycles.** -/
theorem mem_activationOrder (hn : (ids entries).Nodup) {e : String} :
    e ∈ (composePlan index entries selection).activationOrder ↔
      e ∈ survivors index entries selection ∧ e ∉ (detectCycles index entries).flatten := by
  rw [activationOrder_eq hn, activationOrder,
    Kahn.mem_sort (sortedBy_nodup ((survivors_nodup hn).filter _)), mem_sortedBy, List.mem_filter,
    decide_eq_true_eq]

theorem find?_filterMap {α : Type*} {f : String → Option α} (key : α → String) {l : List String}
    (hf : ∀ e ∈ l, ∀ a, f e = some a → key a = e) {e : String} (he : e ∈ l) {a : α}
    (ha : f e = some a) : (l.filterMap f).find? (fun x => key x = e) = some a := by
  induction l with
  | nil => exact absurd he (by simp)
  | cons b l ih =>
    by_cases hb : b = e
    · subst hb
      rw [List.filterMap_cons_some ha, List.find?_cons_of_pos]
      simpa using hf b he a ha
    · have he' : e ∈ l := (List.mem_cons.1 he).resolve_left (Ne.symm hb)
      have hrec := ih (fun x hx => hf x (List.mem_cons_of_mem _ hx)) he'
      rcases hfb : f b with _ | c
      · rw [List.filterMap_cons_none hfb, hrec]
      · have hne : key c ≠ e := fun h => hb (by rw [← h, hf b List.mem_cons_self c hfb])
        rw [List.filterMap_cons_some hfb, List.find?_cons_of_neg (by simpa using hne), hrec]

/-- **The plan of an activated entry.** -/
theorem planFor_activated (hn : (ids entries).Nodup) {p : Prepared} (hp : p ∈ entries)
    (he : p.entryId ∈ (composePlan index entries selection).activationOrder) :
    (composePlan index entries selection).planFor p.entryId
      = some (entryPlan p .eligible
          (some ((composePlan index entries selection).activationOrder.idxOf p.entryId))
          (resolutionsIn index entries selection (survivors index entries selection) p) []) := by
  have hin := ((mem_activationOrder hn).1 he).1
  rw [ResolutionPlan.planFor, plugins_eq hn, List.append_assoc, List.find?_append, activePlans,
    find?_filterMap PluginPlan.entryId ?_ he, Option.some_or]
  · rw [byEntry_self hn hp, Option.bind_some, finalEligibility_resolutions hn hp hin]
    rfl
  · intro e _ q hq
    obtain ⟨p', hp', hq⟩ := Option.bind_eq_some_iff.1 hq
    obtain ⟨rs, -, rfl⟩ := Option.map_eq_some_iff.1 hq
    exact ((byEntry_eq_some hn).1 hp').2

theorem mem_dependencyEdges {l : List (String × List RequirementResolution)} {p c : String} :
    (p, c) ∈ dependencyEdges l ↔
      ∃ rs, (c, rs) ∈ l ∧ ∃ r ∈ rs, r.providerEntryId = some p ∧ p ≠ c := by
  simp only [dependencyEdges, List.mem_dedup, mem_sortedBy, List.mem_flatMap, List.mem_filterMap,
    Option.bind_eq_some_iff, Option.ite_none_left_eq_some, Option.some.injEq, Prod.mk.injEq]
  constructor
  · rintro ⟨⟨c', rs⟩, hl, r, hr, p', hp, hne, rfl, rfl⟩
    exact ⟨rs, hl, r, hr, hp, hne⟩
  · rintro ⟨rs, hl, r, hr, hp, hne⟩
    exact ⟨(c, rs), hl, r, hr, p, hp, hne, rfl, rfl⟩

/-- the resolutions of an entry, one by one -/
theorem mem_resolutionsIn (hn : (ids entries).Nodup) {p : Prepared} (hp : p ∈ entries)
    {E : List String} {res : RequirementResolution}
    (h : res ∈ resolutionsIn index entries selection E p) :
    let o := picked index entries selection E p res.requirement
    res.requirement ∈ p.requirements ∧ res.providerEntryId = o.map ProviderOption.entryId ∧
      res.providerKey = o.map (fun o => o.key.str) ∧
      res.providerVersion = o.map (fun o => o.version.text) ∧ res.satisfied = o.isSome := by
  obtain ⟨r, hr, rfl⟩ := List.mem_map.1 h
  obtain ⟨hreq, hent, -, hkey, hver, hsat⟩ := resolveOne_picked index selection hn hp r E
    (entries.flatMap Prepared.options) p.providedKeys
  rw [hreq]
  exact ⟨hr, hent, hkey, hver, hsat⟩

/-- an option the market picks is a visible one of another entry, and the requirement accepts it -/
theorem picked_spec (hn : (ids entries).Nodup) {p : Prepared} (hp : p ∈ entries)
    {E : List String} {r : CapabilityRequirement} {o : ProviderOption}
    (h : picked index entries selection E p r = some o) :
    o ∈ visibleOptions index entries p.scope ∧ o.key.name = r.name ∧ o.entryId ≠ p.entryId ∧
      r.accepts o.key o.version = true ∧ o.entryId ∈ E := by
  obtain ⟨ho, hE⟩ := Selection.Market.pick_mem h
  simp only [market, byEntry_self hn hp, Option.map_some, Option.getD_some, List.mem_filter,
    mem_sortedBy, decide_eq_true_eq] at ho
  exact ⟨ho.1, ho.2.1, ho.2.2.1, ho.2.2.2, hE⟩

theorem mem_visibleOptions {path : String} {o : ProviderOption}
    (h : o ∈ visibleOptions index entries path) :
    ∃ q ∈ entries, q.scope ∈ index.lineage path ∧ o ∈ q.options ∧
      index.exposes path o.key.name = true := by
  simp only [visibleOptions, List.mem_flatMap, List.mem_filter, decide_eq_true_eq] at h
  obtain ⟨anc, hanc, q, ⟨hq, rfl⟩, ho, hexp⟩ := h
  exact ⟨q, hq, hanc, ho, hexp⟩

theorem options_entryId {q : Prepared} (hq : q.Parsed) {o : ProviderOption} (ho : o ∈ q.options) :
    o.entryId = q.entryId := by
  simp only [Prepared.options] at ho
  split at ho
  · obtain ⟨r, -, rfl⟩ := List.mem_map.1 ho
    rfl
  · exact (declaredOptions_place hq.declared ho).1

/-- **The edges of the plan are the selection graph.** -/
theorem mem_edges (hn : (ids entries).Nodup) {p c : String} :
    (p, c) ∈ (composePlan index entries selection).edges ↔
      (market index entries selection).Feeds (ids entries) p c := by
  have hedges : (composePlan index entries selection).edges = dependencyEdges
      ((survivors index entries selection).filterMap fun e =>
        ((finalEligibility index entries selection).resolutions.get? e).map fun rs => (e, rs)) := by
    rw [survivors, ← finalEligibility_eligible hn]
    rfl
  rw [hedges, mem_dependencyEdges]
  constructor
  · rintro ⟨rs, hrs, res, hres, hprov, -⟩
    obtain ⟨e, he, h⟩ := List.mem_filterMap.1 hrs
    obtain ⟨rs', hget, h⟩ := Option.map_eq_some_iff.1 h
    cases h
    obtain ⟨q, hq, rfl⟩ := survivors_mem he
    rw [finalEligibility_resolutions hn hq he] at hget
    cases hget
    obtain ⟨hmem, hent, -⟩ := mem_resolutionsIn hn hq hres
    rw [hprov] at hent
    obtain ⟨o, ho, hown⟩ := Option.map_eq_some_iff.1 hent.symm
    exact ⟨res.requirement, he, by rw [market_demands hn hq]; exact hmem, o, ho, hown⟩
  · rintro ⟨r, hc, hr, o, ho, rfl⟩
    obtain ⟨q, hq, rfl⟩ := survivors_mem hc
    rw [market_demands hn hq] at hr
    refine ⟨resolutionsIn index entries selection (survivors index entries selection) q,
      List.mem_filterMap.2 ⟨q.entryId, hc, ?_⟩, ?_⟩
    · rw [finalEligibility_resolutions hn hq hc]
      rfl
    · refine ⟨_, List.mem_map_of_mem hr, ?_, (picked_spec hn hq ho).2.2.1⟩
      obtain ⟨-, hent, -⟩ := resolveOne_picked index selection hn hq r
        (survivors index entries selection) (entries.flatMap Prepared.options) q.providedKeys
      have hpick : picked index entries selection (survivors index entries selection) q r = some o :=
        ho
      rw [hent, hpick]
      rfl

end

end Chassis
