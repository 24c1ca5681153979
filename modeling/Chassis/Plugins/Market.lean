import Chassis.Lib.Selection
import Chassis.Plugins.Resolver

/-!
# The resolver refines selection under elimination

`market index entries selection` is the market of `Chassis.Lib.Selection` that a composition sets
up: the demands of an entry are its requirements, the offers are the visible options of other
entries that a requirement accepts.

* `resolveOne_picked`       the provider of a resolution is what the market picks;
* `fixpoint_eligible`       the elimination loop computes the survivors;
* `fixpoint_resolutions`    it leaves each survivor resolved against the survivors.
-/

set_option linter.unusedSectionVars false

namespace Chassis
open Py
variable [Packaging]

/-- The market of a composition. -/
def market (index : ScopeIndex) (entries : List Prepared) (selection : Dict String String) :
    Selection.Market String CapabilityRequirement ProviderOption where
  demands c := ((byEntry entries c).map Prepared.requirements).getD []
  hard r := !r.optional
  offers c r := ((byEntry entries c).map fun p =>
    (sortedBy optionOrder (visibleOptions index entries p.scope)).filter fun o =>
      o.key.name = r.name ∧ o.entryId ≠ c ∧ r.accepts o.key o.version).getD []
  owner := ProviderOption.entryId
  prefer c r := (byEntry entries c).bind fun p => preference selection c r.name p.scope

def ids (entries : List Prepared) : List String := entries.map Prepared.entryId

section
variable {index : ScopeIndex} {entries : List Prepared} {selection : Dict String String}

theorem byEntry_eq_some (hn : (ids entries).Nodup) {p : Prepared} {e : String} :
    byEntry entries e = some p ↔ p ∈ entries ∧ p.entryId = e := by
  constructor
  · intro h
    exact ⟨List.mem_of_find?_eq_some h, by simpa using List.find?_some h⟩
  · rintro ⟨hp, rfl⟩
    obtain ⟨q, hq⟩ : ∃ q, byEntry entries p.entryId = some q := by
      rw [← Option.isSome_iff_exists, byEntry, List.find?_isSome]
      exact ⟨p, hp, by simp⟩
    have hid : q.entryId = p.entryId := by simpa using List.find?_some hq
    rw [hq, List.inj_on_of_nodup_map hn (List.mem_of_find?_eq_some hq) hp hid]

theorem byEntry_self (hn : (ids entries).Nodup) {p : Prepared} (hp : p ∈ entries) :
    byEntry entries p.entryId = some p := (byEntry_eq_some hn).2 ⟨hp, rfl⟩

theorem market_demands (hn : (ids entries).Nodup) {p : Prepared} (hp : p ∈ entries) :
    (market index entries selection).demands p.entryId = p.requirements := by
  simp only [market, byEntry_self hn hp, Option.map_some, Option.getD_some]

/-! ## one requirement -/

variable (index selection) in
theorem matchingOptions_eq (hn : (ids entries).Nodup) {p : Prepared} (hp : p ∈ entries)
    (r : CapabilityRequirement) (E : List String) :
    matchingOptions r (((buildView index entries E p.scope).pool r.name).filter
        (fun o => some o.entryId ≠ some p.entryId))
      = (market index entries selection).rivals E p.entryId r := by
  simp only [matchingOptions, ScopeView.pool, buildView, Selection.Market.rivals, market,
    byEntry_self hn hp, Option.map_some, Option.getD_some, sortedBy_filter, sortedBy_sortedBy,
    List.filter_filter]
  refine List.filter_congr fun o _ => ?_
  by_cases h1 : o.key.name = r.name <;> by_cases h2 : o.entryId = p.entryId <;>
    by_cases h3 : o.entryId ∈ E <;> by_cases h4 : r.accepts o.key o.version <;>
      simp [h1, h2, h3, h4]

theorem chooseOption_eq_none {consumer path : String} {r : CapabilityRequirement}
    {l : List ProviderOption} : chooseOption consumer r path selection l = none ↔ l = [] := by
  match l with
  | [] => exact iff_of_true rfl rfl
  | [o] => exact iff_of_false (by simp [chooseOption]) (by simp)
  | o :: o' :: os =>
    refine iff_of_false ?_ (by simp)
    simp only [chooseOption]
    split <;> simp

/-- what `chooseOption` selects is what the market chooses, and the status says so -/
theorem chooseOption_some {consumer path : String} {r : CapabilityRequirement}
    {l : List ProviderOption} {choice : Choice}
    (h : chooseOption consumer r path selection l = some choice) :
    choice.selected = Selection.Market.choose ProviderOption.entryId
      (preference selection consumer r.name path) l ∧
    (choice.status = .resolved ↔ choice.selected.isSome = true) := by
  match l, h with
  | [o], h =>
    cases h
    exact ⟨rfl, iff_of_true rfl rfl⟩
  | o :: o' :: os, h =>
    simp only [chooseOption] at h
    simp only [Selection.Market.choose]
    rcases hs : (preference selection consumer r.name path).bind fun preferred =>
        (o :: o' :: os).find? (fun x => x.entryId = preferred) with _ | s
    · rw [hs] at h
      cases h
      exact ⟨hs.symm, by simp⟩
    · rw [hs] at h
      cases h
      exact ⟨hs.symm, by simp⟩

theorem unmetChoice_spec (r : CapabilityRequirement) (view : ScopeView)
    (all : List ProviderOption) (exclude : Option String) (keys : List CapabilityKey)
    (pool : List ProviderOption) :
    (unmetChoice r view all exclude keys pool).selected = none ∧
      (unmetChoice r view all exclude keys pool).status ≠ .resolved := by
  simp only [unmetChoice]
  split_ifs <;> exact ⟨rfl, by simp⟩

/-- what the market picks for a requirement of `p` when the entries in `E` remain -/
def picked (index : ScopeIndex) (entries : List Prepared) (selection : Dict String String)
    (E : List String) (p : Prepared) (r : CapabilityRequirement) : Option ProviderOption :=
  (market index entries selection).pick E p.entryId r

variable (index selection) in
/-- **A resolution names the option the market picks**, and is satisfied iff there is one. -/
theorem resolveOne_picked (hn : (ids entries).Nodup) {p : Prepared} (hp : p ∈ entries)
    (r : CapabilityRequirement) (E : List String) (all : List ProviderOption)
    (keys : List CapabilityKey) :
    let res := resolveOne p.entryId .plugin r (buildView index entries E p.scope) selection all
      (some p.entryId) keys
    let o := picked index entries selection E p r
    res.requirement = r ∧ res.providerEntryId = o.map ProviderOption.entryId ∧
      res.providerInstanceId = o.bind ProviderOption.instanceId ∧
      res.providerKey = o.map (fun o => o.key.str) ∧
      res.providerVersion = o.map (fun o => o.version.text) ∧ res.satisfied = o.isSome := by
  have hpick : picked index entries selection E p r = Selection.Market.choose
      ProviderOption.entryId (preference selection p.entryId r.name p.scope)
      (matchingOptions r (((buildView index entries E p.scope).pool r.name).filter
        (fun o => some o.entryId ≠ some p.entryId))) := by
    rw [matchingOptions_eq index selection hn hp]
    simp only [picked, Selection.Market.pick, market, byEntry_self hn hp, Option.bind_some]
  simp only [resolveOne, RequirementResolution.satisfied, show
    (buildView index entries E p.scope).path = p.scope from rfl]
  rw [hpick]
  generalize hc : chooseOption p.entryId r p.scope selection _ = c
  rcases c with _ | choice
  · rw [chooseOption_eq_none.1 hc]
    generalize hu : unmetChoice r _ all _ keys _ = u
    obtain ⟨hsel, hst⟩ := unmetChoice_spec r (buildView index entries E p.scope) all
      (some p.entryId) keys (((buildView index entries E p.scope).pool r.name).filter
        (fun o => some o.entryId ≠ some p.entryId))
    rw [hu] at hsel hst
    simp [hsel, hst, Selection.Market.choose]
  · obtain ⟨hsel, hst⟩ := chooseOption_some hc
    rw [← hsel]
    refine ⟨trivial, rfl, rfl, rfl, rfl, ?_⟩
    rw [Bool.eq_iff_iff, decide_eq_true_eq]
    exact hst

/-! ## the elimination loop -/

theorem resolutionsIn_requirement (E : List String) (p : Prepared) :
    (resolutionsIn index entries selection E p).map RequirementResolution.requirement
      = p.requirements := by
  simp only [resolutionsIn, resolveRequirements, List.map_map]
  exact List.map_id'' (fun r => rfl) _

/-- an entry with a blocking resolution is one that is not viable on the market -/
theorem blocks_iff (hn : (ids entries).Nodup) {p : Prepared} (hp : p ∈ entries) (E : List String) :
    (resolutionsIn index entries selection E p).any RequirementResolution.blocks
      = !(market index entries selection).viable E p.entryId := by
  rw [Bool.eq_iff_iff, Bool.not_eq_true', ← Bool.not_eq_true, Selection.Market.viable_iff,
    market_demands hn hp, List.any_eq_true]
  push Not
  simp only [resolutionsIn, resolveRequirements, List.mem_map, exists_exists_and_eq_and]
  refine exists_congr fun r => and_congr_right fun _ => ?_
  obtain ⟨hreq, -, -, -, -, hsat⟩ := resolveOne_picked index selection
    hn hp r E (entries.flatMap Prepared.options) p.providedKeys
  rw [RequirementResolution.blocks, hsat, hreq, picked]
  rcases (market index entries selection).pick E p.entryId r with _ | o
  · cases hopt : r.optional <;> simp [market, hopt]
  · simp [market]

/-- the inner loop: who is dropped, whether anybody is, and what is recorded -/
theorem foldl_visit (resolve : Prepared → List RequirementResolution) (l : List Prepared)
    (hl : (ids l).Nodup) (s : Eligibility × Bool) :
    let s' := l.foldl (visit resolve) s
    s'.1.eligible = s.1.eligible.filter (fun e => !l.any fun p =>
      p.entryId = e && (resolve p).any RequirementResolution.blocks) ∧
    (s'.2 = (s.2 || l.any fun p =>
      decide (p.entryId ∈ s.1.eligible) && (resolve p).any RequirementResolution.blocks)) ∧
    (∀ p ∈ l, p.entryId ∈ s.1.eligible → s'.1.resolutions.get? p.entryId = some (resolve p)) ∧
    (∀ e, e ∉ ids l → s'.1.resolutions.get? e = s.1.resolutions.get? e) := by
  induction l generalizing s with
  | nil => simp [ids]
  | cons p l ih =>
    have hn := List.nodup_cons.1 hl
    obtain ⟨h1, h2, h3, h4⟩ := ih hn.2 (visit resolve s p)
    have hne : ∀ q ∈ l, q.entryId ≠ p.entryId := fun q hq he => hn.1 (he ▸ List.mem_map_of_mem hq)
    have helig : (visit resolve s p).1.eligible = s.1.eligible.filter
        (fun e => !(p.entryId = e && (resolve p).any RequirementResolution.blocks)) := by
      simp only [visit]
      split
      · rename_i hout
        refine (List.filter_eq_self.2 fun e he => ?_).symm
        have : p.entryId ≠ e := fun h => hout (h ▸ he)
        simp [this]
      · split
        · rename_i hb
          refine List.filter_congr fun e _ => ?_
          simp [hb, eq_comm]
        · rename_i hb
          rw [Bool.not_eq_true] at hb
          simp [hb]
    have hmem : ∀ q ∈ l, (q.entryId ∈ (visit resolve s p).1.eligible ↔ q.entryId ∈ s.1.eligible) := by
      intro q hq
      rw [helig, List.mem_filter]
      simp [Ne.symm (hne q hq)]
    refine ⟨?_, ?_, ?_, ?_⟩
    · rw [List.foldl_cons, h1, helig, List.filter_filter]
      refine List.filter_congr fun e _ => ?_
      rw [List.any_cons, Bool.not_or, Bool.and_comm]
    · have hany : (l.any fun q => decide (q.entryId ∈ (visit resolve s p).1.eligible) &&
          (resolve q).any RequirementResolution.blocks)
          = l.any fun q => decide (q.entryId ∈ s.1.eligible) &&
            (resolve q).any RequirementResolution.blocks := by
        rw [Bool.eq_iff_iff, List.any_eq_true, List.any_eq_true]
        refine exists_congr fun q => and_congr_right fun hq => ?_
        rw [Bool.and_eq_true, Bool.and_eq_true, decide_eq_true_eq, decide_eq_true_eq, hmem q hq]
      have hflag : (visit resolve s p).2 = (s.2 || (decide (p.entryId ∈ s.1.eligible) &&
          (resolve p).any RequirementResolution.blocks)) := by
        simp only [visit]
        split
        · rename_i hout
          simp [hout]
        · rename_i hin
          rw [not_not] at hin
          split
          · rename_i hb
            simp [hin, hb]
          · rename_i hb
            rw [Bool.not_eq_true] at hb
            simp [hin, hb]
      rw [List.foldl_cons, h2, hany, hflag, List.any_cons, Bool.or_assoc]
    · intro q hq hin
      rw [List.foldl_cons]
      rcases List.mem_cons.1 hq with rfl | hq
      · rw [h4 q.entryId hn.1]
        simp only [visit, if_neg (not_not_intro hin)]
        split <;> simp
      · exact h3 q hq ((hmem q hq).2 hin)
    · intro e he
      rw [ids, List.map_cons, List.mem_cons, not_or] at he
      rw [List.foldl_cons, h4 e he.2]
      simp only [visit]
      split
      · rfl
      · split <;> simp [he.1]

variable (index selection) in
theorem foldl_visit_pass (hn : (ids entries).Nodup) {s : Eligibility}
    (hs : s.eligible ⊆ ids entries) :
    let s' := entries.foldl (visit (resolutionsIn index entries selection s.eligible)) (s, false)
    s'.1.eligible = Elimination.pass (market index entries selection).viable s.eligible ∧
    (s'.2 = !s.eligible.all ((market index entries selection).viable s.eligible)) ∧
    ∀ p ∈ entries, p.entryId ∈ s.eligible →
      s'.1.resolutions.get? p.entryId
        = some (resolutionsIn index entries selection s.eligible p) := by
  obtain ⟨h1, h2, h3, -⟩ := foldl_visit (resolutionsIn index entries selection s.eligible) entries
    hn (s, false)
  have hbad : ∀ e ∈ s.eligible, (entries.any fun p => p.entryId = e &&
      (resolutionsIn index entries selection s.eligible p).any RequirementResolution.blocks)
      = !(market index entries selection).viable s.eligible e := by
    intro e he
    obtain ⟨p, hp, rfl⟩ := List.mem_map.1 (hs he)
    rw [← blocks_iff hn hp, Bool.eq_iff_iff, List.any_eq_true]
    constructor
    · rintro ⟨q, hq, hb⟩
      rw [Bool.and_eq_true, decide_eq_true_eq] at hb
      rw [← List.inj_on_of_nodup_map hn hq hp hb.1]
      exact hb.2
    · exact fun hb => ⟨p, hp, by simp [hb]⟩
  refine ⟨?_, ?_, h3⟩
  · rw [h1]
    exact List.filter_congr fun e he => by rw [hbad e he, Bool.not_not]
  · rw [h2, Bool.false_or, Bool.eq_iff_iff, List.any_eq_true, Bool.not_eq_true',
      List.all_eq_false]
    constructor
    · rintro ⟨p, hp, hb⟩
      rw [Bool.and_eq_true, decide_eq_true_eq, blocks_iff hn hp] at hb
      exact ⟨p.entryId, hb.1, by simpa using hb.2⟩
    · rintro ⟨e, he, hb⟩
      obtain ⟨p, hp, rfl⟩ := List.mem_map.1 (hs he)
      exact ⟨p, hp, by rw [blocks_iff hn hp]; simp [he, hb]⟩

/-- **The loop of `resolve` is the elimination on the market.** -/
theorem fixpoint_eligible (hn : (ids entries).Nodup) (n : Nat) {s : Eligibility}
    (hs : s.eligible ⊆ ids entries) :
    (fixpoint index entries selection n s).eligible
      = Elimination.eliminate (market index entries selection).viable n s.eligible := by
  induction n generalizing s with
  | zero => rfl
  | succ n ih =>
    obtain ⟨h1, h2, -⟩ := foldl_visit_pass index selection hn hs
    simp only [fixpoint, Elimination.eliminate, h2]
    by_cases hall : s.eligible.all ((market index entries selection).viable s.eligible) = true
    · rw [hall, Bool.not_true, if_neg (by simp), if_pos rfl, h1, Elimination.pass_eq_self hall]
    · rw [Bool.not_eq_true] at hall
      rw [hall, Bool.not_false, if_pos rfl, if_neg (by simp), ih, h1]
      rw [h1]
      exact fun e he => hs (Elimination.mem_pass.1 he).1

/-- **Each survivor is left with its resolutions against the survivors.** -/
theorem fixpoint_resolutions (hn : (ids entries).Nodup) {n : Nat} {s : Eligibility}
    (hs : s.eligible ⊆ ids entries) (hlen : s.eligible.length ≤ n) {p : Prepared}
    (hp : p ∈ entries) (hin : p.entryId ∈ (fixpoint index entries selection n s).eligible) :
    (fixpoint index entries selection n s).resolutions.get? p.entryId
      = some (resolutionsIn index entries selection
          (fixpoint index entries selection n s).eligible p) := by
  induction n generalizing s with
  | zero =>
    have hnil : s.eligible = [] := List.length_eq_zero_iff.1 (by omega)
    simp [fixpoint, hnil] at hin
  | succ n ih =>
    obtain ⟨h1, h2, h3⟩ := foldl_visit_pass index selection hn hs
    simp only [fixpoint] at hin ⊢
    by_cases hall : s.eligible.all ((market index entries selection).viable s.eligible) = true
    · rw [h2, hall, Bool.not_true, if_neg (by simp), h1, Elimination.pass_eq_self hall] at hin ⊢
      exact h3 p hp hin
    · have hlt := Elimination.length_pass_lt hall
      rw [Bool.not_eq_true] at hall
      rw [h2, hall, Bool.not_false, if_pos rfl] at hin ⊢
      refine ih ?_ ?_ hin
      · rw [h1]
        exact fun e he => hs (Elimination.mem_pass.1 he).1
      · rw [h1]
        omega

theorem finalEligibility_eligible (hn : (ids entries).Nodup) :
    (finalEligibility index entries selection).eligible
      = (market index entries selection).survivors (ids entries) := by
  rw [finalEligibility, fixpoint_eligible hn _ (List.Subset.refl _), Selection.Market.survivors, ids,
    List.length_map]

theorem finalEligibility_resolutions (hn : (ids entries).Nodup) {p : Prepared} (hp : p ∈ entries)
    (hin : p.entryId ∈ (market index entries selection).survivors (ids entries)) :
    (finalEligibility index entries selection).resolutions.get? p.entryId
      = some (resolutionsIn index entries selection
          ((market index entries selection).survivors (ids entries)) p) := by
  rw [← finalEligibility_eligible hn] at hin ⊢
  exact fixpoint_resolutions hn (List.Subset.refl _) (by simp) hp hin

end

end Chassis
