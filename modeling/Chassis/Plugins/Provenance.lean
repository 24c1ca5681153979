import Chassis.Plugins.Diagnoses

/-!
# Provenance

A resolution comes with one assessment of every option of its capability, computed after the
decision and from other collections.

* `Assesses`            what one assessment says of one option;
* `DistinctOptions`     no capability has two options that are equal;
* `provenance_faithful` **the assessments say what was decided.**
-/

set_option linter.unusedSectionVars false

namespace Chassis
open Py

section
variable [Packaging]

/-- what the assessment of an option says of it -/
structure Assesses (view : ScopeView) (requirement : CapabilityRequirement)
    (exclude : Option String) (chosen : Option ProviderOption) (a : ProviderAssessment)
    (o : ProviderOption) : Prop where
  entry : a.providerEntryId = o.entryId
  instanceId : a.providerInstanceId = o.instanceId
  name : a.providerName = o.providerName
  version : a.version = o.version.text
  scope : a.scope = o.scope
  eligible : a.eligible = true ↔ (view.visible requirement.name).any (fun v => o.same v) = true ∧
    o.entryId ∈ view.eligible ∧ some o.entryId ≠ exclude ∧
    requirement.accepts o.key o.version = true
  selected : a.selected = true ↔ ∃ s, chosen = some s ∧ o.same s = true
  rejection : a.rejection = none ↔ a.eligible = true ∧ a.selected = true

theorem assessments_map (options : List ProviderOption) (view : ScopeView)
    (requirement : CapabilityRequirement) (exclude : Option String)
    (chosen : Option ProviderOption) (status : RequirementStatus) : ∃ f,
    assessments options view requirement exclude chosen status = (sortedBy optionOrder options).map f ∧
      ∀ o, Assesses view requirement exclude chosen (f o) o := by
  refine ⟨_, rfl, fun o => ⟨rfl, rfl, rfl, rfl, rfl, ?_, ?_, ?_⟩⟩
  · simp only [Bool.and_eq_true, decide_eq_true_eq, and_assoc]
  · cases chosen with
    | none => exact ⟨fun h => (nomatch h), fun ⟨_, h, _⟩ => (nomatch h)⟩
    | some s => exact ⟨fun h => ⟨s, rfl, h⟩, fun ⟨_, h, hs⟩ => by cases h; exact hs⟩
  · -- no reason is left exactly when every check was passed and the option is the selected one
    simp only [Bool.and_eq_true, decide_eq_true_eq]
    split_ifs with hself hvisible hrelation hout haccepts hcontract hselected hstatus
    all_goals simp_all

/-- what distinguishes the options of a composition: of no capability are two equal -/
def DistinctOptions (entries : List Prepared) : Prop :=
  ∀ name, ((entries.flatMap Prepared.options).filter fun o => o.key.name = name).Pairwise
    fun o o' => o.same o' = false ∧ o'.same o = false

/-- the options of a capability in the whole composition, best first -/
def offered (entries : List Prepared) (name : String) : List ProviderOption :=
  sortedBy optionOrder ((entries.flatMap Prepared.options).filter fun o => o.key.name = name)

section
variable {index : ScopeIndex} {entries : List Prepared} {selection : Dict String String}

theorem same_refl (hrefl : ∀ v, Packaging.versionEq v v = true) (o : ProviderOption) :
    o.same o = true := by
  simp [ProviderOption.same, hrefl]

theorem same_name {o o' : ProviderOption} (h : o.same o' = true) : o.key.name = o'.key.name := by
  simp only [ProviderOption.same, Bool.and_eq_true, decide_eq_true_eq] at h
  rw [h.1.1.1.2]

theorem DistinctOptions.eq_of_same (h : DistinctOptions entries) {o o' : ProviderOption}
    (ho : o ∈ entries.flatMap Prepared.options) (ho' : o' ∈ entries.flatMap Prepared.options)
    (hs : o.same o' = true) : o = o' := by
  have hname := same_name hs
  by_contra hne
  have : Std.Symm fun o o' : ProviderOption => o.same o' = false ∧ o'.same o = false :=
    ⟨fun _ _ h => ⟨h.2, h.1⟩⟩
  have hpair := (h o'.key.name).forall (List.mem_filter.2 ⟨ho, decide_eq_true hname⟩)
    (List.mem_filter.2 ⟨ho', decide_eq_true rfl⟩) hne
  rw [hs] at hpair
  cases hpair.1

theorem DistinctOptions.nodup (hrefl : ∀ v, Packaging.versionEq v v = true)
    (h : DistinctOptions entries) : (entries.flatMap Prepared.options).Nodup := by
  refine List.nodup_iff_sublist.2 fun o hsub => ?_
  have hfilter := hsub.filter fun x => decide (x.key.name = o.key.name)
  rw [List.filter_cons_of_pos (by simp), List.filter_cons_of_pos (by simp), List.filter_nil]
    at hfilter
  have hpair := List.pairwise_pair.1 ((h o.key.name).sublist hfilter)
  rw [same_refl hrefl] at hpair
  cases hpair.1

theorem options_scope {p : Prepared} (hp : p.Parsed) {o : ProviderOption} (ho : o ∈ p.options) :
    o.scope = p.scope := by
  simp only [Prepared.options] at ho
  split at ho
  · obtain ⟨r, -, rfl⟩ := List.mem_map.1 ho
    rfl
  · exact (declaredOptions_place hp.declared ho).2

theorem mem_visibleOptions_iff (hparsed : ∀ p ∈ entries, p.Parsed) {path : String}
    {o : ProviderOption} : o ∈ visibleOptions index entries path ↔
      o ∈ entries.flatMap Prepared.options ∧ o.scope ∈ index.lineage path ∧
        index.exposes path o.key.name = true := by
  constructor
  · intro h
    obtain ⟨p, hp, hlin, ho, hexp⟩ := mem_visibleOptions h
    exact ⟨List.mem_flatMap.2 ⟨p, hp, ho⟩, options_scope (hparsed p hp) ho ▸ hlin, hexp⟩
  · rintro ⟨ho, hlin, hexp⟩
    obtain ⟨p, hp, hop⟩ := List.mem_flatMap.1 ho
    rw [options_scope (hparsed p hp) hop] at hlin
    exact List.mem_flatMap.2 ⟨p.scope, hlin, List.mem_flatMap.2
      ⟨p, List.mem_filter.2 ⟨hp, decide_eq_true rfl⟩, List.mem_filter.2 ⟨hop, hexp⟩⟩⟩

theorem visibleOptions_nodup (hn : (ids entries).Nodup) (hparsed : ∀ p ∈ entries, p.Parsed)
    (hnodup : (entries.flatMap Prepared.options).Nodup) (path : String) :
    (visibleOptions index entries path).Nodup := by
  have hone : ∀ p ∈ entries, p.options.Nodup := (List.nodup_flatMap.1 hnodup).1
  refine List.nodup_flatMap.2 ⟨fun a _ => List.nodup_flatMap.2 ⟨fun p hp => ?_, ?_⟩, ?_⟩
  · exact (hone p (List.mem_filter.1 hp).1).filter _
  · -- two entries of one scope have no option in common
    have hids : (entries.filter fun p => decide (p.scope = a)).Pairwise
        fun p q => p.entryId ≠ q.entryId := (List.pairwise_map.1 hn).filter _
    refine hids.imp_of_mem fun {p q} hp hq hne o hop hoq => hne ?_
    rw [← options_entryId (hparsed p (List.mem_filter.1 hp).1) (List.mem_filter.1 hop).1,
      ← options_entryId (hparsed q (List.mem_filter.1 hq).1) (List.mem_filter.1 hoq).1]
  · refine (index.lineage_nodup path).imp fun {a b} hne o ha hb => hne ?_
    have hscope : ∀ c, o ∈ ((entries.filter fun p => decide (p.scope = c)).flatMap fun p =>
        p.options.filter fun o => index.exposes path o.key.name) → o.scope = c := by
      intro c hc
      obtain ⟨p, hp, ho⟩ := List.mem_flatMap.1 hc
      obtain ⟨hp, hpc⟩ := List.mem_filter.1 hp
      rw [options_scope (hparsed p hp) (List.mem_filter.1 ho).1]
      exact of_decide_eq_true hpc
    rw [← hscope a ha, ← hscope b hb]

theorem mem_offered {name : String} {o : ProviderOption} : o ∈ offered entries name ↔
    o ∈ entries.flatMap Prepared.options ∧ o.key.name = name := by
  rw [offered, mem_sortedBy, List.mem_filter, decide_eq_true_eq]

end

/-! ## what the assessments say -/

/-- The assessments of a resolution, against the options of its capability and those that the
decision matched. -/
structure Provenance (r : RequirementResolution) (offered matched : List ProviderOption) : Prop where
  /-- one of each option, in order -/
  one_each : List.Forall₂ (fun a o => a.providerEntryId = o.entryId ∧
    a.providerInstanceId = o.instanceId ∧ a.providerName = o.providerName ∧
    a.version = o.version.text ∧ a.scope = o.scope) r.assessments offered
  /-- those marked eligible are the options that were matched -/
  matched : (((r.assessments.zip offered).filter fun x => x.1.eligible).map Prod.snd).Perm matched
  resolved : r.status = .resolved ↔ ∃ a, r.assessments.filter (·.selected) = [a] ∧
    r.providerEntryId = some a.providerEntryId ∧ r.providerInstanceId = a.providerInstanceId
  rejection : ∀ a ∈ r.assessments, a.rejection = none ↔ a.selected = true
  ambiguous : r.status = .ambiguous ↔
    2 ≤ (r.assessments.filter (·.eligible)).length ∧ r.assessments.filter (·.selected) = []

section
variable {index : ScopeIndex} {entries : List Prepared} {selection : Dict String String}
  {E : List String} {q : Question}

theorem Question.rivals_nodup (hn : (ids entries).Nodup) (hparsed : ∀ p ∈ entries, p.Parsed)
    (hnodup : (entries.flatMap Prepared.options).Nodup) : (q.rivals index entries E).Nodup := by
  unfold Question.rivals matchingOptions ScopeView.pool
  refine sortedBy_nodup (List.Nodup.filter _ (List.Nodup.filter _ (sortedBy_nodup ?_)))
  exact (List.Nodup.filter _ (List.Nodup.filter _ (visibleOptions_nodup hn hparsed hnodup _)))

theorem rivals_offered (hparsed : ∀ p ∈ entries, p.Parsed) {o : ProviderOption}
    (ho : o ∈ q.rivals index entries E) : o ∈ offered entries q.requirement.name := by
  obtain ⟨hvisible, hname, -⟩ := Question.mem_rivals.1 ho
  exact mem_offered.2 ⟨((mem_visibleOptions_iff hparsed).1 hvisible).1, hname⟩

theorem filter_chosen {l : List ProviderOption} (hl : l.Nodup) {chosen : Option ProviderOption}
    (hin : ∀ s, chosen = some s → s ∈ l) :
    l.filter (fun o => decide (chosen = some o)) = chosen.toList := by
  cases chosen with
  | none => simp
  | some s =>
    have heq : (fun o => decide (some s = some o)) = fun o : ProviderOption => decide (o = s) := by
      funext o
      simp [eq_comm]
    rw [heq, List.filter_eq, List.count_eq_one_of_mem hl (hin s rfl)]
    rfl

theorem Question.provenance (hrefl : ∀ v, Packaging.versionEq v v = true)
    (hn : (ids entries).Nodup) (hparsed : ∀ p ∈ entries, p.Parsed)
    (hdistinct : DistinctOptions entries) : Provenance (q.answer index entries selection E)
      (offered entries q.requirement.name) (q.rivals index entries E) := by
  have hnodup := hdistinct.nodup hrefl
  have hoffered : (offered entries q.requirement.name).Nodup := sortedBy_nodup (hnodup.filter _)
  have hrivals : (q.rivals index entries E).Nodup := q.rivals_nodup hn hparsed hnodup
  obtain ⟨hspec, hassess⟩ := Question.answer_spec q index entries selection E
  obtain ⟨f, hf, hof⟩ := assessments_map
    ((entries.flatMap Prepared.options).filter fun o => o.key.name = q.requirement.name)
    (buildView index entries E q.path) q.requirement q.exclude
    (q.choice index entries selection E) (q.answer index entries selection E).status
  have hmap : (q.answer index entries selection E).assessments =
      (offered entries q.requirement.name).map f := hassess.trans hf
  have heligible : ∀ o ∈ offered entries q.requirement.name,
      ((f o).eligible = true ↔ o ∈ q.rivals index entries E) := by
    intro o ho
    obtain ⟨hall, hname⟩ := mem_offered.1 ho
    rw [(hof o).eligible, Question.mem_rivals]
    constructor
    · rintro ⟨hvisible, hE, hself, haccepts⟩
      obtain ⟨v, hv, hs⟩ := List.any_eq_true.1 hvisible
      have hv' := (List.mem_filter.1 (mem_sortedBy.1 hv)).1
      cases hdistinct.eq_of_same hall ((mem_visibleOptions_iff hparsed).1 hv').1 hs
      exact ⟨hv', hname, hE, hself, haccepts⟩
    · rintro ⟨hvisible, -, hE, hself, haccepts⟩
      refine ⟨List.any_eq_true.2 ⟨o, mem_sortedBy.2 (List.mem_filter.2 ⟨hvisible, ?_⟩),
        same_refl hrefl o⟩, hE, hself, haccepts⟩
      exact decide_eq_true hname
  have hchosen : ∀ s, q.choice index entries selection E = some s →
      s ∈ offered entries q.requirement.name := fun s hs =>
    rivals_offered hparsed (Question.choice_rivals hs)
  have hselected : ∀ o ∈ offered entries q.requirement.name,
      ((f o).selected = true ↔ q.choice index entries selection E = some o) := by
    intro o ho
    rw [(hof o).selected]
    constructor
    · rintro ⟨s, hs, hsame⟩
      rw [hs, hdistinct.eq_of_same (mem_offered.1 ho).1 (mem_offered.1 (hchosen s hs)).1 hsame]
    · exact fun hs => ⟨o, hs, same_refl hrefl o⟩
  have hfilterSelected : ((offered entries q.requirement.name).map f).filter (·.selected) =
      (q.choice index entries selection E).toList.map f := by
    rw [List.filter_map, ← filter_chosen hoffered hchosen]
    refine congrArg (List.map f) (List.filter_congr fun o ho => ?_)
    rw [Bool.eq_iff_iff, decide_eq_true_eq]
    exact hselected o ho
  have hfilterEligible : (((offered entries q.requirement.name).filter fun o =>
      (f o).eligible)).Perm (q.rivals index entries E) := by
    refine (List.perm_ext_iff_of_nodup (hoffered.filter _) hrivals).2 fun o => ?_
    rw [List.mem_filter]
    constructor
    · exact fun ⟨ho, he⟩ => (heligible o ho).1 he
    · exact fun ho => ⟨rivals_offered hparsed ho, (heligible o (rivals_offered hparsed ho)).2 ho⟩
  refine { one_each := ?_, matched := ?_, resolved := ?_, rejection := ?_, ambiguous := ?_ }
  · rw [hmap, List.forall₂_map_left_iff, List.forall₂_same]
    exact fun o _ =>
      ⟨(hof o).entry, (hof o).instanceId, (hof o).name, (hof o).version, (hof o).scope⟩
  · have hzip : ((offered entries q.requirement.name).map f).zip
        (offered entries q.requirement.name) =
        (offered entries q.requirement.name).map fun o => (f o, o) := by
      have hboth : ((offered entries q.requirement.name).map f).zip
          ((offered entries q.requirement.name).map id) =
          (offered entries q.requirement.name).map fun o => (f o, id o) := List.zip_map'
      rwa [List.map_id] at hboth
    rw [hmap, hzip, List.filter_map, List.map_map]
    have hid : Prod.snd ∘ (fun o => (f o, o)) = id := rfl
    rw [hid, List.map_id]
    exact hfilterEligible
  · rw [hmap, hfilterSelected, hspec.resolved, hspec.provider, hspec.instanceId]
    cases hc : q.choice index entries selection E with
    | none => exact iff_of_false (fun h => (nomatch h)) fun ⟨_, h, _⟩ => (nomatch h)
    | some s =>
      refine iff_of_true rfl ⟨f s, rfl, ?_, ?_⟩
      · rw [(hof s).entry]
        rfl
      · rw [(hof s).instanceId]
        rfl
  · intro a ha
    rw [hmap] at ha
    obtain ⟨o, ho, rfl⟩ := List.mem_map.1 ha
    rw [(hof o).rejection, and_iff_right_iff_imp]
    intro hs
    exact (heligible o ho).2 (Question.choice_rivals ((hselected o ho).1 hs))
  · rw [hmap, hfilterSelected, List.filter_map, List.length_map, List.map_eq_nil_iff,
      show ((fun a : ProviderAssessment => a.eligible) ∘ f) = fun o => (f o).eligible from rfl,
      hfilterEligible.length_eq, Option.toList_eq_nil_iff, hspec.ambiguous]
    constructor
    · rintro ⟨hne, hnone⟩
      exact ⟨((Selection.Market.choose_none_iff.1 hnone).resolve_left hne).1, hnone⟩
    · rintro ⟨hmany, hnone⟩
      refine ⟨fun hnil => ?_, hnone⟩
      rw [hnil] at hmany
      cases hmany

end

/-- **The assessments of every resolution in a plan say what was decided**: there is one of every
option of the capability, those marked eligible are the ones that were matched, and the selected
one is the provider, if there is one. -/
theorem provenance_faithful {candidates : List PluginCandidate} {prefer : Dict String String}
    {scopes : Option (List ScopeSpec)} {plan : ResolutionPlan} {index : ScopeIndex}
    {entries : List Prepared} (hrefl : ∀ v, Packaging.versionEq v v = true)
    (h : resolve candidates prefer scopes = .ok plan)
    (hprep : prepareAll candidates scopes = .ok (index, entries))
    (hdistinct : DistinctOptions entries) : ∀ r ∈ plan.resolutions, ∃ q ∈ questions index entries,
      q.answer index entries prefer (survivors index entries prefer) = r ∧
      Provenance r (offered entries r.requirement.name)
        (q.rivals index entries (survivors index entries prefer)) := by
  obtain ⟨index', entries', hprep', rfl⟩ := resolve_ok.1 h
  rw [hprep] at hprep'
  cases hprep'
  have hcomp := prepareAll_ok hprep
  have hn : (ids entries).Nodup := hcomp.sorted.imp ne_of_lt
  intro r hr
  obtain ⟨q, hq, rfl⟩ := (mem_resolutions hn).1 hr
  refine ⟨q, hq, rfl, ?_⟩
  rw [((Question.answer_spec _ _ _ _ _)).1.requirement]
  exact q.provenance hrefl hn hcomp.parsed hdistinct

end

section
open Plain

theorem versionEq_self (v : Version) : Packaging.versionEq v v = true := by
  have hlt : ∀ l, releaseLt l l = false := by
    intro l
    induction l with
    | nil => rfl
    | cons a l ih => simp [releaseLt, ih]
  show (!versionLt v v && !versionLt v v) = true
  rw [versionLt, hlt]
  rfl

theorem provenance_faithful_chain : ∃ plan index entries,
    resolve chain Dict.empty none = .ok plan ∧ prepareAll chain none = .ok (index, entries) ∧
    ∀ r ∈ plan.resolutions, ∃ q ∈ questions index entries,
      q.answer index entries Dict.empty (survivors index entries Dict.empty) = r ∧
      Provenance r (offered entries r.requirement.name)
        (q.rivals index entries (survivors index entries Dict.empty)) := by
  obtain ⟨plan, hplan, -⟩ := ok_of_map (resolve chain Dict.empty none)
    ResolutionPlan.cycles [] (by decide +kernel)
  obtain ⟨⟨index, entries⟩, hprep, hlen⟩ := ok_of_map (prepareAll chain none)
    (fun c => decide ((c.2.flatMap Prepared.options).length ≤ 1)) true (by decide +kernel)
  refine ⟨plan, index, entries, hplan, hprep,
    provenance_faithful versionEq_self hplan hprep fun name => ?_⟩
  have hone := List.length_filter_le (fun o : ProviderOption => decide (o.key.name = name))
    (entries.flatMap Prepared.options)
  have hle : (entries.flatMap Prepared.options).length ≤ 1 := of_decide_eq_true hlen
  generalize (entries.flatMap Prepared.options).filter _ = l at hone ⊢
  match l, hone with
  | [], _ => exact List.Pairwise.nil
  | [_], _ => exact List.pairwise_singleton _ _
  | _ :: _ :: _, hone =>
    simp only [List.length_cons] at hone
    omega

end

end Chassis
