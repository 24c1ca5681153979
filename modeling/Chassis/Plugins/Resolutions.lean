import Chassis.Plugins.Plan

/-!
# The resolutions in a plan, one by one

Whoever it is that has a requirement, an entry or a scope, and whatever became of it: a plan holds
one resolution of it, and that is its answer against the entries that survive.

* `Question`            one requirement, with its consumer and what the consumer sees;
* `Question.rivals`     the options that would do, `Question.answer` how it resolves;
* `mem_resolutions`     **the resolutions of a plan are the answers to its questions**;
* `answer_spec`         an answer names what is chosen among the rivals.
-/

set_option linter.unusedSectionVars false

namespace Chassis
open Py
variable [Packaging]

/-- every resolution of a plan: those of its entries, then those of its scopes -/
def ResolutionPlan.resolutions (plan : ResolutionPlan) : List RequirementResolution :=
  plan.plugins.flatMap PluginPlan.requirements ++ plan.scopes.flatMap ScopePlan.requirements

/-- one requirement of an entry or of a scope -/
structure Question where
  consumer : String
  kind : ConsumerKind
  requirement : CapabilityRequirement
  /-- the scope it is resolved in -/
  path : String
  /-- the entry that may not answer: the consumer itself -/
  exclude : Option String
  providedKeys : List CapabilityKey

def Prepared.questions (p : Prepared) : List Question :=
  p.requirements.map fun r => ⟨p.entryId, .plugin, r, p.scope, some p.entryId, p.providedKeys⟩

def ScopeSpec.questions (spec : ScopeSpec) : List Question :=
  spec.requirements.map fun r => ⟨spec.path, .scope, r, spec.path, none, []⟩

def questions (index : ScopeIndex) (entries : List Prepared) : List Question :=
  entries.flatMap Prepared.questions ++ index.ordered.flatMap ScopeSpec.questions

namespace Question
variable (q : Question) (index : ScopeIndex) (entries : List Prepared)
  (selection : Dict String String) (E : List String)

/-- the options of entries in `E` that would do, best first -/
def rivals : List ProviderOption :=
  matchingOptions q.requirement (((buildView index entries E q.path).pool q.requirement.name).filter
    (fun o => some o.entryId ≠ q.exclude))

/-- the preference that applies -/
def preferred : Option String := preference selection q.consumer q.requirement.name q.path

/-- how it resolves when the entries in `E` remain -/
def answer : RequirementResolution :=
  resolveOne q.consumer q.kind q.requirement (buildView index entries E q.path) selection
    (entries.flatMap Prepared.options) q.exclude q.providedKeys

variable {q index entries selection E}

theorem mem_rivals {o : ProviderOption} : o ∈ q.rivals index entries E ↔
    o ∈ visibleOptions index entries q.path ∧ o.key.name = q.requirement.name ∧ o.entryId ∈ E ∧
      some o.entryId ≠ q.exclude ∧ q.requirement.accepts o.key o.version = true := by
  unfold rivals matchingOptions ScopeView.pool buildView
  simp only [mem_sortedBy, List.mem_filter, decide_eq_true_eq]
  tauto

/-- what is chosen among the rivals -/
def choice (q : Question) (index : ScopeIndex) (entries : List Prepared)
    (selection : Dict String String) (E : List String) : Option ProviderOption :=
  Selection.Market.choose ProviderOption.entryId (q.preferred selection) (q.rivals index entries E)

theorem choice_rivals {o : ProviderOption} (h : q.choice index entries selection E = some o) :
    o ∈ q.rivals index entries E := Selection.Market.choose_mem h

theorem chooseOption_ambiguous {consumer path : String} {r : CapabilityRequirement}
    {l : List ProviderOption} {choice : Choice}
    (h : chooseOption consumer r path selection l = some choice) :
    choice.status = .ambiguous ↔ choice.selected = none := by
  match l, h with
  | [o], h =>
    cases h
    exact iff_of_false (by simp) (by simp)
  | o :: o' :: os, h =>
    simp only [chooseOption] at h
    split at h
    · cases h
      exact iff_of_false (by simp) (by simp)
    · cases h
      exact iff_of_true rfl rfl

theorem unmetChoice_ambiguous (r : CapabilityRequirement) (view : ScopeView)
    (all : List ProviderOption) (exclude : Option String) (keys : List CapabilityKey)
    (pool : List ProviderOption) : (unmetChoice r view all exclude keys pool).status ≠ .ambiguous := by
  simp only [unmetChoice]
  split_ifs <;> simp

/-- what an answer says, by what is chosen among the rivals -/
structure Answered (q : Question) (r : RequirementResolution) (l : List ProviderOption)
    (chosen : Option ProviderOption) : Prop where
  requirement : r.requirement = q.requirement
  provider : r.providerEntryId = chosen.map ProviderOption.entryId
  instanceId : r.providerInstanceId = chosen.bind ProviderOption.instanceId
  resolved : r.status = .resolved ↔ chosen.isSome = true
  ambiguous : r.status = .ambiguous ↔ l ≠ [] ∧ chosen = none

variable (q index entries selection E) in
/-- **An answer names what is chosen among the rivals**, and is ambiguous where there are rivals
and nothing is. -/
theorem answer_spec : Answered q (q.answer index entries selection E) (q.rivals index entries E)
    (q.choice index entries selection E) ∧
    (q.answer index entries selection E).assessments = assessments
      ((entries.flatMap Prepared.options).filter fun o => o.key.name = q.requirement.name)
      (buildView index entries E q.path) q.requirement q.exclude
      (q.choice index entries selection E) (q.answer index entries selection E).status := by
  simp only [answer, resolveOne]
  generalize hc : chooseOption q.consumer q.requirement _ selection _ = c
  have hrivals : chooseOption q.consumer q.requirement q.path selection (q.rivals index entries E)
    = c := hc
  rcases c with _ | chosen
  · have hnil := chooseOption_eq_none.1 hrivals
    have hnone : q.choice index entries selection E = none := by
      rw [choice, hnil]
      rfl
    rw [hnone, hnil]
    generalize hu : unmetChoice q.requirement _ _ q.exclude q.providedKeys _ = u
    obtain ⟨hselected, hresolved⟩ : u.selected = none ∧ u.status ≠ .resolved := by
      rw [← hu]
      exact unmetChoice_spec _ _ _ _ _ _
    have hambiguous : u.status ≠ .ambiguous := by
      rw [← hu]
      exact unmetChoice_ambiguous _ _ _ _ _ _
    rw [hselected]
    exact ⟨⟨rfl, rfl, rfl, ⟨fun h => absurd h hresolved, fun h => (by cases h)⟩,
      ⟨fun h => absurd h hambiguous, fun h => absurd rfl h.1⟩⟩, rfl⟩
  · obtain ⟨hselected, hresolved⟩ := chooseOption_some hrivals
    have hchoice : chosen.selected = q.choice index entries selection E := hselected
    have hrival : q.rivals index entries E ≠ [] := fun hnil => by
      rw [chooseOption_eq_none.2 hnil] at hrivals
      cases hrivals
    rw [← hchoice]
    refine ⟨⟨rfl, rfl, rfl, hresolved, ?_⟩, rfl⟩
    rw [chooseOption_ambiguous hrivals]
    exact ⟨fun h => ⟨hrival, h⟩, fun h => h.2⟩

end Question

/-! ## the resolutions of a plan -/

section
variable {index : ScopeIndex} {entries : List Prepared} {selection : Dict String String}

theorem resolutionsIn_eq (E : List String) (p : Prepared) :
    resolutionsIn index entries selection E p =
      p.questions.map (Question.answer · index entries selection E) := by
  unfold resolutionsIn resolveRequirements Prepared.questions
  rw [List.map_map]
  rfl

/-- every entry has one plan, which resolves its requirements against the survivors -/
theorem mem_plugins_requirements (hn : (ids entries).Nodup) {r : RequirementResolution} :
    r ∈ (composePlan index entries selection).plugins.flatMap PluginPlan.requirements ↔
      ∃ p ∈ entries, r ∈ resolutionsIn index entries selection
        (survivors index entries selection) p := by
  rw [plugins_eq hn, List.flatMap_append, List.flatMap_append, List.mem_append, List.mem_append]
  constructor
  · rintro ((h | h) | h)
    · obtain ⟨pl, hpl, hr⟩ := List.mem_flatMap.1 h
      obtain ⟨e, he, hpl⟩ := List.mem_filterMap.1 hpl
      obtain ⟨p, hp, hpl⟩ := Option.bind_eq_some_iff.1 hpl
      obtain ⟨rs, hrs, rfl⟩ := Option.map_eq_some_iff.1 hpl
      obtain ⟨hin, rfl⟩ := (byEntry_eq_some hn).1 hp
      rw [finalEligibility_resolutions hn hin ((mem_activationOrder hn).1 he).1] at hrs
      cases hrs
      exact ⟨p, hin, hr⟩
    · obtain ⟨pl, hpl, hr⟩ := List.mem_flatMap.1 h
      obtain ⟨p, hp, rfl⟩ := List.mem_map.1 hpl
      exact ⟨p, (List.mem_filter.1 hp).1, hr⟩
    · obtain ⟨pl, hpl, hr⟩ := List.mem_flatMap.1 h
      obtain ⟨e, he, hpl⟩ := List.mem_filterMap.1 hpl
      obtain ⟨p, hp, rfl⟩ := Option.map_eq_some_iff.1 hpl
      exact ⟨p, ((byEntry_eq_some hn).1 hp).1, hr⟩
  · rintro ⟨p, hp, hr⟩
    by_cases hcyc : p.entryId ∈ (detectCycles index entries).flatten
    · refine Or.inr (List.mem_flatMap.2 ⟨entryPlan p .pending none _ ["dependency cycle"],
        List.mem_filterMap.2 ⟨p.entryId, mem_sortedBy.2 hcyc, ?_⟩, hr⟩)
      rw [byEntry_self hn hp]
      rfl
    by_cases hin : p.entryId ∈ survivors index entries selection
    · have he := (mem_activationOrder hn).2 ⟨hin, hcyc⟩
      refine Or.inl (Or.inl (List.mem_flatMap.2 ⟨entryPlan p .eligible
        (some ((composePlan index entries selection).activationOrder.idxOf p.entryId)) _ [],
        List.mem_filterMap.2 ⟨p.entryId, he, ?_⟩, hr⟩))
      rw [byEntry_self hn hp, Option.bind_some, finalEligibility_resolutions hn hp hin]
      rfl
    · refine Or.inl (Or.inr (List.mem_flatMap.2 ⟨_, List.mem_map_of_mem
        (List.mem_filter.2 ⟨hp, ?_⟩), hr⟩))
      simp [hin, hcyc]

theorem scopes_requirements (hn : (ids entries).Nodup) :
    (composePlan index entries selection).scopes.flatMap ScopePlan.requirements =
      (index.ordered.flatMap ScopeSpec.questions).map
        (Question.answer · index entries selection (survivors index entries selection)) := by
  have hscopes : (composePlan index entries selection).scopes.flatMap ScopePlan.requirements =
      index.ordered.flatMap fun spec => spec.requirements.map fun r => resolveOne spec.path .scope r
        (buildView index entries (finalEligibility index entries selection).eligible spec.path)
        selection (entries.flatMap Prepared.options) none [] := by
    unfold composePlan
    rw [List.flatMap_map]
    rfl
  rw [hscopes, finalEligibility_eligible hn, List.map_flatMap]
  congr 1
  funext spec
  unfold ScopeSpec.questions
  rw [List.map_map]
  rfl

/-- **The resolutions of a plan are the answers to its questions.** -/
theorem mem_resolutions (hn : (ids entries).Nodup) {r : RequirementResolution} :
    r ∈ (composePlan index entries selection).resolutions ↔ ∃ q ∈ questions index entries,
      q.answer index entries selection (survivors index entries selection) = r := by
  unfold ResolutionPlan.resolutions questions
  rw [List.mem_append, mem_plugins_requirements hn, scopes_requirements hn, List.mem_map]
  constructor
  · rintro (⟨p, hp, hr⟩ | ⟨q, hq, rfl⟩)
    · rw [resolutionsIn_eq] at hr
      obtain ⟨q, hq, rfl⟩ := List.mem_map.1 hr
      exact ⟨q, List.mem_append_left _ (List.mem_flatMap.2 ⟨p, hp, hq⟩), rfl⟩
    · exact ⟨q, List.mem_append_right _ hq, rfl⟩
  · rintro ⟨q, hq, rfl⟩
    rcases List.mem_append.1 hq with hq | hq
    · obtain ⟨p, hp, hq⟩ := List.mem_flatMap.1 hq
      refine Or.inl ⟨p, hp, ?_⟩
      rw [resolutionsIn_eq]
      exact List.mem_map_of_mem hq
    · exact Or.inr ⟨q, hq, rfl⟩

end

end Chassis
