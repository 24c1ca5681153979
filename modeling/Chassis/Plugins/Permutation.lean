import Chassis.Plugins.Guarantees

/-!
# The order of the input does not show in a plan

* `ScopeIndex.make_perm`, `lineage_perm`, `allowed_perm`, `ordered_perm`   a hierarchy is what its
                             specs are, in whatever order they come;
* `composePlan_perm`         so is everything that is computed from it;
* `resolve_perm`             and the candidates are sorted before anything else;
* `activationOrder_least`    the activation order is the least that respects the edges, if there
                             is one;
* `composePlan_of_any_order`  the set of the eligible entries may be iterated in any order.
-/

set_option linter.unusedSectionVars false

namespace Chassis
open Py

section
variable [Packaging]

/-! ## the specs of a hierarchy -/

section
variable {specs specs' : List ScopeSpec} (hn : (specs.map ScopeSpec.path).Nodup)
  (h : specs.Perm specs')
include hn h

theorem specAt_perm (path : String) : specAt specs path = specAt specs' path := by
  have hn' : (specs'.map ScopeSpec.path).Nodup := (h.map _).nodup_iff.1 hn
  ext s
  rw [specAt_eq_some hn, specAt_eq_some hn', h.mem_iff]

theorem climb_perm (n : Nat) (chain : List String) (current : String) :
    climb specs n chain current = climb specs' n chain current := by
  induction n generalizing chain current with
  | zero => rfl
  | succ n ih =>
    simp only [climb, specAt_perm hn h, ih]

theorem lineageOf_perm (path : String) : lineageOf specs path = lineageOf specs' path := by
  rw [lineageOf, lineageOf, h.length_eq, climb_perm hn h]

end

namespace ScopeIndex

theorem make_eq {specs : List ScopeSpec} (h₁ : (specs.map ScopeSpec.path).Nodup)
    (h₂ : rootScope ∈ specs.map ScopeSpec.path)
    (h₃ : ∀ s ∈ specs, ∀ p ∈ s.parent, p ∈ specs.map ScopeSpec.path)
    (h₄ : ∀ s ∈ specs, (lineageOf specs s.path).isOk = true) :
    make (some specs) = .ok ⟨specs, h₁, h₂, h₃, h₄⟩ := by
  simp only [make, Option.getD_some]
  rw [dif_pos h₁, dif_pos h₂, dif_pos h₃, dif_pos h₄]

/-- **A hierarchy that is accepted is accepted in any order.** -/
theorem make_perm {specs specs' : List ScopeSpec} {ix : ScopeIndex} (h : specs.Perm specs')
    (hmake : make (some specs) = .ok ix) :
    ∃ ix', make (some specs') = .ok ix' ∧ ix.specs.Perm ix'.specs := by
  have hspecs : ix.specs = specs := make_specs hmake
  obtain ⟨specs, h₁, h₂, h₃, h₄⟩ := ix
  obtain rfl := hspecs
  have hpaths : ∀ p, p ∈ specs.map ScopeSpec.path ↔ p ∈ specs'.map ScopeSpec.path :=
    fun p => (h.map _).mem_iff
  refine ⟨_, make_eq ((h.map _).nodup_iff.1 h₁) ((hpaths _).1 h₂) ?_ ?_, h⟩
  · intro s hs p hp
    exact (hpaths p).1 (h₃ s (h.mem_iff.2 hs) p hp)
  · intro s hs
    rw [← lineageOf_perm h₁ h]
    exact h₄ s (h.mem_iff.2 hs)

section
variable {ix ix' : ScopeIndex} (h : ix.specs.Perm ix'.specs)
include h

theorem spec?_perm : ix.spec? = ix'.spec? := funext (specAt_perm ix.paths_nodup h)

theorem paths_perm : ix.paths.Perm ix'.paths := h.map _

theorem lineage_perm : ix.lineage = ix'.lineage := by
  funext path
  rw [lineage, lineage, lineageOf_perm ix.paths_nodup h]

theorem allowed_perm : ix.allowed = ix'.allowed := by
  have hnarrow : ix.narrow = ix'.narrow := by
    funext allowed ancestor
    rw [narrow, narrow, spec?_perm h]
  funext path
  rw [allowed, allowed, lineage_perm h, hnarrow]

theorem exposes_perm : ix.exposes = ix'.exposes := by
  funext consumer capability
  rw [exposes, exposes, allowed_perm h]

theorem canSee_perm : ix.canSee = ix'.canSee := by
  funext consumer provider capability
  rw [canSee, canSee, lineage_perm h, exposes_perm h]

theorem children_perm : ix.children = ix'.children := by
  funext path
  exact sorted_eq_of_perm ((h.filter _).map _)

theorem walk_perm (n : Nat) : ix.walk n = ix'.walk n := by
  induction n with
  | zero => rfl
  | succ n ih =>
    funext path
    rw [walk, walk, spec?_perm h, children_perm h, ih]

theorem ordered_perm : ix.ordered = ix'.ordered := by
  rw [ordered, ordered, h.length_eq, walk_perm h]

theorem require_perm : ix.require = ix'.require := by
  funext path
  have hmem : path ∈ ix.paths ↔ path ∈ ix'.paths := (paths_perm h).mem_iff
  rw [require, require]
  exact if_congr hmem rfl rfl

end

end ScopeIndex

/-! ## what is computed from it -/

section
variable {ix ix' : ScopeIndex} (h : ix.specs.Perm ix'.specs) (entries : List Prepared)
include h

theorem buildView_perm : buildView ix entries = buildView ix' entries := by
  funext eligible path
  rw [buildView, buildView, visibleOptions, visibleOptions, ScopeIndex.lineage_perm h,
    ScopeIndex.allowed_perm h, ScopeIndex.exposes_perm h]

theorem resolutionsIn_perm : resolutionsIn ix entries = resolutionsIn ix' entries := by
  funext selection eligible p
  rw [resolutionsIn, resolutionsIn, buildView_perm h]

theorem fixpoint_perm (selection : Dict String String) (n : Nat) (s : Eligibility) :
    fixpoint ix entries selection n s = fixpoint ix' entries selection n s := by
  induction n generalizing s with
  | zero => rfl
  | succ n ih => simp only [fixpoint, resolutionsIn_perm h, ih]

theorem detectCycles_perm : detectCycles ix entries = detectCycles ix' entries := by
  have hconsumers : declaredConsumers ix entries = declaredConsumers ix' entries := by
    funext provider
    rw [declaredConsumers, declaredConsumers, ScopeIndex.canSee_perm h]
  rw [detectCycles, detectCycles, hconsumers]

theorem scopePlan_perm : scopePlan ix entries = scopePlan ix' entries := by
  funext plans view order pendingSet selection spec
  rw [scopePlan, scopePlan, ScopeIndex.children_perm h]

/-- **The plan** of a composition does not depend on the order of the specs. -/
theorem composePlan_perm (selection : Dict String String) :
    composePlan ix entries selection = composePlan ix' entries selection := by
  have hfinal : finalEligibility ix entries selection = finalEligibility ix' entries selection :=
    fixpoint_perm h entries selection _ _
  simp only [composePlan, hfinal, detectCycles_perm h, resolutionsIn_perm h, buildView_perm h,
    scopePlan_perm h, ScopeIndex.ordered_perm h]

end

/-! ## the set of the eligible entries -/

theorem dependencyEdges_perm {l l' : List (String × List RequirementResolution)} (h : l.Perm l') :
    dependencyEdges l = dependencyEdges l' := by
  refine congrArg List.dedup (sortedBy_eq_of_perm (fun a _ b _ hab => ?_) (h.flatMap_right _))
  obtain ⟨h₁, h₂⟩ := List.cons.inj hab
  exact Prod.ext h₁ (List.cons.inj h₂).1

theorem activationOrder_perm {eligible eligible' : List String} (h : eligible.Perm eligible')
    (edges : List (String × String)) (excluded : List String) :
    activationOrder eligible edges excluded = activationOrder eligible' edges excluded := by
  rw [activationOrder, activationOrder, sorted_eq_of_perm (h.filter _)]

omit [Packaging] in
/-- **The activation order is the least topological order.**  Every eligible entry that is not
excluded is activated once; if the edges between them have no cycle, providers come before
consumers, and of all such orders this is the least. -/
theorem activationOrder_least {eligible : List String} (hn : eligible.Nodup)
    (edges : List (String × String)) (excluded : List String) :
    let remaining := eligible.filter (· ∉ excluded)
    (activationOrder eligible edges excluded).Perm remaining ∧
      ((∀ e, ¬ Relation.TransGen (Kahn.Edge remaining edges) e e) →
        IsLeast {order | Kahn.Topological remaining edges order}
          (activationOrder eligible edges excluded)) := by
  intro remaining
  have hperm : (sorted remaining).Perm remaining := sortedBy_perm _ _
  have hnodup : (sorted remaining).Nodup := sortedBy_nodup (hn.filter _)
  -- the edges do not tell the order of the nodes
  have hedge : Kahn.Edge (sorted remaining) edges = Kahn.Edge remaining edges := by
    funext p c
    exact propext (and_congr_right fun _ => and_congr hperm.mem_iff hperm.mem_iff)
  have htopological : ∀ order, Kahn.Topological (sorted remaining) edges order ↔
      Kahn.Topological remaining edges order := by
    intro order
    constructor
    · rintro ⟨hall, hbefore⟩
      exact ⟨hall.trans hperm, hedge ▸ hbefore⟩
    · rintro ⟨hall, hbefore⟩
      exact ⟨hall.trans hperm.symm, hedge ▸ hbefore⟩
  refine ⟨(Kahn.sort_perm hnodup).trans hperm, fun hacyclic => ?_⟩
  have hacc : ∀ c ∈ sorted remaining, Acc (Kahn.Edge (sorted remaining) edges) c := by
    intro c _
    by_contra hnot
    obtain ⟨q, hq, -⟩ := Kahn.not_acc_iff.1 hnot
    rw [hedge] at hq
    exact hacyclic q hq
  have hleast := Kahn.sort_least hnodup hacc
  simp only [htopological] at hleast
  exact hleast

omit [Packaging] in
theorem activationOrder_least_three :
    IsLeast {order | Kahn.Topological ["c", "b", "a"] [("a", "c")] order} ["a", "b", "c"] := by
  have hlast : ∀ p c, Relation.TransGen (Kahn.Edge ["c", "b", "a"] [("a", "c")]) p c →
      p = "a" ∧ c = "c" := by
    intro p c hpc
    induction hpc with
    | single he => exact Prod.mk.inj (List.mem_singleton.1 he.1)
    | tail _ he ih => exact ⟨ih.1, (Prod.mk.inj (List.mem_singleton.1 he.1)).2⟩
  have hn : ["c", "b", "a"].Nodup := by decide
  refine (activationOrder_least hn [("a", "c")] []).2 ?_
  intro e he
  obtain ⟨ha, hc⟩ := hlast e e he
  exact absurd (ha.symm.trans hc) (by decide)

/-- **The eligible entries are a set**: the edges and the activation order are those of any of its
iterations. -/
theorem composePlan_of_any_order (index : ScopeIndex) (entries : List Prepared)
    (selection : Dict String String) {eligible : List String}
    (h : (finalEligibility index entries selection).eligible.Perm eligible) :
    (composePlan index entries selection).edges = dependencyEdges (eligible.filterMap fun e =>
        ((finalEligibility index entries selection).resolutions.get? e).map fun rs => (e, rs)) ∧
      (composePlan index entries selection).activationOrder = activationOrder eligible
        (composePlan index entries selection).edges
        (composePlan index entries selection).cycles.flatten :=
  ⟨dependencyEdges_perm (h.filterMap _), activationOrder_perm h _ _⟩

/-! ## the candidates -/

theorem orderedCandidates_perm {candidates candidates' ordered : List PluginCandidate}
    (h : candidates.Perm candidates') (hok : orderedCandidates candidates = .ok ordered) :
    orderedCandidates candidates' = .ok ordered := by
  obtain ⟨hmem, hlt⟩ := orderedCandidates_ok hok
  have hnodup : (ordered.map PluginCandidate.entryId).Nodup := hlt.imp fun h => ne_of_lt h
  have hsorted : sortedBy PluginCandidate.entryId candidates =
      sortedBy PluginCandidate.entryId candidates' := by
    refine sortedBy_eq_of_perm (fun a ha b hb hab => ?_) h
    exact List.inj_on_of_nodup_map hnodup ((hmem a).1 ha) ((hmem b).1 hb) hab
  rw [orderedCandidates, ← hsorted]
  exact hok

/-- **Resolution does not depend on the order of its input**: neither on that of the candidates nor
on that of the scopes. -/
theorem resolve_perm {candidates candidates' : List PluginCandidate} {prefer : Dict String String}
    {scopes scopes' : Option (List ScopeSpec)} {plan : ResolutionPlan}
    (hcandidates : candidates.Perm candidates') (hscopes : Option.Rel List.Perm scopes scopes')
    (h : resolve candidates prefer scopes = .ok plan) :
    resolve candidates' prefer scopes' = .ok plan := by
  obtain ⟨index, entries, hprepare, rfl⟩ := resolve_ok.1 h
  obtain ⟨ordered, hord, hprepare⟩ := bind_ok.1 hprepare
  obtain ⟨ix, hix, hprepare⟩ := bind_ok.1 hprepare
  obtain ⟨u, hrequire, hprepare⟩ := bind_ok.1 hprepare
  obtain ⟨es, hes, hprepare⟩ := bind_ok.1 hprepare
  cases hprepare
  obtain ⟨ix', hix', hperm⟩ : ∃ ix', ScopeIndex.make scopes' = .ok ix' ∧
      index.specs.Perm ix'.specs := by
    cases hscopes with
    | none => exact ⟨index, hix, List.Perm.refl _⟩
    | some hspecs => exact ScopeIndex.make_perm hspecs hix
  refine resolve_ok.2 ⟨ix', entries, ?_, (composePlan_perm hperm entries prefer).symm⟩
  refine bind_ok.2 ⟨ordered, orderedCandidates_perm hcandidates hord, ?_⟩
  refine bind_ok.2 ⟨ix', hix', bind_ok.2 ⟨u, ?_, bind_ok.2 ⟨entries, hes, rfl⟩⟩⟩
  rw [← ScopeIndex.require_perm hperm]
  exact hrequire

end

section
open scoped Plain

theorem resolve_perm_swapped : ∃ plan,
    resolve [plainCandidate "c" [] [("db", ">=1")] [],
        { plainCandidate "p" [("db", "1.2.0")] [] [] with scope := "/web" }] Dict.empty
      (some [rootSpec, { path := "/web", name := "web", parent := some rootScope }]) = .ok plan ∧
    plan.activationOrder = ["p"] ∧
    resolve [{ plainCandidate "p" [("db", "1.2.0")] [] [] with scope := "/web" },
        plainCandidate "c" [] [("db", ">=1")] []] Dict.empty
      (some [{ path := "/web", name := "web", parent := some rootScope }, rootSpec]) =
        .ok plan := by
  obtain ⟨plan, hplan, hf⟩ := ok_of_map (resolve [plainCandidate "c" [] [("db", ">=1")] [],
      { plainCandidate "p" [("db", "1.2.0")] [] [] with scope := "/web" }] Dict.empty
      (some [rootSpec, { path := "/web", name := "web", parent := some rootScope }]))
    ResolutionPlan.activationOrder ["p"] (by decide +kernel)
  exact ⟨plan, hplan, hf, resolve_perm (.swap _ _ _) (.some (.swap _ _ _)) hplan⟩

end

end Chassis
