import Chassis.Composition.Tree
import Chassis.Plugins.Guarantees

/-!
# What a published scope can see

* `Admitted`           a name passes every view that is declared along a lineage;
* `ScopesPlanned`      the scopes of a plan are those of the specs, and closed under parents;
* `mem_scopeChain`     the chain of a scope is its lineage;
* `resolveScope_sees`  what is visible in a scope, and what of it is inherited;
* `scope_tree_narrows` containment, ownership, narrowing and completeness of a whole tree.
-/

set_option linter.unusedSectionVars false

namespace Chassis
open Py

section
variable [Packaging]

/-! ## lineages -/

/-- every view declared along the lineage of `path` contains `name` -/
def Admitted (specs : List ScopeSpec) (view : ScopeSpec → Option (List String))
    (path name : String) : Prop :=
  ∀ s ∈ specs, OnLineage specs path s.path → ∀ v, view s = some v → name ∈ v

theorem Admitted.above {specs : List ScopeSpec} {view : ScopeSpec → Option (List String)}
    {path above name : String} (h : Admitted specs view path name)
    (ha : OnLineage specs path above) : Admitted specs view above name :=
  fun s hs hon => h s hs (ha.trans hon)

section
variable {specs : List ScopeSpec} (hn : (specs.map ScopeSpec.path).Nodup)
include hn

theorem parentOf_unique {child p q : String} (hp : ParentOf specs child p)
    (hq : ParentOf specs child q) : p = q :=
  Option.some.inj (((parentOf_iff hn).1 hp).symm.trans ((parentOf_iff hn).1 hq))

theorem climb_ends {n : Nat} {chain l : List String} {current : String}
    (h : climb specs n chain current = .ok l) :
    ∃ x, OnLineage specs current x ∧ ∀ q, ¬ ParentOf specs x q := by
  induction n generalizing chain current with
  | zero => cases h
  | succ n ih =>
    simp only [climb] at h
    split at h
    · cases h
    · split at h
      · rename_i hnone
        refine ⟨current, .refl, fun q hq => ?_⟩
        rw [parentOf_iff hn, hnone] at hq
        cases hq
      · rename_i parent hparent
        obtain ⟨x, hx, hend⟩ := ih h
        exact ⟨x, .head ((parentOf_iff hn).2 hparent) hx, hend⟩

theorem not_onLineage_parent {n : Nat} {l : List String} {path parent : String}
    (h : climb specs n [] path = .ok l) (hp : ParentOf specs path parent) :
    ¬ OnLineage specs parent path := by
  intro hcycle
  have hback : ∀ x, OnLineage specs path x → OnLineage specs x path := by
    intro x hx
    induction hx with
    | refl => exact .refl
    | @tail y z _ hyz ih =>
      rcases Relation.ReflTransGen.cases_head ih with rfl | ⟨w, hyw, hw⟩
      · rw [parentOf_unique hn hyz hp]
        exact hcycle
      · rw [parentOf_unique hn hyz hyw]
        exact hw
  obtain ⟨x, hx, hend⟩ := climb_ends hn h
  replace hback := hback x hx
  rcases Relation.ReflTransGen.cases_head hback with rfl | ⟨w, hw, -⟩
  · exact hend parent hp
  · exact hend w hw

end

/-! ## the scopes of a plan -/

/-- the plans of some scopes are those of their specs, with the parents of each among them -/
structure ScopesPlanned (candidates : List PluginCandidate) (specs : List ScopeSpec)
    (plans : List ScopePlan) : Prop where
  nodup : (specs.map ScopeSpec.path).Nodup
  nonempty : plans ≠ []
  rooted : ∀ s ∈ specs, (lineageOf specs s.path).isOk = true
  spec : ∀ p ∈ plans, ∃ s ∈ specs, s.path = p.path ∧ s.parent = p.parent ∧
    s.tools.map sorted = p.tools
  unique : ∀ p ∈ plans, ∀ q ∈ plans, p.path = q.path → p = q
  closed : ∀ p ∈ plans, ∀ parent, p.parent = some parent → ∃ q ∈ plans, q.path = parent
  admits : ∀ p ∈ plans, ∀ name, within p.capabilities name = true ↔
    Admitted specs ScopeSpec.capabilities p.path name
  entries : ∀ p ∈ plans, ∀ e, e ∈ p.entries ↔
    ∃ c ∈ candidates, c.scope = p.path ∧ c.entryId = e
  distinct : ∀ c ∈ candidates, ∀ d ∈ candidates, c.entryId = d.entryId → c = d

namespace ScopeIndex
variable {ix : ScopeIndex}

theorem walk_parent {n : Nat} {path : String} {s : ScopeSpec} (h : s ∈ ix.walk n path) :
    s.path = path ∨ ∃ p ∈ ix.walk n path, s.parent = some p.path := by
  induction n generalizing path with
  | zero => cases h
  | succ n ih =>
    have hs := ix.mem_specs_of_walk h
    rw [walk] at h ⊢
    rcases List.mem_append.1 h with h | h
    · exact Or.inl ((specAt_eq_some ix.paths_nodup).1 (Option.mem_toList.1 h)).2
    · refine Or.inr ?_
      obtain ⟨child, hchild, h⟩ := List.mem_flatMap.1 h
      rcases ih h with rfl | ⟨p, hp, hparent⟩
      · obtain ⟨t, ht, htpath⟩ := List.mem_map.1 (mem_sortedBy.1 hchild)
        obtain ⟨ht, htparent⟩ := List.mem_filter.1 ht
        obtain rfl := List.inj_on_of_nodup_map ix.paths_nodup ht hs htpath
        have hparent : t.parent = some path := of_decide_eq_true htparent
        obtain ⟨p, hp, hpath⟩ := List.mem_map.1 (ix.parent_mem t hs path hparent)
        refine ⟨p, List.mem_append_left _ ?_, hpath ▸ hparent⟩
        exact Option.mem_toList.2 ((specAt_eq_some ix.paths_nodup).2 ⟨hp, hpath⟩)
      · exact ⟨p, List.mem_append_right _ (List.mem_flatMap.2 ⟨child, hchild, hp⟩), hparent⟩

/-- the root, below which everything is, has no parent -/
theorem root_parent (hroot : ∀ s ∈ ix.specs, OnLineage ix.specs s.path rootScope) {s : ScopeSpec}
    (hs : s ∈ ix.specs) (hpath : s.path = rootScope) : s.parent = none := by
  rw [Option.eq_none_iff_forall_ne_some]
  intro parent hparent
  obtain ⟨p, hp, rfl⟩ := List.mem_map.1 (ix.parent_mem s hs parent hparent)
  have hok := ix.rooted s hs
  rcases hl : lineageOf ix.specs s.path with e | l
  · rw [hl] at hok
    cases hok
  · refine not_onLineage_parent ix.paths_nodup hl ⟨s, hs, rfl, hparent⟩ ?_
    rw [hpath]
    exact hroot p hp

end ScopeIndex

/-- **What `resolve` plans for the scopes**, where all of them descend from the root. -/
theorem resolve_planned {candidates : List PluginCandidate} {prefer : Dict String String}
    {specs : List ScopeSpec} {plan : ResolutionPlan}
    (h : resolve candidates prefer (some specs) = .ok plan)
    (hroot : ∀ s ∈ specs, OnLineage specs s.path rootScope) :
    ScopesPlanned candidates specs plan.scopes := by
  obtain ⟨index, entries, hprepare, rfl⟩ := resolve_ok.1 h
  have hcomp := prepareAll_ok hprepare
  obtain rfl : index.specs = specs := hcomp.specs
  have hspec : ∀ p ∈ (composePlan index entries prefer).scopes, ∃ s ∈ index.ordered,
      s ∈ index.specs ∧ ∃ order pendingSet plans, p = scopePlan index entries plans
        (buildView index entries (finalEligibility index entries prefer).eligible s.path)
        order pendingSet prefer s := by
    intro p hp
    obtain ⟨s, hs, rfl⟩ := List.mem_map.1 hp
    exact ⟨s, hs, index.mem_specs_of_walk hs, _, _, _, rfl⟩
  refine ⟨index.paths_nodup, ?_, index.rooted, ?_, ?_, ?_, ?_, ?_, ?_⟩
  · obtain ⟨root, hin, hpath⟩ := List.mem_map.1 index.root_mem
    have hlen : index.specs.length = (index.specs.length - 1) + 1 := by
      have hpos := List.length_pos_of_mem hin
      omega
    refine List.ne_nil_of_mem (List.mem_map_of_mem (a := root) ?_)
    rw [ScopeIndex.ordered, hlen, ScopeIndex.walk]
    refine List.mem_append_left _ (Option.mem_toList.2 ?_)
    exact (specAt_eq_some index.paths_nodup).2 ⟨hin, hpath⟩
  · intro p hp
    obtain ⟨s, -, hs, _, _, _, rfl⟩ := hspec p hp
    exact ⟨s, hs, rfl, rfl, rfl⟩
  · intro p hp q hq hpq
    obtain ⟨s, hs, rfl⟩ := List.mem_map.1 hp
    obtain ⟨t, ht, rfl⟩ := List.mem_map.1 hq
    rw [List.inj_on_of_nodup_map index.paths_nodup (index.mem_specs_of_walk hs)
      (index.mem_specs_of_walk ht) hpq]
  · intro p hp parent hparent
    obtain ⟨s, hs, hin, _, _, _, rfl⟩ := hspec p hp
    rcases ScopeIndex.walk_parent hs with hpath | ⟨q, hq, hqparent⟩
    · have hnone := ScopeIndex.root_parent hroot hin hpath
      cases hnone.symm.trans hparent
    · refine ⟨_, List.mem_map_of_mem hq, ?_⟩
      exact Option.some.inj (hqparent.symm.trans hparent)
  · intro p hp name
    obtain ⟨s, -, hs, _, _, _, rfl⟩ := hspec p hp
    have hpath : s.path ∈ index.paths := List.mem_map_of_mem hs
    have hexposes : within ((index.allowed s.path).map sorted) name =
        index.exposes s.path name := by
      unfold ScopeIndex.exposes
      cases index.allowed s.path with
      | none => rfl
      | some l =>
        show (sorted l).contains name = l.contains name
        rw [Bool.eq_iff_iff, List.contains_iff_mem, List.contains_iff_mem, sorted, mem_sortedBy]
    show within ((index.allowed s.path).map sorted) name = true ↔ _
    rw [hexposes]
    exact index.exposes_iff hpath
  · intro p hp e
    obtain ⟨s, -, hs, _, _, _, rfl⟩ := hspec p hp
    show e ∈ sorted ((entries.filter fun p => p.scope = s.path).map Prepared.entryId) ↔ _
    rw [sorted, mem_sortedBy, List.mem_map]
    constructor
    · rintro ⟨p, hp, rfl⟩
      obtain ⟨hp, hscope⟩ := List.mem_filter.1 hp
      exact ⟨p.candidate, (hcomp.mem _).2 ⟨p, hp, rfl⟩, of_decide_eq_true hscope, rfl⟩
    · rintro ⟨c, hc, hscope, rfl⟩
      obtain ⟨p, hp, rfl⟩ := (hcomp.mem c).1 hc
      exact ⟨p, List.mem_filter.2 ⟨hp, decide_eq_true hscope⟩, rfl⟩
  · intro c hc d hd hcd
    have hnodup : (ids entries).Nodup := hcomp.sorted.imp ne_of_lt
    obtain ⟨p, hp, rfl⟩ := (hcomp.mem c).1 hc
    obtain ⟨q, hq, rfl⟩ := (hcomp.mem d).1 hd
    rw [List.inj_on_of_nodup_map hnodup hp hq hcd]

/-! ## the chain of a scope -/

section
variable {candidates : List PluginCandidate} {specs : List ScopeSpec} {plans : List ScopePlan}
  (hp : ScopesPlanned candidates specs plans)
include hp

theorem ScopesPlanned.find {p : ScopePlan} (hin : p ∈ plans) :
    plans.find? (fun s => s.path = p.path) = some p := by
  obtain ⟨q, hq⟩ : ∃ q, plans.find? (fun s => decide (s.path = p.path)) = some q := by
    rw [← Option.isSome_iff_exists, List.find?_isSome]
    exact ⟨p, hin, decide_eq_true rfl⟩
  have hpath := List.find?_some hq
  rw [hq, hp.unique q (List.mem_of_find?_eq_some hq) p hin (of_decide_eq_true hpath)]

theorem ScopesPlanned.parentOf {p : ScopePlan} (hin : p ∈ plans) {parent : String} :
    ParentOf specs p.path parent ↔ p.parent = some parent := by
  obtain ⟨s, hs, hpath, hparent, -⟩ := hp.spec p hin
  constructor
  · rintro ⟨t, ht, htpath, htparent⟩
    rw [← hparent, List.inj_on_of_nodup_map hp.nodup hs ht (hpath.trans htpath.symm)]
    exact htparent
  · exact fun h => ⟨s, hs, hpath, hparent.trans h⟩

/-- **The chain of a scope is its lineage.** -/
theorem mem_scopeChain {n : Nat} {path : String} {chain : List ScopePlan}
    (h : scopeChain plans n path = .ok chain) {q : ScopePlan} :
    q ∈ chain ↔ q ∈ plans ∧ OnLineage specs path q.path := by
  induction n generalizing path chain with
  | zero => cases h
  | succ n ih =>
    simp only [scopeChain] at h
    split at h
    · cases h
    · rename_i p hfind
      have hin := List.mem_of_find?_eq_some hfind
      have hpath := List.find?_some hfind
      obtain rfl : p.path = path := of_decide_eq_true hpath
      rw [OnLineage, Relation.ReflTransGen.cases_head_iff]
      have hself : q = p ↔ q ∈ plans ∧ p.path = q.path := by
        constructor
        · rintro rfl
          exact ⟨hin, rfl⟩
        · exact fun hq => hp.unique q hq.1 p hin hq.2.symm
      split at h
      · rename_i hnone
        cases h
        have hno : ∀ w, ¬ ParentOf specs p.path w := by
          intro w hw
          rw [hp.parentOf hin, hnone] at hw
          cases hw
        rw [List.mem_singleton, hself]
        simp only [hno, false_and, exists_false, or_false]
      · rename_i parent hparent
        rcases hrest : scopeChain plans n parent with e | rest
        · rw [hrest] at h
          cases h
        · rw [hrest] at h
          cases h
          have hone : ∀ w, ParentOf specs p.path w ↔ w = parent := by
            intro w
            rw [hp.parentOf hin, hparent, Option.some_inj, eq_comm]
          rw [List.mem_cons, hself, ih hrest, ← and_or_left]
          simp only [hone, exists_eq_left, OnLineage]

omit hp in
theorem scopeChain_enough {n m : Nat} {path : String} {chain : List ScopePlan}
    (h : scopeChain plans n path = .ok chain) (hm : chain.length ≤ m) :
    scopeChain plans m path = .ok chain := by
  induction n generalizing m path chain with
  | zero => cases h
  | succ n ih =>
    simp only [scopeChain] at h
    split at h
    · cases h
    · rename_i p hfind
      split at h
      · rename_i hnone
        cases h
        cases m with
        | zero => cases hm
        | succ m => simp only [scopeChain, hfind, hnone]
      · rename_i parent hparent
        rcases hrest : scopeChain plans n parent with e | rest
        · rw [hrest] at h
          cases h
        · rw [hrest] at h
          cases h
          rw [List.length_cons] at hm
          cases m with
          | zero => omega
          | succ m =>
            have hrest' := ih hrest (m := m) (by omega)
            simp only [scopeChain, hfind, hparent, hrest']
            rfl

/-- the chain is what the walk of the resolver meets, the other way round -/
theorem scopeChain_climb {n : Nat} {below l : List String} {p : ScopePlan} (hin : p ∈ plans)
    (h : climb specs n below p.path = .ok l) :
    ∃ chain, scopeChain plans n p.path = .ok chain ∧
      l = (chain.map ScopePlan.path).reverse ++ below := by
  induction n generalizing below p with
  | zero => cases h
  | succ n ih =>
    simp only [climb] at h
    split at h
    · cases h
    · have hparent : (specAt specs p.path).bind ScopeSpec.parent = p.parent := by
        rw [Option.ext_iff]
        intro parent
        rw [← parentOf_iff hp.nodup, hp.parentOf hin]
      rw [hparent] at h
      split at h
      · rename_i hnone
        cases h
        refine ⟨[p], ?_, rfl⟩
        simp only [scopeChain, hp.find hin, hnone]
      · rename_i parent hsome
        obtain ⟨q, hq, rfl⟩ := hp.closed p hin parent hsome
        obtain ⟨rest, hrest, rfl⟩ := ih hq h
        refine ⟨p :: rest, ?_, ?_⟩
        · simp only [scopeChain, hp.find hin, hsome, hrest]
          rfl
        · simp

theorem scopeChain_total {p : ScopePlan} (hin : p ∈ plans) :
    ∃ chain, scopeChain plans (plans.length + 1) p.path = .ok chain := by
  obtain ⟨s, hs, hpath, -⟩ := hp.spec p hin
  have hok := hp.rooted s hs
  rw [hpath] at hok
  rcases hl : lineageOf specs p.path with e | l
  · rw [hl] at hok
    cases hok
  · obtain ⟨chain, hchain, rfl⟩ := scopeChain_climb hp hin hl
    refine ⟨chain, scopeChain_enough hchain ?_⟩
    have hnodup := climb_nodup List.nodup_nil hl
    rw [List.append_nil, List.nodup_reverse] at hnodup
    have hsub : chain.map ScopePlan.path ⊆ plans.map ScopePlan.path := by
      intro x hx
      obtain ⟨q, hq, rfl⟩ := List.mem_map.1 hx
      exact List.mem_map_of_mem ((mem_scopeChain hp hchain).1 hq).1
    have hlen := (List.subperm_of_subset hnodup hsub).length_le
    rw [List.length_map, List.length_map] at hlen
    omega

theorem scopeChain_tail {n : Nat} {p : ScopePlan} (hin : p ∈ plans) {chain : List ScopePlan}
    (h : scopeChain plans n p.path = .ok chain) : ∃ rest, chain = p :: rest ∧
      ∀ q, q ∈ rest ↔ q ∈ plans ∧ ∃ parent, p.parent = some parent ∧
        OnLineage specs parent q.path := by
  cases n with
  | zero => cases h
  | succ n =>
    simp only [scopeChain, hp.find hin] at h
    split at h
    · rename_i hnone
      cases h
      refine ⟨[], rfl, fun q => ?_⟩
      simp [hnone]
    · rename_i parent hparent
      rcases hrest : scopeChain plans n parent with e | rest
      · rw [hrest] at h
        cases h
      · rw [hrest] at h
        cases h
        refine ⟨rest, rfl, fun q => ?_⟩
        rw [mem_scopeChain hp hrest, hparent]
        simp only [Option.some.injEq, exists_eq_left']

theorem ScopesPlanned.above {p : ScopePlan} (hin : p ∈ plans) {path : String}
    (h : OnLineage specs p.path path) : ∃ q ∈ plans, q.path = path := by
  induction h with
  | refl => exact ⟨p, hin, rfl⟩
  | tail _ hparent ih =>
    obtain ⟨q, hq, rfl⟩ := ih
    exact hp.closed q hq _ ((hp.parentOf hq).1 hparent)

end

end

/-! ## names with their providers -/

/-- a name is listed with an id -/
def Lists (l : List (String × List String)) (name id : String) : Prop :=
  ∃ p ∈ l, p.1 = name ∧ id ∈ p.2

theorem mem_nameSet {l : List String} {name : String} : name ∈ nameSet l ↔ name ∈ l := by
  rw [nameSet, sorted, mem_sortedBy, List.mem_dedup]

theorem lists_grouped {names : List String} {ids : String → List String} {name id : String} :
    Lists ((nameSet names).map fun name => (name, nameSet (ids name))) name id ↔
      name ∈ names ∧ id ∈ ids name := by
  constructor
  · rintro ⟨p, hp, rfl, hid⟩
    obtain ⟨name, hname, rfl⟩ := List.mem_map.1 hp
    exact ⟨mem_nameSet.1 hname, mem_nameSet.1 hid⟩
  · rintro ⟨hname, hid⟩
    exact ⟨_, List.mem_map_of_mem (mem_nameSet.2 hname), rfl, mem_nameSet.2 hid⟩

theorem lists_providersAmong {registrations : List CapabilityRegistration} {ids : List String}
    {name id : String} : Lists (providersAmong registrations ids) name id ↔
      id ∈ ids ∧ ∃ c ∈ registrations, c.providerId = id ∧ c.key.name = name := by
  unfold providersAmong
  simp only [lists_grouped, List.mem_map, List.mem_filter, decide_eq_true_eq]
  constructor
  · rintro ⟨-, c, ⟨⟨hc, hin⟩, hname⟩, rfl⟩
    exact ⟨hin, c, hc, rfl, hname⟩
  · rintro ⟨hin, c, hc, rfl, rfl⟩
    exact ⟨⟨c, ⟨hc, hin⟩, rfl⟩, c, ⟨⟨hc, hin⟩, rfl⟩, rfl⟩

theorem mergeProviders_name {l : List (List (String × List String))} {p : String × List String}
    (h : p ∈ mergeProviders l) : ∃ m ∈ l, ∃ q ∈ m, q.1 = p.1 := by
  obtain ⟨name, hname, rfl⟩ := List.mem_map.1 h
  obtain ⟨q, hq, rfl⟩ := List.mem_map.1 (mem_nameSet.1 hname)
  obtain ⟨m, hm, hq⟩ := List.mem_flatten.1 hq
  exact ⟨m, hm, q, hq, rfl⟩

theorem lists_mergeProviders {l : List (List (String × List String))} {name id : String} :
    Lists (mergeProviders l) name id ↔ ∃ m ∈ l, Lists m name id := by
  unfold mergeProviders
  simp only [lists_grouped, List.mem_map, List.mem_flatMap, List.mem_filter, decide_eq_true_eq,
    List.mem_flatten]
  constructor
  · rintro ⟨-, p, ⟨⟨m, hm, hp⟩, hname⟩, hid⟩
    exact ⟨m, hm, p, hp, hname, hid⟩
  · rintro ⟨m, hm, p, hp, rfl, hid⟩
    exact ⟨⟨p, ⟨m, hm, hp⟩, rfl⟩, p, ⟨⟨m, hm, hp⟩, rfl⟩, hid⟩

theorem lists_filter {l : List (String × List String)} {view : Option (List String)}
    {name id : String} : Lists (l.filter fun p => within view p.1) name id ↔
      within view name = true ∧ Lists l name id := by
  unfold Lists
  constructor
  · rintro ⟨p, hp, rfl, hid⟩
    obtain ⟨hp, hin⟩ := List.mem_filter.1 hp
    exact ⟨hin, p, hp, rfl, hid⟩
  · rintro ⟨hin, p, hp, rfl, hid⟩
    exact ⟨p, List.mem_filter.2 ⟨hp, hin⟩, rfl, hid⟩

theorem within_intersectViews {views : List (Option (List String))} {name : String} :
    within (intersectViews views) name = true ↔ ∀ view ∈ views, within view name = true := by
  have hloop : ∀ {meet : Option (List String) → Option (List String) → Option (List String)},
      (∀ result view, within (meet result view) name = true ↔
        within result name = true ∧ within view name = true) →
      ∀ (views : List (Option (List String))) (result : Option (List String)),
        within (views.foldl meet result) name = true ↔
          within result name = true ∧ ∀ view ∈ views, within view name = true := by
    intro meet hmeet views
    induction views with
    | nil => simp
    | cons view views ih =>
      intro result
      rw [List.foldl_cons, ih, List.forall_mem_cons, ← and_assoc, hmeet]
  refine (hloop (fun result view => ?_) views none).trans (and_iff_right rfl)
  rcases view with _ | names
  · simp [within]
  · rcases result with _ | names'
    · simp [within]
    · simp [within]

/-! ## what one scope sees -/

/-- an entry that is declared in a scope has an instance of that id -/
def OwnedBy (candidates : List PluginCandidate) (instances : List PluginInstance)
    (path id : String) : Prop :=
  ∃ c ∈ candidates, c.scope = path ∧
    ∃ i, instanceByEntry instances c.entryId = some i ∧ i.instanceId = id

/-- an instance of a scope has a registration of that name -/
def ProvidedAt (candidates : List PluginCandidate) (instances : List PluginInstance)
    (registrations : List CapabilityRegistration) (path name id : String) : Prop :=
  OwnedBy candidates instances path id ∧
    ∃ c ∈ registrations, c.providerId = id ∧ c.key.name = name

/-- a tool of that name is attributed to a scope -/
def ToolAt (instances : List PluginInstance) (plans : List ScopePlan)
    (tools : List RegisteredTool) (path name : String) : Prop :=
  ∃ t ∈ tools, t.name = name ∧ toolScope instances plans t.ownerId = some path

section
variable [Packaging] {candidates : List PluginCandidate} {specs : List ScopeSpec}
  {plans : List ScopePlan} (hp : ScopesPlanned candidates specs plans)
  (instances : List PluginInstance) (registrations : List CapabilityRegistration)
  (tools : List RegisteredTool)
include hp

theorem mem_localInstanceIds {p : ScopePlan} (hin : p ∈ plans) {id : String} :
    id ∈ localInstanceIds instances p ↔ OwnedBy candidates instances p.path id := by
  unfold localInstanceIds OwnedBy
  rw [sorted, mem_sortedBy, List.mem_filterMap]
  constructor
  · rintro ⟨e, he, hi⟩
    obtain ⟨c, hc, hscope, rfl⟩ := (hp.entries p hin e).1 he
    exact ⟨c, hc, hscope, Option.map_eq_some_iff.1 hi⟩
  · rintro ⟨c, hc, hscope, hi⟩
    exact ⟨c.entryId, (hp.entries p hin _).2 ⟨c, hc, hscope, rfl⟩, Option.map_eq_some_iff.2 hi⟩

/-- the scope a tool is attributed to declares the entry of its owner -/
theorem toolScope_owned {ownerId path : String}
    (h : toolScope instances plans ownerId = some path) :
    OwnedBy candidates instances path ownerId := by
  obtain ⟨p, hlast, rfl⟩ := Option.map_eq_some_iff.1 h
  obtain ⟨hin, howner⟩ := List.mem_filter.1 (List.mem_of_getLast? hlast)
  exact (mem_localInstanceIds hp instances hin).1 (of_decide_eq_true howner)

theorem mem_localToolNames {path name : String} :
    name ∈ localToolNames instances plans tools path ↔ ToolAt instances plans tools path name := by
  unfold localToolNames ToolAt
  simp only [mem_nameSet, List.mem_map, List.mem_filter, decide_eq_true_eq]
  constructor
  · rintro ⟨t, ⟨ht, hscope⟩, rfl⟩
    exact ⟨t, ht, rfl, hscope⟩
  · rintro ⟨t, ht, rfl, hscope⟩
    exact ⟨t, ⟨ht, hscope⟩, rfl⟩

theorem within_chain {p : ScopePlan} (hin : p ∈ plans) {n : Nat} {chain : List ScopePlan}
    (hchain : scopeChain plans n p.path = .ok chain) (name : String) :
    (within (intersectViews (chain.map ScopePlan.capabilities)) name = true ↔
      Admitted specs ScopeSpec.capabilities p.path name) ∧
    (within (intersectViews (chain.map ScopePlan.tools)) name = true ↔
      Admitted specs ScopeSpec.tools p.path name) := by
  rw [within_intersectViews, within_intersectViews]
  simp only [List.forall_mem_map]
  constructor
  · constructor
    · intro h
      have hself := (mem_scopeChain hp hchain).2 ⟨hin, .refl⟩
      exact (hp.admits p hin name).1 (h p hself)
    · intro h q hq
      obtain ⟨hq, hon⟩ := (mem_scopeChain hp hchain).1 hq
      exact (hp.admits q hq name).2 (h.above hon)
  · constructor
    · intro h s hs hon v hv
      obtain ⟨q, hq, hpath⟩ := hp.above hin hon
      obtain ⟨t, ht, htpath, -, htools⟩ := hp.spec q hq
      obtain rfl := List.inj_on_of_nodup_map hp.nodup ht hs (htpath.trans hpath)
      have hwithin := h q ((mem_scopeChain hp hchain).2 ⟨hq, hpath ▸ hon⟩)
      rw [← htools, hv] at hwithin
      exact mem_sortedBy.1 (List.contains_iff_mem.1 hwithin)
    · intro h q hq
      obtain ⟨hq, hon⟩ := (mem_scopeChain hp hchain).1 hq
      obtain ⟨t, ht, htpath, -, htools⟩ := hp.spec q hq
      rw [← htools]
      rcases hv : t.tools with _ | v
      · rfl
      · exact List.contains_iff_mem.2 (mem_sortedBy.2 (h t ht (htpath ▸ hon) v hv))

/-- what a published scope sees, and what of it is inherited -/
structure ResolvedScope.Sees (candidates : List PluginCandidate) (specs : List ScopeSpec)
    (plans : List ScopePlan) (instances : List PluginInstance)
    (registrations : List CapabilityRegistration) (tools : List RegisteredTool)
    (r : ResolvedScope) : Prop where
  visible : ∀ name id, Lists r.visible name id ↔
    Admitted specs ScopeSpec.capabilities r.path name ∧ ∃ a, OnLineage specs r.path a ∧
      ProvidedAt candidates instances registrations a name id
  inherited : ∀ name id, Lists r.inherited name id ↔
    Admitted specs ScopeSpec.capabilities r.path name ∧ ∃ q, r.parent = some q ∧
      ∃ a, OnLineage specs q a ∧ ProvidedAt candidates instances registrations a name id
  names : ∀ p ∈ r.visible, Admitted specs ScopeSpec.capabilities r.path p.1
  visibleTools : ∀ name, name ∈ r.visibleTools ↔ Admitted specs ScopeSpec.tools r.path name ∧
    ∃ a, OnLineage specs r.path a ∧ ToolAt instances plans tools a name
  inheritedTools : ∀ name, name ∈ r.inheritedTools ↔
    Admitted specs ScopeSpec.tools r.path name ∧ ∃ q, r.parent = some q ∧
      ∃ a, OnLineage specs q a ∧ ToolAt instances plans tools a name

/-- **What a scope sees**: the providers of its lineage that every view along it admits. -/
theorem resolveScope_sees {s : ScopePlan} (hin : s ∈ plans) :
    ∃ r, resolveScope instances plans registrations tools s = .ok r ∧ r.path = s.path ∧
      r.parent = s.parent ∧ r.Sees candidates specs plans instances registrations tools := by
  obtain ⟨chain, hchain⟩ := scopeChain_total hp hin
  obtain ⟨rest, rfl, hrest⟩ := scopeChain_tail hp hin hchain
  have hlocal : ∀ q ∈ plans, ∀ name id,
      Lists (providersAmong registrations (localInstanceIds instances q)) name id ↔
        ProvidedAt candidates instances registrations q.path name id := by
    intro q hq name id
    rw [lists_providersAmong, mem_localInstanceIds hp instances hq]
    exact Iff.rfl
  have habove : ∀ {f : String → Prop}, (∃ q ∈ rest, f q.path) ↔
      ∃ parent, s.parent = some parent ∧ ∃ a, OnLineage specs parent a ∧ f a := by
    intro f
    constructor
    · rintro ⟨q, hq, hf⟩
      obtain ⟨-, parent, hparent, hon⟩ := (hrest q).1 hq
      exact ⟨parent, hparent, q.path, hon, hf⟩
    · rintro ⟨parent, hparent, a, hon, hf⟩
      obtain ⟨p, hpin, rfl⟩ := hp.closed s hin parent hparent
      obtain ⟨q, hq, rfl⟩ := hp.above hpin hon
      exact ⟨q, (hrest q).2 ⟨hq, p.path, hparent, hon⟩, hf⟩
  have hlineage : ∀ {f : String → Prop}, (∃ a, OnLineage specs s.path a ∧ f a) ↔
      f s.path ∨ ∃ parent, s.parent = some parent ∧ ∃ a, OnLineage specs parent a ∧ f a := by
    intro f
    constructor
    · rintro ⟨a, hon, hf⟩
      rcases Relation.ReflTransGen.cases_head hon with rfl | ⟨parent, hparent, hon⟩
      · exact Or.inl hf
      · exact Or.inr ⟨parent, (hp.parentOf hin).1 hparent, a, hon, hf⟩
    · rintro (hf | ⟨parent, hparent, a, hon, hf⟩)
      · exact ⟨s.path, .refl, hf⟩
      · exact ⟨a, .head ((hp.parentOf hin).2 hparent) hon, hf⟩
  have hviews := within_chain hp hin hchain
  have hhere : ∀ name id, Lists ((providersAmong registrations
        (localInstanceIds instances s)).filter fun p =>
          within (intersectViews ((s :: rest).map ScopePlan.capabilities)) p.1) name id ↔
      Admitted specs ScopeSpec.capabilities s.path name ∧
        ProvidedAt candidates instances registrations s.path name id := by
    intro name id
    rw [lists_filter, (hviews name).1, hlocal s hin]
  have hinherited : ∀ name id, Lists ((mergeProviders (rest.map fun q =>
        providersAmong registrations (localInstanceIds instances q))).filter fun p =>
          within (intersectViews ((s :: rest).map ScopePlan.capabilities)) p.1) name id ↔
      Admitted specs ScopeSpec.capabilities s.path name ∧ ∃ parent, s.parent = some parent ∧
        ∃ a, OnLineage specs parent a ∧
          ProvidedAt candidates instances registrations a name id := by
    intro name id
    rw [lists_filter, (hviews name).1, lists_mergeProviders, ← habove (f := fun a =>
      ProvidedAt candidates instances registrations a name id)]
    refine and_congr_right fun _ => ⟨?_, ?_⟩
    · rintro ⟨m, hm, hlist⟩
      obtain ⟨q, hq, rfl⟩ := List.mem_map.1 hm
      exact ⟨q, hq, (hlocal q ((hrest q).1 hq).1 name id).1 hlist⟩
    · rintro ⟨q, hq, hprov⟩
      exact ⟨_, List.mem_map_of_mem hq, (hlocal q ((hrest q).1 hq).1 name id).2 hprov⟩
  have howned : ∀ name, name ∈ (localToolNames instances plans tools s.path).filter
        (within (intersectViews ((s :: rest).map ScopePlan.tools))) ↔
      Admitted specs ScopeSpec.tools s.path name ∧ ToolAt instances plans tools s.path name := by
    intro name
    rw [List.mem_filter, (hviews name).2, mem_localToolNames hp, and_comm]
  have htools : ∀ name, name ∈ (nameSet (rest.flatMap fun q =>
        localToolNames instances plans tools q.path)).filter
          (within (intersectViews ((s :: rest).map ScopePlan.tools))) ↔
      Admitted specs ScopeSpec.tools s.path name ∧ ∃ parent, s.parent = some parent ∧
        ∃ a, OnLineage specs parent a ∧ ToolAt instances plans tools a name := by
    intro name
    rw [List.mem_filter, (hviews name).2, mem_nameSet, List.mem_flatMap, and_comm,
      ← habove (f := fun a => ToolAt instances plans tools a name)]
    exact and_congr_right fun _ => exists_congr fun q => and_congr_right fun _ =>
      mem_localToolNames hp instances tools
  refine ⟨_, bind_ok.2 ⟨_, hchain, rfl⟩, rfl, rfl, ?_, hinherited, ?_, ?_, htools⟩
  · intro name id
    refine lists_mergeProviders.trans ?_
    rw [List.exists_mem_cons_iff, List.exists_mem_cons_iff]
    refine (or_congr (hhere name id) (or_congr_left (hinherited name id))).trans ?_
    show _ ↔ Admitted specs ScopeSpec.capabilities s.path name ∧ ∃ a, OnLineage specs s.path a ∧ _
    rw [hlineage]
    simp only [List.not_mem_nil, false_and, exists_false, or_false, ← and_or_left]
  · intro p hpin
    obtain ⟨m, hm, q, hq, hname⟩ := mergeProviders_name hpin
    rw [← hname]
    refine (hviews q.1).1.1 ?_
    rcases List.mem_cons.1 hm with rfl | hm
    · exact (List.mem_filter.1 hq).2
    · rw [List.mem_singleton.1 hm] at hq
      exact (List.mem_filter.1 hq).2
  · intro name
    refine mem_nameSet.trans (List.mem_append.trans ?_)
    refine (or_congr (howned name) (htools name)).trans ?_
    show _ ↔ Admitted specs ScopeSpec.tools s.path name ∧ ∃ a, OnLineage specs s.path a ∧ _
    rw [hlineage, ← and_or_left]

end

/-! ## the tree -/

/-- an entry of a scope on the lineage of `path` has an instance of that id, and no entry that
instance could belong to is declared elsewhere -/
def OwnedAbove (candidates : List PluginCandidate) (specs : List ScopeSpec)
    (instances : List PluginInstance) (path id : String) : Prop :=
  ∃ i ∈ instances, i.instanceId = id ∧ (∃ c ∈ candidates, c.entryId = i.entryId) ∧
    ∀ c ∈ candidates, c.entryId = i.entryId → OnLineage specs path c.scope

/-- A tree that narrows on the way down, and only then: what is inherited is visible above, what
is visible is owned on the lineage and admitted by it, and what is admitted is visible. -/
structure ScopeTree.Narrows (candidates : List PluginCandidate) (specs : List ScopeSpec)
    (instances : List PluginInstance) (registrations : List CapabilityRegistration)
    (tools : List RegisteredTool) (tree : ScopeTree) : Prop where
  inherits : ∀ r ∈ tree.scopes, ∀ parent, r.parent = some parent →
    ∃ above, tree.get? parent = some above ∧
      (∀ name id, Lists r.inherited name id → Lists above.visible name id) ∧
      ∀ name ∈ r.inheritedTools, name ∈ above.visibleTools
  owned : ∀ r ∈ tree.scopes, ∀ name id, Lists r.visible name id →
    OwnedAbove candidates specs instances r.path id
  ownedTools : ∀ r ∈ tree.scopes, ∀ name ∈ r.visibleTools, ∃ t ∈ tools, t.name = name ∧
    OwnedAbove candidates specs instances r.path t.ownerId
  admitted : ∀ r ∈ tree.scopes, ∀ p ∈ r.visible,
    Admitted specs ScopeSpec.capabilities r.path p.1
  admittedTools : ∀ r ∈ tree.scopes, ∀ name ∈ r.visibleTools,
    Admitted specs ScopeSpec.tools r.path name
  complete : ∀ r ∈ tree.scopes, ∀ name, Admitted specs ScopeSpec.capabilities r.path name →
    ∀ c ∈ candidates, OnLineage specs r.path c.scope →
    ∀ i, instanceByEntry instances c.entryId = some i →
    ∀ reg ∈ registrations, reg.providerId = i.instanceId → reg.key.name = name →
      Lists r.visible name i.instanceId

section
variable [Packaging] {candidates : List PluginCandidate} {specs : List ScopeSpec}

theorem OwnedBy.above {plans : List ScopePlan} (hp : ScopesPlanned candidates specs plans)
    {instances : List PluginInstance} {path a id : String} (hon : OnLineage specs path a)
    (h : OwnedBy candidates instances a id) : OwnedAbove candidates specs instances path id := by
  obtain ⟨c, hc, rfl, i, hi, rfl⟩ := h
  have hentry := List.find?_some hi
  replace hentry : i.entryId = c.entryId := of_decide_eq_true hentry
  refine ⟨i, List.mem_of_find?_eq_some hi, rfl, ⟨c, hc, hentry.symm⟩, fun d hd hde => ?_⟩
  rw [hp.distinct d hd c hc (hde.trans hentry)]
  exact hon

/-- **Scopes narrow and isolate.**  For every plan of scopes that all descend from the root, and
whatever instances, registrations and tools there are: the tree is built, and it narrows. -/
theorem scope_tree_narrows {prefer : Dict String String} {plan : ResolutionPlan}
    (hroot : ∀ s ∈ specs, OnLineage specs s.path rootScope)
    (h : resolve candidates prefer (some specs) = .ok plan) (instances : List PluginInstance)
    (registrations : List CapabilityRegistration) (tools : List RegisteredTool) :
    ∃ tree, buildScopeTree instances plan registrations tools = .ok tree ∧
      tree.Narrows candidates specs instances registrations tools := by
  have hp := resolve_planned h hroot
  have hsees := fun s (hs : s ∈ plan.scopes) =>
    resolveScope_sees hp instances registrations tools hs
  obtain ⟨resolved, hmap⟩ := mapM_total fun s hs => (hsees s hs).imp fun _ hr => hr.1
  have hscope : ∀ r ∈ resolved, ∃ s ∈ plan.scopes, r.path = s.path ∧ r.parent = s.parent ∧
      r.Sees candidates specs plan.scopes instances registrations tools := by
    intro r hr
    obtain ⟨s, hs, hok⟩ := mapM_ok_mem hmap hr
    obtain ⟨r', hok', hspec⟩ := hsees s hs
    obtain rfl := Except.ok.inj (hok.symm.trans hok')
    exact ⟨s, hs, hspec⟩
  have hplan : ∀ s ∈ plan.scopes, ∃ r ∈ resolved, r.path = s.path := by
    intro s hs
    obtain ⟨r, hr, hok⟩ := mapM_ok_mem_left hmap hs
    obtain ⟨r', hok', hpath, -⟩ := hsees s hs
    obtain rfl := Except.ok.inj (hok.symm.trans hok')
    exact ⟨r, hr, hpath⟩
  obtain ⟨root, hroot⟩ : ∃ root, buildScopeTree instances plan registrations tools =
      .ok ⟨root, resolved⟩ := by
    unfold buildScopeTree
    split
    · rename_i hnil
      exact absurd hnil hp.nonempty
    · rename_i s _ _
      exact ⟨s.path, bind_ok.2 ⟨resolved, hmap, rfl⟩⟩
  refine ⟨_, hroot, ?_, ?_, ?_, ?_, ?_, ?_⟩
  · intro r hr parent hparent
    obtain ⟨s, hs, hpath, hsparent, hr⟩ := hscope r hr
    obtain ⟨p, hpin, rfl⟩ := hp.closed s hs parent (hsparent.symm.trans hparent)
    obtain ⟨q, hq, hqpath⟩ := hplan p hpin
    obtain ⟨above, habove⟩ : ∃ above, resolved.find? (fun r => decide (r.path = p.path)) =
        some above := by
      rw [← Option.isSome_iff_exists, List.find?_isSome]
      exact ⟨q, hq, decide_eq_true hqpath⟩
    have hapath := List.find?_some habove
    replace hapath : above.path = p.path := of_decide_eq_true hapath
    obtain ⟨-, -, -, -, ha⟩ := hscope above (List.mem_of_find?_eq_some habove)
    have hup : OnLineage specs r.path p.path := by
      rw [hpath]
      exact .single ((hp.parentOf hs).2 (hsparent.symm.trans hparent))
    refine ⟨above, habove, fun name id hlist => ?_, fun name hname => ?_⟩
    · obtain ⟨hadm, w, hw, a, hon, hprov⟩ := (hr.inherited name id).1 hlist
      obtain rfl := Option.some.inj (hparent.symm.trans hw)
      exact (ha.visible name id).2 ⟨hapath ▸ hadm.above hup, a, hapath ▸ hon, hprov⟩
    · obtain ⟨hadm, w, hw, a, hon, htool⟩ := (hr.inheritedTools name).1 hname
      obtain rfl := Option.some.inj (hparent.symm.trans hw)
      exact (ha.visibleTools name).2 ⟨hapath ▸ hadm.above hup, a, hapath ▸ hon, htool⟩
  · intro r hr name id hlist
    obtain ⟨-, -, -, -, hr⟩ := hscope r hr
    obtain ⟨-, a, hon, hprov⟩ := (hr.visible name id).1 hlist
    exact hprov.1.above hp hon
  · intro r hr name hname
    obtain ⟨-, -, -, -, hr⟩ := hscope r hr
    obtain ⟨-, a, hon, t, ht, htname, hscope⟩ := (hr.visibleTools name).1 hname
    exact ⟨t, ht, htname, (toolScope_owned hp instances hscope).above hp hon⟩
  · intro r hr
    obtain ⟨-, -, -, -, hr⟩ := hscope r hr
    exact hr.names
  · intro r hr name hname
    obtain ⟨-, -, -, -, hr⟩ := hscope r hr
    exact ((hr.visibleTools name).1 hname).1
  · rintro r hr name hadm c hc hon i hi reg hreg hprov hname
    obtain ⟨-, -, -, -, hr⟩ := hscope r hr
    refine (hr.visible name i.instanceId).2 ⟨hadm, c.scope, hon, ?_, reg, hreg, hprov, hname⟩
    exact ⟨c, hc, rfl, i, hi, rfl⟩

theorem CompositionTree.Branching.descends {t : CompositionTree} (hb : t.Branching) :
    ∀ s ∈ t.specs, OnLineage t.specs s.path rootScope := by
  have hall : ∀ n, ∀ d ∈ t.ordered, d.path.toList.length < n →
      OnLineage t.specs d.path rootScope := by
    intro n
    induction n with
    | zero => exact fun d _ hlen => absurd hlen (Nat.not_lt_zero _)
    | succ n ih =>
      intro d hd hlen
      by_cases hroot : d.path = rootScope
      · rw [hroot]
        exact .refl
      · obtain ⟨parent, hparent, hjoin, hname, hdecl⟩ := hb.below (hb.mem_ordered.1 hd) hroot
        obtain ⟨p, hp⟩ := Option.isSome_iff_exists.1 hdecl
        have hkey : p.path = parent := hb.keyed hp
        have hshorter := length_joinPath parent hname
        rw [← hjoin] at hshorter
        refine .head ⟨toSpec d, List.mem_map_of_mem hd, rfl, hparent⟩ ?_
        rw [← hkey]
        refine ih p (hb.mem_ordered.2 (hkey.symm ▸ hp)) ?_
        rw [hkey]
        omega
  intro s hs
  obtain ⟨d, hd, rfl⟩ := List.mem_map.1 hs
  exact hall _ d hd (Nat.lt_succ_self _)

end

section
open scoped Plain

def webTree : CompositionTree :=
  match ({} : CompositionTree).attach rootScope "web" (some ["db"]) none Dict.empty with
  | .ok t => t
  | .error _ => {}

theorem webTree_branching : webTree.Branching := by
  unfold webTree
  split
  · rename_i ht
    exact CompositionTree.branching_new.attach ht
  · exact CompositionTree.branching_new

/-- `db` is provided at the root, and consumed below it -/
def webCandidates : List PluginCandidate :=
  [plainCandidate "db" [("db", "1.2.0")] [] [],
    { plainCandidate "app" [] [("db", ">=1")] [] with scope := "/web" }]

def dbInstance : PluginInstance where
  instanceId := "plugin_0000"
  entryId := "db"
  manifest := (plainCandidate "db" [("db", "1.2.0")] [] []).manifest
  plugin := ⟨(plainCandidate "db" [("db", "1.2.0")] [] []).manifest, Dict.empty, "plugins.db", 0⟩
  scopeId := "scope_0001"
  config := Dict.empty
  resolved := Dict.empty
  entryRevision := 1
  state := .active

def dbRegistration : CapabilityRegistration :=
  ⟨"cap_0002", ⟨"db", "1", CapabilityKey.named_db, CapabilityKey.generation_one⟩, ⟨"1.2.0"⟩, "plugin_0000",
    "plugin-db", "scope_0001"⟩

theorem scope_tree_narrows_web : ∃ plan tree,
    resolve webCandidates Dict.empty (some webTree.specs) = .ok plan ∧
    buildScopeTree [dbInstance] plan [dbRegistration] [] = .ok tree ∧
    (tree.get? "/web").map ResolvedScope.inherited = some [("db", ["plugin_0000"])] ∧
    tree.Narrows webCandidates webTree.specs [dbInstance] [dbRegistration] [] := by
  obtain ⟨plan, hplan, hf⟩ := ok_of_map (resolve webCandidates Dict.empty (some webTree.specs))
    (fun plan => (buildScopeTree [dbInstance] plan [dbRegistration] []).toOption.bind fun tree =>
      (tree.get? "/web").map ResolvedScope.inherited)
    (some [("db", ["plugin_0000"])]) (by decide +kernel)
  obtain ⟨tree, htree, hnarrows⟩ := scope_tree_narrows webTree_branching.descends hplan
    [dbInstance] [dbRegistration] []
  rw [htree] at hf
  exact ⟨plan, tree, hplan, htree, hf, hnarrows⟩

end

end Chassis
