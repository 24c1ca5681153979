import Chassis.Composition.Visibility

/-!
# What the fingerprint of a scope tree determines

A fingerprint records what a scope declares and provides, not what it inherits.

* `Grouped`            ids under names, in order and none without an id: its members determine it;
* `scopeChain_suffix`  the chain of an ancestor is the end of the chain;
* `lists_inherited`    what is inherited, of what the ancestors provide;
* `fingerprint_complete`   trees with one fingerprint see the same in every scope.
-/

set_option linter.unusedSectionVars false

namespace Chassis
open Py

/-! ## groups -/

theorem ordered_ext {κ : Type} [LinearOrder κ] {l l' : List κ} (h : l.Pairwise (· < ·))
    (h' : l'.Pairwise (· < ·)) (hmem : ∀ a, a ∈ l ↔ a ∈ l') : l = l' := by
  refine List.Perm.eq_of_pairwise (fun a b _ _ hab hba => ?_) h h' ?_
  · exact absurd (lt_trans hab hba) (lt_irrefl a)
  · exact (List.perm_ext_iff_of_nodup (h.imp ne_of_lt) (h'.imp ne_of_lt)).2 hmem

theorem nameSet_ordered (l : List String) : (nameSet l).Pairwise (· < ·) := by
  have hne : (nameSet l).Pairwise (· ≠ ·) := sortedBy_nodup (List.nodup_dedup l)
  exact ((sortedBy_pairwise id l.dedup).and hne).imp fun h => lt_of_le_of_ne h.1 h.2

/-- names in order, each with its ids in order, of which there is at least one -/
structure Grouped (l : List (String × List String)) : Prop where
  names : (l.map Prod.fst).Pairwise (· < ·)
  ids : ∀ p ∈ l, p.2.Pairwise (· < ·)
  inhabited : ∀ p ∈ l, ∃ id, id ∈ p.2

namespace Grouped
variable {l l' : List (String × List String)}

theorem lists_iff (h : Grouped l) {p : String × List String} (hp : p ∈ l) {id : String} :
    Lists l p.1 id ↔ id ∈ p.2 := by
  constructor
  · rintro ⟨q, hq, hname, hid⟩
    rwa [List.inj_on_of_nodup_map (h.names.imp ne_of_lt) hq hp hname] at hid
  · exact fun hid => ⟨p, hp, rfl, hid⟩

theorem subset_of_lists (h : Grouped l) (h' : Grouped l')
    (hlists : ∀ name id, Lists l name id ↔ Lists l' name id) {p : String × List String}
    (hp : p ∈ l) : p ∈ l' := by
  obtain ⟨id, hid⟩ := h.inhabited p hp
  obtain ⟨q, hq, hname, -⟩ := (hlists p.1 id).1 ⟨p, hp, rfl, hid⟩
  have hids : p.2 = q.2 := by
    refine ordered_ext (h.ids p hp) (h'.ids q hq) fun id => ?_
    rw [← h.lists_iff hp, hlists, ← hname, h'.lists_iff hq]
  rwa [Prod.ext hname.symm hids]

/-- **Its members determine a group.** -/
theorem ext (h : Grouped l) (h' : Grouped l')
    (hlists : ∀ name id, Lists l name id ↔ Lists l' name id) : l = l' := by
  have hlt := List.pairwise_map.1 h.names
  have hlt' := List.pairwise_map.1 h'.names
  refine List.Perm.eq_of_pairwise (fun a b _ _ hab hba => ?_) hlt hlt' ?_
  · exact absurd (lt_trans hab hba) (lt_irrefl a.1)
  · refine (List.perm_ext_iff_of_nodup ?_ ?_).2 fun p => ?_
    · exact hlt.imp fun hab heq => absurd (heq ▸ hab) (lt_irrefl _)
    · exact hlt'.imp fun hab heq => absurd (heq ▸ hab) (lt_irrefl _)
    · exact ⟨h.subset_of_lists h' hlists,
        h'.subset_of_lists h fun name id => (hlists name id).symm⟩

theorem filter (h : Grouped l) (q : String × List String → Bool) : Grouped (l.filter q) where
  names := h.names.sublist (List.filter_sublist.map Prod.fst)
  ids := fun p hp => h.ids p (List.mem_of_mem_filter hp)
  inhabited := fun p hp => h.inhabited p (List.mem_of_mem_filter hp)

theorem collect {names : List String} {ids : String → List String}
    (h : ∀ name ∈ names, ∃ id, id ∈ ids name) :
    Grouped ((nameSet names).map fun name => (name, nameSet (ids name))) where
  names := by
    rw [List.map_map]
    exact (nameSet_ordered names).map id fun _ _ h => h
  ids := by
    intro p hp
    obtain ⟨name, -, rfl⟩ := List.mem_map.1 hp
    exact nameSet_ordered _
  inhabited := by
    intro p hp
    obtain ⟨name, hname, rfl⟩ := List.mem_map.1 hp
    exact (h name (mem_nameSet.1 hname)).imp fun id hid => mem_nameSet.2 hid

theorem providersAmong (registrations : List CapabilityRegistration) (ids : List String) :
    Grouped (Chassis.providersAmong registrations ids) := by
  refine collect fun name hname => ?_
  obtain ⟨c, hc, rfl⟩ := List.mem_map.1 hname
  exact ⟨c.providerId, List.mem_map_of_mem (List.mem_filter.2 ⟨hc, decide_eq_true rfl⟩)⟩

theorem mergeProviders {l : List (List (String × List String))} (h : ∀ m ∈ l, Grouped m) :
    Grouped (Chassis.mergeProviders l) := by
  refine collect fun name hname => ?_
  obtain ⟨p, hp, rfl⟩ := List.mem_map.1 hname
  obtain ⟨m, hm, hpm⟩ := List.mem_flatten.1 hp
  obtain ⟨id, hid⟩ := (h m hm).inhabited p hpm
  exact ⟨id, List.mem_flatMap.2 ⟨p, List.mem_filter.2 ⟨hp, decide_eq_true rfl⟩, hid⟩⟩

end Grouped

/-! ## chains -/

section
variable [Packaging] {plans plans' : List ScopePlan}

theorem scopeChain_length {n : Nat} {path : String} {chain : List ScopePlan}
    (h : scopeChain plans n path = .ok chain) : chain.length ≤ n := by
  induction n generalizing path chain with
  | zero => cases h
  | succ n ih =>
    simp only [scopeChain] at h
    split at h
    · cases h
    · split at h
      · cases h
        exact Nat.succ_le_succ (Nat.zero_le n)
      · rename_i parent _
        rcases hrest : scopeChain plans n parent with e | rest
        · rw [hrest] at h
          cases h
        · rw [hrest] at h
          cases h
          exact Nat.succ_le_succ (ih hrest)

/-- **The chain of an ancestor** is the end of the chain. -/
theorem scopeChain_suffix {n : Nat} {path : String} {chain : List ScopePlan}
    (h : scopeChain plans n path = .ok chain) {q : ScopePlan} (hq : q ∈ chain) :
    q ∈ plans ∧ ∃ rest, scopeChain plans n q.path = .ok (q :: rest) ∧ q :: rest <:+ chain := by
  induction n generalizing path chain with
  | zero => cases h
  | succ n ih =>
    have hchain := h
    simp only [scopeChain] at h
    split at h
    · cases h
    · rename_i p hfind
      have hin := List.mem_of_find?_eq_some hfind
      have hpath := List.find?_some hfind
      obtain rfl : p.path = path := of_decide_eq_true hpath
      split at h
      · cases h
        obtain rfl := List.mem_singleton.1 hq
        exact ⟨hin, [], hchain, List.suffix_rfl⟩
      · rename_i parent _
        rcases hrest : scopeChain plans n parent with e | rest
        · rw [hrest] at h
          cases h
        · rw [hrest] at h
          cases h
          rcases List.mem_cons.1 hq with rfl | hq
          · exact ⟨hin, rest, hchain, List.suffix_rfl⟩
          · obtain ⟨hin', rest', hrest', hsuffix⟩ := ih hrest hq
            refine ⟨hin', rest', ?_, hsuffix.trans (List.suffix_cons p rest)⟩
            exact scopeChain_enough hrest' ((scopeChain_length hrest').trans (Nat.le_succ n))

theorem find?_alike {α : Type} {A : α → α → Prop} {key : α → String}
    (hA : ∀ s s', A s s' → key s = key s') {l l' : List α} (h : List.Forall₂ A l l')
    (path : String) : Option.Rel A (l.find? fun s => key s = path) (l'.find? fun s => key s = path) := by
  induction h with
  | nil => exact .none
  | @cons s s' l l' hs _ ih =>
    rw [List.find?_cons, List.find?_cons, hA s s' hs]
    split
    · exact .some hs
    · exact ih

theorem scopeChain_alike {A : ScopePlan → ScopePlan → Prop}
    (hA : ∀ s s', A s s' → s.path = s'.path ∧ s.parent = s'.parent)
    (h : List.Forall₂ A plans plans') {n : Nat} {path : String} {chain chain' : List ScopePlan}
    (hchain : scopeChain plans n path = .ok chain) (hchain' : scopeChain plans' n path = .ok chain') :
    List.Forall₂ A chain chain' := by
  induction n generalizing path chain chain' with
  | zero => cases hchain
  | succ n ih =>
    have hrel := find?_alike (fun s s' hs => (hA s s' hs).1) h path
    simp only [scopeChain] at hchain hchain'
    revert hchain hchain'
    generalize plans.find? (fun s => s.path = path) = found at hrel ⊢
    generalize plans'.find? (fun s => s.path = path) = found' at hrel ⊢
    intro hchain hchain'
    cases hrel with
    | none => cases hchain
    | @some s s' hs =>
      simp only at hchain hchain'
      rw [← (hA s s' hs).2] at hchain'
      cases hparent : s.parent with
      | none =>
        rw [hparent] at hchain hchain'
        cases hchain
        cases hchain'
        exact .cons hs .nil
      | some parent =>
        rw [hparent] at hchain hchain'
        simp only at hchain hchain'
        rcases hrest : scopeChain plans n parent with e | rest
        · rw [hrest] at hchain
          cases hchain
        · rcases hrest' : scopeChain plans' n parent with e' | rest'
          · rw [hrest'] at hchain'
            cases hchain'
          · rw [hrest] at hchain
            rw [hrest'] at hchain'
            cases hchain
            cases hchain'
            exact .cons hs (ih hrest hrest')

end

/-! ## what is inherited -/

section
variable [Packaging] {instances instances' : List PluginInstance} {plans plans' : List ScopePlan}
  {registrations registrations' : List CapabilityRegistration} {tools tools' : List RegisteredTool}
  {s s' : ScopePlan} {r r' : ResolvedScope}

theorem resolveScope_grouped (h : resolveScope instances plans registrations tools s = .ok r) :
    Grouped r.inherited ∧ Grouped r.visible := by
  obtain ⟨chain, -, h⟩ := bind_ok.1 h
  cases h
  have hinherited : ∀ m ∈ chain.tail.map fun s =>
      providersAmong registrations (localInstanceIds instances s), Grouped m := by
    intro m hm
    obtain ⟨q, -, rfl⟩ := List.mem_map.1 hm
    exact .providersAmong _ _
  refine ⟨(Grouped.mergeProviders hinherited).filter _, .mergeProviders fun m hm => ?_⟩
  rcases List.mem_cons.1 hm with rfl | hm
  · exact (Grouped.providersAmong _ _).filter _
  · rw [List.mem_singleton.1 hm]
    exact (Grouped.mergeProviders hinherited).filter _

theorem lists_visible (h : resolveScope instances plans registrations tools s = .ok r)
    {name id : String} :
    Lists r.visible name id ↔ Lists r.providers name id ∨ Lists r.inherited name id := by
  obtain ⟨chain, -, h⟩ := bind_ok.1 h
  cases h
  refine lists_mergeProviders.trans ?_
  rw [List.exists_mem_cons_iff, List.exists_mem_cons_iff]
  simp only [List.not_mem_nil, false_and, exists_false, or_false]

/-- **What a scope inherits** is what its ancestors provide, as far as its own view admits it: what
the view of an ancestor leaves out, the view below leaves out as well. -/
theorem lists_inherited (h : resolveScope instances plans registrations tools s = .ok r)
    {chain : List ScopePlan} (hchain : scopeChain plans (plans.length + 1) s.path = .ok chain)
    (hall : ∀ q ∈ plans, ∃ rq, resolveScope instances plans registrations tools q = .ok rq)
    {name id : String} : Lists r.inherited name id ↔
      within (intersectViews (chain.map ScopePlan.capabilities)) name = true ∧
        ∃ q ∈ chain.tail, ∃ rq, resolveScope instances plans registrations tools q = .ok rq ∧
          Lists rq.providers name id := by
  obtain ⟨chain', hchain', h⟩ := bind_ok.1 h
  cases hchain.symm.trans hchain'
  cases h
  rw [lists_filter, lists_mergeProviders]
  refine and_congr_right fun hwithin => ?_
  constructor
  · rintro ⟨m, hm, hlists⟩
    obtain ⟨q, hq, rfl⟩ := List.mem_map.1 hm
    obtain ⟨hin, rest, hrest, hsuffix⟩ := scopeChain_suffix hchain (List.mem_of_mem_tail hq)
    obtain ⟨rq, hrq⟩ := hall q hin
    refine ⟨q, hq, rq, hrq, ?_⟩
    obtain ⟨chain', hchain', h⟩ := bind_ok.1 hrq
    cases hrest.symm.trans hchain'
    cases h
    refine lists_filter.2 ⟨?_, hlists⟩
    rw [within_intersectViews] at hwithin ⊢
    exact fun view hview => hwithin view ((hsuffix.map _).subset hview)
  · rintro ⟨q, hq, rq, hrq, hlists⟩
    obtain ⟨chain', -, h⟩ := bind_ok.1 hrq
    cases h
    exact ⟨_, List.mem_map_of_mem hq, (lists_filter.1 hlists).2⟩

/-- they are resolved to scopes that look alike -/
def Alike (resolved resolved' : ScopePlan → Except Err ResolvedScope) (s s' : ScopePlan) : Prop :=
  ∃ r r', resolved s = .ok r ∧ resolved' s' = .ok r' ∧
    ScopeTree.observable r = ScopeTree.observable r'

theorem Alike.fields (h : Alike (resolveScope instances plans registrations tools)
    (resolveScope instances' plans' registrations' tools') s s') :
    s.path = s'.path ∧ s.parent = s'.parent ∧ s.capabilities = s'.capabilities := by
  obtain ⟨r, r', hr, hr', hsame⟩ := h
  obtain ⟨chain, -, hr⟩ := bind_ok.1 hr
  obtain ⟨chain', -, hr'⟩ := bind_ok.1 hr'
  cases hr
  cases hr'
  exact ⟨congrArg ScopeTree.Observable.path hsame, congrArg ScopeTree.Observable.parent hsame,
    congrArg ScopeTree.Observable.capabilities hsame⟩

theorem lists_of_observable (h : ScopeTree.observable r = ScopeTree.observable r')
    {name id : String} : Lists r.providers name id ↔ Lists r'.providers name id := by
  have hsorted : sortedBy Prod.fst r.providers = sortedBy Prod.fst r'.providers :=
    congrArg ScopeTree.Observable.providers h
  have hmem : ∀ p, p ∈ r.providers ↔ p ∈ r'.providers := by
    intro p
    have hp : p ∈ sortedBy Prod.fst r.providers ↔ p ∈ sortedBy Prod.fst r'.providers := by
      rw [hsorted]
    exact mem_sortedBy.symm.trans (hp.trans mem_sortedBy)
  exact exists_congr fun p => and_congr_left fun _ => hmem p

/-- what a run sees through a scope -/
def ResolvedScope.sight (r : ResolvedScope) :
    List (String × List String) × List (String × List String) × List String :=
  (r.visible, r.inherited, r.visibleTools)

theorem Alike.symm {resolved resolved' : ScopePlan → Except Err ResolvedScope}
    (h : Alike resolved resolved' s s') : Alike resolved' resolved s' s := by
  obtain ⟨r, r', hr, hr', hsame⟩ := h
  exact ⟨r', r, hr', hr, hsame.symm⟩

theorem forall₂_left {α β : Type} {R : α → β → Prop} {l : List α} {l' : List β}
    (h : List.Forall₂ R l l') {a : α} (ha : a ∈ l) : ∃ b ∈ l', R a b := by
  induction h with
  | nil => cases ha
  | cons hab _ ih =>
    rcases List.mem_cons.1 ha with rfl | ha
    · exact ⟨_, List.mem_cons_self, hab⟩
    · obtain ⟨b, hb, h⟩ := ih ha
      exact ⟨b, List.mem_cons_of_mem _ hb, h⟩

theorem forall₂_right {α β : Type} {R : α → β → Prop} {l : List α} {l' : List β}
    (h : List.Forall₂ R l l') {b : β} (hb : b ∈ l') : ∃ a ∈ l, R a b := by
  induction h with
  | nil => cases hb
  | cons hab _ ih =>
    rcases List.mem_cons.1 hb with rfl | hb
    · exact ⟨_, List.mem_cons_self, hab⟩
    · obtain ⟨a, ha, h⟩ := ih hb
      exact ⟨a, List.mem_cons_of_mem _ ha, h⟩

theorem forall₂_tail {α β : Type} {R : α → β → Prop} {l : List α} {l' : List β}
    (h : List.Forall₂ R l l') : List.Forall₂ R l.tail l'.tail := by
  cases h with
  | nil => exact .nil
  | cons _ h => exact h

theorem inherited_alike (hplans : List.Forall₂ (Alike
      (resolveScope instances plans registrations tools)
      (resolveScope instances' plans' registrations' tools')) plans plans')
    (hr : resolveScope instances plans registrations tools s = .ok r)
    (hr' : resolveScope instances' plans' registrations' tools' s' = .ok r')
    (hsame : ScopeTree.observable r = ScopeTree.observable r') {name id : String}
    (h : Lists r.inherited name id) : Lists r'.inherited name id := by
  obtain ⟨chain, hchain, -⟩ := bind_ok.1 hr
  obtain ⟨chain', hchain', -⟩ := bind_ok.1 hr'
  have hpath : s.path = s'.path := (Alike.fields ⟨r, r', hr, hr', hsame⟩).1
  have hfollows : scopeChain plans' (plans.length + 1) s.path = .ok chain' := by
    rw [hplans.length_eq, hpath]
    exact hchain'
  have hchains := scopeChain_alike (fun _ _ hs => ⟨hs.fields.1, hs.fields.2.1⟩) hplans hchain hfollows
  have hall : ∀ q ∈ plans, ∃ rq, resolveScope instances plans registrations tools q = .ok rq := by
    intro q hq
    obtain ⟨-, -, rq, -, hrq, -⟩ := forall₂_left hplans hq
    exact ⟨rq, hrq⟩
  have hall' : ∀ q ∈ plans', ∃ rq,
      resolveScope instances' plans' registrations' tools' q = .ok rq := by
    intro q hq
    obtain ⟨-, -, -, rq, -, hrq, -⟩ := forall₂_right hplans hq
    exact ⟨rq, hrq⟩
  obtain ⟨hwithin, q, hq, rq, hrq, hlists⟩ := (lists_inherited hr hchain hall).1 h
  refine (lists_inherited hr' hchain' hall').2 ⟨?_, ?_⟩
  · rw [within_intersectViews] at hwithin ⊢
    intro view hview
    obtain ⟨q', hq', rfl⟩ := List.mem_map.1 hview
    obtain ⟨q, hq, halike⟩ := forall₂_right hchains hq'
    rw [← halike.fields.2.2]
    exact hwithin _ (List.mem_map_of_mem hq)
  · obtain ⟨q', hq', r₁, r₂, hr₁, hr₂, hsame'⟩ := forall₂_left (forall₂_tail hchains) hq
    cases hrq.symm.trans hr₁
    exact ⟨q', hq', r₂, hr₂, (lists_of_observable hsame').1 hlists⟩

/-- in plans that are alike throughout, scopes that look alike see the same -/
theorem sight_eq (hplans : List.Forall₂ (Alike (resolveScope instances plans registrations tools)
      (resolveScope instances' plans' registrations' tools')) plans plans')
    (hr : resolveScope instances plans registrations tools s = .ok r)
    (hr' : resolveScope instances' plans' registrations' tools' s' = .ok r')
    (hsame : ScopeTree.observable r = ScopeTree.observable r') : r.sight = r'.sight := by
  have hback : List.Forall₂ (Alike (resolveScope instances' plans' registrations' tools')
      (resolveScope instances plans registrations tools)) plans' plans :=
    .flip (hplans.imp fun _ _ h => h.symm)
  have hinherited : ∀ name id, Lists r.inherited name id ↔ Lists r'.inherited name id :=
    fun name id => ⟨inherited_alike hplans hr hr' hsame, inherited_alike hback hr' hr hsame.symm⟩
  have hvisible : ∀ name id, Lists r.visible name id ↔ Lists r'.visible name id := by
    intro name id
    rw [lists_visible hr, lists_visible hr', hinherited, lists_of_observable hsame]
  obtain ⟨hg, hg'⟩ := resolveScope_grouped hr
  obtain ⟨hi, hi'⟩ := resolveScope_grouped hr'
  unfold ResolvedScope.sight
  rw [hg'.ext hi' hvisible, hg.ext hi hinherited]
  exact congrArg (fun tools => (r'.visible, r'.inherited, tools))
    (congrArg ScopeTree.Observable.visibleTools hsame)

theorem sight_flat (hr : resolveScope instances [s] registrations tools s = .ok r)
    (hsame : ScopeTree.observable ScopeTree.flatRoot = ScopeTree.observable r) :
    ScopeTree.flatRoot.sight = r.sight := by
  have hchain : scopeChain [s] 2 s.path = .ok [s] := by
    obtain ⟨chain, -, h⟩ := bind_ok.1 hr
    cases h
    have hparent : s.parent = none := (congrArg ScopeTree.Observable.parent hsame).symm
    simp only [scopeChain, List.find?_cons, decide_true, hparent]
  have hempty : ∀ name id, ¬ Lists [] name id := by
    rintro name id ⟨_, h, -⟩
    cases h
  have hinherited : ∀ name id, Lists [] name id ↔ Lists r.inherited name id := by
    intro name id
    rw [lists_inherited hr hchain fun q hq => ⟨r, List.mem_singleton.1 hq ▸ hr⟩]
    refine iff_of_false (hempty name id) ?_
    rintro ⟨_, _, h, -⟩
    cases h
  have hvisible : ∀ name id, Lists [] name id ↔ Lists r.visible name id := by
    intro name id
    rw [lists_visible hr, ← hinherited, ← lists_of_observable hsame]
    exact iff_of_false (hempty name id) fun h => h.elim (hempty name id) (hempty name id)
  have hnil : Grouped [] := ⟨.nil, fun _ h => (by cases h), fun _ h => (by cases h)⟩
  obtain ⟨hg, hg'⟩ := resolveScope_grouped hr
  show ([], [], []) = r.sight
  unfold ResolvedScope.sight
  rw [← hnil.ext hg hinherited, ← hnil.ext hg' hvisible]
  exact congrArg (fun tools => ([], [], tools)) (congrArg ScopeTree.Observable.visibleTools hsame)

theorem buildScopeTree_ok {plan : ResolutionPlan} {t : ScopeTree}
    (h : buildScopeTree instances plan registrations tools = .ok t) :
    t.scopes = [ScopeTree.flatRoot] ∨ List.Forall₂ (fun s r =>
      resolveScope instances plan.scopes registrations tools s = .ok r) plan.scopes t.scopes := by
  unfold buildScopeTree at h
  split at h
  · cases h
    exact Or.inl rfl
  · obtain ⟨resolved, hresolved, h⟩ := bind_ok.1 h
    cases h
    exact Or.inr (mapM_ok.1 hresolved)

theorem alike_of_observable {resolved resolved' : ScopePlan → Except Err ResolvedScope}
    {scopes scopes' : List ResolvedScope}
    (h : List.Forall₂ (fun s r => resolved s = .ok r) plans scopes)
    (h' : List.Forall₂ (fun s r => resolved' s = .ok r) plans' scopes')
    (hsame : scopes.map ScopeTree.observable = scopes'.map ScopeTree.observable) :
    List.Forall₂ (Alike resolved resolved') plans plans' ∧
      ∀ {P : ResolvedScope → ResolvedScope → Prop}, (∀ s s' r r', resolved s = .ok r →
        resolved' s' = .ok r' → ScopeTree.observable r = ScopeTree.observable r' → P r r') →
        List.Forall₂ P scopes scopes' := by
  induction h generalizing plans' scopes' with
  | nil =>
    cases h' with
    | nil => exact ⟨.nil, fun _ => .nil⟩
    | cons _ _ => cases hsame
  | cons hs _ ih =>
    cases h' with
    | nil => cases hsame
    | cons hs' h' =>
      rw [List.map_cons, List.map_cons, List.cons.injEq] at hsame
      obtain ⟨halike, hrest⟩ := ih h' hsame.2
      exact ⟨.cons ⟨_, _, hs, hs', hsame.1⟩ halike,
        fun hP => .cons (hP _ _ _ _ hs hs' hsame.1) (hrest hP)⟩

/-- the same path, and the same sight -/
def SightAlike (r r' : ResolvedScope) : Prop := r.path = r'.path ∧ r.sight = r'.sight

theorem sights_flat {scopes : List ResolvedScope}
    (h : List.Forall₂ (fun s r => resolveScope instances plans registrations tools s = .ok r)
      plans scopes)
    (hsame : [ScopeTree.flatRoot].map ScopeTree.observable = scopes.map ScopeTree.observable) :
    List.Forall₂ SightAlike [ScopeTree.flatRoot] scopes := by
  cases h with
  | nil => cases hsame
  | cons hs h =>
    cases h with
    | nil =>
      rw [List.map_cons, List.map_cons, List.cons.injEq] at hsame
      exact .cons ⟨congrArg ScopeTree.Observable.path hsame.1, sight_flat hs hsame.1⟩ .nil
    | cons _ _ => exact absurd (congrArg List.length hsame) (by simp)

/-- **A fingerprint is complete.**  Trees with the same fingerprint have the same scopes, and in each
of them the same providers of every capability are visible and inherited, and the same tools are
visible. -/
theorem fingerprint_complete {plan plan' : ResolutionPlan} {t t' : ScopeTree}
    (ht : buildScopeTree instances plan registrations tools = .ok t)
    (ht' : buildScopeTree instances' plan' registrations' tools' = .ok t')
    (hsame : t.fingerprint = t'.fingerprint) (path : String) :
    (t.get? path).map ResolvedScope.sight = (t'.get? path).map ResolvedScope.sight := by
  have hscopes : t.scopes.map ScopeTree.observable = t'.scopes.map ScopeTree.observable :=
    congrArg Prod.snd hsame
  have hsights : List.Forall₂ SightAlike t.scopes t'.scopes := by
    rcases buildScopeTree_ok ht with hroot | hplans
    · rcases buildScopeTree_ok ht' with hroot' | hplans'
      · rw [hroot, hroot']
        exact .cons ⟨rfl, rfl⟩ .nil
      · rw [hroot] at hscopes ⊢
        exact sights_flat hplans' hscopes
    · rcases buildScopeTree_ok ht' with hroot' | hplans'
      · rw [hroot'] at hscopes ⊢
        exact .flip ((sights_flat hplans hscopes.symm).imp fun _ _ h => ⟨h.1.symm, h.2.symm⟩)
      · obtain ⟨halike, hall⟩ := alike_of_observable hplans hplans' hscopes
        refine hall fun s s' r r' hr hr' hlook => ⟨?_, sight_eq halike hr hr' hlook⟩
        exact congrArg ScopeTree.Observable.path hlook
  have hrel := find?_alike (fun r r' h => h.1) hsights path
  unfold ScopeTree.get?
  revert hrel
  generalize t.scopes.find? (fun r => r.path = path) = found
  generalize t'.scopes.find? (fun r => r.path = path) = found'
  intro hrel
  cases hrel with
  | none => rfl
  | some h => exact congrArg some h.2

end

section
open scoped Plain

/-- a registration of an instance that is not mounted -/
def strayRegistration : CapabilityRegistration :=
  { dbRegistration with registrationId := "cap_0003", providerId := "plugin_0009" }

theorem fingerprint_complete_web : ∃ plan t t',
    resolve webCandidates Dict.empty (some webTree.specs) = .ok plan ∧
    buildScopeTree [dbInstance] plan [dbRegistration] [] = .ok t ∧
    buildScopeTree [dbInstance] plan [strayRegistration, dbRegistration] [] = .ok t' ∧
    (t.get? "/web").map ResolvedScope.sight =
      some ([("db", ["plugin_0000"])], [("db", ["plugin_0000"])], []) ∧
    (t.get? "/web").map ResolvedScope.sight = (t'.get? "/web").map ResolvedScope.sight := by
  obtain ⟨plan, hplan, hf⟩ := ok_of_map (resolve webCandidates Dict.empty (some webTree.specs))
    (fun plan => (do
      let t ← (buildScopeTree [dbInstance] plan [dbRegistration] []).toOption
      let t' ← (buildScopeTree [dbInstance] plan [strayRegistration, dbRegistration] []).toOption
      let seen ← (t.get? "/web").map ResolvedScope.sight
      return decide (t.fingerprint = t'.fingerprint) &&
        decide (seen = ([("db", ["plugin_0000"])], [("db", ["plugin_0000"])], [])) : Option Bool))
    (some true) (by decide +kernel)
  obtain ⟨t, ht, hf⟩ := Option.bind_eq_some_iff.1 hf
  obtain ⟨t', ht', hf⟩ := Option.bind_eq_some_iff.1 hf
  obtain ⟨seen, hseen, hf⟩ := Option.bind_eq_some_iff.1 hf
  have hboth := Bool.and_eq_true_iff.1 (Option.some.inj hf)
  have ht := ok_of_toOption ht
  have ht' := ok_of_toOption ht'
  refine ⟨plan, t, t', hplan, ht, ht', ?_, ?_⟩
  · rw [hseen, of_decide_eq_true hboth.2]
  · exact fingerprint_complete ht ht' (of_decide_eq_true hboth.1) "/web"

end

end Chassis
