import Chassis.Harness.Orderly

/-!
# What the operations on agents do

* `pathOf_segments`     a canonical path is that of its names;
* `Grown`            a path and the ancestors it lacked are declared, and nothing else changes;
* `Reshaped`            a scope declares something else, where it is;
* `declareAgent_effect`   what a materialization does, as far as it gets;
* `Attempted.undeclare_present`, `Attempted.undeclare_absent`   what undoes it.
-/

set_option linter.unusedSectionVars false

namespace Chassis
open Py Coop

/-! ## canonical paths -/

theorem canonicalScopePath_absolute {path path' : String} (h : canonicalScopePath path = .ok path') :
    ∃ rest, path.toList = '/' :: rest := by
  unfold canonicalScopePath at h
  split at h
  · cases h
  · rename_i habs
    have hpre : startsWith path "/" = true := by simpa using habs
    obtain ⟨rest, hrest⟩ := List.isPrefixOf_iff_prefix.1 hpre
    exact ⟨rest, hrest.symm⟩

section
open Harness

theorem validName_of_segments {path path' : String} (h : canonicalScopePath path = .ok path')
    {name : String} (hn : name ∈ segments path) : ValidName name := by
  unfold segments at hn
  split at hn
  · cases hn
  · rename_i hroot
    rw [List.mem_reverse] at hn
    have hslash : '/' ∉ name.toList := by
      obtain ⟨piece, hpiece, rfl⟩ := List.mem_map.1 hn
      rw [String.toList_ofList]
      exact splitChars_no_sep List.not_mem_nil hpiece
    unfold canonicalScopePath at h
    split at h
    · cases h
    · split at h
      · cases h
      · simp only at h
        split at h
        · rename_i hnone
          have hgood := List.find?_eq_none.1 hnone name hn
          simp only [Bool.or_eq_true, decide_eq_true_eq, not_or] at hgood
          obtain ⟨⟨⟨hempty, hstrip⟩, hdot⟩, hdots⟩ := hgood
          unfold ValidName validateScopeName
          rw [if_neg (not_or.2 ⟨hempty, hstrip⟩), if_neg, if_neg (not_or.2 ⟨hdot, hdots⟩)]
          rw [List.contains_iff_mem]
          exact hslash
        · split at h <;> cases h

theorem toList_pathOf {l : List String} (hl : ∀ name ∈ l, ValidName name) (hne : l ≠ []) :
    (pathOf l).toList = l.reverse.flatMap fun name => '/' :: name.toList := by
  induction l with
  | nil => exact absurd rfl hne
  | cons name above ih =>
    rw [pathOf, toList_joinPath, List.reverse_cons, List.flatMap_append, List.flatMap_singleton]
    rcases above with _ | ⟨name', above⟩
    · rfl
    · rw [← ih (fun n hn => hl n (List.mem_cons_of_mem _ hn)) (List.cons_ne_nil _ _), joinBase,
        if_neg]
      exact joinPath_ne_root (hl name' (List.mem_cons_of_mem _ List.mem_cons_self))

/-- **A canonical path is that of its names.** -/
theorem pathOf_segments {path path' : String} (h : canonicalScopePath path = .ok path') :
    pathOf (segments path) = path := by
  have hvalid : ∀ name ∈ segments path, ValidName name := fun _ hn => validName_of_segments h hn
  rcases eq_or_ne path rootScope with rfl | hne
  · rfl
  · obtain ⟨rest, hrest⟩ := canonicalScopePath_absolute h
    have hseg : segments path = (split '/' (String.ofList rest)).reverse := by
      rw [segments, if_neg hne, hrest]
      rfl
    have hflat : (segments path).reverse.flatMap (fun name => '/' :: name.toList) = path.toList := by
      rw [hseg, List.reverse_reverse, split, List.flatMap_map, String.toList_ofList]
      simp only [String.toList_ofList]
      rw [splitChars_flatMap, hrest]
      rfl
    refine String.toList_inj.1 ?_
    rw [toList_pathOf hvalid ?_, hflat]
    intro hnil
    rw [hnil, hrest] at hflat
    cases hflat

theorem isWithin_length {path ancestor : String}
    (hw : CompositionTree.isWithin path ancestor = true) (hne : ancestor ≠ rootScope) :
    ancestor.toList.length ≤ path.toList.length := by
  rcases CompositionTree.isWithin_iff.1 hw with h | rfl | hpre
  · exact absurd h hne
  · exact le_refl _
  · have hlen := hpre.length_le
    rw [List.length_append] at hlen
    omega

/-! ## the scope of an agent -/

variable [Packaging] [Platform]

/-- the scopes from the root down to `path` are declared, and nothing else changed -/
structure Grown (path : String) (h h' : Harness) : Prop where
  rest : h' = { h with composition := h'.composition, dirty := h'.dirty, agents := h'.agents }
  tree : h'.composition.Branching
  kept : ∀ {p s}, h.composition.get? p = some s → h'.composition.get? p = some s
  added : ∀ {p s}, h'.composition.get? p = some s → h.composition.get? p = some s ∨
    (h.composition.get? p = none ∧ CompositionTree.isWithin path p = true ∧ s.metadata = Dict.empty)
  declared : (h'.composition.get? path).isSome
  marked : h'.dirty = true ∨ (h'.dirty = h.dirty ∧ h'.composition = h.composition)

theorem Grown.refl {path : String} {h : Harness} (hb : h.composition.Branching)
    (hdecl : (h.composition.get? path).isSome) : Grown path h h :=
  ⟨rfl, hb, fun hs => hs, fun hs => Or.inl hs, hdecl, Or.inr ⟨rfl, rfl⟩⟩

theorem Grown.attach {h h' : Harness} {parent name : String} (hp : Grown parent h h')
    (hname : ValidName name) (hnew : h.composition.get? (joinPath parent name) = none) :
    ∃ h'', h'.addScope parent name none none Dict.empty = .ok h'' ∧ h''.agents = h'.agents ∧
      Grown (joinPath parent name) h h'' := by
  have hnew' : h'.composition.get? (joinPath parent name) = none := by
    rcases hget : h'.composition.get? (joinPath parent name) with _ | s
    · rfl
    · rcases hp.added hget with hold | ⟨-, hw, -⟩
      · rw [hnew] at hold
        cases hold
      · have hle := isWithin_length hw (joinPath_ne_root hname)
        have hlt := length_joinPath parent hname
        omega
  have hatt : h'.composition.attach parent name none none Dict.empty = .ok
      ⟨h'.composition.scopes.set (joinPath parent name)
        (CompositionTree.attached parent name none none Dict.empty)⟩ :=
    CompositionTree.attach_ok.2 ⟨hname, hp.declared, hnew', rfl⟩
  refine ⟨_, bind_ok.2 ⟨_, hatt, rfl⟩, rfl, ?_⟩
  have hget : ∀ k, CompositionTree.get? ⟨h'.composition.scopes.set (joinPath parent name)
      (CompositionTree.attached parent name none none Dict.empty)⟩ k =
      if k = joinPath parent name then
        some (CompositionTree.attached parent name none none Dict.empty)
      else h'.composition.get? k := fun k => Dict.get?_set _ _ _ _
  refine ⟨?_, hp.tree.attach hatt, ?_, ?_, ?_, Or.inl rfl⟩
  · rw [hp.rest]
    rfl
  · intro p s hs
    refine (hget p).trans ?_
    rw [if_neg]
    · exact hp.kept hs
    · rintro rfl
      rw [hnew] at hs
      cases hs
  · intro p s hs
    replace hs := (hget p).symm.trans hs
    split at hs
    · rename_i hpath
      subst hpath
      cases hs
      exact Or.inr ⟨hnew, CompositionTree.isWithin_refl _, rfl⟩
    · rcases hp.added hs with hold | ⟨hnone, hw, hmeta⟩
      · exact Or.inl hold
      · exact Or.inr ⟨hnone, (CompositionTree.isWithin_joinPath hname).2 (Or.inr hw), hmeta⟩
  · exact Option.isSome_iff_exists.2 ⟨_, (hget (joinPath parent name)).trans (if_pos rfl)⟩

theorem ensureScope_grown {h : Harness} (hb : h.composition.Branching) {l : List String}
    (hl : ∀ name ∈ l, ValidName name) :
    ∃ h', ensureScope h l = (.ok (), h') ∧ h'.agents = h.agents ∧ Grown (pathOf l) h h' := by
  induction l with
  | nil => exact ⟨h, rfl, rfl, .refl hb hb.root⟩
  | cons name above ih =>
    rw [ensureScope]
    split
    · rename_i hdecl
      exact ⟨h, rfl, rfl, .refl hb hdecl⟩
    · rename_i hnew
      obtain ⟨h₁, hens, hag, hp⟩ := ih fun n hn => hl n (List.mem_cons_of_mem _ hn)
      obtain ⟨h₂, hadd, hag', hp'⟩ := hp.attach (hl name List.mem_cons_self)
        (by simpa [pathOf] using hnew)
      rw [hens]
      simp only [hadd]
      exact ⟨h₂, rfl, hag'.trans hag, hp'⟩

/-- **A canonical path is provided**, and owned if it was not declared before. -/
theorem provideScope_grown {h : Harness} (hb : h.composition.Branching) {path : String}
    (hc : canonicalScopePath path = .ok path) :
    ∃ h', h.provideScope path = (.ok (), h') ∧ Grown path h h' ∧
      h'.agents = (if (h.composition.get? path).isSome then h.agents else h.agents.own path) ∧
      ((h.composition.get? path).isSome → h' = h) := by
  unfold provideScope
  split
  · rename_i hdecl
    exact ⟨h, rfl, .refl hb hdecl, rfl, fun _ => rfl⟩
  · obtain ⟨h₁, hens, hag, hp⟩ := ensureScope_grown hb fun _ hn => validName_of_segments hc hn
    rw [pathOf_segments hc] at hp
    rw [hens]
    refine ⟨_, rfl, ⟨?_, hp.tree, hp.kept, hp.added, hp.declared, hp.marked⟩, ?_, ?_⟩
    · show ({ h₁ with agents := h₁.agents.own path } : Harness) = _
      rw [hp.rest]
    · show h₁.agents.own path = h.agents.own path
      rw [hag]
    · rename_i hnew
      exact fun hdecl => absurd hdecl hnew

/-! ## what a scope declares -/

def CompositionScope.place (s : CompositionScope) : String × String × Option String :=
  (s.path, s.name, s.parent)

/-- the scope at `path` may declare something else -/
structure Reshaped (path : String) (h h' : Harness) : Prop where
  rest : h' = { h with composition := h'.composition, dirty := h'.dirty }
  others : ∀ p, p ≠ path → h'.composition.get? p = h.composition.get? p
  here : (h'.composition.get? path).map CompositionScope.place =
    (h.composition.get? path).map CompositionScope.place
  marked : h'.dirty = true ∨ (h'.dirty = h.dirty ∧ h'.composition = h.composition)

namespace Reshaped

theorem refl (path : String) (h : Harness) : Reshaped path h h :=
  ⟨rfl, fun _ _ => rfl, rfl, Or.inr ⟨rfl, rfl⟩⟩

theorem trans {path : String} {h h' h'' : Harness} (a : Reshaped path h h')
    (b : Reshaped path h' h'') : Reshaped path h h'' where
  rest := by rw [b.rest, a.rest]
  others := fun p hp => (b.others p hp).trans (a.others p hp)
  here := b.here.trans a.here
  marked := by
    rcases b.marked with hd | ⟨hd, hc⟩
    · exact Or.inl hd
    · rcases a.marked with hd' | ⟨hd', hc'⟩
      · exact Or.inl (hd.trans hd')
      · exact Or.inr ⟨hd.trans hd', hc.trans hc'⟩

theorem stays {path : String} {h h' : Harness} (a : Reshaped path h h') (hd : h.dirty = true) :
    h'.dirty = true := by
  rcases a.marked with hd' | ⟨hd', -⟩
  · exact hd'
  · exact hd'.trans hd

theorem isSome {path : String} {h h' : Harness} (a : Reshaped path h h') (p : String) :
    (h'.composition.get? p).isSome = (h.composition.get? p).isSome := by
  rcases eq_or_ne p path with rfl | hne
  · have hhere := congrArg Option.isSome a.here
    rw [Option.isSome_map, Option.isSome_map] at hhere
    exact hhere
  · rw [a.others p hne]

theorem modify (h : Harness) (path : String) {f : CompositionScope → CompositionScope}
    (hf : ∀ s, (f s).place = s.place) :
    Reshaped path h { h with composition := h.composition.modify path f, dirty := true } where
  rest := rfl
  others := fun p hp => by
    show (h.composition.modify path f).get? p = _
    rw [CompositionTree.get?_modify, if_neg hp]
  here := by
    show ((h.composition.modify path f).get? path).map _ = _
    rw [CompositionTree.get?_modify, if_pos rfl, Option.map_map]
    exact congrArg (fun g => (h.composition.get? path).map g) (funext hf)
  marked := Or.inl rfl

theorem branching {path : String} {h h' : Harness} (a : Reshaped path h h')
    (hb : h.composition.Branching) : h'.composition.Branching := by
  have hget : ∀ {p s'}, h'.composition.get? p = some s' →
      ∃ s, h.composition.get? p = some s ∧ s.place = s'.place := by
    intro p s' hs'
    rcases eq_or_ne p path with rfl | hne
    · have hhere := a.here
      rw [hs'] at hhere
      obtain ⟨s, hs, hplace⟩ := Option.map_eq_some_iff.1 hhere.symm
      exact ⟨s, hs, hplace⟩
    · exact ⟨s', (a.others p hne) ▸ hs', rfl⟩
  refine ⟨?_, ?_, ?_⟩
  · intro p s' hs'
    obtain ⟨s, hs, hplace⟩ := hget hs'
    exact (congrArg Prod.fst hplace).symm.trans (hb.keyed hs)
  · rw [a.isSome]
    exact hb.root
  · intro p s' hs' hne
    obtain ⟨s, hs, hplace⟩ := hget hs'
    obtain ⟨parent, hparent, hjoin, hname, hdecl⟩ := hb.below hs hne
    have hn : s.name = s'.name := congrArg (fun x => x.2.1) hplace
    have hp : s.parent = s'.parent := congrArg (fun x => x.2.2) hplace
    refine ⟨parent, hp ▸ hparent, hn ▸ hjoin, hn ▸ hname, ?_⟩
    rw [a.isSome]
    exact hdecl

end Reshaped

namespace Harness
variable (h : Harness) (path : String)

theorem changeScope_reshaped (change : ScopeChange) :
    Reshaped path h (h.changeScope path change) :=
  .modify h path fun _ => by cases change <;> rfl

theorem dropRequirement_reshaped (capability : String) :
    Reshaped path h (h.dropRequirement path capability).2 := by
  unfold dropRequirement
  simp only
  split
  · exact .modify h path (f := fun s => { s with
      requirements := s.requirements.erase capability }) fun _ => rfl
  · exact .refl path h

theorem declareViews_reshaped (capabilities tools : Option (List String)) :
    Reshaped path h (h.declareViews path capabilities tools) ∧
      (h.declareViews path capabilities tools).dirty = true := by
  unfold declareViews
  constructor
  · cases capabilities <;> cases tools <;>
      exact (h.changeScope_reshaped path _).trans (changeScope_reshaped _ path _)
  · cases tools <;> rfl

theorem dropRequirements_reshaped : Reshaped path h (h.dropRequirements path) := by
  unfold dropRequirements
  induction h.requirementNames path generalizing h with
  | nil => exact .refl path h
  | cons name names ih => exact (h.dropRequirement_reshaped path name).trans (ih _)

theorem requireAll_reshaped (optional : Bool) (l : List (String × String)) :
    Reshaped path h (requireAll path optional l h).2 := by
  induction l generalizing h with
  | nil => exact .refl path h
  | cons p l ih =>
    rw [requireAll]
    split
    · exact .refl path h
    · rename_i h' hreq
      obtain ⟨requirement, -, hok⟩ := bind_ok.1 hreq
      cases hok
      exact (h.changeScope_reshaped path _).trans (ih _)

/-- **What a spec declares stays in its scope**; the whole of it is declared iff its specifiers
parse. -/
theorem declareScope_reshaped (spec : AgentSpec) :
    Reshaped spec.scopePath h (h.declareScope spec).2 ∧ (h.declareScope spec).2.dirty = true := by
  have hviews := h.declareViews_reshaped spec.scopePath spec.capabilities spec.tools
  have hdrop := dropRequirements_reshaped
    (h.declareViews spec.scopePath spec.capabilities spec.tools) spec.scopePath
  have h₂ := hviews.1.trans hdrop
  have hd₂ := hdrop.stays hviews.2
  unfold declareScope
  simp only
  have hreq := requireAll_reshaped ((h.declareViews spec.scopePath spec.capabilities
    spec.tools).dropRequirements spec.scopePath) spec.scopePath false
    (sortedBy Prod.fst spec.requires.items)
  split
  · rename_i e h₃ heq
    rw [heq] at hreq
    exact ⟨h₂.trans hreq, hreq.stays hd₂⟩
  · rename_i h₃ heq
    rw [heq] at hreq
    have hopt := requireAll_reshaped h₃ spec.scopePath true
      (sortedBy Prod.fst spec.optional.items)
    split
    · rename_i e h₄ heq'
      rw [heq'] at hopt
      exact ⟨(h₂.trans hreq).trans hopt, hopt.stays (hreq.stays hd₂)⟩
    · rename_i h₄ heq'
      rw [heq'] at hopt
      exact ⟨((h₂.trans hreq).trans hopt).trans (changeScope_reshaped h₄ _ _), rfl⟩

variable {h path}

theorem requireAll_none {optional : Bool} {l : List (String × String)} :
    (requireAll path optional l h).1 = none ↔
      ∀ p ∈ l, (CapabilityRequirement.parse p.1 p.2 optional).isOk = true := by
  induction l generalizing h with
  | nil => exact iff_of_true rfl fun p hp => nomatch hp
  | cons p l ih =>
    rw [requireAll, List.forall_mem_cons]
    unfold requireScope
    rcases CapabilityRequirement.parse p.1 p.2 optional with e | requirement
    · exact iff_of_false (fun h => nomatch h) fun h => nomatch h.1
    · exact ih.trans ⟨fun h => ⟨rfl, h⟩, fun h => h.2⟩

end Harness

def AgentSpec.parses (spec : AgentSpec) : Bool :=
  spec.requires.items.all (fun p => (CapabilityRequirement.parse p.1 p.2 false).isOk) &&
    spec.optional.items.all fun p => (CapabilityRequirement.parse p.1 p.2 true).isOk

namespace Harness
variable {h : Harness} {path : String}

theorem declareScope_none (spec : AgentSpec) :
    (h.declareScope spec).1 = none ↔ spec.parses = true := by
  have hsorted : ∀ (optional : Bool) (d : Dict String String) (h : Harness),
      (requireAll spec.scopePath optional (sortedBy Prod.fst d.items) h).1 = none ↔
        d.items.all (fun p => (CapabilityRequirement.parse p.1 p.2 optional).isOk) = true := by
    intro optional d h
    rw [requireAll_none, List.all_eq_true]
    exact forall_congr' fun p => by rw [mem_sortedBy]
  unfold AgentSpec.parses
  rw [Bool.and_eq_true, ← hsorted false spec.requires ((h.declareViews spec.scopePath
    spec.capabilities spec.tools).dropRequirements spec.scopePath)]
  unfold declareScope
  simp only
  split
  · rename_i e h₃ heq
    rw [heq]
    exact iff_of_false (fun h => nomatch h) fun h => nomatch h.1
  · rename_i h₃ heq
    rw [heq, ← hsorted true spec.optional h₃]
    split
    · rename_i e h₄ heq'
      rw [heq']
      exact iff_of_false (fun h => nomatch h) fun h => nomatch h.2
    · rename_i h₄ heq'
      rw [heq']
      exact iff_of_true rfl ⟨rfl, rfl⟩

theorem declareScope_metadata {spec : AgentSpec} (hnone : (h.declareScope spec).1 = none)
    {s : CompositionScope} (hs : (h.declareScope spec).2.composition.get? spec.scopePath = some s) :
    s.metadata = agentMetadata spec := by
  unfold declareScope at hnone hs
  simp only at hnone hs
  split at hnone
  · cases hnone
  · split at hnone
    · cases hnone
    · rename_i _ h₃ heq _ h₄ heq'
      rw [heq] at hs
      simp only at hs
      rw [heq'] at hs
      replace hs : (h₄.composition.modify spec.scopePath
        (ScopeChange.apply (.setMetadata (agentMetadata spec)))).get? spec.scopePath = some s := hs
      rw [CompositionTree.get?_modify, if_pos rfl] at hs
      obtain ⟨s₀, -, rfl⟩ := Option.map_eq_some_iff.1 hs
      rfl

/-- **A scope is restored** to its metadata, in its place. -/
theorem restoreScope_reshaped (h : Harness) (path : String) (state : CompositionScope) :
    Reshaped path h (h.restoreScope path state) ∧ (h.restoreScope path state).dirty = true ∧
      ∀ {s}, (h.restoreScope path state).composition.get? path = some s →
        s.metadata = state.metadata := by
  have hfold : ∀ (l : List (String × CapabilityRequirement)) (h : Harness), Reshaped path h
      (l.foldl (fun h p => h.changeScope path (.require p.2)) h) := by
    intro l
    induction l with
    | nil => exact fun h => .refl path h
    | cons p l ih => exact fun h => (h.changeScope_reshaped path _).trans (ih _)
  have hviews := h.declareViews_reshaped path state.capabilities state.tools
  have hdrop := dropRequirements_reshaped (h.declareViews path state.capabilities state.tools) path
  refine ⟨((hviews.1.trans hdrop).trans (hfold _ _)).trans (changeScope_reshaped _ path _), rfl, ?_⟩
  intro s hs
  replace hs : (CompositionTree.modify _ path
    (ScopeChange.apply (.setMetadata state.metadata))).get? path = some s := hs
  rw [CompositionTree.get?_modify, if_pos rfl] at hs
  obtain ⟨s₀, -, rfl⟩ := Option.map_eq_some_iff.1 hs
  rfl

/-! ## its contributions -/

theorem installContributions_undoes {staged : List StagedContribution} {h₀ h h' : Harness}
    {undo undo' : List Undo} {e : Option Err} (hs : SameButEntries h₀ h) (hu : Undoes undo h₀ h)
    (hc : installContributions path staged h undo = (e, h', undo')) :
    SameButEntries h₀ h' ∧ Undoes undo' h₀ h' := by
  induction staged generalizing h undo with
  | nil =>
    cases hc
    exact ⟨hs, hu⟩
  | cons s rest ih =>
    rw [installContributions] at hc
    split at hc
    · exact ih hs hu hc
    · split at hc
      · cases hc
        exact ⟨hs, hu.restorer _⟩
      · rename_i id h₁ hi
        obtain ⟨path', plugin, entry, -, -, hp, -, hrest⟩ := Harness.installFrom_ok hi
        have htouch := PluginRegistry.install_touches hp
        have hid : entry.entryId = s.entryId := (PluginRegistry.install_ok hp).1
        refine ih (hs.trans ⟨?_, htouch.instances, htouch.byEntry⟩) ?_ hc
        · rw [hrest]
        · exact hu.cons (hid ▸ htouch)

/-- what the contributions of a spec come to, if they all can be installed -/
structure Installed (path : String) (staged : List StagedContribution) (h h' : Harness) : Prop where
  housed : ∀ s ∈ staged, ∃ e, h'.plugins.entries.get? s.entryId = some e ∧ e.scope = path
  others : ∀ id, id ∉ staged.map StagedContribution.entryId →
    h'.plugins.entries.get? id = h.plugins.entries.get? id

theorem unchanged_housed {s : StagedContribution} (hu : h.unchanged path s = true) :
    ∃ e, h.plugins.entries.get? s.entryId = some e ∧ e.scope = path := by
  unfold unchanged at hu
  split at hu
  · rename_i config e _ he
    rw [Bool.and_eq_true, Bool.and_eq_true] at hu
    exact ⟨e, he, of_decide_eq_true hu.2⟩
  · cases hu

theorem installContributions_installed {staged : List StagedContribution} {h h' : Harness}
    {undo undo' : List Undo} (hids : (staged.map StagedContribution.entryId).Nodup)
    (hpath : canonicalScopePath path = .ok path)
    (hc : installContributions path staged h undo = (none, h', undo')) :
    Installed path staged h h' := by
  induction staged generalizing h undo with
  | nil =>
    cases hc
    exact ⟨fun s hs => (nomatch hs), fun _ _ => rfl⟩
  | cons s rest ih =>
    rw [List.map_cons, List.nodup_cons] at hids
    rw [installContributions] at hc
    have hstep : ∀ {h₁ undo₁}, (∃ e, h₁.plugins.entries.get? s.entryId = some e ∧ e.scope = path) →
        (∀ id, id ≠ s.entryId → h₁.plugins.entries.get? id = h.plugins.entries.get? id) →
        installContributions path rest h₁ undo₁ = (none, h', undo') →
        Installed path (s :: rest) h h' := by
      intro h₁ undo₁ hone hothers hrest
      obtain ⟨hin, hout⟩ := ih hids.2 hrest
      refine ⟨List.forall_mem_cons.2 ⟨?_, hin⟩, fun id hid => ?_⟩
      · rw [hout _ hids.1]
        exact hone
      · rw [List.map_cons, List.mem_cons, not_or] at hid
        rw [hout id hid.2, hothers id hid.1]
    split at hc
    · rename_i hun
      exact hstep (unchanged_housed hun) (fun _ _ => rfl) hc
    · split at hc
      · cases hc
      · rename_i id h₁ hi
        obtain ⟨path', plugin, entry, hp', -, hp, -, hrest⟩ := Harness.installFrom_ok hi
        obtain ⟨hid, -, -, -, hscope, -, hplugins⟩ := PluginRegistry.install_ok hp
        have hid' : entry.entryId = s.entryId := hid
        have hpath' : path' = path := by
          obtain ⟨p, hcan, hp'⟩ := bind_ok.1 hp'
          rw [hpath] at hcan
          cases hcan
          split at hp'
          · cases hp'
          · cases hp'
            rfl
        refine hstep ⟨entry, ?_, hscope.trans hpath'⟩ (fun id hne => ?_) hc
        · rw [hplugins, ← hid']
          exact Dict.get?_set_self _ _ _
        · rw [hplugins]
          exact Dict.get?_set_ne _ _ (hid' ▸ hne)

theorem installContributions_dirty {staged : List StagedContribution} {h h' : Harness}
    {undo undo' : List Undo} {e : Option Err} (hd : h.dirty = true)
    (hc : installContributions path staged h undo = (e, h', undo')) : h'.dirty = true := by
  induction staged generalizing h undo with
  | nil =>
    cases hc
    exact hd
  | cons s rest ih =>
    rw [installContributions] at hc
    split at hc
    · exact ih hd hc
    · split at hc
      · cases hc
        exact hd
      · rename_i id h₁ hi
        obtain ⟨path', plugin, entry, -, -, -, -, hrest⟩ := Harness.installFrom_ok hi
        refine ih ?_ hc
        rw [hrest]

theorem Orderly.installContributions {staged : List StagedContribution} {h h' : Harness}
    (ho : h.Orderly) {undo undo' : List Undo} {e : Option Err}
    (hc : installContributions path staged h undo = (e, h', undo')) : h'.Orderly := by
  induction staged generalizing h undo with
  | nil =>
    cases hc
    exact ho
  | cons s rest ih =>
    rw [Harness.installContributions] at hc
    split at hc
    · exact ih ho hc
    · split at hc
      · cases hc
        exact ho
      · rename_i id h₁ hi
        exact ih (ho.installFrom hi) hc

end Harness

/-! ## staging -/

theorem agentEntryId_injective {agent p q : String} (h : agentEntryId agent p = agentEntryId agent q) :
    p = q := by
  have hlist := congrArg String.toList h
  unfold agentEntryId at hlist
  rw [String.toList_append (t := p), String.toList_append (t := q)] at hlist
  exact String.toList_inj.1 (List.append_cancel_left hlist)

/-- what was checked before anything changes -/
structure StagedFor (h : Harness) (spec : AgentSpec) (previous : Option AgentRevision)
    (staged : List StagedContribution) : Prop where
  canonical : canonicalScopePath spec.scopePath = .ok spec.scopePath
  owned : (h.composition.get? spec.scopePath).isSome →
    spec.scopePath ∈ h.agents.ownedScopePaths
  ids : staged.map StagedContribution.entryId =
    (sortedBy Prod.fst spec.plugins.items).map fun p => agentEntryId spec.name p.1
  free : ∀ s ∈ staged, (h.plugins.entry? s.entryId).isSome →
    s.entryId ∈ (previous.map AgentRevision.entries).getD []

theorem StagedFor.nodup {h : Harness} {spec : AgentSpec} {previous : Option AgentRevision}
    {staged : List StagedContribution} (hs : StagedFor h spec previous staged) :
    (staged.map StagedContribution.entryId).Nodup := by
  rw [hs.ids]
  have hkeys : ((sortedBy Prod.fst spec.plugins.items).map Prod.fst).Nodup :=
    ((sortedBy_perm Prod.fst spec.plugins.items).map Prod.fst).nodup_iff.2 spec.plugins.nodup
  rw [show (fun p : String × Contribution => agentEntryId spec.name p.1) =
    agentEntryId spec.name ∘ Prod.fst from rfl, ← List.map_map]
  exact hkeys.map fun _ _ => agentEntryId_injective

theorem Harness.stageContribution_ok {h : Harness} {spec : AgentSpec} {owned : List String}
    {p : String × Contribution} {s : StagedContribution}
    (hs : h.stageContribution spec owned p = .ok s) :
    s.entryId = agentEntryId spec.name p.1 ∧
      ((h.plugins.entry? s.entryId).isSome → s.entryId ∈ owned) := by
  unfold stageContribution at hs
  simp only at hs
  split at hs
  · cases hs
  · rename_i hfree
    have hid : s.entryId = agentEntryId spec.name p.1 := by
      split at hs
      · obtain ⟨construct, -, hs⟩ := bind_ok.1 hs
        cases hs
        rfl
      · cases hs
        rfl
      · cases hs
        rfl
    refine ⟨hid, fun hin => ?_⟩
    rw [hid] at hin ⊢
    exact by_contra fun hout => hfree ⟨hin, hout⟩

theorem Harness.stageAgent_ok {h : Harness} {spec : AgentSpec} {previous : Option AgentRevision}
    {staged : List StagedContribution} (hs : h.stageAgent spec previous = .ok staged) :
    StagedFor h spec previous staged := by
  obtain ⟨staged', hstage, hs⟩ := bind_ok.1 hs
  obtain ⟨path, hc, hs⟩ := bind_ok.1 hs
  obtain rfl := canonicalScopePath_ok hc
  split at hs
  · cases hs
  · rename_i hown
    cases hs
    refine ⟨hc, fun hdecl => by_contra fun hout => hown ⟨hdecl, hout⟩, ?_, fun s hin => ?_⟩
    · exact mapM_ok_keys (fun _ _ hp => (stageContribution_ok hp).1) hstage
    · obtain ⟨p, -, hp⟩ := mapM_ok_mem hstage hin
      exact (stageContribution_ok hp).2

/-! ## a materialization -/

/-- A spec was declared, in whole or in part: its scope and the ancestors it lacked are there,
and the entries and their revisions can be restored. -/
structure Attempted (path : String) (h h' : Harness) (undo : List Harness.Undo) : Prop where
  orderly : h'.Orderly
  rest : h' = { h with
    plugins := h'.plugins, composition := h'.composition, dirty := h'.dirty, agents := h'.agents }
  agents : h'.agents = if (h.composition.get? path).isSome then h.agents else h.agents.own path
  kept : ∀ {p s}, p ≠ path → h.composition.get? p = some s → h'.composition.get? p = some s
  added : ∀ {p s}, p ≠ path → h'.composition.get? p = some s → h.composition.get? p = some s ∨
    (h.composition.get? p = none ∧ CompositionTree.isWithin path p = true ∧ s.metadata = Dict.empty)
  stayed : (h.composition.get? path).isSome →
    ∀ p, p ≠ path → h'.composition.get? p = h.composition.get? p
  declared : (h'.composition.get? path).isSome
  marked : h'.dirty = true
  undoes : Undoes undo h h'

/-- all of a spec was declared -/
structure Declared (spec : AgentSpec) (staged : List Harness.StagedContribution)
    (h h' : Harness) : Prop extends Harness.Installed spec.scopePath staged h h' where
  metadata : ∀ {s}, h'.composition.get? spec.scopePath = some s → s.metadata = agentMetadata spec

theorem Harness.Orderly.own {h : Harness} (ho : h.Orderly) {path : String} (hne : path ≠ rootScope)
    (hc : canonicalScopePath path = .ok path) :
    Harness.Orderly { h with agents := h.agents.own path } where
  tree := ho.tree
  housed := ho.housed
  owned := by
    intro p hp
    have hp' : p ∈ h.agents.ownedScopePaths ∨ p = path := by
      unfold AgentRegistry.own at hp
      simp only at hp
      split at hp
      · exact Or.inl hp
      · rcases List.mem_append.1 hp with hp | hp
        · exact Or.inl hp
        · exact Or.inr (List.mem_singleton.1 hp)
    rcases hp' with hp' | rfl
    · exact ho.owned p hp'
    · exact ⟨hne, hc⟩
  published := ho.published

theorem Harness.Orderly.grown {h h' : Harness} (ho : h.Orderly) {path : String}
    (hg : Grown path h h') (hc : canonicalScopePath path = .ok path)
    (hagents : h'.agents = if (h.composition.get? path).isSome then h.agents
      else h.agents.own path) : h'.Orderly := by
  have hplugins : h'.plugins = h.plugins := by rw [hg.rest]
  have hhoused : Housed h'.composition h'.plugins.entries := by
    rw [hplugins]
    refine ho.housed.mono fun p hp => ?_
    obtain ⟨s, hs⟩ := Option.isSome_iff_exists.1 hp
    exact Option.isSome_iff_exists.2 ⟨s, hg.kept hs⟩
  split at hagents
  · exact ho.of_agents hagents hg.tree hhoused
  · rename_i hnew
    have hne : path ≠ rootScope := by
      rintro rfl
      exact hnew ho.tree.root
    exact (ho.own hne hc).of_agents hagents hg.tree hhoused

theorem Harness.Orderly.reshaped {h h' : Harness} (ho : h.Orderly) {path : String}
    (hr : Reshaped path h h') : h'.Orderly := by
  have hagents : h'.agents = h.agents := by rw [hr.rest]
  have hplugins : h'.plugins = h.plugins := by rw [hr.rest]
  refine ho.of_agents hagents (hr.branching ho.tree) ?_
  rw [hplugins]
  refine ho.housed.mono fun p hp => ?_
  rw [hr.isSome]
  exact hp

theorem Attempted.of_reshaped {path : String} {h h₁ h₂ : Harness} (ho : h₂.Orderly)
    (hg : Grown path h h₁) (hr : Reshaped path h₁ h₂) (hd : h₂.dirty = true)
    (hag : h₁.agents = if (h.composition.get? path).isSome then h.agents else h.agents.own path)
    (hstay : (h.composition.get? path).isSome → h₁ = h) : Attempted path h h₂ [] where
  orderly := ho
  rest := by rw [hr.rest, hg.rest]
  agents := by
    rw [← hag]
    rw [hr.rest]
  kept := fun hp hs => (hr.others _ hp).trans (hg.kept hs)
  added := fun hp hs => hg.added ((hr.others _ hp).symm.trans hs)
  stayed := by
    intro hdecl p hp
    rw [hr.others p hp, hstay hdecl]
  declared := by
    rw [hr.isSome]
    exact hg.declared
  marked := hd
  undoes := by
    intro r hsame
    have hplugins : h₂.plugins = h.plugins := by rw [hr.rest, hg.rest]
    rw [← hplugins]
    exact hsame

theorem Attempted.install {path : String} {h h₂ h₃ : Harness} {undo : List Harness.Undo}
    (ha : Attempted path h h₂ []) (ho : h₃.Orderly) (hs : SameButEntries h₂ h₃)
    (hu : Undoes undo h₂ h₃) (hd : h₃.dirty = true) : Attempted path h h₃ undo := by
  have hcomp : h₃.composition = h₂.composition := by rw [hs.rest]
  have hag : h₃.agents = h₂.agents := by rw [hs.rest]
  refine ⟨ho, ?_, hag.trans ha.agents, ?_, ?_, ?_, ?_, hd, ?_⟩
  · rw [hs.rest, ha.rest]
  · rw [hcomp]
    exact ha.kept
  · rw [hcomp]
    exact ha.added
  · rw [hcomp]
    exact ha.stayed
  · rw [hcomp]
    exact ha.declared
  · exact fun r hr => (ha.undoes h₂.plugins (.refl _)).trans (hu r hr)

/-- **What a materialization does**, as far as it gets. -/
theorem Harness.declareAgent_effect {h : Harness} (ho : h.Orderly) {spec : AgentSpec}
    {previous : Option AgentRevision} {staged : List Harness.StagedContribution}
    (hs : StagedFor h spec previous staged) :
    ∃ e h' undo, h.declareAgent spec staged = (e, h', undo) ∧
      Attempted spec.scopePath h h' undo ∧ (e = none → Declared spec staged h h') := by
  obtain ⟨h₁, hprov, hg, hag, hstay⟩ := provideScope_grown ho.tree hs.canonical
  have ho₁ : h₁.Orderly := ho.grown hg hs.canonical hag
  obtain ⟨hr, hd⟩ := h₁.declareScope_reshaped spec
  have hattempted := Attempted.of_reshaped (ho₁.reshaped hr) hg hr hd hag hstay
  unfold declareAgent
  rw [hprov]
  simp only
  rcases hdecl : h₁.declareScope spec with ⟨_ | e, h₂⟩
  · rw [hdecl] at hr hd hattempted
    have hshape : Reshaped spec.scopePath h₁ h₂ := hr
    have hplugins : h₂.plugins = h.plugins := by rw [hshape.rest, hg.rest]
    simp only
    rcases hinst : installContributions spec.scopePath staged h₂ [] with ⟨e, h₃, undo⟩
    obtain ⟨hsame, hundo⟩ := installContributions_undoes (.refl h₂) (.nil h₂) hinst
    refine ⟨e, h₃, undo, rfl, hattempted.install (hattempted.orderly.installContributions hinst)
      hsame hundo (installContributions_dirty hd hinst), ?_⟩
    rintro rfl
    have hin := installContributions_installed hs.nodup hs.canonical hinst
    refine ⟨⟨hin.housed, fun id hid => ?_⟩, fun {s} hget => ?_⟩
    · rw [hin.others id hid, hplugins]
    · have hcomp : h₃.composition = h₂.composition := by rw [hsame.rest]
      rw [hcomp] at hget
      refine declareScope_metadata (h := h₁) ?_ ?_
      · rw [hdecl]
      · rw [hdecl]
        exact hget
  · rw [hdecl] at hattempted
    exact ⟨some e, h₂, [], rfl, hattempted, nofun⟩

/-! ## undoing it -/

/-- the entries and the agents are as before -/
structure Undone (h r : Harness) : Prop where
  orderly : r.Orderly
  rest : r = { h with
    plugins := r.plugins, composition := r.composition, dirty := r.dirty, agents := r.agents }
  desired : PluginRegistry.SameDesired h.plugins r.plugins
  active : r.agents.activeRevisions = h.agents.activeRevisions
  history : ∀ name revision, r.agents.published name revision = h.agents.published name revision
  marked : r.dirty = true

section
variable {path : String} {h h' : Harness} {undo : List Harness.Undo} (ha : Attempted path h h' undo)
include ha

/-- the entries are as before, the scopes not yet -/
theorem Attempted.restored (pending : Bool) :
    ∃ plugins, ({ undo.foldl Harness.restoreEntry h' with dirty := pending } : Harness) =
        { h' with plugins := plugins, dirty := pending } ∧
      PluginRegistry.SameDesired h.plugins plugins := by
  refine ⟨_, ?_, ha.undoes h'.plugins (.refl _)⟩
  rw [Harness.foldl_restoreEntry]

theorem Attempted.scopes_kept {p : String} (hp : (h.composition.get? p).isSome) :
    (h'.composition.get? p).isSome := by
  rcases eq_or_ne p path with rfl | hne
  · exact ha.declared
  · obtain ⟨s, hs⟩ := Option.isSome_iff_exists.1 hp
    exact Option.isSome_iff_exists.2 ⟨s, ha.kept hne hs⟩

theorem Attempted.restored_orderly (ho : h.Orderly) {plugins : PluginRegistry}
    (hp : PluginRegistry.SameDesired h.plugins plugins) (pending : Bool) :
    Harness.Orderly { h' with plugins := plugins, dirty := pending } := by
  refine ha.orderly.of_agents rfl ha.orderly.tree fun id e he => ?_
  obtain ⟨hid, hscope⟩ := ho.housed id e ((hp.entries id).symm.trans he)
  exact ⟨hid, ha.scopes_kept hscope⟩

/-- **A scope that was there before** has its metadata again, and the others have theirs. -/
theorem Attempted.undeclare_present (ho : h.Orderly) {s : CompositionScope}
    (hs : h.composition.get? path = some s) (pending : Bool) :
    Undone h (h'.undeclareAgent path (some s) pending undo) ∧
      ∀ p, ((h'.undeclareAgent path (some s) pending undo).composition.get? p).map
          CompositionScope.metadata =
        (h.composition.get? p).map CompositionScope.metadata := by
  have hdecl : (h.composition.get? path).isSome := Option.isSome_iff_exists.2 ⟨s, hs⟩
  obtain ⟨plugins, hrestored, hsame⟩ := ha.restored pending
  have hor := ha.restored_orderly ho hsame pending
  have hundeclare : h'.undeclareAgent path (some s) pending undo =
      Harness.restoreScope { h' with plugins := plugins, dirty := pending } path s := by
    rw [← hrestored]
    rfl
  rw [hundeclare]
  obtain ⟨hr, hd, hmeta⟩ := Harness.restoreScope_reshaped
    { h' with plugins := plugins, dirty := pending } path s
  have hag : h'.agents = h.agents := by rw [ha.agents, if_pos hdecl]
  refine ⟨⟨hor.reshaped hr, ?_, ?_, ?_, ?_, hd⟩, fun p => ?_⟩
  · rw [hr.rest, ha.rest]
  · rw [hr.rest]
    exact hsame
  · rw [hr.rest]
    exact congrArg AgentRegistry.activeRevisions hag
  · rw [hr.rest]
    exact fun name revision => congrArg (fun a => a.published name revision) hag
  · rcases eq_or_ne p path with rfl | hne
    · obtain ⟨s', hs'⟩ := Option.isSome_iff_exists.1
        ((hr.isSome p).trans (Option.isSome_iff_exists.2 (Option.isSome_iff_exists.1 ha.declared)))
      rw [hs', hs, Option.map_some, Option.map_some, hmeta hs']
    · rw [hr.others p hne]
      show (h'.composition.get? p).map _ = _
      rw [ha.stayed hdecl p hne]

end

/-- what a scope that was not there before leaves behind: the ancestors it lacked -/
structure Leftover (path : String) (h r : Harness) : Prop where
  kept : ∀ {p s}, h.composition.get? p = some s → r.composition.get? p = some s
  added : ∀ {p s}, r.composition.get? p = some s → h.composition.get? p = some s ∨
    (h.composition.get? p = none ∧ CompositionTree.isWithin path p = true ∧ p ≠ path ∧
      s.metadata = Dict.empty)
  ancestors : ∀ p, CompositionTree.isWithin path p = true → p ≠ path → p ≠ "" →
    (r.composition.get? p).isSome

theorem Harness.Orderly.disown {h : Harness} (ho : h.Orderly) (path : String) :
    Harness.Orderly { h with agents := h.agents.disown path } where
  tree := ho.tree
  housed := ho.housed
  owned := fun p hp => ho.owned p (List.mem_filter.1 hp).1
  published := ho.published

/-- **A scope that was not there before** is gone again; the ancestors it lacked stay. -/
theorem Attempted.undeclare_absent {path : String} {h h' : Harness} {undo : List Harness.Undo}
    (ha : Attempted path h h' undo) (ho : h.Orderly) (hc : canonicalScopePath path = .ok path)
    (hnew : h.composition.get? path = none) (pending : Bool) :
    Undone h (h'.undeclareAgent path none pending undo) ∧
      Leftover path h (h'.undeclareAgent path none pending undo) := by
  have hne : path ≠ rootScope := by
    rintro rfl
    have hroot := ho.tree.root
    rw [hnew] at hroot
    cases hroot
  obtain ⟨plugins, hrestored, hsame⟩ := ha.restored pending
  have hor := ha.restored_orderly ho hsame pending
  obtain ⟨gone, r, hok, hrem⟩ := Harness.removeScope_ok hor.tree hor.housed hne hc ha.declared
  have hundeclare : h'.undeclareAgent path none pending undo =
      { r with agents := r.agents.disown path } := by
    show Harness.retractScope { undo.foldl Harness.restoreEntry h' with dirty := pending } path = _
    rw [hrestored]
    unfold Harness.retractScope
    rw [hok, if_pos ha.declared]
  have hget : ∀ p, r.composition.get? p =
      if CompositionTree.isWithin p path = true then none else h'.composition.get? p := by
    intro p
    rw [hrem.composition]
    exact hor.tree.get?_detach path p
  have hout : ∀ {p s}, h.composition.get? p = some s → ¬ CompositionTree.isWithin p path = true := by
    intro p s hs hw
    have hdecl := ho.tree.within_declared (Option.isSome_iff_exists.2 ⟨s, hs⟩) hw
      (canonicalScopePath_nonempty hc)
    rw [hnew] at hdecl
    cases hdecl
  have hreg : r.plugins = { plugins with entries := r.plugins.entries } := hrem.entries.registry
  have hrag : r.agents = h'.agents := hrem.agents
  rw [hundeclare]
  refine ⟨⟨(hor.removed hne hc hrem).disown path, ?_, ⟨fun id => ?_, fun id => ?_⟩, ?_, ?_,
    hrem.marked⟩, ?_, ?_, ?_⟩
  · have hrest : r = { h' with
        plugins := r.plugins, composition := r.composition, dirty := r.dirty } := hrem.rest
    have hrest' : ({ r with agents := r.agents.disown path } : Harness) = { h' with
        plugins := r.plugins, composition := r.composition, dirty := r.dirty
        agents := r.agents.disown path } :=
      congrArg (fun x : Harness => { x with agents := r.agents.disown path }) hrest
    rw [hrest', ha.rest]
  · rcases hid : h.plugins.entries.get? id with _ | e
    · rcases hid' : r.plugins.entries.get? id with _ | e
      · rfl
      · have hgone := (hrem.entries.gone hid').1
        rw [show ({ h' with plugins := plugins, dirty := pending } : Harness).plugins.entries =
          plugins.entries from rfl, hsame.entries id, hid] at hgone
        cases hgone
    · have hold : plugins.entries.get? id = some e := (hsame.entries id).trans hid
      obtain ⟨s, hs⟩ := Option.isSome_iff_exists.1 (ho.housed id e hid).2
      exact hrem.entries.kept hold (Bool.eq_false_iff.2 (hout hs))
  · show r.plugins.revisions.get? id = h.plugins.revisions.get? id
    rw [hreg]
    exact hsame.revisions id
  · show r.agents.activeRevisions = h.agents.activeRevisions
    rw [hrag, ha.agents]
    split <;> rfl
  · intro name revision
    show r.agents.published name revision = h.agents.published name revision
    rw [hrag, ha.agents]
    split <;> rfl
  · intro p s hs
    have hp : p ≠ path := by
      rintro rfl
      rw [hnew] at hs
      cases hs
    exact (hget p).trans ((if_neg (hout hs)).trans (ha.kept hp hs))
  · intro p s hs
    have hs' : r.composition.get? p = some s := hs
    rw [hget] at hs'
    split at hs'
    · cases hs'
    · rename_i hw
      have hp : p ≠ path := by
        rintro rfl
        exact hw (CompositionTree.isWithin_refl p)
      rcases ha.added hp hs' with hold | ⟨hnone, hin, hmeta⟩
      · exact Or.inl hold
      · exact Or.inr ⟨hnone, hin, hp, hmeta⟩
  · intro p hw hp hempty
    show (r.composition.get? p).isSome
    rw [hget, if_neg]
    · exact ha.orderly.tree.within_declared ha.declared hw hempty
    · intro hw'
      exact hp (CompositionTree.isWithin_antisymm hw' hw hne (canonicalScopePath_nonempty hc))

end
end Chassis
