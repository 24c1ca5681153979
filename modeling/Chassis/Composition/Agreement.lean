import Chassis.Composition.Linked

/-!
# When the index and the structure agree

* `Formed.step`        what holds of the trees of all calls;
* `Agrees`             what the index, the lists of children, and the resolver know is the same;
* `Sound`              the index holds exactly what the lists lead to, and no list repeats a scope;
* `Grounded`           a call adds scopes only below scopes that the tree still has;
* `Sound.step`         grounded calls keep a tree sound;
* `agrees_iff_grounded`   index and structure agree throughout a run iff all its calls are grounded.
-/

set_option linter.unusedSectionVars false

namespace Chassis
open Py

namespace HandleTree
variable {t t' : HandleTree}

/-! ## the operations -/

/-- the tree with a scope below its parent -/
def graft (t : HandleTree) (parent scope : Handle) : HandleTree :=
  { t with
    children := Function.update t.children parent (t.children parent ++ [scope])
    index := t.index.set scope.path scope
    dirty := true }

theorem children_graft (t : HandleTree) (parent scope h : Handle) :
    (t.graft parent scope).children h =
      if h = parent then t.children parent ++ [scope] else t.children h :=
  Function.update_apply _ _ _ _

theorem index_graft (t : HandleTree) (parent scope : Handle) (k : String) :
    (t.graft parent scope).index.get? k =
      if k = scope.path then some scope else t.index.get? k :=
  Dict.get?_set _ _ _ _

theorem attach_ok {scope : Handle} : t.attach scope = .ok t' ↔
    t.index.get? scope.path = none ∧ ∃ parent, scope.parent = some parent ∧
      t' = t.graft parent scope := by
  unfold attach
  rcases hget : t.index.get? scope.path with _ | other
  · rcases hp : scope.parent with _ | parent
    · constructor
      · intro h
        cases h
      · rintro ⟨-, parent, h, -⟩
        cases h
    · constructor
      · intro h
        cases h
        exact ⟨rfl, parent, rfl, rfl⟩
      · rintro ⟨-, parent', h, rfl⟩
        cases h
        rfl
  · constructor
    · intro h
      cases h
    · rintro ⟨h, -⟩
      cases h

theorem taken_of_attach {scope parent : Handle} (hp : scope.parent = some parent) {e : Err}
    (h : t.attach scope = .error e) : (t.index.get? scope.path).isSome := by
  rw [Option.isSome_iff_ne_none]
  intro hnone
  rw [attach_ok.2 ⟨hnone, parent, hp, rfl⟩] at h
  cases h

/-- the index and the lists of two trees are the same, and no serial number was taken back -/
structure Alike (t t' : HandleTree) : Prop where
  index : t'.index = t.index
  children : t'.children = t.children
  created : t.created ≤ t'.created

theorem Alike.refl (t : HandleTree) : Alike t t := ⟨rfl, rfl, le_refl _⟩

theorem alike_construct (t : HandleTree) (parent : Handle) (name : ScopeName)
    (d : ScopeDeclaration) : Alike t (t.construct parent name d).2 := ⟨rfl, rfl, Nat.le_succ _⟩

theorem alike_install (t : HandleTree) (plugin : Plugin) (entryId : Option String) (replace : Bool)
    (scope : ScopeArg) : Alike t (t.install plugin entryId replace scope).2 := by
  unfold HandleTree.install
  rcases t.scopePath scope with e | path
  · exact .refl t
  · simp only
    rcases t.owner.install plugin entryId replace path with e | ⟨entry, owner⟩
    · exact .refl t
    · exact ⟨rfl, rfl, le_refl _⟩

/-- a child is refused: its name is none, or its path is taken -/
def Refuses (t : HandleTree) (parent : Handle) (name : String) : Prop :=
  ¬ ValidName name ∨ (t.index.get? (joinPath parent.path name)).isSome

/-- what `child` does: it is refused and nothing is added, or a new scope is grafted -/
theorem child_cases (t : HandleTree) (parent : Handle) (name : String)
    (capabilities tools : Option (List String)) (metadata : Dict String Value) :
    (t.Refuses parent name ∧ (∃ e, (t.child parent name capabilities tools metadata).1 = .error e) ∧
      Alike t (t.child parent name capabilities tools metadata).2) ∨
    ∃ (n : ScopeName) (u : HandleTree), n.text = name ∧ Alike t u ∧ u.created = t.created + 1 ∧
      t.index.get? (Handle.child parent n t.created).path = none ∧
      t.child parent name capabilities tools metadata =
        (.ok (.child parent n t.created), u.graft parent (.child parent n t.created)) := by
  unfold child
  split
  · rename_i e hname
    refine Or.inl ⟨Or.inl fun hv => ?_, ⟨e, rfl⟩, .refl t⟩
    rw [hv] at hname
    cases hname
  · rename_i hname
    obtain ⟨u, hu⟩ : ∃ u, u = (t.construct parent ⟨name, hname⟩
      ⟨capabilities.map nameSet, tools.map nameSet, metadata, Dict.empty⟩).2 := ⟨_, rfl⟩
    have ha : Alike t u := hu ▸ alike_construct t _ _ _
    simp only [construct] at hu ⊢
    rw [← hu]
    rcases hatt : u.attach (.child parent ⟨name, hname⟩ t.created) with e | t'
    · have htaken := taken_of_attach rfl hatt
      rw [ha.index] at htaken
      exact Or.inl ⟨Or.inr htaken, ⟨e, rfl⟩, ha⟩
    · obtain ⟨hnone, parent', hp, rfl⟩ := attach_ok.1 hatt
      cases hp
      rw [ha.index] at hnone
      exact Or.inr ⟨⟨name, hname⟩, u, rfl, ha, by rw [hu], hnone, rfl⟩

/-! ## what every call keeps -/

namespace Formed
variable (hf : t.Formed)
include hf

theorem alike (ha : Alike t t') : t'.Formed where
  listed := by
    intro parent c hc
    rw [ha.children] at hc
    obtain ⟨hp, hi⟩ := hf.listed hc
    exact ⟨hp, hi.mono ha.created⟩
  keyed := by
    intro path c hc
    rw [ha.index] at hc
    obtain ⟨hp, hi⟩ := hf.keyed hc
    exact ⟨hp, hi.mono ha.created⟩
  root := by
    rw [ha.index]
    exact hf.root

theorem graft {parent scope : Handle} (hp : scope.parent = some parent)
    (hi : scope.Issued t.created) : (t.graft parent scope).Formed where
  listed := by
    intro p c hc
    rw [children_graft] at hc
    split at hc
    · rename_i hpp
      subst hpp
      rw [List.mem_append, List.mem_singleton] at hc
      rcases hc with hc | rfl
      · exact hf.listed hc
      · exact ⟨hp, hi⟩
    · exact hf.listed hc
  keyed := by
    intro path c hc
    rw [index_graft] at hc
    split at hc
    · rename_i hpath
      cases hc
      exact ⟨hpath.symm, hi⟩
    · exact hf.keyed hc
  root := by
    rw [index_graft, if_neg]
    · exact hf.root
    · intro hroot
      cases scope with
      | root => cases hp
      | child parent' name serial =>
        exact Handle.path_child_ne_root parent' name serial hroot.symm

theorem child {parent : Handle} (hi : parent.Issued t.created) (name : String)
    (capabilities tools : Option (List String)) (metadata : Dict String Value) :
    (t.child parent name capabilities tools metadata).2.Formed ∧
      ∀ c, (t.child parent name capabilities tools metadata).1 = .ok c →
        c.Issued (t.child parent name capabilities tools metadata).2.created := by
  rcases t.child_cases parent name capabilities tools metadata with
    ⟨-, ⟨e, herr⟩, ha⟩ | ⟨n, u, -, ha, hcreated, -, heq⟩
  · refine ⟨hf.alike ha, fun c hc => ?_⟩
    rw [herr] at hc
    cases hc
  · rw [heq]
    have hnew : (Handle.child parent n t.created).Issued u.created := by
      rw [hcreated]
      exact ⟨Nat.lt_succ_self _, hi⟩
    refine ⟨(hf.alike ha).graft rfl hnew, fun c hc => ?_⟩
    cases hc
    exact hnew

theorem ensureNames (l : List String) : (t.ensureNames l).2.Formed ∧
    ∀ c, (t.ensureNames l).1 = .ok c → c.Issued (t.ensureNames l).2.created := by
  induction l with
  | nil =>
    refine ⟨hf, fun c hc => ?_⟩
    rw [HandleTree.ensureNames, hf.root] at hc
    cases hc
    trivial
  | cons name above ih =>
    rw [HandleTree.ensureNames]
    rcases hget : t.index.get? (Harness.pathOf (name :: above)) with _ | scope
    · simp only
      rcases hens : t.ensureNames above with ⟨e | parent, t'⟩
      · rw [hens] at ih
        refine ⟨ih.1, fun c hc => ?_⟩
        cases hc
      · rw [hens] at ih
        exact ih.1.child (ih.2 parent rfl) name none none Dict.empty
    · refine ⟨hf, fun c hc => ?_⟩
      cases hc
      exact (hf.keyed hget).2

theorem ensure (path : String) : (t.ensure path).2.Formed ∧
    ∀ c, (t.ensure path).1 = .ok c → c.Issued (t.ensure path).2.created := by
  unfold HandleTree.ensure
  rcases canonicalScopePath path with e | path
  · exact ⟨hf, fun c hc => nomatch hc⟩
  · exact hf.ensureNames _

theorem get_some {path : String} {c : Handle} (h : t.get path = .ok (some c)) :
    t.index.get? path = some c := by
  obtain ⟨p, hp, h⟩ := bind_ok.1 h
  cases canonicalScopePath_ok hp
  exact Except.ok.inj h

theorem resolveParent {parent : ScopeArg}
    (hi : ∀ scope, parent = .scope scope → scope.Issued t.created) (createParents : Bool) :
    (t.resolveParent parent createParents).2.Formed ∧
      ∀ c, (t.resolveParent parent createParents).1 = .ok c →
        c.Issued (t.resolveParent parent createParents).2.created := by
  cases parent with
  | none =>
    refine ⟨hf, fun c hc => ?_⟩
    cases hc
    trivial
  | scope scope =>
    refine ⟨hf, fun c hc => ?_⟩
    cases hc
    exact hi _ rfl
  | path path =>
    unfold HandleTree.resolveParent
    simp only
    split
    · exact hf.ensure path
    · rcases hget : t.get path with e | _ | scope
      · exact ⟨hf, fun c hc => nomatch hc⟩
      · exact ⟨hf, fun c hc => nomatch hc⟩
      · refine ⟨hf, fun c hc => ?_⟩
        cases hc
        exact (hf.keyed (hf.get_some hget)).2

end Formed

/-! ## removing -/

theorem foldl_drop (gone : List Handle) (t : HandleTree) :
    (gone.foldl drop t).children = t.children ∧ (gone.foldl drop t).created = t.created ∧
      (gone.foldl drop t).index = gone.foldl (fun d scope => d.erase scope.path) t.index := by
  induction gone generalizing t with
  | nil => exact ⟨rfl, rfl, rfl⟩
  | cons scope gone ih =>
    obtain ⟨hchildren, hcreated, hindex⟩ := ih (t.drop scope)
    exact ⟨hchildren, hcreated, hindex⟩

/-- what removing a scope leaves of the index and of the lists -/
structure Removed (t t' : HandleTree) (scope parent : Handle) : Prop where
  created : t'.created = t.created
  children : t'.children = Function.update t.children parent ((t.children parent).erase scope)
  index : ∀ k, t'.index.get? k =
    if ∃ d ∈ t.descendants scope.path, d.path = k then none else t.index.get? k

theorem remove_cases (hf : t.Formed) (path : String) : (t.remove path).2 = t ∨
    ∃ scope parent, path ≠ rootScope ∧ t.index.get? path = some scope ∧ scope.path = path ∧
      scope.parent = some parent ∧ Removed t (t.remove path).2 scope parent := by
  unfold remove
  split
  · exact Or.inl rfl
  rename_i hne
  rcases hcanon : canonicalScopePath path with e | path'
  · exact Or.inl rfl
  cases canonicalScopePath_ok hcanon
  simp only
  rcases hget : t.index.get? path with _ | scope
  · exact Or.inl rfl
  obtain ⟨hpath, -⟩ := hf.keyed hget
  cases scope with
  | root => exact absurd hpath.symm hne
  | child parent name serial =>
    refine Or.inr ⟨.child parent name serial, parent, hne, rfl, hpath, rfl, ?_⟩
    obtain ⟨hchildren, hcreated, hindex⟩ := foldl_drop (t.descendants path) t
    have hidx : ∀ k, ((t.descendants path).foldl drop t).index.get? k =
        if ∃ d ∈ t.descendants (Handle.child parent name serial).path, d.path = k then none
        else t.index.get? k := fun k => by
      rw [hindex, Dict.get?_foldl_erase, hpath]
    simp only [Handle.parent]
    split
    · exact ⟨hcreated, by rw [hchildren], hidx⟩
    · rename_i hout
      rw [hchildren] at hout
      refine ⟨hcreated, ?_, hidx⟩
      rw [hchildren, List.erase_of_not_mem hout, Function.update_eq_self]

theorem not_isWithin_root {path : String} (hne : path ≠ rootScope) (hempty : path ≠ "") :
    CompositionTree.isWithin rootScope path ≠ true := by
  intro hw
  rcases CompositionTree.isWithin_iff.1 hw with h | h | hpre
  · exact hne h
  · exact hne h.symm
  · have hlen := hpre.length_le
    have hroot : rootScope.toList.length = 1 := rfl
    rw [List.length_append, hroot, List.length_singleton] at hlen
    exact hempty (String.toList_inj.1 (List.length_eq_zero_iff.1 (by omega)))

theorem mem_descendants (hf : t.Formed) {path : String} {c : Handle} :
    c ∈ t.descendants path ↔ t.Linked c ∧ CompositionTree.isWithin c.path path = true := by
  unfold descendants
  rw [mem_sortedBy, List.mem_filter, hf.mem_ordered]

theorem Formed.removed (hf : t.Formed) {scope parent : Handle} (hne : scope.path ≠ rootScope)
    (hr : Removed t t' scope parent) : t'.Formed where
  listed := by
    intro p c hc
    rw [hr.created]
    rw [hr.children] at hc
    by_cases hpp : p = parent
    · subst hpp
      rw [Function.update_self] at hc
      exact hf.listed (List.mem_of_mem_erase hc)
    · rw [Function.update_of_ne hpp] at hc
      exact hf.listed hc
  keyed := by
    intro path c hc
    rw [hr.created]
    rw [hr.index] at hc
    split at hc
    · cases hc
    · exact hf.keyed hc
  root := by
    rw [hr.index, if_neg]
    · exact hf.root
    · rintro ⟨d, hd, hroot⟩
      obtain ⟨-, hw⟩ := (mem_descendants hf).1 hd
      rw [hroot] at hw
      exact not_isWithin_root hne scope.path_nonempty hw

/-- **Every call keeps a tree formed.** -/
theorem Formed.step (hf : t.Formed) {op : TreeOp} (ho : op.Obtained t) : (t.step op).Formed := by
  cases op with
  | child scope name capabilities tools metadata =>
    exact (hf.child ho name capabilities tools metadata).1
  | treeChild name parent capabilities tools metadata createParents =>
    have hi : ∀ scope, parent = .scope scope → scope.Issued t.created := by
      rintro scope rfl
      exact ho
    have hparent := hf.resolveParent hi createParents
    show (t.treeChild _ _ _ _ _ _).2.Formed
    unfold treeChild
    rcases hres : t.resolveParent parent createParents with ⟨e | scope, t'⟩
    · rw [hres] at hparent
      exact hparent.1
    · rw [hres] at hparent
      exact (hparent.1.child (hparent.2 scope rfl) name capabilities tools metadata).1
  | ensure path => exact (hf.ensure path).1
  | attach scope =>
    rw [step_attach]
    rcases hatt : t.attach scope with e | t'
    · exact hf
    · obtain ⟨-, parent, hp, rfl⟩ := attach_ok.1 hatt
      exact hf.graft hp ho
  | remove path =>
    show (t.remove path).2.Formed
    rcases remove_cases hf path with heq | ⟨scope, parent, hne, -, hpath, -, hr⟩
    · rw [heq]
      exact hf
    · exact hf.removed (hpath ▸ hne) hr
  | declare scope change => exact hf.alike ⟨rfl, rfl, le_refl _⟩
  | install plugin entryId replace scope =>
    exact hf.alike (alike_install t _ _ _ _)
  | uninstall entryId => exact hf.alike ⟨rfl, rfl, le_refl _⟩

theorem formed_new : ({} : HandleTree).Formed where
  listed := fun hc => nomatch hc
  keyed := by
    intro path c hc
    have hone : ({} : HandleTree).index.get? path =
        if path = rootScope then some .root else none := Dict.get?_set Dict.empty _ _ _
    rw [hone] at hc
    split at hc
    · rename_i hpath
      cases hc
      exact ⟨hpath.symm, trivial⟩
    · cases hc
  root := rfl

/-! ## index and structure -/

/-- what the index, the lists of children, and the resolver know of a tree is the same -/
structure Agrees (t : HandleTree) : Prop where
  indexed : ∀ path, (∃ scope, t.get path = .ok (some scope)) ↔ path ∈ t.paths
  parents : ∀ path scope parent, t.index.get? path = some scope → scope.parent = some parent →
    t.index.get? parent.path = some parent ∧ (t.children parent).count scope = 1
  installs : ∀ scope path, t.scopePath scope = .ok path → path ∈ t.specs.map ScopeSpec.path

/-- the tree still has the scope -/
def Live (t : HandleTree) (scope : Handle) : Prop := t.index.get? scope.path = some scope

/-- A call adds scopes only below scopes that the tree still has, and none that lists others. -/
def Grounded (t : HandleTree) : TreeOp → Prop
  | .child scope name _ _ _ => t.Refuses scope name ∨ t.Live scope
  | .treeChild name (.scope scope) _ _ _ _ => t.Refuses scope name ∨ t.Live scope
  | .attach scope => (t.index.get? scope.path).isSome ∨
      (∃ parent, scope.parent = some parent ∧ t.Live parent) ∧ t.children scope = []
  | _ => True

/-- the index holds exactly what the lists lead to, and no list repeats a scope -/
structure Sound (t : HandleTree) : Prop extends Formed t where
  indexed : ∀ {path c}, t.index.get? path = some c ↔ t.Linked c ∧ c.path = path
  once : ∀ parent, (t.children parent).Nodup

theorem linked_congr (h : t'.children = t.children) (c : Handle) : t'.Linked c ↔ t.Linked c := by
  induction c with
  | root => exact Iff.rfl
  | child parent name serial ih => rw [linked_child, linked_child, ih, h]

theorem scopePath_indexed (hf : t.Formed) {scope : ScopeArg} {path : String}
    (h : t.scopePath scope = .ok path) : ∃ c, t.index.get? path = some c := by
  have haccept : ∀ p, scopePath.accept t p = .ok path → ∃ c, t.index.get? path = some c := by
    intro p hp
    obtain ⟨p', hp', hp⟩ := bind_ok.1 hp
    obtain ⟨found, hfound, hp⟩ := bind_ok.1 hp
    cases found with
    | none => cases hp
    | some c =>
      cases hp
      exact ⟨c, hf.get_some hfound⟩
  cases scope with
  | none =>
    cases h
    exact ⟨_, hf.root⟩
  | path p => exact haccept p h
  | scope c => exact haccept c.path h

namespace Sound
variable (hs : t.Sound)
include hs

theorem live_iff {scope : Handle} : t.Live scope ↔ t.Linked scope :=
  hs.indexed.trans (and_iff_left rfl)

theorem mem_paths {path : String} : path ∈ t.paths ↔ ∃ c, t.index.get? path = some c := by
  rw [hs.toFormed.mem_paths]
  exact exists_congr fun c => hs.indexed.symm

/-- **In a sound tree** index and structure agree. -/
theorem agrees : t.Agrees where
  indexed := by
    intro path
    rw [hs.mem_paths]
    constructor
    · rintro ⟨c, hc⟩
      exact ⟨c, hs.get_some hc⟩
    · rintro ⟨c, hc⟩
      obtain ⟨rfl, -⟩ := hs.keyed hc
      exact ⟨c, bind_ok.2 ⟨_, canonicalScopePath_path c, congrArg Except.ok hc⟩⟩
  parents := by
    intro path scope parent hscope hparent
    have hlinked := (hs.indexed.1 hscope).1
    cases scope with
    | root => cases hparent
    | child p name serial =>
      cases hparent
      obtain ⟨hp, hin⟩ := linked_child.1 hlinked
      exact ⟨hs.live_iff.2 hp, List.count_eq_one_of_mem (hs.once _) hin⟩
  installs := by
    intro scope path h
    rw [specs_paths, hs.mem_paths]
    exact scopePath_indexed hs.toFormed h

theorem alike (ha : Alike t t') : t'.Sound where
  toFormed := hs.toFormed.alike ha
  indexed := by
    intro path c
    rw [ha.index, linked_congr ha.children]
    exact hs.indexed
  once := by
    rw [ha.children]
    exact hs.once

theorem children_new (parent : Handle) (n : ScopeName) :
    t.children (.child parent n t.created) = [] := by
  rw [List.eq_nil_iff_forall_not_mem]
  intro c hc
  obtain ⟨hp, hi⟩ := hs.listed hc
  cases c with
  | root => cases hp
  | child p name serial =>
    cases hp
    obtain ⟨hserial, hcreated, -⟩ := hi
    omega

section
variable {parent scope : Handle} (hp : scope.parent = some parent) (hlive : t.Live parent)
  (hempty : t.children scope = [])
include hp hlive hempty

theorem linked_graft {c : Handle} : (t.graft parent scope).Linked c ↔ t.Linked c ∨ c = scope := by
  have hlinked := hs.live_iff.1 hlive
  cases scope with
  | root => cases hp
  | child parent' name serial =>
    cases hp
    induction c with
    | root => exact iff_of_true rfl (Or.inl rfl)
    | child p m k ih =>
      have hbelow : (t.graft parent (.child parent name serial)).Linked p ↔
          t.Linked p ∨ p = .child parent name serial := ih
      rw [linked_child, linked_child, hbelow, children_graft]
      constructor
      · rintro ⟨hin | rfl, hc⟩
        · split at hc
          · rename_i hpp
            subst hpp
            rcases List.mem_append.1 hc with hc | hc
            · exact Or.inl ⟨hin, hc⟩
            · exact Or.inr (List.mem_singleton.1 hc)
          · exact Or.inl ⟨hin, hc⟩
        · rw [if_neg, hempty] at hc
          · cases hc
          · intro he
            have hlt := congrArg Handle.depth he
            rw [Handle.depth] at hlt
            omega
      · rintro (⟨hin, hc⟩ | heq)
        · refine ⟨Or.inl hin, ?_⟩
          split
          · rename_i hpp
            subst hpp
            exact List.mem_append_left _ hc
          · exact hc
        · cases heq
          refine ⟨Or.inl hlinked, ?_⟩
          rw [if_pos rfl]
          exact List.mem_append_right _ (List.mem_singleton_self _)

theorem graft (hi : scope.Issued t.created) (hfree : t.index.get? scope.path = none) :
    (t.graft parent scope).Sound where
  toFormed := hs.toFormed.graft hp hi
  indexed := by
    intro path c
    rw [index_graft, hs.linked_graft hp hlive hempty]
    split
    · rename_i hpath
      subst hpath
      constructor
      · intro h
        cases h
        exact ⟨Or.inr rfl, rfl⟩
      · rintro ⟨hc | rfl, hpath⟩
        · rw [hs.indexed.2 ⟨hc, hpath⟩] at hfree
          cases hfree
        · rfl
    · rename_i hpath
      rw [hs.indexed]
      constructor
      · rintro ⟨hc, hcp⟩
        exact ⟨Or.inl hc, hcp⟩
      · rintro ⟨hc | rfl, hcp⟩
        · exact ⟨hc, hcp⟩
        · exact absurd hcp.symm hpath
  once := by
    intro p
    rw [children_graft]
    split
    · refine List.nodup_append.2 ⟨hs.once _, List.nodup_singleton _, ?_⟩
      intro c hc c' hc' heq
      rw [List.mem_singleton] at hc'
      subst hc'
      subst heq
      obtain ⟨name, serial, rfl⟩ := hs.child_cases hc
      have hlinked := linked_child.2 ⟨hs.live_iff.1 hlive, hc⟩
      rw [hs.live_iff.2 hlinked] at hfree
      cases hfree
    · exact hs.once p

end

theorem child {parent : Handle} {name : String} (hg : t.Refuses parent name ∨ t.Live parent)
    (capabilities tools : Option (List String)) (metadata : Dict String Value) :
    (t.child parent name capabilities tools metadata).2.Sound := by
  rcases t.child_cases parent name capabilities tools metadata with
    ⟨-, -, ha⟩ | ⟨n, u, hn, ha, hcreated, hfree, heq⟩
  · exact hs.alike ha
  · rw [heq]
    have hlive : t.Live parent := by
      rcases hg with (hname | htaken) | hlive
      · exact absurd (hn ▸ n.valid) hname
      · rw [← hn] at htaken
        rw [Handle.path] at hfree
        rw [hfree] at htaken
        cases htaken
      · exact hlive
    have hissued := hs.issued_of_linked (hs.live_iff.1 hlive)
    refine (hs.alike ha).graft rfl ?_ ?_ ⟨?_, hissued⟩ ?_
    · rw [Live, ha.index]
      exact hlive
    · rw [ha.children]
      exact hs.children_new parent n
    · rw [hcreated]
      exact Nat.lt_succ_self _
    · rw [ha.index]
      exact hfree

/-- **`ensure` never fails** on a canonical path: it gives the scope there, and touches nothing
that is deeper. -/
theorem ensureNames {l : List String} (hl : ∀ name ∈ l, ValidName name) :
    ∃ c t', t.ensureNames l = (.ok c, t') ∧ t'.Sound ∧ t'.Live c ∧ c.path = Harness.pathOf l ∧
      ∀ k, (Harness.pathOf l).toList.length < k.toList.length →
        t'.index.get? k = t.index.get? k := by
  induction l with
  | nil =>
    refine ⟨.root, t, ?_, hs, hs.root, rfl, fun k _ => rfl⟩
    rw [HandleTree.ensureNames, hs.root]
    rfl
  | cons name above ih =>
    have hname := hl name List.mem_cons_self
    rw [HandleTree.ensureNames]
    rcases hget : t.index.get? (Harness.pathOf (name :: above)) with _ | scope
    · obtain ⟨parent, t', hens, hs', hlive, hpath, hdeep⟩ :=
        ih fun n hn => hl n (List.mem_cons_of_mem _ hn)
      have hlen : (Harness.pathOf above).toList.length <
          (Harness.pathOf (name :: above)).toList.length := length_joinPath _ hname
      have hfree' : t'.index.get? (joinPath parent.path name) = none := by
        rw [hpath]
        exact (hdeep _ hlen).trans hget
      rw [hens]
      simp only
      have hsound := hs'.child (Or.inr hlive : t'.Refuses parent name ∨ _) none none Dict.empty
      rcases t'.child_cases parent name none none Dict.empty with
        ⟨hrefuses, -, -⟩ | ⟨n, u, hn, ha, -, -, heq⟩
      · rcases hrefuses with hinvalid | htaken
        · exact absurd hname hinvalid
        · rw [hfree'] at htaken
          cases htaken
      · rw [heq] at hsound ⊢
        have hcpath : (Handle.child parent n t'.created).path = Harness.pathOf (name :: above) := by
          rw [Handle.path, hpath, hn]
          rfl
        refine ⟨_, _, rfl, hsound, ?_, hcpath, fun k hk => ?_⟩
        · rw [Live, index_graft, if_pos rfl]
        · rw [index_graft, if_neg, ha.index, hdeep k (hlen.trans hk)]
          intro heq'
          rw [heq', hcpath] at hk
          exact lt_irrefl _ hk
    · have hpath := (hs.keyed hget).1
      exact ⟨scope, t, rfl, hs, by rw [Live, hpath]; exact hget, hpath, fun k _ => rfl⟩

theorem resolveParent {parent : ScopeArg} (hno : ∀ scope, parent ≠ .scope scope)
    (createParents : Bool) : (t.resolveParent parent createParents).2.Sound ∧
      ∀ c, (t.resolveParent parent createParents).1 = .ok c →
        (t.resolveParent parent createParents).2.Live c := by
  cases parent with
  | none =>
    refine ⟨hs, fun c hc => ?_⟩
    cases hc
    exact hs.root
  | scope scope => exact absurd rfl (hno scope)
  | path path =>
    unfold HandleTree.resolveParent HandleTree.ensure
    simp only
    split
    · rcases hcanon : canonicalScopePath path with e | path'
      · exact ⟨hs, fun c hc => nomatch hc⟩
      · cases canonicalScopePath_ok hcanon
        obtain ⟨c, t', hens, hs', hlive, -, -⟩ :=
          hs.ensureNames fun _ hn => validName_of_segments hcanon hn
        simp only [hens]
        refine ⟨hs', fun c' hc' => ?_⟩
        cases hc'
        exact hlive
    · rcases hget : t.get path with e | _ | scope
      · exact ⟨hs, fun c hc => nomatch hc⟩
      · exact ⟨hs, fun c hc => nomatch hc⟩
      · refine ⟨hs, fun c hc => ?_⟩
        cases hc
        have hin := hs.get_some hget
        rw [Live, (hs.keyed hin).1]
        exact hin

section
variable {scope parent : Handle} (hlive : t.Live scope) (hp : scope.parent = some parent)
include hlive hp

theorem within_iff {c : Handle} (hc : t.Linked c) :
    CompositionTree.isWithin c.path scope.path = true ↔ scope.Below c := by
  have hne : scope.path ≠ rootScope := by
    cases scope with
    | root => cases hp
    | child p name serial => exact Handle.path_child_ne_root p name serial
  induction c with
  | root =>
    refine iff_of_false (not_isWithin_root hne scope.path_nonempty) ?_
    intro hroot
    cases hroot
    exact hne rfl
  | child p name serial ih =>
    have hsame : (Handle.child p name serial).path = scope.path ↔
        Handle.child p name serial = scope := by
      refine ⟨fun hpath => ?_, fun h => by rw [h]⟩
      have hget := hs.indexed.2 ⟨hc, hpath⟩
      rw [hlive] at hget
      exact (Option.some.inj hget).symm
    have hbelow : CompositionTree.isWithin p.path scope.path = true ↔ scope.Below p :=
      ih (linked_child.1 hc).1
    rw [Handle.Below, ← hbelow, ← hsame]
    exact CompositionTree.isWithin_joinPath name.valid

theorem linked_removed (hr : Removed t t' scope parent) {c : Handle} :
    t'.Linked c ↔ t.Linked c ∧ ¬ scope.Below c := by
  induction c with
  | root =>
    refine iff_of_true rfl ⟨rfl, ?_⟩
    intro hroot
    cases hroot
    cases hp
  | child p name serial ih =>
    rw [linked_child, linked_child, ih, Handle.Below, hr.children, Function.update_apply]
    constructor
    · rintro ⟨⟨hlink, hout⟩, hin⟩
      split at hin
      · rename_i hpp
        subst hpp
        rw [(hs.once _).mem_erase_iff] at hin
        exact ⟨⟨hlink, hin.2⟩, not_or.2 ⟨hin.1, hout⟩⟩
      · rename_i hpp
        refine ⟨⟨hlink, hin⟩, not_or.2 ⟨?_, hout⟩⟩
        rintro rfl
        cases hp
        exact hpp rfl
    · rintro ⟨⟨hlink, hin⟩, hout⟩
      obtain ⟨hne, hout⟩ := not_or.1 hout
      refine ⟨⟨hlink, hout⟩, ?_⟩
      split
      · rename_i hpp
        subst hpp
        exact (hs.once _).mem_erase_iff.2 ⟨hne, hin⟩
      · exact hin

theorem removed (hne : scope.path ≠ rootScope) (hr : Removed t t' scope parent) : t'.Sound where
  toFormed := hs.toFormed.removed hne hr
  indexed := by
    intro path c
    rw [hr.index, hs.linked_removed hlive hp hr]
    constructor
    · intro h
      split at h
      · cases h
      · rename_i hnone
        obtain ⟨hc, hpath⟩ := hs.indexed.1 h
        refine ⟨⟨hc, fun hbelow => hnone ⟨c, ?_, hpath⟩⟩, hpath⟩
        exact (mem_descendants hs.toFormed).2 ⟨hc, (hs.within_iff hlive hp hc).2 hbelow⟩
    · rintro ⟨⟨hc, hout⟩, hpath⟩
      rw [if_neg, hs.indexed]
      · exact ⟨hc, hpath⟩
      · rintro ⟨d, hd, hdpath⟩
        obtain ⟨hd, hw⟩ := (mem_descendants hs.toFormed).1 hd
        have hsame : some d = some c := by
          rw [← hs.indexed.2 ⟨hd, hdpath⟩, hs.indexed.2 ⟨hc, hpath⟩]
        cases hsame
        exact hout ((hs.within_iff hlive hp hc).1 hw)
  once := by
    intro p
    rw [hr.children, Function.update_apply]
    split
    · exact (hs.once _).erase _
    · exact hs.once p

end

/-- **Grounded calls** keep a tree sound. -/
theorem step {op : TreeOp} (ho : op.Obtained t) (hg : t.Grounded op) : (t.step op).Sound := by
  cases op with
  | child scope name capabilities tools metadata =>
    exact hs.child hg capabilities tools metadata
  | treeChild name parent capabilities tools metadata createParents =>
    show (t.treeChild _ _ _ _ _ _).2.Sound
    unfold treeChild
    by_cases hscope : ∃ scope, parent = .scope scope
    · obtain ⟨scope, rfl⟩ := hscope
      exact hs.child hg capabilities tools metadata
    · have hparent := hs.resolveParent (fun scope h => hscope ⟨scope, h⟩) createParents
      rcases hres : t.resolveParent parent createParents with ⟨e | scope, t'⟩
      · rw [hres] at hparent
        exact hparent.1
      · rw [hres] at hparent
        exact hparent.1.child (Or.inr (hparent.2 scope rfl)) capabilities tools metadata
  | ensure path =>
    have hparent := hs.resolveParent (show ∀ scope, ScopeArg.path path ≠ .scope scope from
      fun scope h => by cases h) true
    exact hparent.1
  | attach scope =>
    rw [step_attach]
    rcases hatt : t.attach scope with e | t'
    · exact hs
    · obtain ⟨hfree, parent, hp, rfl⟩ := attach_ok.1 hatt
      rcases hg with htaken | ⟨⟨parent', hp', hlive⟩, hempty⟩
      · rw [hfree] at htaken
        cases htaken
      · rw [hp] at hp'
        cases hp'
        exact hs.graft hp hlive hempty ho hfree
  | remove path =>
    show (t.remove path).2.Sound
    rcases remove_cases hs.toFormed path with heq | ⟨scope, parent, hne, hget, hpath, hp, hr⟩
    · rw [heq]
      exact hs
    · exact hs.removed (by rw [Live, hpath]; exact hget) hp (hpath ▸ hne) hr
  | declare scope change => exact hs.alike ⟨rfl, rfl, le_refl _⟩
  | install plugin entryId replace scope => exact hs.alike (alike_install t _ _ _ _)
  | uninstall entryId => exact hs.alike ⟨rfl, rfl, le_refl _⟩

theorem live_of_agrees {u : HandleTree} (ha : Alike t u) {parent scope : Handle}
    (hp : scope.parent = some parent) (h : (u.graft parent scope).Agrees) : t.Live parent := by
  have hin := (h.parents scope.path scope parent (by rw [index_graft, if_pos rfl]) hp).1
  rw [index_graft, if_neg, ha.index] at hin
  · exact hin
  · intro heq
    cases scope with
    | root => cases hp
    | child p name serial =>
      cases hp
      have hlt := Handle.length_path_child parent name serial
      rw [← heq] at hlt
      exact lt_irrefl _ hlt

/-- what a scope lists that is attached is in no index, but on its path -/
theorem childless_of_agrees {parent scope : Handle} (hi : scope.Issued t.created)
    (hp : scope.parent = some parent) (hfree : t.index.get? scope.path = none)
    (h : (t.graft parent scope).Agrees) : t.children scope = [] := by
  have hlive := hs.live_of_agrees (.refl t) hp h
  have hf := hs.toFormed.graft hp hi
  have hparent : parent ≠ scope := by
    rintro rfl
    rw [hlive] at hfree
    cases hfree
  have hmono : ∀ {c}, t.Linked c → (t.graft parent scope).Linked c := by
    intro c hc
    induction c with
    | root => rfl
    | child p name serial ih =>
      obtain ⟨hp', hin⟩ := linked_child.1 hc
      refine linked_child.2 ⟨ih hp', ?_⟩
      rw [children_graft]
      split
      · rename_i heq
        subst heq
        exact List.mem_append_left _ hin
      · exact hin
  rw [List.eq_nil_iff_forall_not_mem]
  intro d hd
  obtain ⟨name, serial, rfl⟩ := hs.child_cases hd
  have hscope : (t.graft parent scope).Linked scope := by
    cases scope with
    | root => rfl
    | child p n k =>
      cases hp
      refine linked_child.2 ⟨hmono (hs.live_iff.1 hlive), ?_⟩
      rw [children_graft, if_pos rfl]
      exact List.mem_append_right _ (List.mem_singleton_self _)
  have hlinked : (t.graft parent scope).Linked (.child scope name serial) := by
    refine linked_child.2 ⟨hscope, ?_⟩
    rw [children_graft, if_neg hparent.symm]
    exact hd
  obtain ⟨e, he⟩ := (h.indexed _).2 (hf.mem_paths.2 ⟨_, hlinked, rfl⟩)
  have hindex := hf.get_some he
  rw [index_graft, if_neg] at hindex
  · obtain ⟨helinked, hepath⟩ := hs.indexed.1 hindex
    cases e with
    | root => exact absurd hepath.symm (Handle.path_child_ne_root _ _ _)
    | child p n k =>
      obtain ⟨hpp, -⟩ := joinPath_injective p.path_nonempty scope.path_nonempty n.valid name.valid
        hepath
      rw [← hpp, hs.live_iff.2 (linked_child.1 helinked).1] at hfree
      cases hfree
  · intro heq
    have hlt := Handle.length_path_child scope name serial
    rw [heq] at hlt
    exact lt_irrefl _ hlt

/-- **Only grounded calls** leave index and structure in agreement. -/
theorem grounded_of_agrees {op : TreeOp} (ho : op.Obtained t) (h : (t.step op).Agrees) :
    t.Grounded op := by
  have hchild : ∀ {scope name capabilities tools metadata},
      (t.child scope name capabilities tools metadata).2.Agrees →
        t.Refuses scope name ∨ t.Live scope := by
    intro scope name capabilities tools metadata h
    rcases t.child_cases scope name capabilities tools metadata with
      ⟨hrefuses, -, -⟩ | ⟨n, u, -, ha, -, -, heq⟩
    · exact Or.inl hrefuses
    · rw [heq] at h
      exact Or.inr (hs.live_of_agrees ha rfl h)
  cases op with
  | child scope name capabilities tools metadata => exact hchild h
  | treeChild name parent capabilities tools metadata createParents =>
    cases parent with
    | none => trivial
    | path path => trivial
    | scope scope => exact hchild h
  | attach scope =>
    rw [step_attach] at h
    rcases hatt : t.attach scope with e | t'
    · left
      cases scope with
      | root =>
        show (t.index.get? rootScope).isSome
        rw [hs.root]
        rfl
      | child p name serial => exact taken_of_attach rfl hatt
    · obtain ⟨hfree, parent, hp, rfl⟩ := attach_ok.1 hatt
      rw [hatt] at h
      exact Or.inr ⟨⟨parent, hp, hs.live_of_agrees (.refl t) hp h⟩,
        hs.childless_of_agrees ho hp hfree h⟩
  | ensure path => trivial
  | remove path => trivial
  | declare scope change => trivial
  | install plugin entryId replace scope => trivial
  | uninstall entryId => trivial

end Sound

theorem sound_new : ({} : HandleTree).Sound where
  toFormed := formed_new
  indexed := by
    intro path c
    constructor
    · intro hc
      obtain ⟨hpath, -⟩ := formed_new.keyed hc
      refine ⟨?_, hpath⟩
      have hone : ({} : HandleTree).index.get? path =
          if path = rootScope then some .root else none := Dict.get?_set Dict.empty _ _ _
      rw [hone] at hc
      split at hc
      · cases hc
        rfl
      · cases hc
    · rintro ⟨hc, rfl⟩
      cases c with
      | root => rfl
      | child p name serial => exact absurd (linked_child.1 hc).2 List.not_mem_nil
  once := fun _ => List.nodup_nil

/-- **Index and structure agree** in every state of a sequence of calls, on the tree and on the
scopes obtained from it, iff none of them adds a scope below one that was removed. -/
theorem agrees_iff_grounded {ops : List TreeOp} (h : Legit ops) :
    (∀ before, before <+: ops → (after before).Agrees) ↔
      Calls.Throughout HandleTree.step {} Grounded ops :=
  Calls.holds_iff_kept sound_new (fun _ hs => hs.agrees)
    (fun _ _ hs ho hg => hs.step ho hg) (fun _ _ hs ho ha => hs.grounded_of_agrees ho ha) h

/-! ## a scope that was removed -/

def firstScope : Handle := .child .root ⟨"x", by decide⟩ 0

/-- it is created and removed, and given a child after that -/
def staleCalls : List TreeOp :=
  [.child .root "x" none none Dict.empty, .remove "/x", .child firstScope "y" none none Dict.empty]

/-- the child of a removed scope is found, but it is no scope of the tree -/
theorem stale_child_disagrees : Legit staleCalls ∧ ¬ (after staleCalls).Agrees := by
  have hindex : ((after staleCalls).index.get? "/x/y").isSome = true := by decide +kernel
  have hpaths : "/x/y" ∉ (after staleCalls).paths := by decide +kernel
  have hcanon : canonicalScopePath "/x/y" = .ok "/x/y" := by decide +kernel
  refine ⟨by unfold Legit; decide +kernel, fun h => hpaths ?_⟩
  obtain ⟨c, hc⟩ := Option.isSome_iff_exists.1 hindex
  exact (h.indexed "/x/y").1 ⟨c, bind_ok.2 ⟨_, hcanon, congrArg Except.ok hc⟩⟩

theorem agrees_iff_grounded_stale :
    (∀ before, before <+: staleCalls → (after before).Agrees) ↔
      Calls.Throughout HandleTree.step {} Grounded staleCalls :=
  agrees_iff_grounded (by unfold Legit; decide +kernel)

end HandleTree

end Chassis
