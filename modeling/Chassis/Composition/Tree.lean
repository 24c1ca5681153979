import Chassis.Composition

/-!
# The desired tree of scopes, as a tree

* `isWithin_joinPath`     a child lies within a scope iff it is that scope, or its parent lies there;
* `Branching t`           every scope but the root hangs below one of the tree, under its own path;
* `mem_ordered`           the walk from the root meets every scope;
* `get?_detach`           removing a scope removes what lies within it, and nothing else;
* `within_declared`       whatever lies within a path, the path itself is declared as well;
* `Branching.attach`, `Branching.modify`, `detach_branching`   what keeps a tree branching.
-/

set_option linter.unusedSectionVars false

namespace Chassis
open Py

/-! ## paths -/

/-- what a child scope can be called -/
def ValidName (name : String) : Prop := validateScopeName name = .ok ()

theorem ValidName.nonempty {name : String} (h : ValidName name) : name.toList ≠ [] := by
  intro hn
  have hempty : name = "" := String.toList_inj.1 hn
  subst hempty
  exact nomatch (show (_ : Except Err Unit) = .ok () from h)

theorem ValidName.no_slash {name : String} (h : ValidName name) : '/' ∉ name.toList := by
  intro hin
  unfold ValidName validateScopeName at h
  split at h
  · cases h
  · rw [if_pos (List.contains_iff_mem.2 hin)] at h
    cases h

/-- what precedes the name in the path of a child -/
def joinBase (parent : String) : List Char := if parent = rootScope then [] else parent.toList

theorem toList_joinPath (parent name : String) :
    (joinPath parent name).toList = joinBase parent ++ '/' :: name.toList := by
  unfold joinPath joinBase
  split
  · rw [rootScope, String.toList_append]
    rfl
  · rw [String.toList_append, String.toList_append]
    exact List.append_assoc _ _ _

theorem joinPath_ne_root {parent name : String} (h : ValidName name) :
    joinPath parent name ≠ rootScope := by
  intro he
  have hlist := congrArg String.toList he
  rw [toList_joinPath] at hlist
  have hlen := congrArg List.length hlist
  have hname := List.length_pos_iff.2 h.nonempty
  rw [List.length_append, List.length_cons] at hlen
  have hroot : rootScope.toList.length = 1 := rfl
  omega

theorem length_joinPath (parent : String) {name : String} (h : ValidName name) :
    parent.toList.length < (joinPath parent name).toList.length := by
  have hname := List.length_pos_iff.2 h.nonempty
  rw [toList_joinPath, List.length_append, List.length_cons]
  unfold joinBase
  split
  · rename_i hp
    subst hp
    have hroot : rootScope.toList.length = 1 := rfl
    omega
  · omega

theorem canonicalScopePath_ok {path path' : String} (h : canonicalScopePath path = .ok path') :
    path' = path := by
  unfold canonicalScopePath at h
  split at h
  · cases h
  · split at h
    · cases h
      rfl
    · split at h
      · cases h
      · simp only at h
        split at h
        · cases h
          rfl
        · split at h <;> cases h

namespace CompositionTree

theorem isWithin_iff {path ancestor : String} : isWithin path ancestor = true ↔
    ancestor = rootScope ∨ path = ancestor ∨ ancestor.toList ++ ['/'] <+: path.toList := by
  unfold isWithin startsWith
  rw [Bool.or_eq_true, Bool.or_eq_true, decide_eq_true_iff, decide_eq_true_iff,
    List.isPrefixOf_iff_prefix, String.toList_append, or_assoc]
  rfl

theorem isWithin_refl (path : String) : isWithin path path = true :=
  isWithin_iff.2 (Or.inr (Or.inl rfl))

/-- two paths within each other are the same; every path lies within the root -/
theorem isWithin_antisymm {path ancestor : String} (h : isWithin path ancestor = true)
    (h' : isWithin ancestor path = true) (hne : ancestor ≠ rootScope) (hempty : ancestor ≠ "") :
    path = ancestor := by
  rcases isWithin_iff.1 h with hroot | heq | hpre
  · exact absurd hroot hne
  · exact heq
  · have hlen := hpre.length_le
    rw [List.length_append, List.length_singleton] at hlen
    rcases isWithin_iff.1 h' with rfl | heq | hpre'
    · have hroot : rootScope.toList.length = 1 := rfl
      exact absurd (String.toList_inj.1 (List.length_eq_zero_iff.1 (by omega))) hempty
    · exact heq.symm
    · have hlen' := hpre'.length_le
      rw [List.length_append, List.length_singleton] at hlen'
      omega

/-- **A child lies within a scope** iff it is that scope, or its parent lies within it. -/
theorem isWithin_joinPath {parent name ancestor : String} (h : ValidName name) :
    isWithin (joinPath parent name) ancestor = true ↔
      joinPath parent name = ancestor ∨ isWithin parent ancestor = true := by
  have hslash := h.no_slash
  rw [isWithin_iff, isWithin_iff, toList_joinPath]
  constructor
  · rintro (hroot | heq | ⟨rest, hrest⟩)
    · exact Or.inr (Or.inl hroot)
    · exact Or.inl heq
    · rw [List.append_assoc, List.append_eq_append_iff] at hrest
      -- the name has no slash, so the one after the ancestor lies in the path of the parent
      have hbase : ancestor.toList = joinBase parent ∨
          ancestor.toList ++ ['/'] <+: joinBase parent := by
        rcases hrest with ⟨x, hx, hname⟩ | ⟨x, hx, hname⟩
        · rcases x with _ | ⟨c, x⟩
          · exact Or.inl (by rw [hx, List.append_nil])
          · obtain ⟨rfl, hx'⟩ := List.cons.inj hname
            exact Or.inr ⟨x, by rw [hx, List.append_assoc]; rfl⟩
        · rcases x with _ | ⟨c, x⟩
          · exact Or.inl (by rw [hx, List.append_nil])
          · obtain ⟨-, hx'⟩ := List.cons.inj hname
            refine absurd ?_ hslash
            rw [hx']
            exact List.mem_append_right _ List.mem_cons_self
      right
      unfold joinBase at hbase
      split at hbase
      · rename_i hp
        subst hp
        rcases hbase with hnil | hpre
        · -- the empty path is no scope, but the root lies within it all the same
          refine Or.inr (Or.inr ⟨[], ?_⟩)
          rw [hnil]
          rfl
        · have hlen := hpre.length_le
          rw [List.length_append] at hlen
          exact absurd hlen (by simp)
      · rcases hbase with heq | hpre
        · exact Or.inr (Or.inl (String.toList_inj.1 heq.symm))
        · exact Or.inr (Or.inr hpre)
  · rintro (heq | hroot | rfl | hpre)
    · exact Or.inr (Or.inl heq)
    · exact Or.inl hroot
    · rcases eq_or_ne parent rootScope with hroot | hne
      · exact Or.inl hroot
      · refine Or.inr (Or.inr ⟨name.toList, ?_⟩)
        rw [joinBase, if_neg hne, List.append_assoc]
        rfl
    · right
      right
      unfold joinBase
      split
      · rename_i hp
        subst hp
        have hnil : ancestor.toList = [] := by
          have hlen := hpre.length_le
          rw [List.length_append] at hlen
          have hroot : rootScope.toList.length = 1 := rfl
          exact List.length_eq_zero_iff.1 (by rw [hroot, List.length_singleton] at hlen; omega)
        rw [hnil]
        exact ⟨name.toList, rfl⟩
      · exact hpre.trans (List.prefix_append _ _)

/-! ## the walk -/

/-- every scope but the root hangs below another one, under its own path -/
structure Branching (t : CompositionTree) : Prop where
  keyed : ∀ {path s}, t.get? path = some s → s.path = path
  root : (t.get? rootScope).isSome
  below : ∀ {path s}, t.get? path = some s → path ≠ rootScope → ∃ parent,
    s.parent = some parent ∧ path = joinPath parent s.name ∧ ValidName s.name ∧
      (t.get? parent).isSome

variable {t : CompositionTree}

theorem mem_children {path : String} {s : CompositionScope} :
    s ∈ t.children path ↔ s ∈ t.scopes.values ∧ s.parent = some path := by
  unfold children
  rw [mem_sortedBy, List.mem_filter, decide_eq_true_iff]

theorem mem_scopes_of_walk {n : Nat} {s r : CompositionScope} (hr : r ∈ t.scopes.values)
    (h : s ∈ t.walk n r) : s ∈ t.scopes.values := by
  induction n generalizing r with
  | zero => cases h
  | succ n ih =>
    rw [walk] at h
    rcases List.mem_cons.1 h with rfl | h
    · exact hr
    · obtain ⟨c, hc, h⟩ := List.mem_flatMap.1 h
      exact ih (mem_children.1 hc).1 h

theorem mem_scopes_of_ordered {s : CompositionScope} (h : s ∈ t.ordered) : s ∈ t.scopes.values := by
  unfold ordered at h
  rcases hroot : t.get? rootScope with _ | root
  · rw [hroot] at h
    cases h
  · rw [hroot] at h
    exact mem_scopes_of_walk (Dict.mem_values.2 ⟨_, hroot⟩) h

theorem walk_child {n : Nat} {s p r : CompositionScope} (hp : p ∈ t.walk n r)
    (hs : s ∈ t.children p.path) : s ∈ t.walk (n + 1) r := by
  induction n generalizing r with
  | zero => cases hp
  | succ n ih =>
    rw [walk] at hp ⊢
    rcases List.mem_cons.1 hp with rfl | hp
    · exact List.mem_cons_of_mem _ (List.mem_flatMap.2 ⟨s, hs, List.mem_cons_self⟩)
    · obtain ⟨c, hc, hp⟩ := List.mem_flatMap.1 hp
      exact List.mem_cons_of_mem _ (List.mem_flatMap.2 ⟨c, hc, ih hp⟩)

def shorter (t : CompositionTree) (n : Nat) : List CompositionScope :=
  t.scopes.values.filter fun s => s.path.toList.length < n

theorem shorter_lt {p : CompositionScope} (hp : p ∈ t.scopes.values) {n : Nat}
    (hlt : p.path.toList.length < n) :
    (t.shorter p.path.toList.length).length < (t.shorter n).length := by
  have hsub : t.shorter p.path.toList.length =
      (t.shorter n).filter fun s => s.path.toList.length < p.path.toList.length := by
    unfold shorter
    rw [List.filter_filter]
    refine List.filter_congr fun s _ => ?_
    rw [Bool.eq_iff_iff, Bool.and_eq_true, decide_eq_true_iff, decide_eq_true_iff]
    exact ⟨fun hs => ⟨hs, hs.trans hlt⟩, fun hs => hs.1⟩
  rw [hsub, List.length_filter_lt_length_iff_exists]
  refine ⟨p, List.mem_filter.2 ⟨hp, decide_eq_true hlt⟩, ?_⟩
  rw [decide_eq_true_iff]
  exact lt_irrefl _

namespace Branching
variable (hb : t.Branching)
include hb

theorem mem_values {s : CompositionScope} :
    s ∈ t.scopes.values ↔ t.get? s.path = some s := by
  rw [Dict.mem_values]
  constructor
  · rintro ⟨path, hs⟩
    rw [hb.keyed hs]
    exact hs
  · exact fun hs => ⟨_, hs⟩

/-- the walk meets a scope as soon as its fuel exceeds the number of shorter paths -/
theorem walk_meets {root s : CompositionScope} (hroot : t.get? rootScope = some root) {n : Nat}
    (hs : t.get? s.path = some s) (hn : (t.shorter s.path.toList.length).length < n) :
    s ∈ t.walk n root := by
  induction n generalizing s with
  | zero => exact absurd hn (Nat.not_lt_zero _)
  | succ n ih =>
    rcases eq_or_ne s.path rootScope with hpath | hne
    · rw [hpath, hroot] at hs
      cases hs
      exact List.mem_cons_self
    · obtain ⟨parent, hparent, hjoin, hname, hdecl⟩ := hb.below hs hne
      obtain ⟨p, hp⟩ := Option.isSome_iff_exists.1 hdecl
      have hkey : p.path = parent := hb.keyed hp
      have hlen : p.path.toList.length < s.path.toList.length := by
        rw [hkey, hjoin]
        exact length_joinPath _ hname
      have hpdecl : t.get? p.path = some p := by rw [hkey]; exact hp
      have hlt := shorter_lt (hb.mem_values.2 hpdecl) hlen
      refine walk_child (ih hpdecl (by omega)) (mem_children.2 ⟨hb.mem_values.2 hs, ?_⟩)
      rw [hkey]
      exact hparent

/-- **The walk from the root meets every scope.** -/
theorem mem_ordered {s : CompositionScope} : s ∈ t.ordered ↔ t.get? s.path = some s := by
  obtain ⟨root, hroot⟩ := Option.isSome_iff_exists.1 hb.root
  unfold ordered
  rw [hroot]
  show s ∈ t.walk t.scopes.items.length root ↔ _
  constructor
  · intro h
    exact hb.mem_values.1 (mem_scopes_of_walk (Dict.mem_values.2 ⟨_, hroot⟩) h)
  · intro hs
    refine hb.walk_meets hroot hs ?_
    have hlen : t.scopes.values.length = t.scopes.items.length := List.length_map _
    rw [← hlen]
    refine List.length_filter_lt_length_iff_exists.2 ⟨s, hb.mem_values.2 hs, ?_⟩
    rw [decide_eq_true_iff]
    exact lt_irrefl _

theorem mem_descendants {path : String} {s : CompositionScope} :
    s ∈ t.descendants path ↔ t.get? s.path = some s ∧ isWithin s.path path = true := by
  unfold descendants
  rw [mem_sortedBy, List.mem_filter, hb.mem_ordered]

theorem nonempty {path : String} (hp : (t.get? path).isSome) : path ≠ "" := by
  rintro rfl
  obtain ⟨s, hs⟩ := Option.isSome_iff_exists.1 hp
  obtain ⟨parent, -, hjoin, hname, -⟩ := hb.below hs (by decide)
  have hlt := length_joinPath parent hname
  rw [← hjoin] at hlt
  exact absurd hlt (Nat.not_lt_zero _)

/-- **Whatever lies within a path**, the path itself is declared as well. -/
theorem within_declared {path ancestor : String} (hp : (t.get? path).isSome)
    (hw : isWithin path ancestor = true) (ha : ancestor ≠ "") : (t.get? ancestor).isSome := by
  induction hn : path.toList.length using Nat.strong_induction_on generalizing path with
  | _ n ih =>
    obtain ⟨s, hs⟩ := Option.isSome_iff_exists.1 hp
    rcases eq_or_ne path rootScope with rfl | hne
    · rcases isWithin_iff.1 hw with rfl | rfl | hpre
      · exact hp
      · exact hp
      · have hlen := hpre.length_le
        have hroot : rootScope.toList.length = 1 := rfl
        rw [List.length_append, hroot, List.length_singleton] at hlen
        exact absurd (String.toList_inj.1 (List.length_eq_zero_iff.1 (by omega))) ha
    · obtain ⟨parent, -, hjoin, hname, hdecl⟩ := hb.below hs hne
      rw [hjoin] at hw
      rcases (isWithin_joinPath hname).1 hw with rfl | hw
      · rw [← hjoin]
        exact hp
      · refine ih _ ?_ hdecl hw rfl
        rw [← hn, hjoin]
        exact length_joinPath _ hname

/-- **Removing a scope** removes what lies within it, and nothing else. -/
theorem get?_detach (path k : String) :
    (t.detach path).get? k = if isWithin k path then none else t.get? k := by
  show ((t.descendants path).foldl (fun d s => d.erase s.path) t.scopes).get? k = _
  rw [Dict.get?_foldl_erase]
  rcases hget : t.get? k with _ | s
  · have hget' : t.scopes.get? k = none := hget
    rw [hget', ite_self, ite_self]
  · have hkey := hb.keyed hget
    have hget' : t.scopes.get? k = some s := hget
    have hiff : (∃ s' ∈ t.descendants path, s'.path = k) ↔ isWithin k path = true := by
      constructor
      · rintro ⟨s', hs', rfl⟩
        exact (hb.mem_descendants.1 hs').2
      · intro hw
        refine ⟨s, hb.mem_descendants.2 ⟨?_, ?_⟩, hkey⟩
        · rw [hkey]
          exact hget
        · rw [hkey]
          exact hw
    by_cases hw : isWithin k path = true
    · rw [if_pos (hiff.2 hw), if_pos hw]
    · rw [if_neg (fun h => hw (hiff.1 h)), if_neg hw, hget']

theorem detach_branching {path : String} (hne : path ≠ rootScope) (hempty : path ≠ "") :
    (t.detach path).Branching where
  keyed := by
    intro k s hs
    rw [hb.get?_detach] at hs
    split at hs
    · cases hs
    · exact hb.keyed hs
  root := by
    rw [hb.get?_detach, if_neg]
    · exact hb.root
    · intro hw
      rcases isWithin_iff.1 hw with h | h | hpre
      · exact hne h
      · exact hne h.symm
      · have hlen := hpre.length_le
        have hroot : rootScope.toList.length = 1 := rfl
        rw [List.length_append, hroot, List.length_singleton] at hlen
        exact hempty (String.toList_inj.1 (List.length_eq_zero_iff.1 (by omega)))
  below := by
    intro k s hs hk
    rw [hb.get?_detach] at hs
    split at hs
    · cases hs
    · rename_i hw
      obtain ⟨parent, hparent, hjoin, hname, hdecl⟩ := hb.below hs hk
      refine ⟨parent, hparent, hjoin, hname, ?_⟩
      rw [hb.get?_detach, if_neg]
      · exact hdecl
      · intro hw'
        refine hw ?_
        rw [hjoin]
        exact (isWithin_joinPath hname).2 (Or.inr hw')

end Branching

/-! ## attaching and changing scopes -/

/-- what a scope is when it is attached -/
def attached (parent name : String) (capabilities tools : Option (List String))
    (metadata : Dict String Value) : CompositionScope :=
  ⟨joinPath parent name, name, some parent, capabilities.map nameSet, tools.map nameSet, metadata,
    Dict.empty⟩

theorem attach_ok {parent name : String} {capabilities tools : Option (List String)}
    {metadata : Dict String Value} {t' : CompositionTree} :
    t.attach parent name capabilities tools metadata = .ok t' ↔
      ValidName name ∧ (t.get? parent).isSome ∧ t.get? (joinPath parent name) = none ∧
        t' = ⟨t.scopes.set (joinPath parent name)
          (attached parent name capabilities tools metadata)⟩ := by
  unfold attach
  rw [bind_ok]
  constructor
  · rintro ⟨_, hname, h⟩
    split at h
    · cases h
    · rename_i hparent
      simp only at h
      split at h
      · cases h
      · rename_i hnew
        cases h
        exact ⟨hname, Option.isSome_iff_ne_none.2 (by simpa using hparent), by simpa using hnew, rfl⟩
  · rintro ⟨hname, hparent, hnew, rfl⟩
    refine ⟨(), hname, ?_⟩
    obtain ⟨p, hp⟩ := Option.isSome_iff_exists.1 hparent
    rw [hp]
    simp only [Option.isNone_some, Bool.false_eq_true, if_false, hnew, Option.isSome_none]
    rfl

theorem Branching.set (hb : t.Branching) {path : String} {s : CompositionScope}
    (hkey : s.path = path) (hbelow : path ≠ rootScope → ∃ parent, s.parent = some parent ∧
      path = joinPath parent s.name ∧ ValidName s.name ∧ (t.get? parent).isSome) :
    (⟨t.scopes.set path s⟩ : CompositionTree).Branching := by
  have hget : ∀ k, (⟨t.scopes.set path s⟩ : CompositionTree).get? k =
      if k = path then some s else t.get? k := fun k => Dict.get?_set _ _ _ _
  have hkeeps : ∀ k, (t.get? k).isSome →
      ((⟨t.scopes.set path s⟩ : CompositionTree).get? k).isSome := by
    intro k hk
    rw [hget]
    split
    · rfl
    · exact hk
  refine ⟨?_, hkeeps _ hb.root, ?_⟩
  · intro k s' hs'
    rw [hget] at hs'
    split at hs'
    · rename_i hk
      cases hs'
      rw [hk, hkey]
    · exact hb.keyed hs'
  · intro k s' hs' hne
    rw [hget] at hs'
    split at hs'
    · rename_i hk
      cases hs'
      subst hk
      obtain ⟨parent, hparent, hjoin, hname, hdecl⟩ := hbelow hne
      exact ⟨parent, hparent, hjoin, hname, hkeeps _ hdecl⟩
    · obtain ⟨parent, hparent, hjoin, hname, hdecl⟩ := hb.below hs' hne
      exact ⟨parent, hparent, hjoin, hname, hkeeps _ hdecl⟩

theorem Branching.attach (hb : t.Branching) {parent name : String}
    {capabilities tools : Option (List String)} {metadata : Dict String Value}
    {t' : CompositionTree} (h : t.attach parent name capabilities tools metadata = .ok t') :
    t'.Branching := by
  obtain ⟨hname, hparent, -, rfl⟩ := attach_ok.1 h
  exact hb.set rfl fun _ => ⟨parent, rfl, rfl, hname, hparent⟩

theorem get?_modify (path : String) (f : CompositionScope → CompositionScope) (k : String) :
    (t.modify path f).get? k = if k = path then (t.get? path).map f else t.get? k := by
  unfold modify
  rcases hget : t.get? path with _ | s
  · by_cases hk : k = path
    · rw [if_pos hk, hk]
      exact hget
    · rw [if_neg hk]
  · exact Dict.get?_set _ _ _ _

theorem Branching.modify (hb : t.Branching) (path : String)
    {f : CompositionScope → CompositionScope} (hpath : ∀ s, (f s).path = s.path)
    (hname : ∀ s, (f s).name = s.name) (hparent : ∀ s, (f s).parent = s.parent) :
    (t.modify path f).Branching := by
  unfold CompositionTree.modify
  rcases hget : t.get? path with _ | s
  · exact hb
  · refine hb.set ((hpath s).trans (hb.keyed hget)) fun hne => ?_
    obtain ⟨parent, hp, hjoin, hn, hdecl⟩ := hb.below hget hne
    exact ⟨parent, (hparent s).trans hp, by rw [hname]; exact hjoin, by rw [hname]; exact hn, hdecl⟩

theorem branching_new : ({} : CompositionTree).Branching := by
  have hget : ∀ k s, ({} : CompositionTree).get? k = some s →
      k = rootScope ∧ s = { path := rootScope, name := "root", parent := none } := by
    intro k s hs
    have hone : ({} : CompositionTree).get? k =
        if k = rootScope then some { path := rootScope, name := "root", parent := none }
        else none := Dict.get?_set Dict.empty _ _ _
    rw [hone] at hs
    split at hs
    · rename_i hk
      exact ⟨hk, (Option.some.inj hs).symm⟩
    · cases hs
  refine ⟨?_, rfl, ?_⟩
  · intro k s hs
    obtain ⟨rfl, rfl⟩ := hget k s hs
    rfl
  · intro k s hs hne
    exact absurd (hget k s hs).1 hne

end CompositionTree
end Chassis
