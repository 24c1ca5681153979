import Chassis.Composition.Handles
import Chassis.Harness.Materialize

/-!
# The index and the structure of a scope tree

* `canonicalScopePath_path`   the path of a scope is canonical;
* `Below`, `LinkedFrom`       a scope is above another; and its children lists lead to it;
* `mem_ordered`               the walk meets exactly what the lists lead to from the root;
* `Agrees`                    what the index, the lists, and the resolver know of a tree is the same;
* `Sound`                     the index holds exactly what the lists lead to;
* `Grounded`                  a call adds scopes only below scopes that the tree still has.
-/

set_option linter.unusedSectionVars false

namespace Chassis
open Py

/-! ## paths -/

namespace Handle

/-- the names from a scope up to the root -/
def names : Handle → List String
  | root => []
  | child parent name _ => name.text :: parent.names

theorem path_eq (h : Handle) : h.path = Harness.pathOf h.names := by
  induction h with
  | root => rfl
  | child parent name serial ih =>
    show joinPath parent.path name.text = _
    rw [ih]
    rfl

theorem validName_of_names {h : Handle} {name : String} (hn : name ∈ h.names) : ValidName name := by
  induction h with
  | root => cases hn
  | child parent n serial ih =>
    rcases List.mem_cons.1 hn with rfl | hn
    · exact n.valid
    · exact ih hn

theorem path_child_ne_root (parent : Handle) (name : ScopeName) (serial : Nat) :
    (child parent name serial).path ≠ rootScope := joinPath_ne_root name.valid

theorem length_path_child (parent : Handle) (name : ScopeName) (serial : Nat) :
    parent.path.toList.length < (child parent name serial).path.toList.length :=
  length_joinPath _ name.valid

theorem path_nonempty (h : Handle) : h.path ≠ "" := by
  cases h with
  | root => decide
  | child parent name serial =>
    intro he
    have hlt := length_path_child parent name serial
    rw [he] at hlt
    exact absurd hlt (Nat.not_lt_zero _)

theorem depth_le_of_issued {h : Handle} {n : Nat} (hi : h.Issued n) : h.depth ≤ n := by
  induction h generalizing n with
  | root => exact Nat.zero_le n
  | child parent name serial ih =>
    obtain ⟨hlt, hp⟩ := hi
    have hle := ih hp
    show parent.depth + 1 ≤ n
    omega

theorem Issued.mono {h : Handle} {m n : Nat} (hi : h.Issued m) (hmn : m ≤ n) : h.Issued n := by
  cases h with
  | root => trivial
  | child parent name serial => exact ⟨hi.1.trans_le hmn, hi.2⟩

end Handle

theorem ValidName.segment {name : String} (h : ValidName name) :
    (decide (name = "") || decide (name ≠ strip name) || decide (name = ".") ||
      decide (name = "..")) = false := by
  unfold ValidName validateScopeName at h
  split at h
  · cases h
  · rename_i htrim
    split at h
    · cases h
    · split at h
      · cases h
      · rename_i hdots
        rw [not_or] at htrim hdots
        simp only [Bool.or_eq_false_iff, decide_eq_false_iff_not]
        exact ⟨⟨htrim, hdots.1⟩, hdots.2⟩

/-- **The path of nested names is canonical**, and it is split into them again. -/
theorem canonicalScopePath_pathOf {l : List String} (hl : ∀ name ∈ l, ValidName name) :
    canonicalScopePath (Harness.pathOf l) = .ok (Harness.pathOf l) := by
  rcases l with _ | ⟨name, above⟩
  · rfl
  · have hname := hl name List.mem_cons_self
    have hne : Harness.pathOf (name :: above) ≠ rootScope := joinPath_ne_root hname
    have hflat := toList_pathOf hl (List.cons_ne_nil _ _)
    obtain ⟨first, rest, hrev⟩ := List.exists_cons_of_ne_nil
      (show (name :: above).reverse ≠ [] by simp)
    rw [hrev, List.flatMap_cons] at hflat
    have hvalid : ∀ n ∈ first :: rest, ValidName n := fun n hn =>
      hl n (List.mem_reverse.1 (hrev ▸ hn))
    have habs : startsWith (Harness.pathOf (name :: above)) "/" = true := by
      unfold startsWith
      rw [hflat]
      rfl
    have hend : endsWith (Harness.pathOf (name :: above)) "/" = false := by
      unfold endsWith
      rw [Bool.eq_false_iff]
      intro hsuffix
      obtain ⟨before, hbefore⟩ := List.isSuffixOf_iff_suffix.1 hsuffix
      rw [Harness.pathOf, toList_joinPath] at hbefore
      rcases List.eq_nil_or_concat name.toList with hnil | ⟨cs, c, hcs⟩
      · exact hname.nonempty hnil
      rw [List.concat_eq_append] at hcs
      rw [hcs] at hbefore
      rw [show joinBase (Harness.pathOf above) ++ '/' :: (cs ++ [c]) =
        (joinBase (Harness.pathOf above) ++ '/' :: cs) ++ [c] by simp] at hbefore
      have hc : '/' = c := (List.cons.inj (List.append_inj' hbefore rfl).2).1
      refine hname.no_slash ?_
      rw [hcs, hc]
      exact List.mem_append_right _ (List.mem_singleton_self _)
    have hsplit : split '/' (String.ofList ((Harness.pathOf (name :: above)).toList.drop 1)) =
        first :: rest := by
      rw [hflat, split, String.toList_ofList]
      show (splitChars '/' [] (first.toList ++ rest.flatMap fun n => '/' :: n.toList)).map
        String.ofList = _
      have hmap : (rest.flatMap fun n => '/' :: n.toList) =
          (rest.map String.toList).flatMap fun p => '/' :: p := by
        rw [List.flatMap_map]
      rw [hmap, splitChars_flatMap_cons [] _ (hvalid first List.mem_cons_self).no_slash]
      · rw [List.nil_append, List.map_cons, List.map_map]
        simp
      · intro p hp
        obtain ⟨n, hn, rfl⟩ := List.mem_map.1 hp
        exact (hvalid n (List.mem_cons_of_mem _ hn)).no_slash
    unfold canonicalScopePath
    rw [if_neg (by rw [habs]; decide), if_neg hne, if_neg (by rw [hend]; decide)]
    simp only [hsplit]
    rw [List.find?_eq_none.2 fun n hn => by
      rw [(hvalid n hn).segment]
      exact Bool.false_ne_true]

theorem canonicalScopePath_path (h : Handle) : canonicalScopePath h.path = .ok h.path := by
  rw [h.path_eq]
  exact canonicalScopePath_pathOf fun _ hn => Handle.validName_of_names hn

theorem joinPath_injective {p q m n : String} (hp : p ≠ "") (hq : q ≠ "") (hm : ValidName m)
    (hn : ValidName n) (h : joinPath p m = joinPath q n) : p = q ∧ m = n := by
  have hlist := congrArg String.toList h
  rw [toList_joinPath, toList_joinPath, List.append_eq_append_iff] at hlist
  have hboth : joinBase p = joinBase q ∧ m.toList = n.toList := by
    rcases hlist with ⟨x, hx, hrest⟩ | ⟨x, hx, hrest⟩
    · rcases x with _ | ⟨c, x⟩
      · exact ⟨by rw [hx, List.append_nil], (List.cons.inj hrest).2⟩
      · refine absurd ?_ hm.no_slash
        rw [(List.cons.inj hrest).2]
        exact List.mem_append_right _ List.mem_cons_self
    · rcases x with _ | ⟨c, x⟩
      · exact ⟨by rw [hx, List.append_nil], ((List.cons.inj hrest).2).symm⟩
      · refine absurd ?_ hn.no_slash
        rw [(List.cons.inj hrest).2]
        exact List.mem_append_right _ List.mem_cons_self
  refine ⟨?_, String.toList_inj.1 hboth.2⟩
  have hbase := hboth.1
  unfold joinBase at hbase
  have hempty : ∀ {s : String}, s.toList = [] → s = "" := fun h => String.toList_inj.1 h
  split at hbase
  · rename_i hpr
    split at hbase
    · rename_i hqr
      rw [hpr, hqr]
    · exact absurd (hempty hbase.symm) hq
  · split at hbase
    · exact absurd (hempty hbase) hp
    · exact String.toList_inj.1 hbase

/-! ## what the lists lead to -/

namespace Handle

/-- `h` is the scope `c`, or an ancestor of it -/
def Below (h : Handle) : Handle → Prop
  | root => root = h
  | child parent name serial => child parent name serial = h ∨ Below h parent

end Handle

namespace HandleTree
variable {t : HandleTree}

/-- the lists of children lead from `h` to the scope -/
def LinkedFrom (t : HandleTree) (h : Handle) : Handle → Prop
  | .root => Handle.root = h
  | .child parent name serial => Handle.child parent name serial = h ∨
      (t.LinkedFrom h parent ∧ Handle.child parent name serial ∈ t.children parent)

/-- the lists of children lead to it -/
def Linked (t : HandleTree) (scope : Handle) : Prop := t.LinkedFrom .root scope

theorem linkedFrom_self (h : Handle) : t.LinkedFrom h h := by
  cases h with
  | root => rfl
  | child parent name serial => exact Or.inl rfl

theorem linked_child {parent : Handle} {name : ScopeName} {serial : Nat} :
    t.Linked (.child parent name serial) ↔
      t.Linked parent ∧ Handle.child parent name serial ∈ t.children parent :=
  or_iff_right Handle.noConfusion

/-- what holds of every tree that calls lead to -/
structure Formed (t : HandleTree) : Prop where
  listed : ∀ {parent c}, c ∈ t.children parent → c.parent = some parent ∧ c.Issued t.created
  keyed : ∀ {path c}, t.index.get? path = some c → c.path = path ∧ c.Issued t.created
  root : t.index.get? rootScope = some .root

namespace Formed
variable (hf : t.Formed)
include hf

theorem child_cases {parent c : Handle} (h : c ∈ t.children parent) :
    ∃ name serial, c = .child parent name serial := by
  have hp := (hf.listed h).1
  cases c with
  | root => cases hp
  | child parent' name serial =>
    cases hp
    exact ⟨name, serial, rfl⟩

theorem linkedFrom_iff {h c : Handle} :
    t.LinkedFrom h c ↔ c = h ∨ ∃ d ∈ t.children h, t.LinkedFrom d c := by
  induction c with
  | root =>
    constructor
    · exact fun hc => Or.inl hc
    · rintro (hc | ⟨d, hd, hc⟩)
      · exact hc
      · obtain ⟨name, serial, rfl⟩ := hf.child_cases hd
        exact nomatch (show Handle.root = _ from hc)
  | child parent name serial ih =>
    constructor
    · rintro (hc | ⟨hp, hin⟩)
      · exact Or.inl hc
      · right
        rcases ih.1 hp with rfl | ⟨d, hd, hlink⟩
        · exact ⟨_, hin, linkedFrom_self _⟩
        · exact ⟨d, hd, Or.inr ⟨hlink, hin⟩⟩
    · rintro (hc | ⟨d, hd, hc | ⟨hp, hin⟩⟩)
      · exact Or.inl hc
      · obtain ⟨name', serial', rfl⟩ := hf.child_cases hd
        cases hc
        exact Or.inr ⟨linkedFrom_self _, hd⟩
      · exact Or.inr ⟨ih.2 (Or.inr ⟨d, hd, hp⟩), hin⟩

theorem depth_of_linkedFrom {h c : Handle} (hc : t.LinkedFrom h c) : h.depth ≤ c.depth := by
  induction c with
  | root =>
    cases hc
    exact le_refl _
  | child parent name serial ih =>
    rcases hc with rfl | ⟨hp, -⟩
    · exact le_refl _
    · exact (ih hp).trans (Nat.le_succ _)

theorem mem_walk {n : Nat} {h c : Handle} :
    c ∈ t.walk n h ↔ t.LinkedFrom h c ∧ c.depth < h.depth + n := by
  induction n generalizing h with
  | zero =>
    refine iff_of_false List.not_mem_nil fun hc => ?_
    have hle := hf.depth_of_linkedFrom hc.1
    omega
  | succ n ih =>
    rw [walk, List.mem_cons, List.mem_flatMap, hf.linkedFrom_iff]
    constructor
    · rintro (rfl | ⟨d, hd, hc⟩)
      · exact ⟨Or.inl rfl, by omega⟩
      · rw [mem_sortedBy] at hd
        obtain ⟨hlink, hlt⟩ := ih.1 hc
        obtain ⟨name, serial, rfl⟩ := hf.child_cases hd
        refine ⟨Or.inr ⟨_, hd, hlink⟩, ?_⟩
        rw [Handle.depth] at hlt
        omega
    · rintro ⟨rfl | ⟨d, hd, hlink⟩, hlt⟩
      · exact Or.inl rfl
      · refine Or.inr ⟨d, mem_sortedBy.2 hd, ih.2 ⟨hlink, ?_⟩⟩
        obtain ⟨name, serial, rfl⟩ := hf.child_cases hd
        rw [Handle.depth]
        omega

theorem issued_of_linked {c : Handle} (hc : t.Linked c) : c.Issued t.created := by
  cases c with
  | root => trivial
  | child parent name serial => exact (hf.listed (linked_child.1 hc).2).2

/-- **The walk meets exactly what the lists lead to**: its fuel never runs out. -/
theorem mem_ordered {c : Handle} : c ∈ t.ordered ↔ t.Linked c := by
  unfold ordered
  rw [hf.mem_walk]
  refine ⟨fun hc => hc.1, fun hc => ⟨hc, ?_⟩⟩
  have hle := Handle.depth_le_of_issued (hf.issued_of_linked hc)
  rw [Handle.depth]
  omega

theorem mem_paths {path : String} : path ∈ t.paths ↔ ∃ c, t.Linked c ∧ c.path = path := by
  unfold paths
  rw [List.mem_map]
  exact exists_congr fun c => and_congr_left fun _ => hf.mem_ordered

end Formed

theorem specs_paths (t : HandleTree) : t.specs.map ScopeSpec.path = t.paths := by
  unfold specs paths
  rw [List.map_map]
  rfl

end HandleTree

end Chassis
