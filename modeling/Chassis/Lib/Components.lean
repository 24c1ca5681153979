import Mathlib.Logic.Relation
import Mathlib.Logic.Function.Basic
import Mathlib.Order.Antisymmetrization
import Mathlib.Data.List.Nodup
import Mathlib.Data.List.Pairwise

/-!
# Strongly connected components, by depth-first search

What Tarjan's algorithm keeps true, over any graph: the nodes on the stack, numbered as they are
met; the path of nodes that are still looked at, innermost first, each with the successors that it
has not looked at yet; a lower bound for how far up each of them gets; and the components that are
closed.

* `IsComponent`     a list of all nodes that reach one of them and are reached by it;
* `Sound`           the invariant;
* `Sound.enter`     a new node is met;
* `Sound.look`      a successor that was met before is looked at;
* `Sound.close`     a node that gets no further up than itself closes the component above it;
* `Sound.retreat`   any other node hands on to the one before it how far up it gets.
-/

set_option linter.unusedSectionVars false

namespace Components
open Relation

variable {α : Type*} (edge : α → α → Prop)

/-- a strongly connected component: all that is mutually reachable with one of its members -/
structure IsComponent (c : List α) : Prop where
  nodup : c.Nodup
  nonempty : c ≠ []
  mem_iff : ∀ u ∈ c, ∀ v, v ∈ c ↔ AntisymmRel (ReflTransGen edge) u v

theorem IsComponent.perm {edge : α → α → Prop} {c c' : List α} (h : IsComponent edge c)
    (hp : c'.Perm c) : IsComponent edge c' where
  nodup := hp.nodup_iff.2 h.nodup
  nonempty hnil := h.nonempty (by rw [hnil] at hp; exact hp.symm.eq_nil)
  mem_iff u hu v := by rw [hp.mem_iff]; exact h.mem_iff u (hp.mem_iff.1 hu) v

theorem IsComponent.exists_edge {edge : α → α → Prop} {c : List α} (h : IsComponent edge c)
    (hmany : 1 < c.length) : ∃ u ∈ c, ∃ w, edge u w := by
  match c, hmany with
  | u :: v :: l, _ =>
    have hne : u ≠ v := fun huv => (List.nodup_cons.1 h.nodup).1 (huv ▸ List.mem_cons_self)
    have hreach := ((h.mem_iff u List.mem_cons_self v).1
      (List.mem_cons_of_mem _ List.mem_cons_self)).1
    rcases ReflTransGen.cases_head hreach with huv | ⟨w, hedge, -⟩
    · exact absurd huv hne
    · exact ⟨u, List.mem_cons_self, w, hedge⟩

/-- some lists are the components of a graph, and each of its nodes is in one of them -/
structure Partition (nodes : List α) (cs : List (List α)) : Prop where
  nodup : cs.flatten.Nodup
  mem : ∀ v, v ∈ cs.flatten ↔ v ∈ nodes
  components : ∀ c ∈ cs, IsComponent edge c

namespace Partition
variable {edge : α → α → Prop} {nodes : List α} {cs : List (List α)}

theorem exists_perm (h : Partition edge nodes cs) {c : List α} (hc : IsComponent edge c) {u : α}
    (hu : u ∈ c) (hnode : u ∈ nodes) : ∃ d ∈ cs, d.Perm c := by
  obtain ⟨d, hd, hud⟩ := List.mem_flatten.1 ((h.mem u).2 hnode)
  have hcomponent := h.components d hd
  refine ⟨d, hd, (List.perm_ext_iff_of_nodup hcomponent.nodup hc.nodup).2 fun x => ?_⟩
  rw [hcomponent.mem_iff u hud, hc.mem_iff u hu]

theorem pairwise_not_perm (h : Partition edge nodes cs) : cs.Pairwise fun c d => ¬ c.Perm d := by
  refine ((List.nodup_flatten.1 h.nodup).2.imp_of_mem fun hc _ hdisjoint hperm => ?_)
  obtain ⟨x, hx⟩ := List.exists_mem_of_ne_nil _ (h.components _ hc).nonempty
  exact hdisjoint hx (hperm.mem_iff.1 hx)

end Partition

/-- the state of a search -/
structure Search (α : Type*) where
  count : ℕ
  num : α → ℕ
  low : α → ℕ
  /-- newest first -/
  stack : List α
  closed : List (List α)
  /-- the nodes of the path, innermost first, with what they have still to look at -/
  frames : List (α × List α)

/-- `v` has still to look at `w` -/
def Left (frames : List (α × List α)) (v w : α) : Prop := ∃ ws, (v, ws) ∈ frames ∧ w ∈ ws

theorem left_cons {v w : α} {ws : List α} {rest : List (α × List α)} :
    Left ((v, ws) :: rest) v w ↔ w ∈ ws ∨ Left rest v w := by
  constructor
  · rintro ⟨l, hl, hw⟩
    rcases List.mem_cons.1 hl with heq | hl
    · cases heq
      exact Or.inl hw
    · exact Or.inr ⟨l, hl, hw⟩
  · rintro (hw | ⟨l, hl, hw⟩)
    · exact ⟨ws, List.mem_cons_self, hw⟩
    · exact ⟨l, List.mem_cons_of_mem _ hl, hw⟩

theorem left_cons_ne {v x w : α} {ws : List α} {rest : List (α × List α)} (hne : x ≠ v) :
    Left ((v, ws) :: rest) x w ↔ Left rest x w := by
  constructor
  · rintro ⟨l, hl, hw⟩
    rcases List.mem_cons.1 hl with heq | hl
    · cases heq
      exact absurd rfl hne
    · exact ⟨l, hl, hw⟩
  · rintro ⟨l, hl, hw⟩
    exact ⟨l, List.mem_cons_of_mem _ hl, hw⟩

namespace Search
variable (s : Search α)

def path : List α := s.frames.map Prod.fst

def Seen (v : α) : Prop := v ∈ s.stack ∨ v ∈ s.closed.flatten

/-- `u` is the last node of the path that is not newer than `x` -/
structure Owner (u x : α) : Prop where
  path : u ∈ s.path
  older : s.num u ≤ s.num x
  last : ∀ u' ∈ s.path, s.num u' ≤ s.num x → s.num u' ≤ s.num u

end Search

/-- what the search keeps true -/
structure Sound (s : Search α) : Prop where
  nodup : (s.stack ++ s.closed.flatten).Nodup
  sorted : s.stack.Pairwise fun u v => s.num v < s.num u
  below : ∀ v ∈ s.stack, s.num v < s.count
  path_stack : s.path.Sublist s.stack
  closed_edges : ∀ v ∈ s.closed.flatten, ∀ w, edge v w → w ∈ s.closed.flatten
  components : ∀ c ∈ s.closed, IsComponent edge c
  edges : ∀ v ∈ s.stack, ∀ w, edge v w → s.Seen w ∨ Left s.frames v w
  left : ∀ v w, Left s.frames v w → edge v w
  /-- a node of the path reaches whatever is newer -/
  down : ∀ u ∈ s.path, ∀ v ∈ s.stack, s.num u ≤ s.num v → ReflTransGen edge u v
  /-- and whatever is on the stack reaches an older node of the path -/
  up : ∀ v ∈ s.stack, ∃ u ∈ s.path, s.num u ≤ s.num v ∧ ReflTransGen edge v u
  low_le : ∀ u ∈ s.path, s.low u ≤ s.num u
  low_reached : ∀ u ∈ s.path, ∃ y ∈ s.stack, s.num y = s.low u ∧ ReflTransGen edge u y
  low_bound : ∀ u x y, s.Owner u x → x ∈ s.stack → y ∈ s.stack → edge x y →
    s.low u ≤ s.num y ∨ Left s.frames x y

namespace Sound
variable {edge} {s : Search α} (h : Sound edge s)
include h

theorem num_inj {x y : α} (hx : x ∈ s.stack) (hy : y ∈ s.stack) (hxy : s.num x = s.num y) :
    x = y := by
  by_contra hne
  have hsymm : s.stack.Pairwise fun u v => s.num u ≠ s.num v := h.sorted.imp fun hlt => hlt.ne'
  have : Std.Symm fun u v => s.num u ≠ s.num v := ⟨fun _ _ => Ne.symm⟩
  exact hsymm.forall hx hy hne hxy

theorem mem_stack {u : α} (hu : u ∈ s.path) : u ∈ s.stack := h.path_stack.subset hu

theorem not_closed {x : α} (hx : x ∈ s.stack) : x ∉ s.closed.flatten := fun hc =>
  (List.nodup_append.1 h.nodup).2.2 x hx x hc rfl

theorem closed_reach {x y : α} (hx : x ∈ s.closed.flatten) (hxy : ReflTransGen edge x y) :
    y ∈ s.closed.flatten := by
  induction hxy with
  | refl => exact hx
  | tail _ hstep ih => exact h.closed_edges _ ih _ hstep

theorem path_lt {v : α} {ws : List α} {rest : List (α × List α)} (hf : s.frames = (v, ws) :: rest)
    {u : α} (hu : u ∈ rest.map Prod.fst) : s.num u < s.num v := by
  have hsorted := h.sorted.sublist h.path_stack
  rw [Search.path, hf, List.map_cons, List.pairwise_cons] at hsorted
  exact hsorted.1 u hu

end Sound

/-! ## a new node -/

section
variable [DecidableEq α] (s : Search α)

/-- `v` is met, with `ws` to look at; `frames` are those before it -/
def Search.enter (v : α) (ws : List α) (frames : List (α × List α)) : Search α where
  count := s.count + 1
  num := Function.update s.num v s.count
  low := Function.update s.low v s.count
  stack := v :: s.stack
  closed := s.closed
  frames := (v, ws) :: frames

variable {edge} {s}

/-- **A new node that the path leads to.**  The frames before it may be rid of it. -/
theorem Sound.enter (h : Sound edge s) {v : α} (hnew : ¬ s.Seen v) {ws : List α}
    (hws : ∀ w, w ∈ ws ↔ edge v w) {frames : List (α × List α)}
    (hpath : frames.map Prod.fst = s.path)
    (hkeep : ∀ x w, Left s.frames x w → w = v ∨ Left frames x w)
    (hleft : ∀ x w, Left frames x w → Left s.frames x w)
    (hreach : ∀ u ∈ s.path, ReflTransGen edge u v) : Sound edge (s.enter v ws frames) := by
  have hstack : v ∉ s.stack := fun hv => hnew (Or.inl hv)
  have hne : ∀ x ∈ s.stack, x ≠ v := fun x hx hxv => hstack (hxv ▸ hx)
  have hnum : ∀ x ∈ s.stack, Function.update s.num v s.count x = s.num x := fun x hx =>
    Function.update_of_ne (hne x hx) _ _
  have hlow : ∀ x ∈ s.stack, Function.update s.low v s.count x = s.low x := fun x hx =>
    Function.update_of_ne (hne x hx) _ _
  have hself : Function.update s.num v s.count v = s.count := Function.update_self ..
  have hlself : Function.update s.low v s.count v = s.count := Function.update_self ..
  have hmem : ∀ u, u ∈ (s.enter v ws frames).path ↔ u = v ∨ u ∈ s.path := fun u => by
    rw [Search.path, Search.enter, List.map_cons, hpath, List.mem_cons]
  refine ⟨?_, ?_, ?_, ?_, h.closed_edges, h.components, ?_, ?_, ?_, ?_, ?_, ?_, ?_⟩
  · refine List.nodup_cons.2 ⟨fun hv => hnew (List.mem_append.1 hv), h.nodup⟩
  · refine List.pairwise_cons.2 ⟨fun u hu => ?_, h.sorted.imp_of_mem fun hx hy hlt => ?_⟩
    · show Function.update s.num v s.count u < Function.update s.num v s.count v
      rw [hnum u hu, hself]
      exact h.below u hu
    · show Function.update s.num v s.count _ < Function.update s.num v s.count _
      rw [hnum _ hx, hnum _ hy]
      exact hlt
  · intro x hx
    show Function.update s.num v s.count x < s.count + 1
    rcases List.mem_cons.1 hx with rfl | hx
    · rw [hself]
      exact Nat.lt_succ_self _
    · rw [hnum x hx]
      exact Nat.lt_succ_of_lt (h.below x hx)
  · rw [Search.path, Search.enter, List.map_cons, hpath]
    exact h.path_stack.cons_cons v
  · intro x hx w hxw
    rcases List.mem_cons.1 hx with rfl | hx
    · exact Or.inr ⟨ws, List.mem_cons_self, (hws w).2 hxw⟩
    · rcases h.edges x hx w hxw with hseen | hl
      · exact Or.inl (hseen.imp_left (List.mem_cons_of_mem _))
      · rcases hkeep x w hl with rfl | ⟨l, hl, hw⟩
        · exact Or.inl (Or.inl List.mem_cons_self)
        · exact Or.inr ⟨l, List.mem_cons_of_mem _ hl, hw⟩
  · rintro x w ⟨l, hl, hw⟩
    rcases List.mem_cons.1 hl with heq | hl
    · cases heq
      exact (hws w).1 hw
    · exact h.left x w (hleft x w ⟨l, hl, hw⟩)
  · intro u hu x hx hle
    replace hle : Function.update s.num v s.count u ≤ Function.update s.num v s.count x := hle
    rcases (hmem u).1 hu with rfl | hup
    · rcases List.mem_cons.1 hx with rfl | hxs
      · exact .refl
      · rw [hself, hnum x hxs] at hle
        exact absurd (h.below x hxs) (by omega)
    · rcases List.mem_cons.1 hx with rfl | hxs
      · exact hreach u hup
      · rw [hnum u (h.mem_stack hup), hnum x hxs] at hle
        exact h.down u hup x hxs hle
  · intro x hx
    rcases List.mem_cons.1 hx with rfl | hx
    · exact ⟨x, (hmem x).2 (Or.inl rfl), le_rfl, .refl⟩
    · obtain ⟨u, hu, hle, hxu⟩ := h.up x hx
      refine ⟨u, (hmem u).2 (Or.inr hu), ?_, hxu⟩
      show Function.update s.num v s.count u ≤ Function.update s.num v s.count x
      rw [hnum u (h.mem_stack hu), hnum x hx]
      exact hle
  · intro u hu
    show Function.update s.low v s.count u ≤ Function.update s.num v s.count u
    rcases (hmem u).1 hu with rfl | hu
    · rw [hself, hlself]
    · rw [hlow u (h.mem_stack hu), hnum u (h.mem_stack hu)]
      exact h.low_le u hu
  · intro u hu
    rcases (hmem u).1 hu with rfl | hu
    · exact ⟨u, List.mem_cons_self, hself.trans hlself.symm, .refl⟩
    · obtain ⟨y, hy, hyu, huy⟩ := h.low_reached u hu
      exact ⟨y, List.mem_cons_of_mem _ hy, (hnum y hy).trans (hyu.trans (hlow u (h.mem_stack hu)).symm),
        huy⟩
  · intro u x y howner hx hy hxy
    rcases List.mem_cons.1 hx with rfl | hxs
    · exact Or.inr ⟨ws, List.mem_cons_self, (hws y).2 hxy⟩
    have hu : u ∈ s.path := by
      rcases (hmem u).1 howner.path with rfl | hu
      · have hle : Function.update s.num u s.count u ≤ Function.update s.num u s.count x :=
          howner.older
        rw [hself, hnum x hxs] at hle
        exact absurd (h.below x hxs) (by omega)
      · exact hu
    have hus := h.mem_stack hu
    show Function.update s.low v s.count u ≤ Function.update s.num v s.count y ∨ _
    rw [hlow u hus]
    rcases List.mem_cons.1 hy with rfl | hys
    · rw [hself]
      exact Or.inl ((h.low_le u hu).trans (h.below u hus).le)
    · rw [hnum y hys]
      have howner' : s.Owner u x := by
        refine ⟨hu, ?_, fun u' hu' hle => ?_⟩
        · have hle := howner.older
          rwa [show (s.enter v ws frames).num u = s.num u from hnum u hus,
            show (s.enter v ws frames).num x = s.num x from hnum x hxs] at hle
        · have hlast := howner.last u' ((hmem u').2 (Or.inr hu'))
          rw [show (s.enter v ws frames).num u = s.num u from hnum u hus,
            show (s.enter v ws frames).num x = s.num x from hnum x hxs,
            show (s.enter v ws frames).num u' = s.num u' from hnum u' (h.mem_stack hu')] at hlast
          exact hlast hle
      rcases h.low_bound u x y howner' hxs hys hxy with hle | hl
      · exact Or.inl hle
      · rcases hkeep x y hl with rfl | ⟨l, hl, hw⟩
        · exact absurd hys hstack
        · exact Or.inr ⟨l, List.mem_cons_of_mem _ hl, hw⟩

/-! ## a node that was met -/

variable (s) in
/-- the innermost node `v` looks at `w`, which was met before -/
def Search.look (v w : α) (ws : List α) (rest : List (α × List α)) : Search α :=
  { s with
    low := if w ∈ s.stack then Function.update s.low v (min (s.low v) (s.num w)) else s.low
    frames := (v, ws) :: rest }

/-- **Looking at a node that was met.** -/
theorem Sound.look (h : Sound edge s) {v w : α} {ws : List α} {rest : List (α × List α)}
    (hf : s.frames = (v, w :: ws) :: rest) (hseen : s.Seen w) :
    Sound edge (s.look v w ws rest) := by
  have hpath : (s.look v w ws rest).path = s.path := by
    rw [Search.path, Search.path, hf]
    rfl
  have hv : v ∈ s.path := by
    rw [Search.path, hf]
    exact List.mem_cons_self
  have hvw : edge v w := h.left v w ⟨w :: ws, by rw [hf]; exact List.mem_cons_self,
    List.mem_cons_self⟩
  have hkeep : ∀ x y, Left s.frames x y → (x = v ∧ y = w) ∨ Left ((v, ws) :: rest) x y := by
    intro x y hl
    rw [hf] at hl
    by_cases hx : x = v
    · subst hx
      rcases left_cons.1 hl with hy | hl
      · rcases List.mem_cons.1 hy with rfl | hy
        · exact Or.inl ⟨rfl, rfl⟩
        · exact Or.inr (left_cons.2 (Or.inl hy))
      · exact Or.inr (left_cons.2 (Or.inr hl))
    · exact Or.inr ((left_cons_ne hx).2 ((left_cons_ne hx).1 hl))
  have hleft : ∀ x y, Left ((v, ws) :: rest) x y → Left s.frames x y := by
    intro x y hl
    rw [hf]
    by_cases hx : x = v
    · subst hx
      exact left_cons.2 ((left_cons.1 hl).imp_left (List.mem_cons_of_mem _))
    · exact (left_cons_ne hx).2 ((left_cons_ne hx).1 hl)
  -- the bound only gets lower, and for `v` it stays one that `v` reaches
  have hle : ∀ u, (s.look v w ws rest).low u ≤ s.low u := by
    intro u
    show (if w ∈ s.stack then Function.update s.low v (min (s.low v) (s.num w)) else s.low) u ≤ _
    split_ifs
    · by_cases hu : u = v
      · subst hu
        rw [Function.update_self]
        exact min_le_left _ _
      · rw [Function.update_of_ne hu]
    · exact le_rfl
  refine ⟨h.nodup, h.sorted, h.below, ?_, h.closed_edges, h.components, ?_, ?_, ?_, ?_, ?_, ?_, ?_⟩
  · rw [hpath]
    exact h.path_stack
  · intro x hx y hxy
    rcases h.edges x hx y hxy with hy | hl
    · exact Or.inl hy
    · rcases hkeep x y hl with ⟨-, rfl⟩ | hl
      · exact Or.inl hseen
      · exact Or.inr hl
  · exact fun x y hl => h.left x y (hleft x y hl)
  · rw [hpath]
    exact h.down
  · rw [hpath]
    exact h.up
  · intro u hu
    rw [hpath] at hu
    exact (hle u).trans (h.low_le u hu)
  · intro u hu
    rw [hpath] at hu
    obtain ⟨y, hy, hyu, huy⟩ := h.low_reached u hu
    show ∃ y ∈ s.stack, s.num y =
      (if w ∈ s.stack then Function.update s.low v (min (s.low v) (s.num w)) else s.low) u ∧ _
    split_ifs with hw
    · by_cases huv : u = v
      · subst huv
        rw [Function.update_self]
        rcases le_total (s.low u) (s.num w) with hmin | hmin
        · rw [min_eq_left hmin]
          exact ⟨y, hy, hyu, huy⟩
        · rw [min_eq_right hmin]
          exact ⟨w, hw, rfl, .single hvw⟩
      · rw [Function.update_of_ne huv]
        exact ⟨y, hy, hyu, huy⟩
    · exact ⟨y, hy, hyu, huy⟩
  · intro u x y howner hx hy hxy
    have howner' : s.Owner u x := ⟨hpath ▸ howner.path, howner.older, hpath ▸ howner.last⟩
    rcases h.low_bound u x y howner' hx hy hxy with hb | hl
    · exact Or.inl ((hle u).trans hb)
    · rcases hkeep x y hl with ⟨rfl, rfl⟩ | hl
      · have hux : u = x := h.num_inj (h.mem_stack howner'.path) hx
          (le_antisymm howner'.older (howner'.last x hv le_rfl))
        subst hux
        have hys : y ∈ s.stack := hy
        left
        show (if y ∈ s.stack then Function.update s.low u (min (s.low u) (s.num y)) else s.low) u ≤ _
        rw [if_pos hys, Function.update_self]
        exact min_le_right _ _
      · exact Or.inr hl

end

/-! ## a node that is done -/

section
variable {edge : α → α → Prop} {s : Search α} (h : Sound edge s) {v : α}
  {rest : List (α × List α)} (hf : s.frames = (v, []) :: rest)
include h hf

namespace Sound

theorem left_rest {x y : α} (hl : Left s.frames x y) : Left rest x y := by
  rw [hf] at hl
  by_cases hx : x = v
  · subst hx
    exact (left_cons.1 hl).resolve_left List.not_mem_nil
  · exact (left_cons_ne hx).1 hl

theorem mem_path {u : α} : u ∈ s.path ↔ u = v ∨ u ∈ rest.map Prod.fst := by
  rw [Search.path, hf, List.map_cons, List.mem_cons]

theorem top_mem : v ∈ s.path := (h.mem_path hf).2 (Or.inl rfl)

theorem path_le {u : α} (hu : u ∈ s.path) : s.num u ≤ s.num v := by
  rcases (h.mem_path hf).1 hu with rfl | hu
  · exact le_rfl
  · exact (h.path_lt hf hu).le

/-- nothing that is newer than `v` has anything left to look at -/
theorem left_newer {x y : α} (hle : s.num v ≤ s.num x) : ¬ Left rest x y := fun ⟨l, hl, _⟩ =>
  absurd (h.path_lt hf (List.mem_map_of_mem hl)) (by simpa using hle)

theorem newer_bound {x y : α} (hx : x ∈ s.stack) (hle : s.num v ≤ s.num x) (hy : y ∈ s.stack)
    (hxy : edge x y) : s.low v ≤ s.num y :=
  (h.low_bound v x y ⟨h.top_mem hf, hle, fun _ hu _ => h.path_le hf hu⟩ hx hy hxy).resolve_right
    fun hl => h.left_newer hf hle (h.left_rest hf hl)

/-- a node that gets further up than itself is not the first of its path -/
theorem rest_ne_nil (hlow : s.low v ≠ s.num v) : ∃ u ∈ rest.map Prod.fst, s.num u ≤ s.low v := by
  have hlt : s.low v < s.num v := lt_of_le_of_ne (h.low_le v (h.top_mem hf)) hlow
  obtain ⟨y, hy, hyv, -⟩ := h.low_reached v (h.top_mem hf)
  obtain ⟨u, hu, hle, -⟩ := h.up y hy
  rw [hyv] at hle
  rcases (h.mem_path hf).1 hu with rfl | hu
  · exact absurd hlt (by omega)
  · exact ⟨u, hu, hle⟩

/-- **A node that gets no further up than itself closes a component:** all that is newer. -/
theorem isComponent (hlow : s.low v = s.num v) {c : List α} (hnodup : c.Nodup)
    (hc : ∀ x, x ∈ c ↔ x ∈ s.stack ∧ s.num v ≤ s.num x) : IsComponent edge c ∧
      ∀ x ∈ c, ∀ y, edge x y → y ∈ c ∨ y ∈ s.closed.flatten := by
  have hv : v ∈ c := (hc v).2 ⟨h.mem_stack (h.top_mem hf), le_rfl⟩
  have hedges : ∀ x ∈ c, ∀ y, edge x y → y ∈ c ∨ y ∈ s.closed.flatten := by
    intro x hx y hxy
    obtain ⟨hxs, hle⟩ := (hc x).1 hx
    rcases h.edges x hxs y hxy with (hy | hy) | hl
    · exact Or.inl ((hc y).2 ⟨hy, hlow ▸ h.newer_bound hf hxs hle hy hxy⟩)
    · exact Or.inr hy
    · exact absurd (h.left_rest hf hl) (h.left_newer hf hle)
  have hreach : ∀ x ∈ c, ∀ y, ReflTransGen edge x y → y ∈ c ∨ y ∈ s.closed.flatten := by
    intro x hx y hxy
    induction hxy with
    | refl => exact Or.inl hx
    | tail _ hstep ih =>
      rcases ih with hb | hb
      · exact hedges _ hb _ hstep
      · exact Or.inr (h.closed_edges _ hb _ hstep)
  have hto : ∀ x ∈ c, ReflTransGen edge v x := fun x hx =>
    h.down v (h.top_mem hf) x ((hc x).1 hx).1 ((hc x).1 hx).2
  have hfrom : ∀ x ∈ c, ReflTransGen edge x v := by
    intro x hx
    obtain ⟨u, hu, -, hxu⟩ := h.up x ((hc x).1 hx).1
    have huc : u ∈ c := (hreach x hx u hxu).resolve_right (h.not_closed (h.mem_stack hu))
    have huv : u = v := h.num_inj (h.mem_stack hu) (h.mem_stack (h.top_mem hf))
      (le_antisymm (h.path_le hf hu) ((hc u).1 huc).2)
    exact huv ▸ hxu
  refine ⟨⟨hnodup, List.ne_nil_of_mem hv, fun u hu x => ⟨fun hx => ?_, fun hux => ?_⟩⟩, hedges⟩
  · exact ⟨(hfrom u hu).trans (hto x hx), (hfrom x hx).trans (hto u hu)⟩
  · refine (hreach u hu x hux.1).resolve_right fun hx => ?_
    exact h.not_closed ((hc u).1 hu).1 (h.closed_reach hx hux.2)

/-- the stack above `v` is what is newer, and the stack below it what is older -/
theorem split {newer tail : List α} (hstack : s.stack = newer ++ v :: tail) {x : α} :
    (x ∈ newer ++ [v] ↔ x ∈ s.stack ∧ s.num v ≤ s.num x) ∧
    (x ∈ tail ↔ x ∈ s.stack ∧ s.num x < s.num v) := by
  have hsorted := h.sorted
  rw [hstack, List.pairwise_append, List.pairwise_cons] at hsorted
  obtain ⟨-, ⟨htail, -⟩, hnewer⟩ := hsorted
  have hnew : ∀ x ∈ newer, s.num v < s.num x := fun x hx => hnewer x hx v List.mem_cons_self
  rw [hstack]
  simp only [List.mem_append, List.mem_cons, List.not_mem_nil, or_false]
  constructor
  · constructor
    · rintro (hx | rfl)
      · exact ⟨Or.inl hx, (hnew x hx).le⟩
      · exact ⟨Or.inr (Or.inl rfl), le_rfl⟩
    · rintro ⟨hx | rfl | hx, hle⟩
      · exact Or.inl hx
      · exact Or.inr rfl
      · exact absurd (htail x hx) (by omega)
  · constructor
    · exact fun hx => ⟨Or.inr (Or.inr hx), htail x hx⟩
    · rintro ⟨hx | rfl | hx, hlt⟩
      · exact absurd (hnew x hx) (by omega)
      · exact absurd hlt (lt_irrefl _)
      · exact hx

theorem rest_sublist {newer tail : List α} (hstack : s.stack = newer ++ v :: tail) :
    (rest.map Prod.fst).Sublist tail := by
  have hsub := h.path_stack
  rw [Search.path, hf, List.map_cons, hstack] at hsub
  have hnewer : ∀ x ∈ newer, s.num v ≤ s.num x := fun x hx =>
    ((h.split hf hstack).1.1 (List.mem_append_left _ hx)).2
  have hkeep : ∀ l : List α, (∀ x ∈ l, s.num x < s.num v) →
      l.filter (fun x => decide (s.num x < s.num v)) = l := fun l hl =>
    List.filter_eq_self.2 fun x hx => decide_eq_true (hl x hx)
  have hdrop : newer.filter (fun x => decide (s.num x < s.num v)) = [] :=
    List.filter_eq_nil_iff.2 fun x hx => by simpa using hnewer x hx
  have hfiltered := hsub.filter fun x => decide (s.num x < s.num v)
  rw [List.filter_cons_of_neg (by simp), List.filter_append, List.filter_cons_of_neg (by simp),
    hdrop, List.nil_append, hkeep tail fun x hx => ((h.split hf hstack).2.1 hx).2,
    hkeep _ fun x hx => h.path_lt hf hx] at hfiltered
  exact hfiltered

/-- **The component above `v` is closed.** -/
theorem close (hlow : s.low v = s.num v) {newer tail c : List α} {low' : α → ℕ}
    (hstack : s.stack = newer ++ v :: tail) (hc : c.Perm (newer ++ [v]))
    (hlow' : ∀ u ∈ rest.map Prod.fst, low' u = s.low u) :
    Sound edge { s with
      low := low', stack := tail, closed := s.closed ++ [c], frames := rest } := by
  have hperm : (s.stack ++ s.closed.flatten).Perm (tail ++ (s.closed ++ [c]).flatten) := by
    rw [hstack, List.flatten_append, List.flatten_singleton]
    have hassoc : newer ++ v :: tail ++ s.closed.flatten =
        (newer ++ [v]) ++ (tail ++ s.closed.flatten) := by simp
    rw [hassoc, ← List.append_assoc tail]
    exact (hc.symm.append_right _).trans List.perm_append_comm
  have hmem : ∀ x, x ∈ c ↔ x ∈ s.stack ∧ s.num v ≤ s.num x := fun x => by
    rw [hc.mem_iff]
    exact (h.split hf hstack).1
  have htail : ∀ x, x ∈ tail ↔ x ∈ s.stack ∧ s.num x < s.num v := fun x =>
    (h.split hf hstack).2
  have hnodup : c.Nodup := by
    refine hc.nodup_iff.2 ((List.nodup_append.1 h.nodup).1.sublist ?_)
    rw [hstack]
    exact (List.Sublist.refl newer).append (List.singleton_sublist.2 List.mem_cons_self)
  obtain ⟨hcomponent, hedges⟩ := h.isComponent hf hlow hnodup hmem
  have hclosed : ∀ x, x ∈ (s.closed ++ [c]).flatten ↔ x ∈ s.closed.flatten ∨ x ∈ c := by
    intro x
    rw [List.flatten_append, List.flatten_singleton, List.mem_append]
  have hpath : ∀ u ∈ rest.map Prod.fst, u ∈ s.path := fun u hu => (h.mem_path hf).2 (Or.inr hu)
  refine ⟨hperm.nodup_iff.1 h.nodup, ?_, ?_, h.rest_sublist hf hstack, ?_, ?_, ?_, ?_, ?_, ?_, ?_,
    ?_, ?_⟩
  · have hsorted := h.sorted
    rw [hstack] at hsorted
    exact (List.pairwise_cons.1 (List.pairwise_append.1 hsorted).2.1).2
  · exact fun x hx => h.below x ((htail x).1 hx).1
  · intro x hx y hxy
    rw [hclosed] at hx ⊢
    rcases hx with hx | hx
    · exact Or.inl (h.closed_edges x hx y hxy)
    · exact (hedges x hx y hxy).symm
  · intro d hd
    rcases List.mem_append.1 hd with hd | hd
    · exact h.components d hd
    · rw [List.mem_singleton.1 hd]
      exact hcomponent
  · intro x hx y hxy
    rcases h.edges x ((htail x).1 hx).1 y hxy with (hy | hy) | hl
    · rcases lt_or_ge (s.num y) (s.num v) with hlt | hle
      · exact Or.inl (Or.inl ((htail y).2 ⟨hy, hlt⟩))
      · exact Or.inl (Or.inr ((hclosed y).2 (Or.inr ((hmem y).2 ⟨hy, hle⟩))))
    · exact Or.inl (Or.inr ((hclosed y).2 (Or.inl hy)))
    · exact Or.inr (h.left_rest hf hl)
  · rintro x y ⟨l, hl, hy⟩
    exact h.left x y ⟨l, by rw [hf]; exact List.mem_cons_of_mem _ hl, hy⟩
  · exact fun u hu x hx hle => h.down u (hpath u hu) x ((htail x).1 hx).1 hle
  · intro x hx
    obtain ⟨u, hu, hle, hxu⟩ := h.up x ((htail x).1 hx).1
    rcases (h.mem_path hf).1 hu with rfl | hur
    · exact absurd ((htail x).1 hx).2 (by omega)
    · exact ⟨u, hur, hle, hxu⟩
  · intro u hu
    show low' u ≤ s.num u
    rw [hlow' u hu]
    exact h.low_le u (hpath u hu)
  · intro u hu
    obtain ⟨y, hy, hyu, huy⟩ := h.low_reached u (hpath u hu)
    refine ⟨y, (htail y).2 ⟨hy, ?_⟩, hyu.trans (hlow' u hu).symm, huy⟩
    rw [hyu]
    exact lt_of_le_of_lt (h.low_le u (hpath u hu)) (h.path_lt hf hu)
  · intro u x y howner hx hy hxy
    have howner' : s.Owner u x := by
      refine ⟨hpath u howner.path, howner.older, fun u' hu' hle => ?_⟩
      rcases (h.mem_path hf).1 hu' with rfl | hur
      · exact absurd ((htail x).1 hx).2 (by omega)
      · exact howner.last u' hur hle
    show low' u ≤ s.num y ∨ _
    rw [hlow' u howner.path]
    exact (h.low_bound u x y howner' ((htail x).1 hx).1 ((htail y).1 hy).1 hxy).imp_right
      (h.left_rest hf)

variable [DecidableEq α]

/-- **The node before `v` learns how far up `v` gets.** -/
theorem retreat {p : α} {ws : List α} {before : List (α × List α)} (hrest : rest = (p, ws) :: before)
    (hlow : s.low v ≠ s.num v) :
    Sound edge { s with
      low := Function.update s.low p (min (s.low p) (s.low v)), frames := rest } := by
  have hlt : s.low v < s.num v := lt_of_le_of_ne (h.low_le v (h.top_mem hf)) hlow
  have hpath : ∀ u ∈ rest.map Prod.fst, u ∈ s.path := fun u hu => (h.mem_path hf).2 (Or.inr hu)
  have hp : p ∈ rest.map Prod.fst := by
    rw [hrest]
    exact List.mem_cons_self
  have hpv : s.num p < s.num v := h.path_lt hf hp
  have hle : ∀ u, Function.update s.low p (min (s.low p) (s.low v)) u ≤ s.low u := by
    intro u
    by_cases hu : u = p
    · subst hu
      rw [Function.update_self]
      exact min_le_left _ _
    · rw [Function.update_of_ne hu]
  have hlast : ∀ u ∈ rest.map Prod.fst, s.num u ≤ s.num p := by
    intro u hu
    have hsorted := h.sorted.sublist h.path_stack
    rw [Search.path, hf, List.map_cons, List.pairwise_cons, hrest, List.map_cons,
      List.pairwise_cons] at hsorted
    rw [hrest, List.map_cons, List.mem_cons] at hu
    rcases hu with rfl | hu
    · exact le_rfl
    · exact (hsorted.2.1 u hu).le
  refine ⟨h.nodup, h.sorted, h.below, ?_, h.closed_edges, h.components, ?_, ?_, ?_, ?_, ?_, ?_, ?_⟩
  · have hsub := h.path_stack
    rw [Search.path, hf, List.map_cons] at hsub
    exact (List.sublist_cons_self v _).trans hsub
  · exact fun x hx y hxy => (h.edges x hx y hxy).imp_right (h.left_rest hf)
  · rintro x y ⟨l, hl, hy⟩
    exact h.left x y ⟨l, by rw [hf]; exact List.mem_cons_of_mem _ hl, hy⟩
  · exact fun u hu => h.down u (hpath u hu)
  · intro x hx
    obtain ⟨u, hu, hux, hxu⟩ := h.up x hx
    rcases (h.mem_path hf).1 hu with rfl | hur
    · obtain ⟨y, hy, hyu, huy⟩ := h.low_reached u hu
      obtain ⟨u', hu', hle', hyu'⟩ := h.up y hy
      rcases (h.mem_path hf).1 hu' with rfl | hur
      · exact absurd hlt (by omega)
      · exact ⟨u', hur, show s.num u' ≤ s.num x by omega, hxu.trans (huy.trans hyu')⟩
    · exact ⟨u, hur, hux, hxu⟩
  · exact fun u hu => (hle u).trans (h.low_le u (hpath u hu))
  · intro u hu
    obtain ⟨y, hy, hyu, huy⟩ := h.low_reached u (hpath u hu)
    show ∃ y ∈ s.stack, s.num y = Function.update s.low p (min (s.low p) (s.low v)) u ∧ _
    by_cases hup : u = p
    · subst hup
      rw [Function.update_self]
      rcases le_total (s.low u) (s.low v) with hmin | hmin
      · rw [min_eq_left hmin]
        exact ⟨y, hy, hyu, huy⟩
      · rw [min_eq_right hmin]
        obtain ⟨z, hz, hzv, hvz⟩ := h.low_reached v (h.top_mem hf)
        have huv := h.down u (hpath u hu) v (h.mem_stack (h.top_mem hf)) hpv.le
        exact ⟨z, hz, hzv, huv.trans hvz⟩
    · rw [Function.update_of_ne hup]
      exact ⟨y, hy, hyu, huy⟩
  · intro u x y howner hx hy hxy
    show Function.update s.low p (min (s.low p) (s.low v)) u ≤ s.num y ∨ _
    rcases lt_or_ge (s.num x) (s.num v) with hxv | hxv
    · have howner' : s.Owner u x := by
        refine ⟨hpath u howner.path, howner.older, fun u' hu' hle => ?_⟩
        rcases (h.mem_path hf).1 hu' with rfl | hur
        · exact absurd hxv (by omega)
        · exact howner.last u' hur hle
      exact (h.low_bound u x y howner' hx hy hxy).imp (hle u).trans (h.left_rest hf)
    · have hup : u = p := h.num_inj (h.mem_stack (hpath u howner.path)) (h.mem_stack (hpath p hp))
        (le_antisymm (hlast u howner.path) (howner.last p hp (hpv.le.trans hxv)))
      rw [hup, Function.update_self]
      exact Or.inl ((min_le_right _ _).trans (h.newer_bound hf hx hxv hy hxy))

end Sound
end

/-! ## the beginning and the end -/

section
variable {edge : α → α → Prop}

theorem sound_init (num low : α → ℕ) (count : ℕ) : Sound edge ⟨count, num, low, [], [], []⟩ where
  nodup := List.nodup_nil
  sorted := List.Pairwise.nil
  below _ hv := absurd hv List.not_mem_nil
  path_stack := List.Sublist.slnil
  closed_edges _ hv := absurd hv List.not_mem_nil
  components _ hc := absurd hc List.not_mem_nil
  edges _ hv := absurd hv List.not_mem_nil
  left := fun _ _ ⟨_, hl, _⟩ => absurd hl List.not_mem_nil
  down _ hu := absurd hu List.not_mem_nil
  up _ hv := absurd hv List.not_mem_nil
  low_le _ hu := absurd hu List.not_mem_nil
  low_reached _ hu := absurd hu List.not_mem_nil
  low_bound _ _ _ _ hx := absurd hx List.not_mem_nil

theorem Sound.stack_nil {s : Search α} (h : Sound edge s) (hf : s.frames = []) : s.stack = [] := by
  refine List.eq_nil_iff_forall_not_mem.2 fun x hx => ?_
  obtain ⟨u, hu, -⟩ := h.up x hx
  rw [Search.path, hf] at hu
  exact absurd hu List.not_mem_nil

end
end Components
