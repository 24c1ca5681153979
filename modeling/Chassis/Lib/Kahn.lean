import Mathlib.Logic.Relation
import Mathlib.Order.WellFounded
import Mathlib.Data.Fintype.Pigeonhole
import Mathlib.Data.Set.Finite.List
import Chassis.Lib.Dict

/-!
# Kahn's topological sort, with a sorted fallback

`sort nodes edges` peels off the nodes whose predecessors are all out, smallest first.  When it
gets stuck (the edges have a cycle) the nodes left over follow in their own order.

* `Edge`              the edges between two of the nodes;
* `Before l p c`      `p` stands before `c` in `l`;
* `sort_perm`         every node comes out once, stuck or not;
* `mem_peeled`        what is peeled off is exactly what is accessible along the edges;
* `sort_before_iff`   an edge `p → c` is respected, except when `p` is not accessible and not
                      below `c`;
* `sort_least`        without a cycle, it is the least of all orders that respect the edges;
* `not_acc_iff`       a node is not accessible iff it is on or downstream of a cycle.
-/

namespace Kahn
open Py
variable {α : Type*}

/-- `p` stands strictly before `c` -/
def Before (l : List α) (p c : α) : Prop := ∃ l₁ l₂, l = l₁ ++ c :: l₂ ∧ p ∈ l₁

/-- an edge from one of the nodes to another -/
def Edge (nodes : List α) (edges : List (α × α)) (p c : α) : Prop :=
  (p, c) ∈ edges ∧ p ∈ nodes ∧ c ∈ nodes

/-! ## positions in a list -/

theorem Before.left_mem {l : List α} {p c : α} (h : Before l p c) : p ∈ l := by
  obtain ⟨l₁, l₂, rfl, hp⟩ := h
  exact List.mem_append_left _ hp

theorem Before.right_mem {l : List α} {p c : α} (h : Before l p c) : c ∈ l := by
  obtain ⟨l₁, l₂, rfl, -⟩ := h
  exact List.mem_append_right _ List.mem_cons_self

theorem Before.append_right {l : List α} {p c : α} (h : Before l p c) (m : List α) :
    Before (l ++ m) p c := by
  obtain ⟨l₁, l₂, rfl, hp⟩ := h
  exact ⟨l₁, l₂ ++ m, by simp, hp⟩

theorem Before.append_left {m : List α} {p c : α} (h : Before m p c) (l : List α) :
    Before (l ++ m) p c := by
  obtain ⟨l₁, l₂, rfl, hp⟩ := h
  exact ⟨l ++ l₁, l₂, by simp, List.mem_append_right _ hp⟩

theorem before_append {l m : List α} {p c : α} (hp : p ∈ l) (hc : c ∈ m) :
    Before (l ++ m) p c := by
  obtain ⟨m₁, m₂, rfl⟩ := List.append_of_mem hc
  exact ⟨l ++ m₁, m₂, by simp, List.mem_append_left _ hp⟩

theorem Before.ne {l : List α} {p c : α} (hl : l.Nodup) (h : Before l p c) : p ≠ c := by
  obtain ⟨l₁, l₂, rfl, hp⟩ := h
  rintro rfl
  have hdis := (List.nodup_append.1 hl).2.2 p hp p List.mem_cons_self
  exact hdis rfl

theorem before_cons {l : List α} {a p c : α} :
    Before (a :: l) p c ↔ (p = a ∧ c ∈ l) ∨ Before l p c := by
  constructor
  · rintro ⟨l₁, l₂, h, hp⟩
    cases l₁ with
    | nil => exact absurd hp (by simp)
    | cons b l₁ =>
      obtain ⟨rfl, rfl⟩ := List.cons.inj h
      rcases List.mem_cons.1 hp with rfl | hp
      · exact Or.inl ⟨rfl, by simp⟩
      · exact Or.inr ⟨l₁, l₂, rfl, hp⟩
  · rintro (⟨rfl, hc⟩ | h)
    · exact before_append (l := [p]) List.mem_cons_self hc
    · exact h.append_left [a]

theorem before_or_before {l : List α} {p c : α} (hp : p ∈ l) (hc : c ∈ l) (h : p ≠ c) :
    Before l p c ∨ Before l c p := by
  induction l with
  | nil => exact absurd hp (by simp)
  | cons a l ih =>
    rcases List.mem_cons.1 hp with rfl | hp'
    · exact Or.inl (before_cons.2 (Or.inl ⟨rfl, (List.mem_cons.1 hc).resolve_left (Ne.symm h)⟩))
    · rcases List.mem_cons.1 hc with rfl | hc'
      · exact Or.inr (before_cons.2 (Or.inl ⟨rfl, hp'⟩))
      · exact (ih hp' hc').imp (fun h => before_cons.2 (Or.inr h))
          (fun h => before_cons.2 (Or.inr h))

theorem Before.asymm {l : List α} {p c : α} (hl : l.Nodup) (h : Before l p c) :
    ¬ Before l c p := by
  induction l with
  | nil =>
    obtain ⟨l₁, l₂, h, -⟩ := h
    exact absurd h (by simp)
  | cons a l ih =>
    have hn := List.nodup_cons.1 hl
    rw [before_cons] at h ⊢
    rintro (⟨rfl, hp⟩ | h')
    · rcases h with ⟨rfl, hc⟩ | h
      · exact hn.1 hp
      · exact hn.1 h.right_mem
    · rcases h with ⟨rfl, hc⟩ | h
      · exact hn.1 h'.right_mem
      · exact ih hn.2 h h'

theorem before_of_append {l m : List α} {p c : α} (hl : (l ++ m).Nodup) (hp : p ∈ m) (hc : c ∈ m) :
    Before (l ++ m) p c ↔ Before m p c := by
  constructor
  · intro h
    rcases before_or_before hp hc (h.ne hl) with h' | h'
    · exact h'
    · exact absurd (h'.append_left l) (h.asymm hl)
  · exact fun h => h.append_left l

theorem exists_last {l : List α} (hl : l.Nodup) {s : α → Prop} (h : ∃ x ∈ l, s x) :
    ∃ x ∈ l, s x ∧ ∀ y, s y → ¬ Before l x y := by
  induction l with
  | nil =>
    obtain ⟨x, hx, -⟩ := h
    exact absurd hx (by simp)
  | cons a l ih =>
    obtain ⟨hnew, hl⟩ := List.nodup_cons.1 hl
    by_cases hrest : ∃ x ∈ l, s x
    · obtain ⟨x, hx, hsx, hlast⟩ := ih hl hrest
      refine ⟨x, List.mem_cons_of_mem _ hx, hsx, fun y hy hbefore => ?_⟩
      rcases before_cons.1 hbefore with ⟨rfl, -⟩ | hbefore
      · exact hnew hx
      · exact hlast y hy hbefore
    · obtain ⟨x, hx, hsx⟩ := h
      refine ⟨x, hx, hsx, fun y hy hbefore => hrest ⟨y, ?_, hy⟩⟩
      rcases before_cons.1 hbefore with ⟨-, hin⟩ | hbefore
      · exact hin
      · exact hbefore.right_mem

theorem before_of_map {β : Type*} (key : α → β) {l : List α} (hl : (l.map key).Nodup) {p c : α}
    (hp : p ∈ l) (hc : c ∈ l) (h : Before (l.map key) (key p) (key c)) : Before l p c := by
  rcases before_or_before hp hc fun he => h.ne hl (he ▸ rfl) with h' | ⟨l₁, l₂, rfl, hin⟩
  · exact h'
  · refine absurd ?_ (h.asymm hl)
    rw [List.map_append, List.map_cons]
    exact ⟨l₁.map key, l₂.map key, rfl, List.mem_map_of_mem hin⟩

theorem before_of_pairwise [LinearOrder α] {l : List α} (hl : l.Pairwise (· < ·)) {p c : α}
    (hp : p ∈ l) (hc : c ∈ l) : Before l p c ↔ p < c := by
  have key : ∀ {x y : α}, Before l x y → x < y := by
    rintro x y ⟨l₁, l₂, rfl, hx⟩
    exact (List.pairwise_append.1 hl).2.2 x hx y List.mem_cons_self
  constructor
  · exact key
  · intro hlt
    rcases before_or_before hp hc hlt.ne with h | h
    · exact h
    · exact absurd (key h) (not_lt.2 hlt.le)

/-! ## the sort -/

section
variable [LinearOrder α]

/-- what each node still waits for, the queue, and the output -/
structure State (α : Type*) where
  incoming : α → List α
  ready : List α
  order : List α

/-- `current` is out: `consumer` no longer waits for it -/
def relax (current : α) (s : State α) (consumer : α) : State α :=
  let incoming := Function.update s.incoming consumer ((s.incoming consumer).filter (· ≠ current))
  if incoming consumer = [] ∧ consumer ∉ s.order ∧ consumer ∉ s.ready then
    { s with incoming := incoming, ready := s.ready ++ [consumer] }
  else
    { s with incoming := incoming }

/-- the smallest ready node is put out, and its consumers relaxed -/
def step (outgoing : α → List α) (s : State α) : State α :=
  match s.ready with
  | [] => s
  | current :: ready =>
    let s' := (sorted (outgoing current)).foldl (relax current)
      { s with ready := ready, order := s.order ++ [current] }
    { s' with ready := sorted s'.ready }

def run (outgoing : α → List α) : Nat → State α → State α
  | 0, s => s
  | n + 1, s => if s.ready = [] then s else run outgoing n (step outgoing s)

def incoming (nodes : List α) (edges : List (α × α)) (c : α) : List α :=
  (edges.filter (fun e => e.1 ∈ nodes ∧ e.2 = c ∧ c ∈ nodes)).map Prod.fst

def outgoing (nodes : List α) (edges : List (α × α)) (p : α) : List α :=
  (edges.filter (fun e => e.1 = p ∧ p ∈ nodes ∧ e.2 ∈ nodes)).map Prod.snd

def start (nodes : List α) (edges : List (α × α)) : State α :=
  ⟨incoming nodes edges, sorted (nodes.filter (fun c => incoming nodes edges c = [])), []⟩

/-- the nodes that can be put out -/
def peeled (nodes : List α) (edges : List (α × α)) : List α :=
  (run (outgoing nodes edges) nodes.length (start nodes edges)).order

/-- what is peeled off, then the rest -/
def sort (nodes : List α) (edges : List (α × α)) : List α :=
  let order := peeled nodes edges
  if order.length ≠ nodes.length then order ++ nodes.filter (· ∉ order) else order

theorem mem_incoming {nodes : List α} {edges : List (α × α)} {p c : α} :
    p ∈ incoming nodes edges c ↔ Edge nodes edges p c := by
  simp only [incoming, Edge, List.mem_map, List.mem_filter, decide_eq_true_eq]
  constructor
  · rintro ⟨⟨a, b⟩, ⟨he, ha, rfl, hb⟩, rfl⟩
    exact ⟨he, ha, hb⟩
  · rintro ⟨he, hp, hc⟩
    exact ⟨(p, c), ⟨he, hp, rfl, hc⟩, rfl⟩

theorem mem_outgoing {nodes : List α} {edges : List (α × α)} {p c : α} :
    c ∈ outgoing nodes edges p ↔ Edge nodes edges p c := by
  simp only [outgoing, Edge, List.mem_map, List.mem_filter, decide_eq_true_eq]
  constructor
  · rintro ⟨⟨a, b⟩, ⟨he, rfl, ha, hb⟩, rfl⟩
    exact ⟨he, ha, hb⟩
  · rintro ⟨he, hp, hc⟩
    exact ⟨(p, c), ⟨he, rfl, hp, hc⟩, rfl⟩

/-! ## one step -/

/-- Relaxing a list of consumers: who still waits for whom, and who became ready. -/
theorem foldl_relax (current : α) (cs : List α) (s : State α) :
    let s' := cs.foldl (relax current) s
    (∀ c, s'.incoming c = if c ∈ cs then (s.incoming c).filter (· ≠ current) else s.incoming c) ∧
    s'.order = s.order ∧
    (∀ c, c ∈ s'.ready ↔
      c ∈ s.ready ∨ (c ∈ cs ∧ (s.incoming c).filter (· ≠ current) = [] ∧ c ∉ s.order)) ∧
    (s.ready.Nodup → s'.ready.Nodup) := by
  induction cs generalizing s with
  | nil => simp
  | cons a cs ih =>
    have hinc : ∀ c, (relax current s a).incoming c
        = if c = a then (s.incoming c).filter (· ≠ current) else s.incoming c := by
      intro c
      by_cases hc : c = a
      · subst hc
        simp only [relax]
        split <;> simp
      · simp only [relax]
        split <;> simp [hc]
    have hord : (relax current s a).order = s.order := by
      simp only [relax]
      split <;> rfl
    have hready : ∀ c, c ∈ (relax current s a).ready ↔
        c ∈ s.ready ∨ (c = a ∧ (s.incoming a).filter (· ≠ current) = [] ∧ a ∉ s.order) := by
      intro c
      simp only [relax, Function.update_self]
      split
      · rename_i h
        rw [List.mem_append, List.mem_singleton]
        exact or_congr_right ⟨fun hc => ⟨hc, h.1, h.2.1⟩, fun hc => hc.1⟩
      · rename_i h
        constructor
        · exact Or.inl
        · rintro (hc | ⟨rfl, h1, h2⟩)
          · exact hc
          · by_contra h3
            exact h ⟨h1, h2, h3⟩
    have hnodup : s.ready.Nodup → (relax current s a).ready.Nodup := by
      intro hn
      simp only [relax, Function.update_self]
      split
      · rename_i h
        exact List.nodup_append.2 ⟨hn, List.nodup_singleton a, fun x hx y hy => by
          rw [List.mem_singleton] at hy
          subst hy
          exact fun e => h.2.2 (e ▸ hx)⟩
      · exact hn
    obtain ⟨h1, h2, h3, h4⟩ := ih (relax current s a)
    refine ⟨?_, ?_, ?_, ?_⟩
    · intro c
      rw [List.foldl_cons, h1 c, hinc c]
      by_cases hc : c = a <;> by_cases hcs : c ∈ cs <;> simp [hc, hcs]
    · rw [List.foldl_cons, h2, hord]
    · intro c
      rw [List.foldl_cons, h3 c, hready c, hinc c, hord]
      by_cases hc : c = a
      · subst hc
        by_cases hcs : c ∈ cs <;> simp [hcs]
      · simp [hc]
    · exact fun hn => h4 (hnodup hn)

/-- What holds whenever the loop tests its queue. -/
structure Inv (nodes : List α) (edges : List (α × α)) (s : State α) : Prop where
  order_nodup : s.order.Nodup
  ready_nodup : s.ready.Nodup
  fresh : ∀ c ∈ s.ready, c ∉ s.order
  order_mem : ∀ c ∈ s.order, c ∈ nodes
  ready_mem : ∀ c ∈ s.ready, c ∈ nodes
  waits : ∀ p c, p ∈ s.incoming c ↔ Edge nodes edges p c ∧ p ∉ s.order
  frontier : ∀ c ∈ nodes,
    (c ∈ s.order ∨ c ∈ s.ready) ↔ ∀ p, Edge nodes edges p c → p ∈ s.order
  before : ∀ c ∈ s.order, ∀ p, Edge nodes edges p c → Before s.order p c
  acc : ∀ c ∈ s.order, Acc (Edge nodes edges) c

variable {nodes : List α} {edges : List (α × α)}

theorem inv_start (hn : nodes.Nodup) : Inv nodes edges (start nodes edges) where
  order_nodup := List.nodup_nil
  ready_nodup := sortedBy_nodup (hn.filter _)
  fresh := fun c _ h => absurd h (by simp [start])
  order_mem := fun c h => absurd h (by simp [start])
  ready_mem := fun c h => (List.mem_filter.1 (mem_sortedBy.1 h)).1
  waits := fun p c => by simp [start, mem_incoming]
  frontier := fun c hc => by
    simp only [start, List.not_mem_nil, false_or, mem_sortedBy, List.mem_filter,
      decide_eq_true_eq, hc, true_and, imp_false, List.eq_nil_iff_forall_not_mem, mem_incoming]
  before := fun c h => absurd h (by simp [start])
  acc := fun c h => absurd h (by simp [start])

/-- **Putting out a ready node keeps the invariant.** -/
theorem Inv.step {s : State α} (h : Inv nodes edges s) :
    Inv nodes edges (step (outgoing nodes edges) s) := by
  rcases hr : s.ready with _ | ⟨current, ready⟩
  · simpa only [Kahn.step, hr] using h
  have hcur : current ∈ s.ready := by rw [hr]; exact List.mem_cons_self
  have hcn : current ∈ nodes := h.ready_mem _ hcur
  have hout : current ∉ s.order := h.fresh _ hcur
  have hrn : current ∉ ready ∧ ready.Nodup := by
    rw [← List.nodup_cons, ← hr]
    exact h.ready_nodup
  have hpreds : ∀ p, Edge nodes edges p current → p ∈ s.order :=
    (h.frontier current hcn).1 (Or.inr hcur)
  obtain ⟨hinc, hord, hmem, hnd⟩ := foldl_relax current (sorted (outgoing nodes edges current))
    { s with ready := ready, order := s.order ++ [current] }
  have hstep : Kahn.step (outgoing nodes edges) s =
      { ((sorted (outgoing nodes edges current)).foldl (relax current)
          { s with ready := ready, order := s.order ++ [current] }) with
        ready := sorted ((sorted (outgoing nodes edges current)).foldl (relax current)
          { s with ready := ready, order := s.order ++ [current] }).ready } := by
    simp only [Kahn.step, hr]
  rw [hstep]
  generalize (sorted (outgoing nodes edges current)).foldl (relax current)
    { s with ready := ready, order := s.order ++ [current] } = s' at *
  have hcs : ∀ c, c ∈ sorted (outgoing nodes edges current) ↔ Edge nodes edges current c :=
    fun c => by rw [mem_sortedBy, mem_outgoing]
  simp only [hcs] at hmem
  have hwaits : ∀ p c, p ∈ s'.incoming c ↔
      Edge nodes edges p c ∧ p ∉ s.order ++ [current] := by
    intro p c
    rw [hinc c]
    by_cases he : Edge nodes edges current c
    · simp [(hcs c).2 he, h.waits, and_assoc]
    · rw [if_neg (mt (hcs c).1 he), h.waits]
      constructor
      · rintro ⟨hp, hno⟩
        refine ⟨hp, ?_⟩
        rw [List.mem_append, List.mem_singleton]
        rintro (hp' | rfl)
        · exact hno hp'
        · exact he hp
      · rintro ⟨hp, hno⟩
        exact ⟨hp, fun hp' => hno (List.mem_append_left _ hp')⟩
  have hready : ∀ c, c ∈ s'.ready ↔ c ∈ ready ∨ (Edge nodes edges current c ∧
      (∀ p, Edge nodes edges p c → p ∈ s.order ++ [current]) ∧ c ∉ s.order ++ [current]) := by
    intro c
    rw [hmem c]
    have hnil : Edge nodes edges current c → ((s.incoming c).filter (· ≠ current) = [] ↔
        ∀ p, Edge nodes edges p c → p ∈ s.order ++ [current]) := by
      intro he
      have hi : s'.incoming c = (s.incoming c).filter (· ≠ current) := by rw [hinc c, if_pos ((hcs c).2 he)]
      rw [← hi, List.eq_nil_iff_forall_not_mem]
      simp only [hwaits, not_and, not_not]
    constructor
    · rintro (hc | ⟨he, hnl, hno⟩)
      · exact Or.inl hc
      · exact Or.inr ⟨he, (hnil he).1 hnl, hno⟩
    · rintro (hc | ⟨he, hnl, hno⟩)
      · exact Or.inl hc
      · exact Or.inr ⟨he, (hnil he).2 hnl, hno⟩
  refine
    { order_nodup := ?_, ready_nodup := ?_, fresh := ?_, order_mem := ?_, ready_mem := ?_,
      waits := ?_, frontier := ?_, before := ?_, acc := ?_ }
  · rw [show _ = s.order ++ [current] from hord]
    exact List.nodup_append.2 ⟨h.order_nodup, List.nodup_singleton _, fun x hx y hy => by
      rw [List.mem_singleton] at hy
      subst hy
      exact fun e => hout (e ▸ hx)⟩
  · exact sortedBy_nodup (hnd hrn.2)
  · intro c hc
    rw [show _ = s.order ++ [current] from hord]
    rcases (hready c).1 (mem_sortedBy.1 hc) with hc | ⟨-, -, hno⟩
    · rw [List.mem_append, List.mem_singleton]
      rintro (hc' | rfl)
      · exact h.fresh c (by rw [hr]; exact List.mem_cons_of_mem _ hc) hc'
      · exact hrn.1 hc
    · exact hno
  · intro c hc
    rw [show _ = s.order ++ [current] from hord] at hc
    rcases List.mem_append.1 hc with hc | hc
    · exact h.order_mem c hc
    · rw [List.mem_singleton.1 hc]
      exact hcn
  · intro c hc
    rcases (hready c).1 (mem_sortedBy.1 hc) with hc | ⟨he, -, -⟩
    · exact h.ready_mem c (by rw [hr]; exact List.mem_cons_of_mem _ hc)
    · exact he.2.2
  · intro p c
    rw [show _ = s.order ++ [current] from hord]
    exact hwaits p c
  · intro c hc
    rw [show _ = s.order ++ [current] from hord]
    simp only [mem_sortedBy, hready]
    constructor
    · rintro (hc' | hc' | ⟨-, hall, -⟩)
      · intro p hp
        rcases List.mem_append.1 hc' with hc' | hc'
        · exact List.mem_append_left _ ((h.frontier c hc).1 (Or.inl hc') p hp)
        · rw [List.mem_singleton.1 hc'] at hp
          exact List.mem_append_left _ (hpreds p hp)
      · intro p hp
        have hin : c ∈ s.ready := by rw [hr]; exact List.mem_cons_of_mem _ hc'
        exact List.mem_append_left _ ((h.frontier c hc).1 (Or.inr hin) p hp)
      · exact hall
    · intro hall
      by_cases ho : c ∈ s.order ++ [current]
      · exact Or.inl ho
      · by_cases he : Edge nodes edges current c
        · exact Or.inr (Or.inr ⟨he, hall, ho⟩)
        · have hold : ∀ p, Edge nodes edges p c → p ∈ s.order := by
            intro p hp
            rcases List.mem_append.1 (hall p hp) with hp' | hp'
            · exact hp'
            · rw [List.mem_singleton.1 hp'] at hp
              exact absurd hp he
          rcases (h.frontier c hc).2 hold with hc' | hc'
          · exact Or.inl (List.mem_append_left _ hc')
          · rw [hr] at hc'
            rcases List.mem_cons.1 hc' with rfl | hc'
            · exact absurd (List.mem_append_right _ (List.mem_singleton_self _)) ho
            · exact Or.inr (Or.inl hc')
  · intro c hc p hp
    rw [show _ = s.order ++ [current] from hord] at hc ⊢
    rcases List.mem_append.1 hc with hc | hc
    · exact (h.before c hc p hp).append_right _
    · rw [List.mem_singleton.1 hc] at hp ⊢
      exact before_append (hpreds p hp) (List.mem_singleton_self _)
  · intro c hc
    rw [show _ = s.order ++ [current] from hord] at hc
    rcases List.mem_append.1 hc with hc | hc
    · exact h.acc c hc
    · rw [List.mem_singleton.1 hc]
      exact Acc.intro _ fun p hp => h.acc p (hpreds p hp)

/-! ## the whole run -/

theorem length_step {s : State α} (h : s.ready ≠ []) :
    (step (outgoing nodes edges) s).order.length = s.order.length + 1 := by
  rcases hr : s.ready with _ | ⟨current, ready⟩
  · exact absurd hr h
  · obtain ⟨-, hord, -, -⟩ := foldl_relax current (sorted (outgoing nodes edges current))
      { s with ready := ready, order := s.order ++ [current] }
    simp only [step, hr, hord, List.length_append, List.length_singleton]

theorem Inv.run {s : State α} (h : Inv nodes edges s) (n : Nat) :
    Inv nodes edges (run (outgoing nodes edges) n s) := by
  induction n generalizing s with
  | zero => exact h
  | succ n ih =>
    simp only [Kahn.run]
    split
    · exact h
    · exact ih h.step

theorem Inv.run_ready {s : State α} (h : Inv nodes edges s) {n : Nat}
    (hn : nodes.length ≤ s.order.length + n) :
    (Kahn.run (outgoing nodes edges) n s).ready = [] := by
  induction n generalizing s with
  | zero =>
    rcases hr : s.ready with _ | ⟨c, l⟩
    · exact hr
    · have hc : c ∈ s.ready := by rw [hr]; exact List.mem_cons_self
      have hsub : (c :: s.order) ⊆ nodes := by
        intro x hx
        rcases List.mem_cons.1 hx with rfl | hx
        · exact h.ready_mem _ hc
        · exact h.order_mem _ hx
      have hle := (List.subperm_of_subset
        (List.nodup_cons.2 ⟨h.fresh c hc, h.order_nodup⟩) hsub).length_le
      rw [List.length_cons] at hle
      omega
  | succ n ih =>
    simp only [Kahn.run]
    split
    · assumption
    · rename_i hne
      refine ih h.step ?_
      rw [length_step hne]
      omega

theorem inv_peeled (hn : nodes.Nodup) :
    Inv nodes edges (run (outgoing nodes edges) nodes.length (start nodes edges)) :=
  (inv_start hn).run _

theorem peeled_nodup (hn : nodes.Nodup) : (peeled nodes edges).Nodup := (inv_peeled hn).order_nodup

/-- **What is peeled off is what is accessible along the edges.** -/
theorem mem_peeled (hn : nodes.Nodup) {c : α} :
    c ∈ peeled nodes edges ↔ c ∈ nodes ∧ Acc (Edge nodes edges) c := by
  have hinv := @inv_peeled _ _ _ edges hn
  have hdone := (@inv_start _ _ _ edges hn).run_ready (n := nodes.length) (by simp [start])
  constructor
  · exact fun hc => ⟨hinv.order_mem c hc, hinv.acc c hc⟩
  · rintro ⟨hc, hacc⟩
    induction hacc with
    | intro c _ ih =>
      have hall : ∀ p, Edge nodes edges p c → p ∈ peeled nodes edges :=
        fun p hp => ih p hp hp.2.1
      rcases (hinv.frontier c hc).2 hall with h | h
      · exact h
      · rw [hdone] at h
        exact absurd h (by simp)

theorem peeled_before (hn : nodes.Nodup) {p c : α} (hc : c ∈ peeled nodes edges)
    (hp : Edge nodes edges p c) : Before (peeled nodes edges) p c :=
  (inv_peeled hn).before c hc p hp

theorem sort_eq (hn : nodes.Nodup) :
    sort nodes edges = peeled nodes edges ++ nodes.filter (· ∉ peeled nodes edges) := by
  simp only [sort]
  split
  · rfl
  · rename_i hlen
    rw [not_not] at hlen
    have hsub : peeled nodes edges ⊆ nodes := fun c hc => ((mem_peeled hn).1 hc).1
    have hperm := (List.subperm_of_subset (peeled_nodup hn) hsub).perm_of_length_le hlen.ge
    have hnil : nodes.filter (· ∉ peeled nodes edges) = [] := by
      rw [List.filter_eq_nil_iff]
      intro c hc
      simpa using hperm.mem_iff.2 hc
    rw [hnil, List.append_nil]

/-- **Every node comes out exactly once**, whether or not the edges have a cycle. -/
theorem sort_perm (hn : nodes.Nodup) : (sort nodes edges).Perm nodes := by
  rw [sort_eq hn]
  refine (List.perm_ext_iff_of_nodup ?_ hn).2 fun c => ?_
  · refine List.nodup_append.2 ⟨peeled_nodup hn, hn.filter _, fun x hx y hy => ?_⟩
    rintro rfl
    simp only [List.mem_filter, decide_eq_true_eq] at hy
    exact hy.2 hx
  · simp only [List.mem_append, List.mem_filter, decide_eq_true_eq]
    constructor
    · rintro (hc | hc)
      · exact ((mem_peeled hn).1 hc).1
      · exact hc.1
    · intro hc
      by_cases h : c ∈ peeled nodes edges
      · exact Or.inl h
      · exact Or.inr ⟨hc, h⟩

theorem mem_sort (hn : nodes.Nodup) {c : α} : c ∈ sort nodes edges ↔ c ∈ nodes :=
  (sort_perm hn).mem_iff

theorem sort_nodup (hn : nodes.Nodup) : (sort nodes edges).Nodup := (sort_perm hn).nodup_iff.2 hn

/-- **Which edges the output respects.**  An accessible source stands before its target; a source
that is not accessible is left to the fallback, which goes by the order of the nodes. -/
theorem sort_before_iff (hn : nodes.Pairwise (· < ·)) {p c : α} (he : Edge nodes edges p c) :
    Before (sort nodes edges) p c ↔ (¬ Acc (Edge nodes edges) p → p < c) := by
  have hnd : nodes.Nodup := hn.imp ne_of_lt
  have hsort := @sort_nodup _ _ _ edges hnd
  rw [sort_eq hnd] at hsort ⊢
  by_cases hc : Acc (Edge nodes edges) c
  · have hb := peeled_before hnd ((mem_peeled hnd).2 ⟨he.2.2, hc⟩) he
    exact iff_of_true (hb.append_right _) fun hp => absurd (hc.inv he) hp
  have hcr : c ∈ nodes.filter (· ∉ peeled nodes edges) := by
    simp only [List.mem_filter, decide_eq_true_eq, mem_peeled hnd]
    exact ⟨he.2.2, fun h => hc h.2⟩
  by_cases hp : Acc (Edge nodes edges) p
  · exact iff_of_true (before_append ((mem_peeled hnd).2 ⟨he.2.1, hp⟩) hcr) fun h => absurd hp h
  · have hpr : p ∈ nodes.filter (· ∉ peeled nodes edges) := by
      simp only [List.mem_filter, decide_eq_true_eq, mem_peeled hnd]
      exact ⟨he.2.1, fun h => hp h.2⟩
    rw [before_of_append hsort hpr hcr, before_of_pairwise (hn.filter _) hpr hcr]
    exact ⟨fun h _ => h, fun h => h hp⟩

/-! ## the least order -/

/-- every node once, sources before targets -/
structure Topological (nodes : List α) (edges : List (α × α)) (l : List α) : Prop where
  perm : l.Perm nodes
  before : ∀ p c, Edge nodes edges p c → Before l p c

/-- the smallest ready node stands first -/
def Queued (s : State α) : Prop := s.ready.Pairwise (· ≤ ·)

theorem queued_start : Queued (start nodes edges) := sortedBy_pairwise _ _

theorem Queued.step {out : α → List α} {s : State α} (h : Queued s) : Queued (step out s) := by
  unfold Kahn.step
  cases hr : s.ready with
  | nil => exact h
  | cons current ready => exact sortedBy_pairwise _ _

theorem order_step {s : State α} {current : α} {ready : List α} (hr : s.ready = current :: ready) :
    (step (outgoing nodes edges) s).order = s.order ++ [current] := by
  obtain ⟨-, hord, -, -⟩ := foldl_relax current (sorted (outgoing nodes edges current))
    { s with ready := ready, order := s.order ++ [current] }
  simp only [step, hr, hord]

theorem order_prefix_run (n : Nat) (s : State α) :
    s.order <+: (run (outgoing nodes edges) n s).order := by
  induction n generalizing s with
  | zero => exact List.prefix_refl _
  | succ n ih =>
    rw [run]
    split
    · exact List.prefix_refl _
    · rename_i hne
      obtain ⟨current, ready, hr⟩ := List.exists_cons_of_ne_nil hne
      have hstep := ih (step (outgoing nodes edges) s)
      rw [order_step hr] at hstep
      exact (List.prefix_append _ _).trans hstep

/-- what follows in a topological order can be put out, so it is no smaller than what is -/
theorem Inv.next_le {s : State α} (h : Inv nodes edges s) (hq : Queued s) {l : List α}
    (hn : nodes.Nodup) (hl : Topological nodes edges l) {current next : α} {ready rest : List α}
    (hr : s.ready = current :: ready) (hnext : l = s.order ++ next :: rest) : current ≤ next := by
  have hnodup : l.Nodup := hl.perm.nodup_iff.2 hn
  have hin : next ∈ nodes := by
    refine hl.perm.mem_iff.1 ?_
    rw [hnext]
    exact List.mem_append_right _ List.mem_cons_self
  have hout : next ∉ s.order := by
    rw [hnext] at hnodup
    intro hmem
    exact List.disjoint_of_nodup_append hnodup hmem List.mem_cons_self
  have hpreds : ∀ p, Edge nodes edges p next → p ∈ s.order := by
    intro p hp
    have hbefore := hl.before p next hp
    have hmem := hbefore.left_mem
    rw [hnext, List.mem_append] at hmem
    refine hmem.resolve_right fun hlater => ?_
    rcases List.mem_cons.1 hlater with rfl | hlater
    · exact hbefore.ne hnodup rfl
    · refine hbefore.asymm hnodup ?_
      rw [hnext]
      exact (before_cons.2 (Or.inl ⟨rfl, hlater⟩)).append_left _
  have hready := ((h.frontier next hin).2 hpreds).resolve_left hout
  unfold Queued at hq
  rw [hr] at hready hq
  rcases List.mem_cons.1 hready with rfl | hlater
  · exact le_refl _
  · exact (List.pairwise_cons.1 hq).1 next hlater

/-- **A topological order goes on as the loop does**, or with something greater. -/
theorem Inv.run_least {s : State α} (h : Inv nodes edges s) (hq : Queued s) (hn : nodes.Nodup)
    {l : List α} (hl : Topological nodes edges l) (hpre : s.order <+: l) (n : Nat) :
    (Kahn.run (outgoing nodes edges) n s).order <+: l ∨
      (Kahn.run (outgoing nodes edges) n s).order < l := by
  induction n generalizing s with
  | zero => exact Or.inl hpre
  | succ n ih =>
    simp only [Kahn.run]
    split
    · exact Or.inl hpre
    · rename_i hne
      obtain ⟨current, ready, hr⟩ := List.exists_cons_of_ne_nil hne
      have hcur : current ∈ s.ready := by
        rw [hr]
        exact List.mem_cons_self
      obtain ⟨rest, hrest⟩ := hpre
      cases rest with
      | nil =>
        refine absurd (hl.perm.mem_iff.2 (h.ready_mem current hcur)) ?_
        rw [← hrest, List.append_nil]
        exact h.fresh current hcur
      | cons next rest =>
        have hle := h.next_le hq hn hl hr hrest.symm
        rcases eq_or_lt_of_le hle with rfl | hlt
        · refine ih h.step hq.step ?_
          rw [order_step hr, ← hrest]
          exact ⟨rest, List.append_assoc _ _ _⟩
        · refine Or.inr ?_
          have hprior : (Kahn.step (outgoing nodes edges) s).order <+:
              (Kahn.run (outgoing nodes edges) n (Kahn.step (outgoing nodes edges) s)).order :=
            order_prefix_run n _
          obtain ⟨later, hlater⟩ := hprior
          rw [order_step hr, List.append_assoc] at hlater
          rw [← hlater, ← hrest]
          exact List.Lex.append_left _ (.rel hlt) _

/-- **Without a cycle the output is the least topological order.** -/
theorem sort_least (hn : nodes.Nodup) (hacc : ∀ c ∈ nodes, Acc (Edge nodes edges) c) :
    IsLeast {l | Topological nodes edges l} (sort nodes edges) := by
  have hall : sort nodes edges = peeled nodes edges := by
    rw [sort_eq hn, List.append_right_eq_self, List.filter_eq_nil_iff]
    intro c hc
    simpa using (mem_peeled hn).2 ⟨hc, hacc c hc⟩
  have hperm := @sort_perm _ _ _ edges hn
  constructor
  · refine ⟨hperm, fun p c hp => ?_⟩
    rw [hall]
    exact peeled_before hn ((mem_peeled hn).2 ⟨hp.2.2, hacc c hp.2.2⟩) hp
  · intro l hl
    have hleast := (@inv_start _ _ _ edges hn).run_least queued_start hn hl
      (List.nil_prefix) nodes.length
    rw [hall] at hperm ⊢
    rcases hleast with hpre | hlt
    · have hlen : (peeled nodes edges).length = l.length :=
        hperm.length_eq.trans hl.perm.length_eq.symm
      exact le_of_eq (hpre.eq_of_length hlen)
    · exact le_of_lt hlt

end

/-! ## cycles -/

/-- **A node is not accessible iff it is on or downstream of a cycle.** -/
theorem not_acc_iff {nodes : List α} {edges : List (α × α)} {c : α} :
    ¬ Acc (Edge nodes edges) c ↔
      ∃ q, Relation.TransGen (Edge nodes edges) q q ∧
        Relation.ReflTransGen (Edge nodes edges) q c := by
  constructor
  · intro h
    obtain ⟨f, hf0, hf⟩ := not_acc_iff_exists_descending_chain.1 h
    -- the chain stays inside the finitely many nodes, so it visits one of them twice
    have hmem : ∀ n, f (n + 1) ∈ nodes := fun n => (hf n).2.1
    have hfin : Finite {x // x ∈ nodes} := nodes.finite_toSet.to_subtype
    obtain ⟨i, j, hij, heq⟩ := Finite.exists_ne_map_eq_of_infinite
      (fun n => (⟨f (n + 1), hmem n⟩ : {x // x ∈ nodes}))
    have heq' : f (i + 1) = f (j + 1) := congrArg Subtype.val heq
    have hdown : ∀ m k, Relation.TransGen (Edge nodes edges) (f (m + (k + 1))) (f m) := by
      intro m k
      induction k with
      | zero => exact Relation.TransGen.single (hf m)
      | succ k ih => exact Relation.TransGen.head (hf (m + (k + 1))) ih
    have hreach : ∀ m, Relation.ReflTransGen (Edge nodes edges) (f m) (f 0) := by
      intro m
      rcases m with _ | m
      · exact Relation.ReflTransGen.refl
      · have := hdown 0 m
        rw [Nat.zero_add] at this
        exact this.to_reflTransGen
    rw [← hf0]
    rcases Nat.lt_or_gt_of_ne hij with hlt | hgt
    · obtain ⟨k, rfl⟩ := Nat.exists_eq_add_of_lt hlt
      refine ⟨f (i + 1), ?_, hreach _⟩
      have hc := hdown (i + 1) k
      rwa [show i + 1 + (k + 1) = i + k + 1 + 1 by omega, ← heq'] at hc
    · obtain ⟨k, rfl⟩ := Nat.exists_eq_add_of_lt hgt
      refine ⟨f (j + 1), ?_, hreach _⟩
      have hc := hdown (j + 1) k
      rwa [show j + 1 + (k + 1) = j + k + 1 + 1 by omega, heq'] at hc
  · rintro ⟨q, hq, hqc⟩ hacc
    have hqacc : Acc (Edge nodes edges) q := by
      induction hqc with
      | refl => exact hacc
      | tail _ h ih => exact ih (hacc.inv h)
    have htrans : Acc (Relation.TransGen (Edge nodes edges)) q := hqacc.transGen
    exact (not_acc_iff_exists_descending_chain.2 ⟨fun _ => q, rfl, fun _ => hq⟩) htrans

end Kahn
