import Chassis.Lib.Components
import Chassis.Plugins.Guarantees

/-!
# Cycle detection

The iterative search of the resolver keeps the invariant of a depth-first search, ends, and finds
the strongly connected components of whatever graph it is given; the cycles of a composition are
those with several members in the graph of what is declared.

* `Tarjan.Inv`        the search is sound, and its numbers say what was seen;
* `Tarjan.turn_head`  one turn keeps it and comes nearer to the end;
* `scc_partition`     the components partition the nodes;
* `cycles_exact`      **`_detect_cycles` returns the components of several entries.**
-/

set_option linter.unusedSectionVars false

namespace Chassis
open Py Components Relation

theorem Dict.getD_set (d : Dict String Nat) (k : String) (n : Nat) :
    (fun u => ((d.set k n).get? u).getD 0) = Function.update (fun u => (d.get? u).getD 0) k n := by
  funext u
  by_cases hu : u = k
  · subst hu
    rw [Dict.get?_set_self, Function.update_self, Option.getD_some]
  · rw [Dict.get?_set_ne d n hu, Function.update_of_ne hu]

namespace Tarjan

/-- the search, with the frames as they are at the moment -/
def view (s : Tarjan) (frames : List (String × List String)) : Search String :=
  ⟨s.counter, s.idx, s.low, s.stack, s.components, frames⟩

def Seen (s : Tarjan) (v : String) : Prop := (s.indices.get? v).isSome = true

section
variable (adjacency : String → List String) (nodes done : List String)

def Edge (v w : String) : Prop := w ∈ adjacency v

/-- what the search keeps true of the graph; the nodes in `done` are seen -/
structure Inv (s : Tarjan) (frames : List (String × List String)) : Prop where
  sound : Sound (Edge adjacency) (s.view frames)
  seen : ∀ v, s.Seen v ↔ (s.view frames).Seen v
  inside : ∀ v, s.Seen v → v ∈ nodes
  kept : ∀ v ∈ done, s.Seen v

/-- the invariant at the head of the loop, where the innermost frame may not be entered yet -/
structure Head (s : Tarjan) : Prop where
  busy : ∀ v ws rest, s.work = (v, ws) :: rest → Inv adjacency nodes done (s.enter v) s.work
  idle : s.work = [] → Inv adjacency nodes done s []

end

/-! ## the parts of a turn -/

theorem enter_seen {s : Tarjan} {v : String} (h : s.Seen v) : s.enter v = s := by
  obtain ⟨i, hi⟩ := Option.isSome_iff_exists.1 h
  simp only [enter, hi]

theorem enter_new {s : Tarjan} {v : String} (h : ¬ s.Seen v) :
    s.enter v = { s with
      indices := s.indices.set v s.counter, lowlink := s.lowlink.set v s.counter,
      counter := s.counter + 1, stack := v :: s.stack } := by
  have hnone : s.indices.get? v = none := by
    rwa [Seen, Option.not_isSome_iff_eq_none] at h
  simp only [enter, hnone]

theorem seen_enter (s : Tarjan) (v u : String) : (s.enter v).Seen u ↔ u = v ∨ s.Seen u := by
  by_cases h : s.Seen v
  · rw [enter_seen h]
    exact ⟨Or.inr, fun hu => hu.elim (fun hv => hv ▸ h) id⟩
  · rw [enter_new h]
    show ((s.indices.set v s.counter).get? u).isSome = true ↔ _
    rw [Dict.get?_set]
    by_cases hu : u = v
    · simp [hu]
    · simp [hu, Seen]

theorem view_enter {s : Tarjan} {v : String} (h : ¬ s.Seen v) (ws : List String)
    (frames frames' : List (String × List String)) :
    (s.enter v).view ((v, ws) :: frames) = (s.view frames').enter v ws frames := by
  rw [enter_new h]
  simp only [view, Search.enter, Search.mk.injEq, true_and, and_true]
  exact ⟨Dict.getD_set _ _ _, Dict.getD_set _ _ _⟩

section
variable {adjacency : String → List String} {nodes done : List String}

theorem Inv.enter {s : Tarjan} {frames frames' : List (String × List String)} {v : String}
    (h : Inv adjacency nodes done s frames') (hv : v ∈ nodes) (hnew : ¬ s.Seen v)
    (hpath : frames.map Prod.fst = frames'.map Prod.fst)
    (hkeep : ∀ x w, Left frames' x w → w = v ∨ Left frames x w)
    (hleft : ∀ x w, Left frames x w → Left frames' x w)
    (hreach : ∀ u ∈ frames'.map Prod.fst, ReflTransGen (Edge adjacency) u v) :
    Inv adjacency nodes done (s.enter v) ((v, sorted (adjacency v)) :: frames) where
  sound := by
    rw [view_enter hnew _ _ frames']
    exact h.sound.enter (fun hs => hnew ((h.seen v).2 hs)) (fun w => mem_sortedBy) hpath hkeep hleft
      hreach
  seen u := by
    rw [seen_enter, h.seen, view_enter hnew _ _ frames']
    simp only [Search.Seen, Search.enter, List.mem_cons, or_assoc]
  inside u hu := by
    rcases (seen_enter s v u).1 hu with rfl | hu
    · exact hv
    · exact h.inside u hu
  kept u hu := (seen_enter s v u).2 (Or.inr (h.kept u hu))

theorem Inv.look {s : Tarjan} {v w : String} {ws : List String}
    {rest : List (String × List String)} {i : Nat}
    (h : Inv adjacency nodes done s ((v, w :: ws) :: rest)) (hw : s.indices.get? w = some i) :
    Inv adjacency nodes done (if w ∈ s.stack then
      { s with lowlink := s.lowlink.set v (min (s.low v) i) } else s) ((v, ws) :: rest) := by
  have hseen : (s.view ((v, w :: ws) :: rest)).Seen w := (h.seen w).1 (by
    rw [Seen, hw]
    rfl)
  have hidx : s.idx w = i := by
    rw [idx, hw]
    rfl
  have hview : (if w ∈ s.stack then
      { s with lowlink := s.lowlink.set v (min (s.low v) i) } else s).view ((v, ws) :: rest) =
      (s.view ((v, w :: ws) :: rest)).look v w ws rest := by
    have hlook : (s.view ((v, w :: ws) :: rest)).look v w ws rest =
        ⟨s.counter, s.idx, if w ∈ s.stack then Function.update s.low v (min (s.low v) (s.idx w))
          else s.low, s.stack, s.components, (v, ws) :: rest⟩ := rfl
    rw [hlook, hidx]
    split_ifs
    · exact congrArg (fun low => (⟨s.counter, s.idx, low, s.stack, s.components, (v, ws) :: rest⟩ :
        Search String)) (Dict.getD_set _ _ _)
    · rfl
  refine ⟨?_, fun u => ?_, fun u hu => h.inside u ?_, fun u hu => ?_⟩
  · rw [hview]
    exact h.sound.look rfl hseen
  · have hu := h.seen u
    split_ifs
    · exact hu
    · exact hu
  · split_ifs at hu
    · exact hu
    · exact hu
  · have hu := h.kept u hu
    split_ifs
    · exact hu
    · exact hu

theorem Inv.scan {s : Tarjan} {v : String} {ws : List String} {rest : List (String × List String)}
    (h : Inv adjacency nodes done s ((v, ws) :: rest)) :
    (s.scan v ws).1.indices = s.indices ∧ (s.scan v ws).1.work = s.work ∧
      match (s.scan v ws).2 with
      | none => Inv adjacency nodes done (s.scan v ws).1 ((v, []) :: rest)
      | some (w, left) => ¬ s.Seen w ∧
        Inv adjacency nodes done (s.scan v ws).1 ((v, w :: left) :: rest) := by
  induction ws generalizing s with
  | nil => exact ⟨rfl, rfl, h⟩
  | cons w ws ih =>
    unfold Tarjan.scan
    split
    · rename_i hnone
      refine ⟨rfl, rfl, fun hseen => ?_, h⟩
      rw [Seen, hnone] at hseen
      cases hseen
    · rename_i i hw
      obtain ⟨hindices, hwork, hres⟩ := ih (h.look hw)
      have hsame : (if w ∈ s.stack then
          { s with lowlink := s.lowlink.set v (min (s.low v) i) } else s).indices = s.indices ∧
          (if w ∈ s.stack then
          { s with lowlink := s.lowlink.set v (min (s.low v) i) } else s).work = s.work := by
        split_ifs
        · exact ⟨rfl, rfl⟩
        · exact ⟨rfl, rfl⟩
      refine ⟨hindices.trans hsame.1, hwork.trans hsame.2, ?_⟩
      generalize Tarjan.scan _ v ws = t at hres ⊢
      obtain ⟨t, _ | ⟨x, left⟩⟩ := t
      · exact hres
      · refine ⟨fun hx => hres.1 ?_, hres.2⟩
        rw [Seen, hsame.1]
        exact hx

theorem split_at {l : List String} {v : String} (h : v ∈ l) :
    l = l.takeWhile (· ≠ v) ++ v :: (l.dropWhile (· ≠ v)).tail := by
  induction l with
  | nil => exact absurd h List.not_mem_nil
  | cons a l ih =>
    by_cases ha : a = v
    · subst ha
      simp
    · have hl : v ∈ l := (List.mem_cons.1 h).resolve_left (Ne.symm ha)
      rw [List.takeWhile_cons_of_pos (by simpa using ha),
        List.dropWhile_cons_of_pos (by simpa using ha), List.cons_append, ← ih hl]

/-- the parent of `v`, if it has one, learns how far up `v` gets -/
def handOn (s : Tarjan) (v : String) (rest : List (String × List String)) : String → Nat :=
  match rest with
  | [] => s.low
  | (p, _) :: _ => Function.update s.low p (min (s.low p) (s.low v))

/-- a root closes its component -/
def finish (s : Tarjan) (v : String) : Tarjan :=
  if s.low v = s.idx v then
    { s with
      stack := (s.stack.dropWhile (· ≠ v)).tail
      components := s.components ++ [sorted (s.stack.takeWhile (· ≠ v) ++ [v])] }
  else s

theorem finish_eq (s : Tarjan) (v : String) (frames : List (String × List String)) :
    (s.finish v).indices = s.indices ∧ (s.finish v).work = s.work ∧ (s.finish v).view frames =
      if s.low v = s.idx v then
        { s.view frames with
          stack := (s.stack.dropWhile (· ≠ v)).tail
          closed := s.components ++ [sorted (s.stack.takeWhile (· ≠ v) ++ [v])] }
      else s.view frames := by
  unfold finish
  split_ifs
  · exact ⟨rfl, rfl, rfl⟩
  · exact ⟨rfl, rfl, rfl⟩

theorem leave_eq (s : Tarjan) (v : String) (rest : List (String × List String))
    (hv : s.handOn v rest v = s.low v) : (s.leave v rest).indices = s.indices ∧
      (s.leave v rest).work = rest ∧ (s.leave v rest).view rest =
        if s.low v = s.idx v then
          { s.view ((v, []) :: rest) with
            low := s.handOn v rest, stack := (s.stack.dropWhile (· ≠ v)).tail
            closed := s.components ++ [sorted (s.stack.takeWhile (· ≠ v) ++ [v])], frames := rest }
        else { s.view ((v, []) :: rest) with low := s.handOn v rest, frames := rest } := by
  cases rest with
  | nil => exact finish_eq { s with work := [] } v []
  | cons f rest =>
    have hlow : ({ s with
        lowlink := s.lowlink.set f.1 (min (s.low f.1) (s.low v)), work := f :: rest } : Tarjan).low =
        s.handOn v (f :: rest) := Dict.getD_set _ _ _
    obtain ⟨hindices, hwork, hview⟩ := finish_eq { s with
      lowlink := s.lowlink.set f.1 (min (s.low f.1) (s.low v)), work := f :: rest } v (f :: rest)
    refine ⟨hindices, hwork, hview.trans ?_⟩
    simp only [view]
    rw [hlow, hv]
    rfl

theorem Inv.leave {s : Tarjan} {v : String} {rest : List (String × List String)}
    (h : Inv adjacency nodes done s ((v, []) :: rest)) :
    (s.leave v rest).indices = s.indices ∧ (s.leave v rest).work = rest ∧
      Inv adjacency nodes done (s.leave v rest) rest := by
  have hf : (s.view ((v, []) :: rest)).frames = (v, []) :: rest := rfl
  have hv : v ∈ s.stack := h.sound.mem_stack (h.sound.top_mem hf)
  have hsplit := split_at hv
  have hne : ∀ u ∈ rest.map Prod.fst, u ≠ v := fun u hu huv =>
    absurd (h.sound.path_lt hf hu) (by rw [huv]; exact lt_irrefl _)
  have hown : s.handOn v rest v = s.low v := by
    cases rest with
    | nil => rfl
    | cons f rest => exact Function.update_of_ne (hne f.1 List.mem_cons_self).symm _ _
  obtain ⟨hindices, hwork, hview⟩ := leave_eq s v rest hown
  have hseen : ∀ u, (s.leave v rest).Seen u ↔ s.Seen u := fun u => by
    rw [Seen, hindices]
    rfl
  refine ⟨hindices, hwork, ?_⟩
  by_cases hlow : s.low v = s.idx v
  · rw [if_pos hlow] at hview
    have hperm : (sorted (s.stack.takeWhile (· ≠ v) ++ [v])).Perm
        (s.stack.takeWhile (· ≠ v) ++ [v]) := sortedBy_perm id _
    have hkept : ∀ u ∈ rest.map Prod.fst, s.handOn v rest u = s.low u := by
      intro u hu
      cases rest with
      | nil => rfl
      | cons f rest =>
        have hfirst : f.1 ∈ (f :: rest).map Prod.fst := List.mem_cons_self
        have hpath := (h.sound.mem_path hf).2 (Or.inr hfirst)
        have hle : s.low f.1 ≤ s.idx f.1 := h.sound.low_le f.1 hpath
        have hlt : s.idx f.1 < s.idx v := h.sound.path_lt hf hfirst
        show Function.update s.low f.1 (min (s.low f.1) (s.low v)) u = s.low u
        by_cases huf : u = f.1
        · subst huf
          rw [Function.update_self, hlow, min_eq_left (hle.trans hlt.le)]
        · exact Function.update_of_ne huf _ _
    refine ⟨?_, fun u => ?_, fun u hu => h.inside u ((hseen u).1 hu),
      fun u hu => (hseen u).2 (h.kept u hu)⟩
    · rw [hview]
      exact h.sound.close hf hlow hsplit hperm hkept
    · rw [hseen, h.seen, hview]
      show u ∈ s.stack ∨ u ∈ s.components.flatten ↔ u ∈ (s.stack.dropWhile (· ≠ v)).tail ∨
        u ∈ (s.components ++ [sorted (s.stack.takeWhile (· ≠ v) ++ [v])]).flatten
      rw [List.flatten_append, List.flatten_singleton, List.mem_append, hperm.mem_iff]
      conv_lhs => rw [hsplit]
      simp only [List.mem_append, List.mem_cons, List.not_mem_nil, or_false]
      tauto
  · rw [if_neg hlow] at hview
    obtain ⟨u, hu, -⟩ := h.sound.rest_ne_nil hf hlow
    cases rest with
    | nil => exact absurd hu List.not_mem_nil
    | cons f before =>
      refine ⟨?_, fun u => ?_, fun u hu => h.inside u ((hseen u).1 hu),
        fun u hu => (hseen u).2 (h.kept u hu)⟩
      · rw [hview]
        exact h.sound.retreat hf (show f :: before = (f.1, f.2) :: before from rfl) hlow
      · rw [hseen, h.seen, hview]
        rfl

/-! ## turn by turn -/

/-- the nodes that are not met -/
def unseen (s : Tarjan) (nodes : List String) : Nat :=
  (nodes.filter fun v => (s.indices.get? v).isNone).length

/-- how many turns there can be at most: twice for each node that is still to be pushed, and once
for each frame -/
def remaining (s : Tarjan) (nodes : List String) : Nat :=
  match s.work with
  | [] => 0
  | (v, _) :: _ => 2 * (s.enter v).unseen nodes + s.work.length

theorem unseen_congr {s t : Tarjan} (h : s.indices = t.indices) (nodes : List String) :
    s.unseen nodes = t.unseen nodes := by
  rw [unseen, h]
  rfl

theorem unseen_enter {s : Tarjan} {v : String} (hv : v ∈ nodes) (hnew : ¬ s.Seen v) :
    (s.enter v).unseen nodes < s.unseen nodes := by
  have hfilter : nodes.filter (fun u => ((s.enter v).indices.get? u).isNone) =
      (nodes.filter fun u => (s.indices.get? u).isNone).filter (· ≠ v) := by
    rw [List.filter_filter]
    refine List.filter_congr fun u _ => ?_
    rw [Bool.eq_iff_iff, Option.isNone_iff_eq_none, ← Option.not_isSome_iff_eq_none]
    have henter := seen_enter s v u
    simp only [Seen] at henter
    rw [henter, not_or, Bool.and_eq_true, Option.isNone_iff_eq_none,
      ← Option.not_isSome_iff_eq_none, decide_eq_true_eq]
  rw [unseen, hfilter]
  refine List.length_filter_lt_length_iff_exists.2 ⟨v, List.mem_filter.2 ⟨hv, ?_⟩, by simp⟩
  rw [Option.isNone_iff_eq_none, ← Option.not_isSome_iff_eq_none]
  exact hnew

variable (hin : ∀ v ∈ nodes, ∀ w ∈ adjacency v, w ∈ nodes)
include hin

/-- **One turn keeps the invariant, and comes nearer to the end.** -/
theorem turn_head {s : Tarjan} (h : Head adjacency nodes done s) (hbusy : s.work ≠ []) :
    Head adjacency nodes done (turn adjacency s) ∧
      (turn adjacency s).remaining nodes < s.remaining nodes := by
  obtain ⟨⟨v, ws⟩, rest, hwork⟩ := List.exists_cons_of_ne_nil hbusy
  have hinv := h.busy v ws rest hwork
  rw [hwork] at hinv
  obtain ⟨hindices, hscanWork, hres⟩ := hinv.scan
  have hbound : s.remaining nodes = 2 * (s.enter v).unseen nodes + (rest.length + 1) := by
    simp only [remaining, hwork, List.length_cons]
  have hunseen := unseen_congr hindices nodes
  simp only [turn, hwork]
  generalize (s.enter v).scan v ws = t at hindices hscanWork hres hunseen ⊢
  obtain ⟨t, _ | ⟨w, left⟩⟩ := t
  · dsimp only at hunseen hres ⊢
    obtain ⟨hleave, hleaveWork, hleaveInv⟩ := Inv.leave hres
    have hentered : ∀ p ps before, rest = (p, ps) :: before → (t.leave v rest).enter p = t.leave v rest :=
      fun p ps before hrest => enter_seen ((hleaveInv.seen p).2 (Or.inl
        (hleaveInv.sound.mem_stack (by rw [Search.path, hrest]; exact List.mem_cons_self))))
    refine ⟨⟨fun p ps before hp => ?_, fun hidle => ?_⟩, ?_⟩
    · rw [hleaveWork] at hp ⊢
      rw [hentered p ps before hp]
      exact hleaveInv
    · rw [hleaveWork] at hidle
      rw [hidle] at hleaveInv ⊢
      exact hleaveInv
    · rw [hbound, ← hunseen, remaining, hleaveWork]
      cases hrest : rest with
      | nil =>
        simp only [List.length_nil]
        omega
      | cons f before =>
        have hsame := hentered f.1 f.2 before hrest
        rw [hrest] at hsame hleave
        simp only [List.length_cons]
        rw [hsame, unseen_congr hleave nodes]
        omega
  · obtain ⟨hnew, hinv'⟩ := hres
    replace hnew : ¬ t.Seen w := fun hseen => hnew (by
      rw [Seen, ← hindices]
      exact hseen)
    have hv : (v, w :: left) ∈ (v, w :: left) :: rest := List.mem_cons_self
    have hedge : Edge adjacency v w := hinv'.sound.left v w ⟨_, hv, List.mem_cons_self⟩
    have hvpath : v ∈ (t.view ((v, w :: left) :: rest)).path := List.mem_cons_self
    have hvstack : v ∈ t.stack := hinv'.sound.mem_stack hvpath
    have hw : w ∈ nodes := hin v (hinv'.inside v ((hinv'.seen v).2 (Or.inl hvstack))) w hedge
    have hentered : Inv adjacency nodes done (t.enter w)
        ((w, sorted (adjacency w)) :: (v, left) :: rest) := by
      refine hinv'.enter hw hnew rfl (fun x y hl => ?_) (fun x y hl => ?_) (fun u hu => ?_)
      · by_cases hx : x = v
        · subst hx
          rcases left_cons.1 hl with hy | hl
          · rcases List.mem_cons.1 hy with rfl | hy
            · exact Or.inl rfl
            · exact Or.inr (left_cons.2 (Or.inl hy))
          · exact Or.inr (left_cons.2 (Or.inr hl))
        · exact Or.inr ((left_cons_ne hx).2 ((left_cons_ne hx).1 hl))
      · by_cases hx : x = v
        · subst hx
          exact left_cons.2 ((left_cons.1 hl).imp_left (List.mem_cons_of_mem _))
        · exact (left_cons_ne hx).2 ((left_cons_ne hx).1 hl)
      · rcases List.mem_cons.1 hu with rfl | hrest
        · exact .single hedge
        · have hle := (hinv'.sound.path_lt (show (t.view ((v, w :: left) :: rest)).frames =
            (v, w :: left) :: rest from rfl) hrest).le
          exact (hinv'.sound.down u hu v hvstack hle).tail hedge
    have henterWork : ∀ work, ({ t with work := work } : Tarjan).enter w =
        { t.enter w with work := work } := fun work => by
      have hnew' : ¬ ({ t with work := work } : Tarjan).Seen w := hnew
      rw [enter_new hnew', enter_new hnew]
    refine ⟨⟨fun p ps before hp => ?_, fun hidle => (by cases hidle)⟩, ?_⟩
    · obtain ⟨⟨rfl, rfl⟩, rfl⟩ : (w = p ∧ sorted (adjacency w) = ps) ∧ (v, left) :: rest = before := by
        simpa using hp
      rw [henterWork]
      exact ⟨hentered.sound, hentered.seen, hentered.inside, hentered.kept⟩
    · have hlt := unseen_enter hw hnew
      have hpushed : ({ t with work := (w, sorted (adjacency w)) :: (v, left) :: rest } :
          Tarjan).remaining nodes = 2 * (t.enter w).unseen nodes + (rest.length + 1 + 1) := by
        show 2 * Tarjan.unseen (Tarjan.enter _ w) nodes + _ = _
        rw [henterWork]
        rfl
      dsimp only at hunseen
      rw [hbound, ← hunseen, hpushed]
      omega

/-- **With so many turns the search ends.** -/
theorem turns_done {n : Nat} {s : Tarjan} (h : Head adjacency nodes done s)
    (hn : s.remaining nodes ≤ n) : (turns adjacency n s).work = [] ∧
      Inv adjacency nodes done (turns adjacency n s) [] := by
  induction n generalizing s with
  | zero =>
    have hidle : s.work = [] := by
      by_contra hbusy
      exact absurd (turn_head hin h hbusy).2 (by omega)
    exact ⟨hidle, h.idle hidle⟩
  | succ n ih =>
    unfold turns
    split_ifs with hidle
    · exact ⟨hidle, h.idle hidle⟩
    · obtain ⟨hhead, hlt⟩ := turn_head hin h hidle
      exact ih hhead (by omega)

/-! ## root by root -/

variable (adjacency nodes) in
/-- the search from one root, unless it was met -/
def visitRoot (s : Tarjan) (root : String) : Tarjan :=
  match s.indices.get? root with
  | some _ => s
  | none => turns adjacency (2 * nodes.length + 1)
      { s with work := [(root, sorted (adjacency root))] }

theorem root_head {s : Tarjan} (h : Inv adjacency nodes done s []) {root : String}
    (hroot : root ∈ nodes) (hnew : ¬ s.Seen root) :
    Head adjacency nodes (done ++ [root]) { s with work := [(root, sorted (adjacency root))] } ∧
      Tarjan.remaining { s with work := [(root, sorted (adjacency root))] } nodes ≤
        2 * nodes.length + 1 := by
  have hentered := h.enter hroot hnew (show [].map Prod.fst = [].map Prod.fst from rfl)
    (fun _ _ hl => Or.inr hl) (fun _ _ hl => hl) (fun _ hu => absurd hu List.not_mem_nil)
  have henterWork : ({ s with work := [(root, sorted (adjacency root))] } : Tarjan).enter root =
      { s.enter root with work := [(root, sorted (adjacency root))] } := by
    have hnew' : ¬ ({ s with work := [(root, sorted (adjacency root))] } : Tarjan).Seen root := hnew
    rw [enter_new hnew', enter_new hnew]
  refine ⟨⟨fun v ws rest hwork => ?_, fun hidle => (nomatch hidle)⟩, ?_⟩
  · obtain ⟨⟨rfl, rfl⟩, rfl⟩ : (root = v ∧ sorted (adjacency root) = ws) ∧ rest = [] := by
      simpa [eq_comm] using hwork
    rw [henterWork]
    refine ⟨hentered.sound, hentered.seen, hentered.inside, fun u hu => ?_⟩
    rcases List.mem_append.1 hu with hu | hu
    · exact hentered.kept u hu
    · exact (seen_enter s root u).2 (Or.inl (List.mem_singleton.1 hu))
  · show 2 * Tarjan.unseen (Tarjan.enter _ root) nodes + 1 ≤ _
    have hle : Tarjan.unseen (({ s with work := [(root, sorted (adjacency root))] } : Tarjan).enter
      root) nodes ≤ nodes.length := List.length_filter_le _ _
    omega

theorem visitRoot_inv {s : Tarjan} (hidle : s.work = []) (h : Inv adjacency nodes done s [])
    {root : String} (hroot : root ∈ nodes) :
    (visitRoot adjacency nodes s root).work = [] ∧
      Inv adjacency nodes (done ++ [root]) (visitRoot adjacency nodes s root) [] := by
  unfold visitRoot
  split
  · rename_i i hi
    refine ⟨hidle, h.sound, h.seen, h.inside, fun u hu => ?_⟩
    rcases List.mem_append.1 hu with hu | hu
    · exact h.kept u hu
    · rw [List.mem_singleton.1 hu, Seen, hi]
      rfl
  · rename_i hnone
    have hnew : ¬ s.Seen root := by
      rw [Seen, hnone]
      exact Bool.false_ne_true
    obtain ⟨hhead, hle⟩ := root_head hin h hroot hnew
    exact turns_done hin hhead hle

theorem roots_inv (roots : List String) (hroots : ∀ r ∈ roots, r ∈ nodes) :
    (roots.foldl (visitRoot adjacency nodes) {}).work = [] ∧
      Inv adjacency nodes roots (roots.foldl (visitRoot adjacency nodes) {}) [] := by
  induction roots using List.reverseRecOn with
  | nil =>
    refine ⟨rfl, sound_init _ _ _, fun v => iff_of_false (fun h => (nomatch h)) ?_,
      fun v h => (nomatch h), fun v hv => absurd hv List.not_mem_nil⟩
    rintro (hv | hv)
    · exact absurd hv List.not_mem_nil
    · exact absurd hv List.not_mem_nil
  | append_singleton roots r ih =>
    obtain ⟨hidle, hinv⟩ := ih fun x hx => hroots x (List.mem_append_left _ hx)
    rw [List.foldl_append]
    exact visitRoot_inv hin hidle hinv (hroots r (List.mem_append_right _ List.mem_cons_self))

/-- **The components partition the nodes.** -/
theorem scc_partition :
    Partition (Edge adjacency) nodes (stronglyConnectedComponents nodes adjacency) := by
  obtain ⟨-, hinv⟩ := roots_inv hin (sorted nodes) fun r hr => mem_sortedBy.1 hr
  have hnil := hinv.sound.stack_nil rfl
  have hnodup := hinv.sound.nodup
  rw [hnil, List.nil_append] at hnodup
  refine ⟨hnodup, fun v => ⟨fun hv => ?_, fun hv => ?_⟩, hinv.sound.components⟩
  · exact hinv.inside v ((hinv.seen v).2 (Or.inr hv))
  · refine ((hinv.seen v).1 (hinv.kept v (mem_sortedBy.2 hv))).resolve_left fun hs => ?_
    rw [hnil] at hs
    exact absurd hs List.not_mem_nil

variable (adjacency nodes) in
/-- the search from each root that is not met ends, within so many turns -/
def Ends : Prop :=
  ∀ before root after, sorted nodes = before ++ root :: after →
    ∀ s, before.foldl (visitRoot adjacency nodes) {} = s → ¬ s.Seen root →
      ∀ n, 2 * nodes.length + 1 ≤ n →
        (turns adjacency n { s with work := [(root, sorted (adjacency root))] }).work = []

theorem search_ends : Ends adjacency nodes := by
  rintro before root after hsorted _ rfl hnew n hn
  have hmem : ∀ r, r ∈ before ++ root :: after → r ∈ nodes := fun r hr =>
    mem_sortedBy.1 (hsorted ▸ hr)
  obtain ⟨-, hinv⟩ := roots_inv hin before fun r hr => hmem r (List.mem_append_left _ hr)
  obtain ⟨hhead, hle⟩ := root_head hin hinv
    (hmem root (List.mem_append_right _ List.mem_cons_self)) hnew
  exact (turns_done hin hhead (hle.trans hn)).1

end
end Tarjan

/-! ## the declared graph -/

section
variable [Packaging]

/-- a hard requirement of `c` accepts a contract that `p`, another entry, declares, and both the
scope of `p` and the capability are visible from the scope of `c` -/
def DeclaredEdge (index : ScopeIndex) (candidates : List PluginCandidate) (p c : String) : Prop :=
  p ≠ c ∧ ∃ consumer ∈ candidates, consumer.entryId = c ∧
    ∃ provider ∈ candidates, provider.entryId = p ∧
    ∃ hard, consumer.manifest.requiredCapabilities = .ok hard ∧ ∃ r ∈ hard,
    ∃ key version, provider.manifest.Contract key version ∧ r.accepts key version = true ∧
      index.canSee consumer.scope provider.scope r.name = true

variable {index : ScopeIndex} {candidates : List PluginCandidate} {entries : List Prepared}

theorem mem_declaredConsumers (h : prepare candidates = .ok entries) {p c : String} :
    c ∈ declaredConsumers index entries p ↔ DeclaredEdge index candidates p c := by
  obtain ⟨hmap, hparsed⟩ := prepare_ok h
  unfold declaredConsumers
  rw [List.mem_dedup, List.mem_map]
  simp only [List.mem_filter, List.any_eq_true, List.mem_flatMap, Bool.and_eq_true,
    decide_eq_true_eq]
  constructor
  · rintro ⟨consumer, ⟨hconsumer, r, hr, o, ⟨provider, hprovider, ho⟩,
      ⟨⟨⟨hp, hname⟩, hne⟩, hsee⟩, haccepts⟩, rfl⟩
    obtain ⟨hentry, hscope⟩ := declaredOptions_place (hparsed provider hprovider).declared ho
    refine ⟨by rw [← hp]; exact hne, consumer.candidate, hmap ▸ List.mem_map_of_mem hconsumer, rfl,
      provider.candidate, hmap ▸ List.mem_map_of_mem hprovider, by rw [← hp, hentry],
      consumer.required, (hparsed consumer hconsumer).required, r, hr, o.key, o.version,
      (mem_declaredOptions (hparsed provider hprovider).declared).1 ⟨o, ho, rfl, rfl⟩, haccepts, ?_⟩
    rw [hscope] at hsee
    exact hsee
  · rintro ⟨hne, consumer, hconsumer, rfl, provider, hprovider, rfl, hard, hhard, r, hr, key,
      version, hcontract, haccepts, hsee⟩
    rw [← hmap] at hconsumer hprovider
    obtain ⟨consumer, hc, rfl⟩ := List.mem_map.1 hconsumer
    obtain ⟨provider, hp, rfl⟩ := List.mem_map.1 hprovider
    obtain ⟨o, ho, rfl, rfl⟩ := (mem_declaredOptions (hparsed provider hp).declared).2 hcontract
    obtain ⟨hentry, hscope⟩ := declaredOptions_place (hparsed provider hp).declared ho
    rw [(hparsed consumer hc).required] at hhard
    cases hhard
    refine ⟨consumer, ⟨hc, r, hr, o, ⟨provider, hp, ho⟩,
      ⟨⟨⟨hentry, CapabilityRequirement.accepts_name haccepts⟩, ?_⟩, ?_⟩, haccepts⟩, rfl⟩
    · rw [hentry]
      exact hne
    · rw [hscope]
      exact hsee

/-- the search partitions the entries into the components of the declared graph -/
theorem declared_partition (index : ScopeIndex) (h : prepare candidates = .ok entries) :
    Partition (DeclaredEdge index candidates) (entries.map Prepared.entryId)
      (stronglyConnectedComponents (entries.map Prepared.entryId)
        (declaredConsumers index entries)) := by
  have hsame : (fun v w => w ∈ declaredConsumers index entries v) =
      DeclaredEdge index candidates := by
    funext p c
    exact propext (mem_declaredConsumers h)
  rw [← hsame]
  refine Tarjan.scc_partition fun v _ w hw => ?_
  obtain ⟨-, c, hc, rfl, -⟩ := (mem_declaredConsumers h).1 hw
  rw [← (prepare_ok h).1] at hc
  obtain ⟨p, hp, rfl⟩ := List.mem_map.1 hc
  exact List.mem_map_of_mem hp

/-- the cycles are the sorted components of several entries -/
theorem mem_detectCycles (index : ScopeIndex) (h : prepare candidates = .ok entries)
    {c : List String} : c ∈ detectCycles index entries ↔ sorted c = c ∧ 1 < c.length ∧
      IsComponent (DeclaredEdge index candidates) c := by
  have hpartition := declared_partition index h
  have hmem : c ∈ detectCycles index entries ↔
      ∃ d ∈ stronglyConnectedComponents (entries.map Prepared.entryId)
        (declaredConsumers index entries), 1 < d.length ∧ sorted d = c := by
    unfold detectCycles
    rw [mem_sortedBy, List.mem_map]
    simp only [List.mem_filter, decide_eq_true_eq, and_assoc]
  rw [hmem]
  constructor
  · rintro ⟨d, hd, hmany, rfl⟩
    refine ⟨sortedBy_sortedBy id d, ?_, (hpartition.components d hd).perm (sortedBy_perm id d)⟩
    rw [sorted, length_sortedBy]
    exact hmany
  · rintro ⟨hsorted, hmany, hcomponent⟩
    obtain ⟨u, hu, w, -, -, -, -, provider, hprovider, rfl, -⟩ := hcomponent.exists_edge hmany
    have hnode : provider.entryId ∈ entries.map Prepared.entryId := by
      rw [← (prepare_ok h).1] at hprovider
      obtain ⟨p, hp, rfl⟩ := List.mem_map.1 hprovider
      exact List.mem_map_of_mem hp
    obtain ⟨d, hd, hperm⟩ := hpartition.exists_perm hcomponent hu hnode
    exact ⟨d, hd, by rw [hperm.length_eq]; exact hmany,
      (sorted_eq_of_perm hperm).trans hsorted⟩

/-- **Cycle detection is exact.**  The cycles are the strongly connected components of several
entries in the declared graph, each sorted and reported once; and on every graph the component
search ends, with a partition of the nodes into their strongly connected components. -/
theorem cycles_exact (index : ScopeIndex) (h : prepare candidates = .ok entries) :
    ((∀ c, c ∈ detectCycles index entries ↔ sorted c = c ∧ 1 < c.length ∧
        IsComponent (DeclaredEdge index candidates) c) ∧
      (detectCycles index entries).Nodup) ∧
    ∀ nodes adjacency, (∀ v ∈ nodes, ∀ w ∈ adjacency v, w ∈ nodes) →
      Tarjan.Ends adjacency nodes ∧
      Partition (fun v w => w ∈ adjacency v) nodes (stronglyConnectedComponents nodes adjacency) := by
  refine ⟨⟨fun c => mem_detectCycles index h, ?_⟩, fun nodes adjacency hin =>
    ⟨Tarjan.search_ends hin, Tarjan.scc_partition hin⟩⟩
  unfold detectCycles
  refine sortedBy_nodup (List.pairwise_map.2 ?_)
  have hapart := (declared_partition index h).pairwise_not_perm
  refine (hapart.sublist List.filter_sublist).imp fun hnot heq => hnot ?_
  exact (sortedBy_perm id _).symm.trans ((List.Perm.of_eq heq).trans (sortedBy_perm id _))

end

section
open Plain

def taintedConsumer : List PluginCandidate :=
  [plainCandidate "a" [("alpha", "1.0.0")] [("beta", "")] [],
    plainCandidate "b" [("beta", "1.0.0")] [("alpha", "")] [],
    plainCandidate "c" [] [("alpha", "")] []]

theorem cycles_exact_tainted : ∃ index entries, prepare taintedConsumer = .ok entries ∧
    detectCycles index entries = [["a", "b"]] ∧
    IsComponent (DeclaredEdge index taintedConsumer) ["a", "b"] := by
  obtain ⟨index, -, hf⟩ := ok_of_map (ScopeIndex.make none)
    (fun index => (prepare taintedConsumer).toOption.map (detectCycles index))
    (some [["a", "b"]]) (by decide +kernel)
  obtain ⟨entries, hentries, hcycles⟩ := Option.map_eq_some_iff.1 hf
  have h := ok_of_toOption hentries
  refine ⟨index, entries, h, hcycles, ?_⟩
  exact (((cycles_exact index h).1.1 ["a", "b"]).1 (by rw [hcycles]; exact List.mem_cons_self)).2.2

end

end Chassis
