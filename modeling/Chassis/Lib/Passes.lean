import Chassis.Lib.Dict

/-!
# Going through a sorted list

A list is sorted by keys that some of its members share, and what each member does is done in that
order.  Where members of one key may change places, the order of the list before does not show.

* `foldl_move`             a member is brought to the front;
* `foldl_sorted_perm`      two sorted lists of the same members do the same;
* `foldl_sortedBy_perm`    so do two lists that are sorted first.
-/

namespace Py

section
variable {α β κ : Type*} [LinearOrder κ] {key : α → κ} {f : β → α → β}

/-- a member that changes places with those before it can as well come first -/
theorem foldl_move (Inv : β → Prop) {a : α} {p : List α} {s : β}
    (hkeep : ∀ b ∈ p, ∀ s, Inv s → Inv (f s b))
    (hcomm : ∀ b ∈ p, ∀ s, Inv s → f (f s b) a = f (f s a) b) (hs : Inv s) :
    f (p.foldl f s) a = p.foldl f (f s a) := by
  induction p generalizing s with
  | nil => rfl
  | cons b p ih =>
    have hb := List.mem_cons_self (a := b) (l := p)
    have hrest := ih (fun c hc => hkeep c (List.mem_cons_of_mem b hc))
      (fun c hc => hcomm c (List.mem_cons_of_mem b hc)) (hkeep b hb s hs)
    rw [List.foldl_cons, List.foldl_cons, hrest, hcomm b hb s hs]

variable (Done : α → β → Prop) (members : List α)
  (hdone : ∀ a ∈ members, ∀ s, Done a (f s a))
  (hkeep : ∀ a ∈ members, ∀ b ∈ members, ∀ s, Done a s → Done a (f s b))
  (hcomm : ∀ a ∈ members, ∀ b ∈ members, ∀ s, key a = key b →
    (∀ w ∈ members, key w < key a → Done w s) → f (f s a) b = f (f s b) a)
include hdone hkeep hcomm

/-- **Two sorted lists of the same members do the same**, where members of one key may change places
once those of smaller keys are done. -/
theorem foldl_sorted_perm {l l' : List α} {s : β} (hl : ∀ a ∈ l, a ∈ members)
    (hsorted : l.Pairwise fun a b => key a ≤ key b) (hsorted' : l'.Pairwise fun a b => key a ≤ key b)
    (hperm : l.Perm l') (hs : ∀ w ∈ members, w ∉ l → Done w s) :
    l.foldl f s = l'.foldl f s := by
  induction l generalizing l' s with
  | nil => rw [List.nil_perm.1 hperm]
  | cons a l ih =>
    obtain ⟨hmin, hrest⟩ := List.pairwise_cons.1 hsorted
    have ha := hl a List.mem_cons_self
    obtain ⟨p, q, rfl⟩ := List.append_of_mem (hperm.mem_iff.1 (List.mem_cons_self (a := a)))
    have hkey : ∀ b ∈ p, b ∈ members ∧ key b = key a := by
      intro b hb
      have hin : b ∈ a :: l := hperm.mem_iff.2 (List.mem_append_left _ hb)
      refine ⟨hl b hin, le_antisymm ?_ ?_⟩
      · exact (List.pairwise_append.1 hsorted').2.2 b hb a List.mem_cons_self
      · rcases List.mem_cons.1 hin with rfl | hin
        · exact le_refl _
        · exact hmin b hin
    have hbelow : ∀ w ∈ members, key w < key a → Done w s := by
      intro w hw hlt
      refine hs w hw fun hin => ?_
      rcases List.mem_cons.1 hin with rfl | hin
      · exact lt_irrefl _ hlt
      · exact absurd (hmin w hin) (not_le.2 hlt)
    have hmove : f (p.foldl f s) a = p.foldl f (f s a) := by
      refine foldl_move (fun s => ∀ w ∈ members, key w < key a → Done w s) ?_ ?_ hbelow
      · intro b hb s hs w hw hlt
        exact hkeep w hw b (hkey b hb).1 s (hs w hw hlt)
      · intro b hb s hs
        have hba := hcomm b (hkey b hb).1 a ha s (hkey b hb).2
        rw [(hkey b hb).2] at hba
        exact hba hs
    have hperm' : l.Perm (p ++ q) :=
      (List.perm_cons a).1 (hperm.trans List.perm_middle)
    have hsub : (p ++ q).Sublist (p ++ a :: q) :=
      List.Sublist.append (List.Sublist.refl p) (List.sublist_cons_self a q)
    rw [List.foldl_cons, List.foldl_append, List.foldl_cons, hmove, ← List.foldl_append]
    refine ih (fun b hb => hl b (List.mem_cons_of_mem a hb)) hrest (hsorted'.sublist hsub) hperm' ?_
    intro w hw hout
    by_cases hwa : w = a
    · subst hwa
      exact hdone w hw s
    · exact hkeep w hw a ha s (hs w hw fun hin => (List.mem_cons.1 hin).elim hwa hout)

/-- **The order of a list does not show** in what its members do after it is sorted. -/
theorem foldl_sortedBy_perm {l l' : List α} (hl : ∀ a, a ∈ l ↔ a ∈ members) (hperm : l.Perm l')
    (s : β) : (sortedBy key l).foldl f s = (sortedBy key l').foldl f s := by
  refine foldl_sorted_perm Done members hdone hkeep hcomm (fun a ha => (hl a).1 (mem_sortedBy.1 ha))
    (sortedBy_pairwise key l) (sortedBy_pairwise key l') ?_ ?_
  · exact (sortedBy_perm key l).trans (hperm.trans (sortedBy_perm key l').symm)
  · intro w hw hout
    exact absurd (mem_sortedBy.2 ((hl w).2 hw)) hout

end

end Py
