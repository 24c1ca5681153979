import Chassis.Lib.Text
import Mathlib.Data.List.Infix

/-!
# Replacing a word in a text

* `Clear`              no occurrence of a word can overlap one of another, whatever stands around;
* `Overlapping`        what ends with one word begins with the other;
* `replaced`           every occurrence of a word, from the left, gives way to another;
* `not_infix_replaced`   where the new word is clear of the old one, the old one is gone;
* `infix_of_replaced`    and no word that it is clear of comes about;
* `replaced_comm`      two words that nowhere overlap are replaced in either order.
-/

namespace Py

section words
variable {α : Type*} {w m u v a b : List α}

/-- an occurrence of `w` and one of `m` have nothing in common, wherever they are -/
structure Clear (w m : List α) : Prop where
  outside : ¬ m <:+: w
  inside : ¬ w <:+: m
  /-- no nonempty prefix of `w` is a suffix of `m` -/
  starts : ∀ p, p ≠ [] → p <+: w → ¬ p <:+ m
  /-- no nonempty suffix of `w` is a prefix of `m` -/
  ends : ∀ s, s ≠ [] → s <:+ w → ¬ s <+: m

instance decidableClear [DecidableEq α] (w m : List α) : Decidable (Clear w m) :=
  decidable_of_iff (¬ m <:+: w ∧ ¬ w <:+: m ∧ (∀ p ∈ w.inits, p ≠ [] → ¬ p <:+ m) ∧
      ∀ s ∈ w.tails, s ≠ [] → ¬ s <+: m) (by
    constructor
    · rintro ⟨houtside, hinside, hstarts, hends⟩
      exact ⟨houtside, hinside, fun p hne hp => hstarts p ((List.mem_inits _ _).2 hp) hne,
        fun s hne hs => hends s ((List.mem_tails _ _).2 hs) hne⟩
    · intro h
      exact ⟨h.outside, h.inside, fun p hp hne => h.starts p hne ((List.mem_inits _ _).1 hp),
        fun s hs hne => h.ends s hne ((List.mem_tails _ _).1 hs)⟩)

namespace Clear

theorem infix_sides (h : Clear w m) (hw : w <:+: a ++ (m ++ b)) : w <:+: a ∨ w <:+: b := by
  rcases List.infix_append_iff_ne_nil.1 hw with hw | hw | ⟨p, s, hp, hs, rfl, -, hright⟩
  · exact Or.inl hw
  · rcases List.infix_append_iff_ne_nil.1 hw with hw | hw | ⟨p, s, hp, -, rfl, hleft, -⟩
    · exact absurd hw h.inside
    · exact Or.inr hw
    · exact absurd hleft (h.starts p hp (List.prefix_append p s))
  · rcases List.prefix_or_prefix_of_prefix hright (List.prefix_append m b) with hin | hin
    · exact absurd hin (h.ends s hs (List.suffix_append p s))
    · exact absurd (hin.isInfix.trans (List.suffix_append p s).isInfix) h.outside

theorem prefix_side (h : Clear w m) (hw : w <+: a ++ (m ++ b)) : w <+: a := by
  rcases List.prefix_or_prefix_of_prefix hw (List.prefix_append a (m ++ b)) with hin | ⟨s, rfl⟩
  · exact hin
  · rw [List.prefix_append_right_inj] at hw
    rcases List.eq_nil_or_concat s with rfl | ⟨t, c, hs⟩
    · exact ⟨[], by simp⟩
    · have hne : s ≠ [] := by
        rw [hs]
        simp
      rcases List.prefix_or_prefix_of_prefix hw (List.prefix_append m b) with hin | hin
      · exact absurd hin (h.ends s hne (List.suffix_append a s))
      · exact absurd (hin.isInfix.trans (List.suffix_append a s).isInfix) h.outside

theorem not_prefix_of_suffix (h : Clear w m) (ha : a <:+ m) (hne : a ≠ []) :
    ¬ w <+: a ++ b := by
  intro hw
  rcases List.prefix_or_prefix_of_prefix hw (List.prefix_append a b) with hin | hin
  · exact h.inside (hin.isInfix.trans ha.isInfix)
  · exact h.starts a hne hin ha

end Clear

/-- `w` is what an occurrence of `u` and one of `v` have in common with each other cover together,
where the one of `u` begins and ends first -/
def Overlapping (u v w : List α) : Prop :=
  ∃ x y z, y ≠ [] ∧ u = x ++ y ∧ v = y ++ z ∧ w = x ++ (y ++ z)

/-- nowhere in a text does an occurrence of `u` end within one of `v` -/
def Apart (u v t : List α) : Prop := ∀ w, Overlapping u v w → ¬ w <:+: t

theorem Apart.of_infix {t t' : List α} (h : Apart u v t) (ht : t' <:+: t) : Apart u v t' :=
  fun w hw hin => h w hw (hin.trans ht)

theorem not_overlapping (h : ∀ y ∈ v.inits, y ≠ [] → ¬ y <:+ u) (w : List α) :
    ¬ Overlapping u v w := by
  rintro ⟨x, y, z, hy, rfl, rfl, -⟩
  exact h y ((List.mem_inits _ _).2 (List.prefix_append y z)) hy (List.suffix_append x y)

end words

/-! ## replacing -/

/-- `str.replace`, on characters -/
def replaced (old new l : List Char) : List Char := replaceChars old new l.length l

variable {old new l : List Char}

theorem toList_replace (s old new : String) :
    (replace s old new).toList = replaced old.toList new.toList s.toList :=
  String.toList_ofList

/-- looking further than the end changes nothing -/
theorem replaceChars_enough (hold : old ≠ []) {n : Nat} (hn : l.length ≤ n) :
    replaceChars old new n l = replaced old new l := by
  suffices h : ∀ k n (l : List Char), l.length ≤ k → l.length ≤ n →
      replaceChars old new n l = replaceChars old new k l from h _ _ _ (le_refl _) hn
  intro k
  induction k with
  | zero =>
    intro n l hk _
    rw [List.length_eq_zero_iff.1 (Nat.le_zero.1 hk)]
    cases n <;> rfl
  | succ k ih =>
    intro n l hk hn
    rcases l with _ | ⟨c, l⟩
    · cases n <;> rfl
    · rcases n with _ | n
      · exact absurd hn (Nat.not_succ_le_zero _)
      · rw [List.length_cons] at hk hn
        have hpos := List.length_pos_iff.2 hold
        rw [replaceChars, replaceChars]
        rw [ih n l (by omega) (by omega), ih n ((c :: l).drop old.length)
          (by rw [List.length_drop, List.length_cons]; omega)
          (by rw [List.length_drop, List.length_cons]; omega)]

theorem replaced_nil : replaced old new [] = [] := rfl

theorem replaced_append (hold : old ≠ []) (l : List Char) :
    replaced old new (old ++ l) = new ++ replaced old new l := by
  obtain ⟨c, rest, rfl⟩ := List.exists_cons_of_ne_nil hold
  have hpre : (c :: rest).isPrefixOf (c :: (rest ++ l)) = true :=
    List.isPrefixOf_iff_prefix.2 (List.prefix_append (c :: rest) l)
  have hdrop : (c :: (rest ++ l)).drop (c :: rest).length = l := by simp
  show replaceChars (c :: rest) new (c :: (rest ++ l)).length (c :: (rest ++ l)) = _
  rw [List.length_cons, replaceChars, if_pos hpre, hdrop,
    replaceChars_enough hold (by rw [List.length_append]; omega)]

theorem replaced_cons (hold : old ≠ []) {c : Char} (h : ¬ old <+: c :: l) :
    replaced old new (c :: l) = c :: replaced old new l := by
  show replaceChars old new (l.length + 1) (c :: l) = _
  rw [replaceChars, if_neg fun hpre => h (List.isPrefixOf_iff_prefix.1 hpre),
    replaceChars_enough hold (le_refl _)]

/-- replacing goes from left to right: what is looked at is an occurrence or a single character -/
theorem replaced_induction {P : List Char → Prop} (hold : old ≠ []) (nil : P [])
    (occurs : ∀ l, P l → P (old ++ l)) (single : ∀ c l, ¬ old <+: c :: l → P l → P (c :: l)) :
    ∀ l, P l := by
  suffices h : ∀ n (l : List Char), l.length ≤ n → P l from fun l => h _ l (le_refl _)
  intro n
  induction n with
  | zero =>
    intro l hl
    rw [List.length_eq_zero_iff.1 (Nat.le_zero.1 hl)]
    exact nil
  | succ n ih =>
    intro l hl
    rcases l with _ | ⟨c, l⟩
    · exact nil
    · by_cases hpre : old <+: c :: l
      · obtain ⟨rest, hrest⟩ := hpre
        have hpos := List.length_pos_iff.2 hold
        have hlen := congrArg List.length hrest
        rw [List.length_append] at hlen
        rw [← hrest]
        exact occurs rest (ih rest (by omega))
      · rw [List.length_cons] at hl
        exact single c l hpre (ih l (by omega))

theorem replaced_eq_self (hold : old ≠ []) (h : ¬ old <:+: l) : replaced old new l = l := by
  induction l with
  | nil => rfl
  | cons c l ih =>
    rw [replaced_cons hold fun hpre => h hpre.isInfix,
      ih fun hin => h (hin.trans (List.suffix_cons c l).isInfix)]

theorem replaced_self (hold : old ≠ []) (l : List Char) : replaced old old l = l := by
  induction l using replaced_induction hold with
  | nil => rfl
  | occurs l ih => rw [replaced_append hold, ih]
  | single c l hpre ih => rw [replaced_cons hold hpre, ih]

/-- the first occurrence gives way, and what follows is looked at from there on -/
theorem replaced_first (new : List Char) (hold : old ≠ []) (h : old <:+: l) :
    ∃ before behind, l = before ++ (old ++ behind) ∧
      replaced old new l = before ++ (new ++ replaced old new behind) := by
  induction l using replaced_induction hold with
  | nil => exact absurd (List.infix_nil.1 h) hold
  | occurs l ih => exact ⟨[], l, rfl, replaced_append hold l⟩
  | single c l hpre ih =>
    rcases List.infix_cons_iff.1 h with hin | hin
    · exact absurd hin hpre
    · obtain ⟨before, behind, hl, hrest⟩ := ih hin
      refine ⟨c :: before, behind, by rw [List.cons_append, ← hl], ?_⟩
      rw [replaced_cons hold hpre, hrest, List.cons_append]

/-- **No word comes about** by a replacement that the new word is clear of. -/
theorem infix_of_replaced {w : List Char} (hold : old ≠ []) (h : Clear w new)
    (hw : w <:+: replaced old new l) : w <:+: l := by
  suffices hgap : ∀ l a, w <:+: a ++ replaced old new l → w <:+: a ++ l from hgap l [] hw
  intro l
  induction l using replaced_induction hold with
  | nil => exact fun a ha => ha
  | occurs l ih =>
    intro a ha
    rw [replaced_append hold] at ha
    rcases h.infix_sides ha with hin | hin
    · exact List.infix_append_of_infix_left hin
    · exact List.infix_append_of_infix_right (List.infix_append_of_infix_right (ih [] hin))
  | single c l hpre ih =>
    intro a ha
    rw [replaced_cons hold hpre, ← List.singleton_append, ← List.append_assoc] at ha
    rw [← List.singleton_append, ← List.append_assoc]
    exact ih _ ha

/-- **What is replaced is gone**, where the new word is clear of it. -/
theorem not_infix_replaced (hold : old ≠ []) (h : Clear old new) :
    ¬ old <:+: replaced old new l := by
  -- what was passed over so far holds the beginning of no occurrence
  suffices hgap : ∀ l a, (∀ p s, p ++ s = a → s ≠ [] → ¬ old <+: s ++ l) →
      ¬ old <:+: a ++ replaced old new l from hgap l [] fun p s hps hs => by
    rw [List.append_eq_nil_iff] at hps
    exact absurd hps.2 hs
  have hpassed : ∀ {a l : List Char}, (∀ p s, p ++ s = a → s ≠ [] → ¬ old <+: s ++ l) →
      ¬ old <:+: a := by
    rintro a l hno ⟨p, q, rfl⟩
    refine hno p (old ++ q) (by simp) (by simp [hold]) ?_
    rw [List.append_assoc]
    exact List.prefix_append _ _
  intro l
  induction l using replaced_induction hold with
  | nil =>
    intro a hno hin
    rw [replaced_nil, List.append_nil] at hin
    exact hpassed hno hin
  | occurs l ih =>
    intro a hno hin
    rw [replaced_append hold] at hin
    rcases h.infix_sides hin with hin | hin
    · exact hpassed hno hin
    · refine ih [] (fun p s hps hs => ?_) hin
      rw [List.append_eq_nil_iff] at hps
      exact absurd hps.2 hs
  | single c l hpre ih =>
    intro a hno hin
    rw [replaced_cons hold hpre, ← List.singleton_append, ← List.append_assoc] at hin
    refine ih (a ++ [c]) (fun p s hps hs hold' => ?_) hin
    rcases List.eq_nil_or_concat s with hnil | ⟨t, d, hsd⟩
    · exact hs hnil
    · rw [List.concat_eq_append] at hsd
      rw [hsd, ← List.append_assoc] at hps
      obtain ⟨hpt, hd⟩ := List.append_inj' hps rfl
      cases hd
      rw [hsd, List.append_assoc, List.singleton_append] at hold'
      rcases eq_or_ne t [] with rfl | ht
      · exact hpre hold'
      · exact hno p t hpt ht hold'

/-! ## two replacements -/

theorem prefix_of_replaced {w : List Char} (hold : old ≠ []) (h : Clear w new)
    (hw : w <+: replaced old new l) : w <+: l := by
  suffices hgap : ∀ l a, w <+: a ++ replaced old new l → w <+: a ++ l from hgap l [] hw
  intro l
  induction l using replaced_induction hold with
  | nil => exact fun a ha => ha
  | occurs l ih =>
    intro a ha
    rw [replaced_append hold] at ha
    exact (h.prefix_side ha).trans (List.prefix_append _ _)
  | single c l hpre ih =>
    intro a ha
    rw [replaced_cons hold hpre, ← List.singleton_append, ← List.append_assoc] at ha
    rw [← List.singleton_append, ← List.append_assoc]
    exact ih _ ha

/-- the new word is passed over by the next replacement -/
theorem replaced_append_clear (hold : old ≠ []) {m : List Char} (h : Clear old m)
    (l : List Char) : replaced old new (m ++ l) = m ++ replaced old new l := by
  suffices hsuf : ∀ a, a <:+ m → replaced old new (a ++ l) = a ++ replaced old new l from
    hsuf m (List.suffix_refl m)
  intro a
  induction a with
  | nil => exact fun _ => rfl
  | cons c a ih =>
    intro ha
    rw [List.cons_append, replaced_cons hold, ih ((List.suffix_cons c a).trans ha),
      List.cons_append]
    exact h.not_prefix_of_suffix (a := c :: a) ha (List.cons_ne_nil _ _)

/-- an occurrence of `v` is passed over by the replacement of `u`, if no occurrence of `u` overlaps
it or is it -/
theorem replaced_append_apart {u v l : List Char} (hu : u ≠ []) (hlen : u.length = v.length)
    (hne : u ≠ v) (h : Apart v u (v ++ l)) :
    replaced u new (v ++ l) = v ++ replaced u new l := by
  suffices hsuf : ∀ b a, b ++ a = v → replaced u new (a ++ l) = a ++ replaced u new l from
    hsuf [] v rfl
  intro b a
  induction a generalizing b with
  | nil => exact fun _ => rfl
  | cons c a ih =>
    intro hba
    rw [List.cons_append, replaced_cons hu, ih (b ++ [c]) (by rw [← hba]; simp), List.cons_append]
    intro hpre
    rcases List.prefix_or_prefix_of_prefix hpre (List.prefix_append (c :: a) l) with hin | ⟨z, hz⟩
    · have hle := hin.length_le
      have hlenv := congrArg List.length hba
      rw [List.length_append] at hlenv
      have hb : b = [] := List.length_eq_zero_iff.1 (by omega)
      subst hb
      refine hne (hin.eq_of_length ?_ |>.trans hba)
      rw [hlen, ← hba, List.nil_append]
    · refine h (b ++ ((c :: a) ++ z)) ⟨b, c :: a, z, List.cons_ne_nil _ _, hba.symm, hz.symm, rfl⟩ ?_
      rw [← List.append_assoc, hba]
      rw [← List.cons_append, ← hz, List.prefix_append_right_inj] at hpre
      exact ((List.prefix_append_right_inj v).2 hpre).isInfix

/-- both words give way at once -/
theorem replaced_replaced_cases (new : List Char) {u v : List Char} (hu : u ≠ []) (hv : v ≠ [])
    (hlen : u.length = v.length) (hne : u ≠ v) (hcv : Clear v new) :
    (∀ l, replaced v new (replaced u new (u ++ l)) = new ++ replaced v new (replaced u new l)) ∧
    (∀ l, Apart v u (v ++ l) →
      replaced v new (replaced u new (v ++ l)) = new ++ replaced v new (replaced u new l)) ∧
    (∀ c l, ¬ u <+: c :: l → ¬ v <+: c :: l →
      replaced v new (replaced u new (c :: l)) = c :: replaced v new (replaced u new l)) := by
  refine ⟨fun l => ?_, fun l h => ?_, fun c l hpu hpv => ?_⟩
  · rw [replaced_append hu, replaced_append_clear hv hcv]
  · rw [replaced_append_apart hu hlen hne h, replaced_append hv]
  · have hpv' : ¬ v <+: c :: replaced u new l := by
      intro hin
      rw [← replaced_cons hu hpu] at hin
      exact hpv (prefix_of_replaced hu hcv hin)
    rw [replaced_cons hu hpu, replaced_cons hv hpv']

/-- **Words that nowhere overlap** are replaced in either order. -/
theorem replaced_comm {u v l : List Char} (hu : u ≠ []) (hv : v ≠ [])
    (hlen : u.length = v.length) (hcu : Clear u new) (hcv : Clear v new) (h : Apart u v l)
    (h' : Apart v u l) : replaced v new (replaced u new l) = replaced u new (replaced v new l) := by
  rcases eq_or_ne u v with rfl | hne
  · rfl
  obtain ⟨huu, huv, hus⟩ := replaced_replaced_cases new hu hv hlen hne hcv
  obtain ⟨hvv, hvu, hvs⟩ := replaced_replaced_cases new hv hu hlen.symm hne.symm hcu
  suffices hall : ∀ n (l : List Char), l.length ≤ n → Apart u v l → Apart v u l →
      replaced v new (replaced u new l) = replaced u new (replaced v new l) from
    hall _ l (le_refl _) h h'
  intro n
  induction n with
  | zero =>
    intro l hl _ _
    rw [List.length_eq_zero_iff.1 (Nat.le_zero.1 hl)]
    rfl
  | succ n ih =>
    intro l hl h h'
    have hpu := List.length_pos_iff.2 hu
    have hpv := List.length_pos_iff.2 hv
    by_cases hinu : u <+: l
    · obtain ⟨l, rfl⟩ := hinu
      rw [List.length_append] at hl
      rw [huu, hvu l h, ih l (by omega) (h.of_infix List.infix_append_right)
        (h'.of_infix List.infix_append_right)]
    by_cases hinv : v <+: l
    · obtain ⟨l, rfl⟩ := hinv
      rw [List.length_append] at hl
      rw [huv l h', hvv, ih l (by omega) (h.of_infix List.infix_append_right)
        (h'.of_infix List.infix_append_right)]
    rcases l with _ | ⟨c, l⟩
    · rfl
    · rw [List.length_cons] at hl
      have hsuf : l <:+: c :: l := (List.suffix_cons c l).isInfix
      rw [hus c l hinu hinv, hvs c l hinv hinu, ih l (by omega) (h.of_infix hsuf)
        (h'.of_infix hsuf)]

end Py
