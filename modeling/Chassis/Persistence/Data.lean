import Mathlib.Algebra.Group.Nat.Defs
import Mathlib.Data.Rat.Defs
import Mathlib.Data.List.Perm.Basic
import Mathlib.Data.List.Forall2

/-!
# Data, with the containers and the equality of Python

* `Datum`              scalars and texts, in lists, tuples, sets and mappings; a set or a mapping
                       has the order it is iterated in;
* `equalBy key`        `a == b`, with the scalars compared by a key: `Scalar.number` is Python's,
                       and `Scalar.told` tells apart what has another text;
* `Formed`             the elements of a set are hashable and all different, keys occur once;
* `exists_perm_forall₂`   what is matched one to one is matched along a permutation;
* `same_of_common`     on hashable data, two that equal a third are equal;
* `alike_of_equal`     **equal data are matched**, whatever their orders.
-/

set_option linter.unusedSectionVars false

namespace Chassis

/-! ## scalars -/

/-- A float.  What is finite is the rational it stands for, but for the negative zero; what is not
a number equals only the object it is. -/
inductive PyFloat
  | finite (q : Rat)
  | negZero
  | infinite (negative : Bool)
  | nan (id : Nat)
  deriving DecidableEq

namespace PyFloat

/-- what it is compared by -/
def value : PyFloat → PyFloat
  | negZero => finite 0
  | f => f

/-- `int(value)`, of an integral float below `2**53` -/
def whole? : PyFloat → Option Int
  | finite q => if q.den = 1 ∧ q.num.natAbs < 2 ^ 53 then some q.num else none
  | negZero => some 0
  | _ => none

end PyFloat

/-- a scalar that is no text -/
inductive Scalar
  | none
  | bool (b : Bool)
  | int (n : Int)
  | float (f : PyFloat)
  deriving DecidableEq

/-- what is told apart besides the number -/
inductive ScalarKind
  | none
  | boolean
  | number
  /-- an integer from `2**53` on -/
  | large
  /-- a float that is no integer below `2**53` -/
  | float
  deriving DecidableEq

namespace Scalar

def number : Scalar → Option PyFloat
  | none => Option.none
  | bool b => some (.finite (if b then 1 else 0))
  | int n => some (.finite n)
  | float f => some f.value

def kind : Scalar → ScalarKind
  | none => .none
  | bool _ => .boolean
  | int n => if n.natAbs < 2 ^ 53 then .number else .large
  | float f => if f.whole?.isSome then .number else .float

/-- the number, with Booleans told apart from numbers, and large integers from floats -/
def told (s : Scalar) : Option PyFloat × ScalarKind := (s.number, s.kind)

end Scalar

/-! ## data -/

/-- data with the containers of Python; `frozen` is a `frozenset`, or a `FrozenDict` -/
inductive Datum
  | scalar (s : Scalar)
  | str (s : String)
  | list (l : List Datum)
  | tuple (l : List Datum)
  | set (frozen : Bool) (l : List Datum)
  | mapping (frozen : Bool) (items : List (String × Datum))

namespace Datum

section
variable {P : Datum → Prop} (scalar : ∀ s, P (.scalar s)) (str : ∀ s, P (.str s))
  (list : ∀ l, (∀ d ∈ l, P d) → P (.list l)) (tuple : ∀ l, (∀ d ∈ l, P d) → P (.tuple l))
  (set : ∀ frozen l, (∀ d ∈ l, P d) → P (.set frozen l))
  (mapping : ∀ frozen items, (∀ p ∈ items, P p.2) → P (.mapping frozen items))
include scalar str list tuple set mapping

mutual

theorem inductOn : (d : Datum) → P d
  | .scalar s => scalar s
  | .str s => str s
  | .list l => list l (inductAll l)
  | .tuple l => tuple l (inductAll l)
  | .set frozen l => set frozen l (inductAll l)
  | .mapping frozen items => mapping frozen items (inductWithin items)

theorem inductAll : (l : List Datum) → ∀ d ∈ l, P d
  | [] => fun _ hd => nomatch hd
  | d :: l => List.forall_mem_cons.2 ⟨inductOn d, inductAll l⟩

theorem inductWithin : (l : List (String × Datum)) → ∀ p ∈ l, P p.2
  | [] => fun _ hp => nomatch hp
  | (_, d) :: l => List.forall_mem_cons.2 ⟨inductOn d, inductWithin l⟩

end
end

/-! ## equality -/

section
variable {κ : Type} [DecidableEq κ] (key : Scalar → κ)

mutual

/-- `a == b`, with the scalars compared by a key -/
def equalBy : Datum → Datum → Bool
  | .scalar s, .scalar t => key s = key t
  | .str s, .str t => s = t
  | .list a, .list b => equalAll a b
  | .tuple a, .tuple b => equalAll a b
  | .set _ a, .set _ b => a.length = b.length && equalMembers a b
  | .mapping _ a, .mapping _ b => a.length = b.length && equalWithin a b
  | _, _ => false

def equalAll : List Datum → List Datum → Bool
  | [], [] => true
  | x :: a, y :: b => equalBy x y && equalAll a b
  | _, _ => false

/-- every element of the first occurs in the second -/
def equalMembers : List Datum → List Datum → Bool
  | [], _ => true
  | x :: a, b => b.any (equalBy x) && equalMembers a b

def equalWithin : List (String × Datum) → List (String × Datum) → Bool
  | [], _ => true
  | (k, x) :: a, b => b.any (fun p => p.1 = k && equalBy x p.2) && equalWithin a b

end

variable {key}

theorem equalAll_iff {a b : List Datum} :
    equalAll key a b = true ↔ List.Forall₂ (fun x y => equalBy key x y = true) a b := by
  induction a generalizing b with
  | nil => cases b <;> simp [equalAll]
  | cons x a ih => cases b <;> simp [equalAll, ih]

theorem equalMembers_iff {a b : List Datum} :
    equalMembers key a b = true ↔ ∀ x ∈ a, ∃ y ∈ b, equalBy key x y = true := by
  induction a with
  | nil => simp [equalMembers]
  | cons x a ih => simp [equalMembers, ih]

theorem equalWithin_iff {a b : List (String × Datum)} :
    equalWithin key a b = true ↔
      ∀ p ∈ a, ∃ p' ∈ b, p'.1 = p.1 ∧ equalBy key p.2 p'.2 = true := by
  induction a with
  | nil => simp [equalWithin]
  | cons p a ih =>
    obtain ⟨k, x⟩ := p
    rw [equalWithin, Bool.and_eq_true, ih, List.any_eq_true, List.forall_mem_cons]
    simp only [Bool.and_eq_true, decide_eq_true_eq]

theorem equalBy_scalar {s : Scalar} {e : Datum} :
    equalBy key (.scalar s) e = true ↔ ∃ t, e = .scalar t ∧ key s = key t := by
  cases e <;> simp [equalBy]

theorem equalBy_str {s : String} {e : Datum} :
    equalBy key (.str s) e = true ↔ e = .str s := by
  cases e <;> simp [equalBy, eq_comm]

theorem equalBy_list {l : List Datum} {e : Datum} : equalBy key (.list l) e = true ↔
    ∃ l', e = .list l' ∧ List.Forall₂ (fun x y => equalBy key x y = true) l l' := by
  cases e <;> simp [equalBy, equalAll_iff]

theorem equalBy_tuple {l : List Datum} {e : Datum} : equalBy key (.tuple l) e = true ↔
    ∃ l', e = .tuple l' ∧ List.Forall₂ (fun x y => equalBy key x y = true) l l' := by
  cases e <;> simp [equalBy, equalAll_iff]

theorem equalBy_set {frozen : Bool} {l : List Datum} {e : Datum} :
    equalBy key (.set frozen l) e = true ↔ ∃ frozen' l', e = .set frozen' l' ∧
      l.length = l'.length ∧ ∀ x ∈ l, ∃ y ∈ l', equalBy key x y = true := by
  cases e <;> simp [equalBy, equalMembers_iff]

theorem equalBy_mapping {frozen : Bool} {l : List (String × Datum)} {e : Datum} :
    equalBy key (.mapping frozen l) e = true ↔ ∃ frozen' l', e = .mapping frozen' l' ∧
      l.length = l'.length ∧ ∀ p ∈ l, ∃ p' ∈ l', p'.1 = p.1 ∧ equalBy key p.2 p'.2 = true := by
  cases e with
  | mapping frozen' l' =>
    rw [equalBy, Bool.and_eq_true, decide_eq_true_eq, equalWithin_iff]
    exact ⟨fun h => ⟨frozen', l', rfl, h⟩, fun ⟨_, _, heq, h⟩ => by cases heq; exact h⟩
  | _ => exact iff_of_false (by simp [equalBy]) fun ⟨_, _, heq, _⟩ => nomatch heq

end

/-- `a == b` -/
abbrev same : Datum → Datum → Bool := equalBy Scalar.number

/-- `a == b`, with Booleans told apart from numbers, and large integers from floats -/
abbrev sameTold : Datum → Datum → Bool := equalBy Scalar.told

theorem forall₂_mono {α β : Type} {R S : α → β → Prop} {l : List α} {m : List β}
    (h : List.Forall₂ R l m) (hRS : ∀ a ∈ l, ∀ b ∈ m, R a b → S a b) : List.Forall₂ S l m := by
  induction h with
  | nil => exact .nil
  | cons hab _ ih =>
    refine .cons (hRS _ List.mem_cons_self _ List.mem_cons_self hab) (ih fun a ha b hb => ?_)
    exact hRS a (List.mem_cons_of_mem _ ha) b (List.mem_cons_of_mem _ hb)

theorem forall₂_and {α β : Type} {R S : α → β → Prop} {l : List α} {m : List β}
    (hR : List.Forall₂ R l m) (hS : List.Forall₂ S l m) :
    List.Forall₂ (fun a b => R a b ∧ S a b) l m := by
  induction hR with
  | nil => exact .nil
  | cons hab _ ih =>
    cases hS with
    | cons hab' hrest => exact .cons ⟨hab, hab'⟩ (ih hrest)

theorem equalBy_mono {κ κ' : Type} [DecidableEq κ] [DecidableEq κ'] {key : Scalar → κ}
    {key' : Scalar → κ'} (hkey : ∀ s t, key s = key t → key' s = key' t) (d : Datum) :
    ∀ e, equalBy key d e = true → equalBy key' d e = true := by
  induction d using inductOn with
  | scalar s =>
    intro e h
    obtain ⟨t, rfl, hst⟩ := equalBy_scalar.1 h
    exact equalBy_scalar.2 ⟨t, rfl, hkey s t hst⟩
  | str s =>
    intro e h
    exact equalBy_str.2 (equalBy_str.1 h)
  | list l ih =>
    intro e h
    obtain ⟨l', rfl, hl⟩ := equalBy_list.1 h
    exact equalBy_list.2 ⟨l', rfl, forall₂_mono hl fun a ha b _ => ih a ha b⟩
  | tuple l ih =>
    intro e h
    obtain ⟨l', rfl, hl⟩ := equalBy_tuple.1 h
    exact equalBy_tuple.2 ⟨l', rfl, forall₂_mono hl fun a ha b _ => ih a ha b⟩
  | set frozen l ih =>
    intro e h
    obtain ⟨frozen', l', rfl, hlen, hl⟩ := equalBy_set.1 h
    refine equalBy_set.2 ⟨frozen', l', rfl, hlen, fun x hx => ?_⟩
    obtain ⟨y, hy, hxy⟩ := hl x hx
    exact ⟨y, hy, ih x hx y hxy⟩
  | mapping frozen items ih =>
    intro e h
    obtain ⟨frozen', items', rfl, hlen, hitems⟩ := equalBy_mapping.1 h
    refine equalBy_mapping.2 ⟨frozen', items', rfl, hlen, fun p hp => ?_⟩
    obtain ⟨p', hp', hname, hpp⟩ := hitems p hp
    exact ⟨p', hp', hname, ih p hp p'.2 hpp⟩

theorem same_of_told {d e : Datum} (h : sameTold d e = true) : same d e = true :=
  equalBy_mono (fun _ _ hst => congrArg Prod.fst hst) d e h

/-! ## well-formed data -/

mutual

/-- what may be in a set: no list, mapping or set that is not frozen is anywhere in it -/
def Hashable : Datum → Prop
  | .scalar _ | .str _ => True
  | .tuple l => HashableAll l
  | .set true l => HashableAll l ∧ l.Pairwise fun a b => same a b = false
  | .set false _ | .list _ | .mapping _ _ => False

def HashableAll : List Datum → Prop
  | [] => True
  | d :: l => Hashable d ∧ HashableAll l

end

mutual

/-- one item for a key, and sets of different hashable elements -/
def Formed : Datum → Prop
  | .scalar _ | .str _ => True
  | .list l | .tuple l => FormedAll l
  | .set _ l => FormedAll l ∧ HashableAll l ∧ l.Pairwise fun a b => same a b = false
  | .mapping _ items => (items.map Prod.fst).Nodup ∧ FormedWithin items

def FormedAll : List Datum → Prop
  | [] => True
  | d :: l => Formed d ∧ FormedAll l

def FormedWithin : List (String × Datum) → Prop
  | [] => True
  | (_, d) :: l => Formed d ∧ FormedWithin l

end

theorem hashableAll_iff {l : List Datum} : HashableAll l ↔ ∀ d ∈ l, d.Hashable := by
  induction l with
  | nil => simp [HashableAll]
  | cons d l ih => simp [HashableAll, ih]

theorem hashable_set {frozen : Bool} {l : List Datum} (h : (set frozen l).Hashable) :
    (∀ d ∈ l, d.Hashable) ∧ l.Pairwise fun a b => same a b = false := by
  cases frozen with
  | false => exact h.elim
  | true => exact ⟨hashableAll_iff.1 h.1, h.2⟩

theorem formedAll_iff {l : List Datum} : FormedAll l ↔ ∀ d ∈ l, d.Formed := by
  induction l with
  | nil => simp [FormedAll]
  | cons d l ih => simp [FormedAll, ih]

theorem formedWithin_iff {l : List (String × Datum)} :
    FormedWithin l ↔ ∀ p ∈ l, p.2.Formed := by
  induction l with
  | nil => simp [FormedWithin]
  | cons p l ih => simp [FormedWithin, ih]

/-! ## matching -/

theorem exists_of_forall₂ {α β : Type} {R : α → β → Prop} {l : List α} {m : List β}
    (h : List.Forall₂ R l m) {b : β} (hb : b ∈ m) : ∃ a ∈ l, R a b := by
  induction h with
  | nil => cases hb
  | cons hab _ ih =>
    rcases List.mem_cons.1 hb with rfl | hb
    · exact ⟨_, List.mem_cons_self, hab⟩
    · obtain ⟨a, ha, hR⟩ := ih hb
      exact ⟨a, List.mem_cons_of_mem _ ha, hR⟩

/-- Some pairwise different elements that have a partner each, no two different ones the same, have
all there is, if that is as many. -/
theorem exists_perm_forall₂ {α β : Type} {R : α → β → Prop} {D : α → α → Prop} {l : List α}
    {m : List β} (hapart : ∀ a ∈ l, ∀ a' ∈ l, ∀ b ∈ m, R a b → R a' b → ¬ D a a')
    (hl : l.Pairwise D) (hR : ∀ a ∈ l, ∃ b ∈ m, R a b) (hlen : l.length = m.length) :
    ∃ m', m'.Perm m ∧ List.Forall₂ R l m' := by
  induction l generalizing m with
  | nil =>
    obtain rfl := List.length_eq_zero_iff.1 hlen.symm
    exact ⟨[], .refl _, .nil⟩
  | cons a l ih =>
    obtain ⟨hdiffer, hl⟩ := List.pairwise_cons.1 hl
    obtain ⟨b, hb, hab⟩ := hR a List.mem_cons_self
    obtain ⟨before, after, rfl⟩ := List.append_of_mem hb
    have hrest : ∀ b', b' ∈ before ++ after → b' ∈ before ++ b :: after := by
      intro b' hb'
      rcases List.mem_append.1 hb' with hb' | hb'
      · exact List.mem_append_left _ hb'
      · exact List.mem_append_right _ (List.mem_cons_of_mem _ hb')
    obtain ⟨m', hperm, hmatch⟩ := ih (m := before ++ after)
      (fun a₁ h₁ a₂ h₂ b' hb' => hapart a₁ (List.mem_cons_of_mem _ h₁) a₂
        (List.mem_cons_of_mem _ h₂) b' (hrest b' hb')) hl
      (fun a' ha' => by
        obtain ⟨b', hb', hab'⟩ := hR a' (List.mem_cons_of_mem _ ha')
        have hne : b' ≠ b := by
          rintro rfl
          exact hapart a List.mem_cons_self a' (List.mem_cons_of_mem _ ha') b' hb' hab hab'
            (hdiffer a' ha')
        rcases List.mem_append.1 hb' with hb' | hb'
        · exact ⟨b', List.mem_append_left _ hb', hab'⟩
        · exact ⟨b', List.mem_append_right _ ((List.mem_cons.1 hb').resolve_left hne), hab'⟩)
      (by
        rw [List.length_append, List.length_cons] at hlen
        rw [List.length_append]
        simp only [List.length_cons] at hlen
        omega)
    exact ⟨b :: m', (hperm.cons b).trans List.perm_middle.symm, .cons hab hmatch⟩

theorem forall₂_of_common {R : Datum → Datum → Prop} {c : List Datum}
    (hR : ∀ z ∈ c, ∀ x y, x.Hashable → y.Hashable → z.Hashable → R x z → R y z → R x y)
    {a b : List Datum} (ha : HashableAll a) (hb : HashableAll b) (hc : HashableAll c)
    (hac : List.Forall₂ R a c) (hbc : List.Forall₂ R b c) : List.Forall₂ R a b := by
  induction hac generalizing b with
  | nil =>
    cases hbc
    exact .nil
  | cons hfirst _ ih =>
    cases hbc with
    | cons hfirst' hrest' =>
      rw [List.forall_mem_cons] at hR
      exact .cons (hR.1 _ _ ha.1 hb.1 hc.1 hfirst hfirst') (ih hR.2 ha.2 hb.2 hc.2 hrest')

/-- **Two hashable data that equal a third are equal.** -/
theorem same_of_common (z : Datum) : ∀ x y, x.Hashable → y.Hashable → z.Hashable →
    same x z = true → same y z = true → same x y = true := by
  induction z using inductOn with
  | scalar s =>
    intro x y _ _ _ hx hy
    cases x with
    | scalar t =>
      cases y with
      | scalar u =>
        obtain ⟨_, heq, ht⟩ := equalBy_scalar.1 hx
        cases heq
        obtain ⟨_, heq, hu⟩ := equalBy_scalar.1 hy
        cases heq
        exact equalBy_scalar.2 ⟨u, rfl, ht.trans hu.symm⟩
      | _ => simp [equalBy] at hy
    | _ => simp [equalBy] at hx
  | str s =>
    intro x y _ _ _ hx hy
    cases x with
    | str t =>
      rw [equalBy_str.1 hx] at hy
      cases y with
      | str u => exact equalBy_str.2 (equalBy_str.1 hy).symm
      | _ => simp [equalBy] at hy
    | _ => simp [equalBy] at hx
  | list l ih => exact fun _ _ _ _ hz => hz.elim
  | mapping frozen items ih => exact fun _ _ _ _ hz => hz.elim
  | tuple l ih =>
    intro x y hx hy hz hxz hyz
    cases x with
    | tuple a =>
      cases y with
      | tuple b =>
        obtain ⟨_, heq, hac⟩ := equalBy_tuple.1 hxz
        cases heq
        obtain ⟨_, heq, hbc⟩ := equalBy_tuple.1 hyz
        cases heq
        exact equalBy_tuple.2 ⟨b, rfl, forall₂_of_common ih hx hy hz hac hbc⟩
      | _ => simp [equalBy] at hyz
    | _ => simp [equalBy] at hxz
  | set frozen l ih =>
    intro x y hx hy hz hxz hyz
    cases x with
    | set f a =>
      cases y with
      | set g b =>
        obtain ⟨_, _, heq, halen, hac⟩ := equalBy_set.1 hxz
        cases heq
        obtain ⟨_, _, heq, hblen, hbc⟩ := equalBy_set.1 hyz
        cases heq
        have ha := hashable_set hx
        have hb := hashable_set hy
        have hc := hashable_set hz
        refine equalBy_set.2 ⟨g, b, rfl, halen.trans hblen.symm, fun x hx => ?_⟩
        obtain ⟨m, hperm, hmatch⟩ := exists_perm_forall₂
          (D := fun x y => same x y = false)
          (fun y hy y' hy' z hz h h' => by
            rw [ih z hz y y' (hb.1 y hy) (hb.1 y' hy') (hc.1 z hz) h h']
            exact Bool.noConfusion)
          hb.2 hbc hblen
        obtain ⟨z, hz, hxz⟩ := hac x hx
        obtain ⟨y, hy, hyz⟩ := exists_of_forall₂ hmatch (hperm.mem_iff.2 hz)
        exact ⟨y, hy, ih z hz x y (ha.1 x hx) (hb.1 y hy) (hc.1 z hz) hxz hyz⟩
      | _ => simp [equalBy] at hyz
    | _ => simp [equalBy] at hxz

/-- The same data but for the order of sets and mappings, and whether these are frozen; scalars
have the same key. -/
inductive Alike {κ : Type} (key : Scalar → κ) : Datum → Datum → Prop
  | scalar {s t : Scalar} : key s = key t → Alike key (.scalar s) (.scalar t)
  | str (s : String) : Alike key (.str s) (.str s)
  | list {l l' : List Datum} : List.Forall₂ (Alike key) l l' → Alike key (.list l) (.list l')
  | tuple {l l' : List Datum} : List.Forall₂ (Alike key) l l' → Alike key (.tuple l) (.tuple l')
  | set {l m l' : List Datum} (frozen frozen' : Bool) : List.Forall₂ (Alike key) l m →
    m.Perm l' → Alike key (.set frozen l) (.set frozen' l')
  | mapping {l m l' : List (String × Datum)} (frozen frozen' : Bool) :
    l.map Prod.fst = m.map Prod.fst →
    List.Forall₂ (Alike key) (l.map Prod.snd) (m.map Prod.snd) → m.Perm l' →
    Alike key (.mapping frozen l) (.mapping frozen' l')

/-- **Equal data are alike.** -/
theorem alike_of_equal (d : Datum) : ∀ e, d.Formed → e.Formed → sameTold d e = true →
    Alike Scalar.told d e := by
  induction d using inductOn with
  | scalar s =>
    intro e _ _ h
    obtain ⟨t, rfl, hst⟩ := equalBy_scalar.1 h
    exact .scalar hst
  | str s =>
    intro e _ _ h
    obtain rfl := equalBy_str.1 h
    exact .str s
  | list l ih =>
    intro e hd he h
    obtain ⟨l', rfl, hl⟩ := equalBy_list.1 h
    refine .list (forall₂_mono hl fun a ha b hb => ?_)
    exact ih a ha b (formedAll_iff.1 hd a ha) (formedAll_iff.1 he b hb)
  | tuple l ih =>
    intro e hd he h
    obtain ⟨l', rfl, hl⟩ := equalBy_tuple.1 h
    refine .tuple (forall₂_mono hl fun a ha b hb => ?_)
    exact ih a ha b (formedAll_iff.1 hd a ha) (formedAll_iff.1 he b hb)
  | set frozen l ih =>
    intro e hd he h
    obtain ⟨frozen', l', rfl, hlen, hl⟩ := equalBy_set.1 h
    obtain ⟨hformed, hhash, hdiffer⟩ := hd
    obtain ⟨hformed', hhash', -⟩ := he
    rw [formedAll_iff] at hformed hformed'
    rw [hashableAll_iff] at hhash hhash'
    obtain ⟨m, hperm, hmatch⟩ := exists_perm_forall₂
      (D := fun x y => same x y = false)
      (fun x hx x' hx' y hy hxy hxy' => by
        rw [same_of_common y x x' (hhash x hx) (hhash x' hx') (hhash' y hy)
          (same_of_told hxy) (same_of_told hxy')]
        exact Bool.noConfusion)
      hdiffer hl hlen
    refine .set frozen frozen' (forall₂_mono hmatch fun x hx y hy => ?_) hperm
    exact ih x hx y (hformed x hx) (hformed' y (hperm.mem_iff.1 hy))
  | mapping frozen items ih =>
    intro e hd he h
    obtain ⟨frozen', items', rfl, hlen, hitems⟩ := equalBy_mapping.1 h
    have hformed := formedWithin_iff.1 hd.2
    have hformed' := formedWithin_iff.1 he.2
    obtain ⟨m, hperm, hmatch⟩ := exists_perm_forall₂ (D := fun p p' : String × Datum => p.1 ≠ p'.1)
      (fun p _ p' _ q _ hpq hpq' hne => hne (hpq.1.symm.trans hpq'.1))
      (List.pairwise_map.1 hd.1) hitems hlen
    have halike : List.Forall₂ (fun p q => p.1 = q.1 ∧ Alike Scalar.told p.2 q.2) items m := by
      refine forall₂_mono hmatch fun p hp q hq hpq => ⟨hpq.1.symm, ?_⟩
      exact ih p hp q.2 (hformed p hp) (hformed' q (hperm.mem_iff.1 hq)) hpq.2
    refine .mapping frozen frozen' ?_ ?_ hperm
    · exact List.forall₂_eq_eq_eq ▸ List.forall₂_map_left_iff.2 (List.forall₂_map_right_iff.2
        (halike.imp fun _ _ hpq => hpq.1))
    · exact List.forall₂_map_left_iff.2 (List.forall₂_map_right_iff.2
        (halike.imp fun _ _ hpq => hpq.2))

end Datum
end Chassis
