import Mathlib.Algebra.Order.Monoid.Unbundled.WithTop
import Mathlib.Data.List.Lex
import Mathlib.Data.List.DropRight
import Mathlib.Data.Char
import Mathlib.Data.Prod.Lex
import Mathlib.Order.WithBot

/-!
# PEP 440 versions and specifiers

Versions with all their parts, their order, and which of them a clause of a specifier set admits.

* `Version`          epoch, release, pre-, post- and development release, local label;
* `Version.key`      what versions are compared by;
* `Version.base`     the epoch and the release, zeros at its end left out;
* `admits`           one clause, operator by operator;
* `admits_lower`, `admits_upper`, `admits_exact`   what a clause says of the major.
-/

namespace Pep440

inductive PreKind
  | a
  | b
  | rc
  deriving DecidableEq, Repr

def PreKind.rank : PreKind → Nat
  | .a => 0
  | .b => 1
  | .rc => 2

/-- a segment of a local label: numbers come after words -/
inductive Segment
  | word (text : String)
  | number (n : Nat)
  deriving DecidableEq, Repr

def Segment.key : Segment → WithBot ℕ ×ₗ List Char
  | .word s => toLex (⊥, s.toList)
  | .number n => toLex ((n : WithBot ℕ), [])

structure Version where
  epoch : Nat := 0
  release : List Nat
  pre : Option (PreKind × Nat) := none
  post : Option Nat := none
  dev : Option Nat := none
  label : List Segment := []
  release_ne : release ≠ []
  deriving DecidableEq

namespace Version
variable (v : Version)

def major : Nat := v.release.getD 0 0
def minor : Nat := v.release.getD 1 0
def micro : Nat := v.release.getD 2 0

def isPrerelease : Prop := v.dev ≠ none ∨ v.pre ≠ none
def isPostrelease : Prop := v.post ≠ none

instance : Decidable v.isPrerelease := by unfold isPrerelease; infer_instance
instance : Decidable v.isPostrelease := by unfold isPostrelease; infer_instance

/-- a release without the zeros at its end -/
def trim (l : List Nat) : List Nat := l.rdropWhile (· = 0)

def base : ℕ ×ₗ List ℕ := toLex (v.epoch, trim v.release)

/-- a development release of no pre- or post-release comes before all pre-releases -/
def preKey : WithBot (WithTop (ℕ ×ₗ ℕ)) :=
  match v.pre, v.post, v.dev with
  | none, none, some _ => ⊥
  | none, _, _ => ((⊤ : WithTop (ℕ ×ₗ ℕ)) : WithBot (WithTop (ℕ ×ₗ ℕ)))
  | some p, _, _ => ((toLex (p.1.rank, p.2) : ℕ ×ₗ ℕ) : WithTop (ℕ ×ₗ ℕ))

def postKey : WithBot ℕ :=
  match v.post with
  | none => ⊥
  | some n => n

def devKey : WithTop ℕ :=
  match v.dev with
  | none => ⊤
  | some n => n

def labelKey : WithBot (List (WithBot ℕ ×ₗ List Char)) :=
  match v.label with
  | [] => ⊥
  | l => (l.map Segment.key : List (WithBot ℕ ×ₗ List Char))

/-- what versions are compared by -/
def key : (ℕ ×ₗ List ℕ) ×ₗ WithBot (WithTop (ℕ ×ₗ ℕ)) ×ₗ WithBot ℕ ×ₗ WithTop ℕ ×ₗ
    WithBot (List (WithBot ℕ ×ₗ List Char)) :=
  toLex (v.base, toLex (v.preKey, toLex (v.postKey, toLex (v.devKey, v.labelKey))))

/-- the version without its local label -/
def publicPart : Version := { v with label := [] }

/-- the release, continued with zeros, begins with some numbers -/
def beginsWith (l : List Nat) : Prop :=
  l <+: v.release ++ List.replicate (l.length - v.release.length) 0

instance (l : List Nat) : Decidable (v.beginsWith l) := by unfold beginsWith; infer_instance

end Version

/-- whether a clause admits `v`; `wild` is whether its version `w` ends in `.*` -/
def admits (operator : String) (wild : Bool) (w v : Version) : Bool :=
  let equal : Bool :=
    if wild then decide (w.epoch = v.epoch ∧ v.beginsWith w.release)
    else if w.label = [] then decide (w.key = v.publicPart.key)
    else decide (w.key = v.key)
  match operator with
  | "==" => equal
  | "!=" => !equal
  | "===" => decide (w.key = v.key)
  | "~=" => decide (2 ≤ w.release.length ∧ w.key ≤ v.publicPart.key ∧ w.epoch = v.epoch ∧
      v.beginsWith w.release.dropLast)
  | "<=" => decide (v.publicPart.key ≤ w.key)
  | ">=" => decide (w.key ≤ v.publicPart.key)
  | "<" => decide (v.key < w.key ∧ ¬ (¬ w.isPrerelease ∧ v.isPrerelease ∧ v.base = w.base))
  | ">" => decide (w.key < v.key ∧ ¬ (¬ w.isPostrelease ∧ v.isPostrelease ∧ v.base = w.base) ∧
      ¬ (v.label ≠ [] ∧ v.base = w.base))
  | _ => false

example : admits "<" false { release := [2, 0, 0], post := some 0, release_ne := by simp }
    { release := [2], release_ne := by simp } = true := by decide +kernel

/-! ## what the order says of the major -/

theorem trim_append (l : List Nat) (a : Nat) :
    Version.trim (l ++ [a]) = if a = 0 then Version.trim l else l ++ [a] := by
  unfold Version.trim
  rw [List.rdropWhile_concat]
  split_ifs <;> simp_all

theorem trim_head (l : List Nat) : (Version.trim l).getD 0 0 = l.getD 0 0 := by
  induction l using List.reverseRecOn with
  | nil => rfl
  | append_singleton l a ih =>
    rw [trim_append]
    split_ifs with ha
    · rw [ih, ha]
      cases l with
      | nil => rfl
      | cons b l => rfl
    · rfl

theorem head_le {l l' : List Nat} (h : l ≤ l') : l.getD 0 0 ≤ l'.getD 0 0 := by
  match l, l' with
  | [], _ => exact Nat.zero_le _
  | a :: l, [] => exact absurd h (not_le.2 (List.nil_lt_cons a l))
  | a :: l, b :: l' =>
    by_contra hlt
    exact absurd h (not_le.2 (List.cons_lt_cons_iff.2 (Or.inl (not_le.1 hlt))))

section
variable {v w : Version}

theorem base_le_of_key_le (h : v.key ≤ w.key) : v.base ≤ w.base := by
  rcases Prod.Lex.le_iff.1 h with hlt | ⟨heq, -⟩
  · exact le_of_lt hlt
  · exact le_of_eq heq

theorem base_eq_of_key_eq (h : v.key = w.key) : v.base = w.base :=
  le_antisymm (base_le_of_key_le h.le) (base_le_of_key_le h.ge)

theorem epoch_le (h : v.base ≤ w.base) : v.epoch ≤ w.epoch := by
  rcases Prod.Lex.le_iff.1 h with hlt | ⟨heq, -⟩
  · exact le_of_lt hlt
  · exact le_of_eq heq

/-- within an epoch a later version is of no earlier major -/
theorem major_le (h : v.base ≤ w.base) (hepoch : v.epoch = w.epoch) : v.major ≤ w.major := by
  have hrelease : Version.trim v.release ≤ Version.trim w.release := by
    rcases Prod.Lex.le_iff.1 h with hlt | ⟨-, hle⟩
    · exact absurd hepoch (ne_of_lt hlt)
    · exact hle
  have hhead := head_le hrelease
  rw [trim_head, trim_head] at hhead
  exact hhead

theorem major_eq (h : v.base = w.base) : v.epoch = w.epoch ∧ v.major = w.major := by
  have hepoch : v.epoch = w.epoch := le_antisymm (epoch_le h.le) (epoch_le h.ge)
  exact ⟨hepoch, le_antisymm (major_le h.le hepoch) (major_le h.ge hepoch.symm)⟩

theorem beginsWith_head {l : List Nat} (h : v.beginsWith l) (hl : l ≠ []) :
    l.getD 0 0 = v.major := by
  have hne := v.release_ne
  unfold Version.beginsWith at h
  unfold Version.major
  match hr : v.release, l with
  | a :: r, b :: l =>
    rw [hr, List.cons_append, List.cons_prefix_cons] at h
    exact h.1
  | [], _ => exact absurd hr hne
  | _, [] => exact absurd rfl hl

/-! ## what a clause says of it -/

variable {wild : Bool} {operator : String}

theorem admits_exact (hop : operator = "==" ∨ operator = "===" ∨ operator = "~=")
    (h : admits operator wild w v = true) : w.major = v.major := by
  rcases hop with rfl | rfl | rfl
  · simp only [admits] at h
    split_ifs at h
    · exact beginsWith_head (of_decide_eq_true h).2 w.release_ne
    · exact (major_eq (base_eq_of_key_eq (of_decide_eq_true h))).2
    · exact (major_eq (base_eq_of_key_eq (of_decide_eq_true h))).2
  · exact (major_eq (base_eq_of_key_eq (of_decide_eq_true h))).2
  · obtain ⟨hlen, -, -, hbegins⟩ := of_decide_eq_true h
    have hne : w.release.dropLast ≠ [] := fun hnil => by
      have := congrArg List.length hnil
      rw [List.length_dropLast, List.length_nil] at this
      omega
    rw [← beginsWith_head hbegins hne]
    match hr : w.release with
    | [] => exact absurd hr w.release_ne
    | [a] =>
      rw [hr] at hlen
      exact absurd hlen (by simp)
    | a :: b :: r =>
      rw [Version.major, hr]
      rfl

theorem admits_lower (hop : operator = ">=" ∨ operator = ">")
    (h : admits operator wild w v = true) : w.base ≤ v.base := by
  rcases hop with rfl | rfl
  · exact base_le_of_key_le (w := v.publicPart) (of_decide_eq_true h)
  · exact base_le_of_key_le (le_of_lt (of_decide_eq_true h).1)

theorem admits_upper (hop : operator = "<" ∨ operator = "<=")
    (h : admits operator wild w v = true) : v.base ≤ w.base := by
  rcases hop with rfl | rfl
  · exact base_le_of_key_le (le_of_lt (of_decide_eq_true h).1)
  · exact base_le_of_key_le (v := v.publicPart) (of_decide_eq_true h)

end

end Pep440
