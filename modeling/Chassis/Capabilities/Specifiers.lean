import Chassis.Lib.Pep440
import Chassis.Lib.Fallible
import Chassis.Capabilities.Plain

/-!
# Which versions a pinned generation leaves out

The generation of a requirement is read off the bounds of its specifier by hand.  Against PEP 440
this goes wrong in two ways: an upper bound with minor and micro zero is taken for a plain `M.0.0`,
though it may be a development, pre- or post-release of it or have further numbers; and bounds of
two epochs are compared by their majors.

* `Implements`                what the `packaging` library is documented to do;
* `Strays`                    a version of another generation than the one that is pinned;
* `generation_accepts_iff`    a version of the set is accepted, exactly unless it strays.
-/

set_option linter.unusedSectionVars false

namespace Chassis
open Py

theorem toString_injective {m n : Nat} (h : toString m = toString n) : m = n := by
  have hdigits := congrArg (fun s : String => Nat.ofDigitChars 10 s.toList 0) h
  simpa only [Nat.toString_eq_repr, Nat.toList_repr, Nat.ofDigitChars_ten_toDigits] using hdigits

section
variable [Packaging]

/-- the version text of a clause, without the wildcard at its end -/
def bareVersion (text : String) : String := if endsWith text ".*" then dropEnd 2 text else text

/-- The `packaging` library, as it is documented: `read` are the parts of a version, and a version
is contained only in a set whose clauses all admit it. -/
structure Implements (read : Version → Pep440.Version) : Prop where
  major : ∀ v, Packaging.major v = (read v).major
  minor : ∀ v, Packaging.minor v = (read v).minor
  micro : ∀ v, Packaging.micro v = (read v).micro
  contains : ∀ s v, Packaging.contains s v = true → ∀ spec ∈ Packaging.specifiers s, ∀ w,
    Packaging.parseVersion (bareVersion spec.2) = some w →
    Pep440.admits spec.1 (endsWith spec.2 ".*") (read w) (read v) = true

/-- the contract of an implementation version -/
def CapabilityKey.ofVersion (name : String) (v : Version) : Except Err CapabilityKey :=
  CapabilityKey.make name (toString (Packaging.major v))

/-! ## the bounds of a set -/

def SpecifierSet.bounds (s : SpecifierSet) : Bounds :=
  (Packaging.specifiers s).foldl Bounds.add {}

/-- the greatest lower bound -/
def Bounds.floor (b : Bounds) : Option Version :=
  match b.lower with
  | [] => none
  | v :: l => some (maxVersion v l)

/-- the least upper bound, with its operator: the first of those that are equal -/
def Bounds.ceiling (b : Bounds) : Option (String × Version) :=
  match b.upper with
  | [] => none
  | u :: us => some (us.foldl (fun m x => if Packaging.versionLt x.2 m.2 then x else m) u)

/-- the last major below an upper bound, as the source has it -/
def ceilingMajor (operator : String) (ceiling : Version) : Int :=
  if operator = "<" ∧ Packaging.minor ceiling = 0 ∧ Packaging.micro ceiling = 0 then
    (Packaging.major ceiling : Int) - 1
  else Packaging.major ceiling

/-- what was collected are versions of clauses -/
structure Collected (specs : List (String × String)) (b : Bounds) : Prop where
  pinned : ∀ w ∈ b.pinned, ∃ spec ∈ specs, (spec.1 = "==" ∨ spec.1 = "===" ∨ spec.1 = "~=") ∧
    Packaging.parseVersion (bareVersion spec.2) = some w
  lower : ∀ w ∈ b.lower, ∃ spec ∈ specs, (spec.1 = ">=" ∨ spec.1 = ">") ∧
    Packaging.parseVersion (bareVersion spec.2) = some w
  upper : ∀ u ∈ b.upper, ∃ spec ∈ specs, spec.1 = u.1 ∧ (spec.1 = "<" ∨ spec.1 = "<=") ∧
    Packaging.parseVersion (bareVersion spec.2) = some u.2

theorem Collected.add {specs : List (String × String)} {b : Bounds} (h : Collected specs b)
    (spec : String × String) : Collected (specs ++ [spec]) (b.add spec) := by
  have hold : Collected (specs ++ [spec]) b := by
    refine ⟨fun w hw => ?_, fun w hw => ?_, fun u hu => ?_⟩
    · obtain ⟨c, hc, h⟩ := h.pinned w hw
      exact ⟨c, List.mem_append_left _ hc, h⟩
    · obtain ⟨c, hc, h⟩ := h.lower w hw
      exact ⟨c, List.mem_append_left _ hc, h⟩
    · obtain ⟨c, hc, h⟩ := h.upper u hu
      exact ⟨c, List.mem_append_left _ hc, h⟩
  have hmem : spec ∈ specs ++ [spec] := List.mem_append_right _ List.mem_cons_self
  by_cases hne : spec.1 = "!="
  · rw [Bounds.add, if_pos hne]
    exact hold
  rw [Bounds.add, if_neg hne]
  simp only
  rw [show (if endsWith spec.2 ".*" = true then dropEnd 2 spec.2 else spec.2) =
    bareVersion spec.2 from rfl]
  cases hparse : Packaging.parseVersion (bareVersion spec.2) with
  | none => exact hold
  | some version =>
    dsimp only
    split_ifs with hpinned hlower hupper
    · refine ⟨fun w hw => ?_, hold.lower, hold.upper⟩
      rcases List.mem_append.1 hw with hw | hw
      · exact hold.pinned w hw
      · rw [List.mem_singleton.1 hw]
        exact ⟨spec, hmem, hpinned, hparse⟩
    · refine ⟨hold.pinned, fun w hw => ?_, hold.upper⟩
      rcases List.mem_append.1 hw with hw | hw
      · exact hold.lower w hw
      · rw [List.mem_singleton.1 hw]
        exact ⟨spec, hmem, hlower, hparse⟩
    · refine ⟨hold.pinned, hold.lower, fun u hu => ?_⟩
      rcases List.mem_append.1 hu with hu | hu
      · exact hold.upper u hu
      · rw [List.mem_singleton.1 hu]
        exact ⟨spec, hmem, rfl, hupper, hparse⟩
    · exact hold

theorem SpecifierSet.collected (s : SpecifierSet) :
    Collected (Packaging.specifiers s) s.bounds := by
  unfold bounds
  induction Packaging.specifiers s using List.reverseRecOn with
  | nil =>
    exact ⟨fun _ hw => absurd hw List.not_mem_nil, fun _ hw => absurd hw List.not_mem_nil,
      fun _ hu => absurd hu List.not_mem_nil⟩
  | append_singleton l spec ih =>
    rw [List.foldl_append]
    exact ih.add spec

theorem foldl_choose_mem {α : Type} (p : α → α → Bool) (a : α) (l : List α) :
    l.foldl (fun m x => if p x m then x else m) a ∈ a :: l := by
  induction l generalizing a with
  | nil => exact List.mem_cons_self
  | cons b l ih =>
    rw [List.foldl_cons]
    split_ifs
    · exact List.mem_cons_of_mem _ (ih b)
    · rcases List.mem_cons.1 (ih a) with h | h
      · rw [h]
        exact List.mem_cons_self
      · exact List.mem_cons_of_mem _ (List.mem_cons_of_mem _ h)

theorem Bounds.floor_mem {b : Bounds} {f : Version} (h : b.floor = some f) : f ∈ b.lower := by
  unfold floor at h
  split at h
  · cases h
  · rename_i v l hl
    cases h
    rw [hl]
    exact foldl_choose_mem (fun x m => Packaging.versionLt m x) v l

theorem Bounds.ceiling_mem {b : Bounds} {u : String × Version} (h : b.ceiling = some u) :
    u ∈ b.upper := by
  unfold ceiling at h
  split at h
  · cases h
  · rename_i v l hl
    cases h
    rw [hl]
    exact foldl_choose_mem (fun x m => Packaging.versionLt x.2 m.2) v l

/-- the generation a specifier pins: that of its least exact version, or else the major on which
its bounds agree -/
theorem specifierMajor_eq (s : SpecifierSet) : specifierMajor s =
    match s.bounds.pinned with
    | v :: l => some (toString (Packaging.major (minVersion v l)))
    | [] => s.bounds.floor.bind fun f => s.bounds.ceiling.bind fun u =>
      if (Packaging.major f : Int) = ceilingMajor u.1 u.2 then
        some (toString (Packaging.major f))
      else none := by
  unfold specifierMajor SpecifierSet.bounds
  generalize List.foldl Bounds.add {} (Packaging.specifiers s) = b
  obtain ⟨pinned, lower, upper⟩ := b
  cases pinned with
  | cons v l => rfl
  | nil =>
    cases lower with
    | nil => rfl
    | cons v l =>
      cases upper with
      | nil => rfl
      | cons u us => rfl

theorem specifierMajor_ne {s : SpecifierSet} {m : String} (h : specifierMajor s = some m) :
    m ≠ "" := by
  have htext : ∃ n : Nat, m = toString n := by
    rw [specifierMajor_eq] at h
    split at h
    · exact ⟨_, (Option.some.inj h).symm⟩
    · obtain ⟨f, -, h⟩ := Option.bind_eq_some_iff.1 h
      obtain ⟨u, -, h⟩ := Option.bind_eq_some_iff.1 h
      split_ifs at h
      exact ⟨_, (Option.some.inj h).symm⟩
  obtain ⟨n, rfl⟩ := htext
  exact Nat.repr_ne_empty

/-! ## what is left out -/

variable (read : Version → Pep440.Version)

/-- `v` is of another generation than the one that the bounds of `s` agree on: the one at which
they end, or one between two epochs -/
def Strays (s : SpecifierSet) (v : Version) : Prop :=
  s.bounds.pinned = [] ∧ ∃ f operator c, s.bounds.floor = some f ∧
    s.bounds.ceiling = some (operator, c) ∧
    (((read f).epoch = (read c).epoch ∧ operator = "<" ∧ Packaging.minor c = 0 ∧
        Packaging.micro c = 0 ∧ Packaging.major f + 1 = Packaging.major c ∧
        Packaging.major v = Packaging.major c) ∨
      ((read f).epoch ≠ (read c).epoch ∧ (Packaging.major f : Int) = ceilingMajor operator c ∧
        Packaging.major v ≠ Packaging.major f))

variable {read} {s : SpecifierSet} {v : Version}

theorem Implements.pinned (h : Implements read) (hv : Packaging.contains s v = true) {w : Version}
    (hw : w ∈ s.bounds.pinned) : Packaging.major w = Packaging.major v := by
  obtain ⟨spec, hspec, hop, hparse⟩ := s.collected.pinned w hw
  rw [h.major, h.major]
  exact Pep440.admits_exact hop (h.contains s v hv spec hspec w hparse)

theorem Implements.between (h : Implements read) (hv : Packaging.contains s v = true) {f c : Version}
    {operator : String} (hf : s.bounds.floor = some f)
    (hc : s.bounds.ceiling = some (operator, c)) :
    (read f).base ≤ (read v).base ∧ (read v).base ≤ (read c).base := by
  obtain ⟨spec, hspec, hop, hparse⟩ := s.collected.lower f (Bounds.floor_mem hf)
  obtain ⟨spec', hspec', -, hop', hparse'⟩ := s.collected.upper _ (Bounds.ceiling_mem hc)
  exact ⟨Pep440.admits_lower hop (h.contains s v hv spec hspec f hparse),
    Pep440.admits_upper hop' (h.contains s v hv spec' hspec' c hparse')⟩

theorem Implements.majors (h : Implements read) (hv : Packaging.contains s v = true) {f c : Version}
    {operator : String} (hf : s.bounds.floor = some f)
    (hc : s.bounds.ceiling = some (operator, c)) (hepoch : (read f).epoch = (read c).epoch) :
    (read v).epoch = (read c).epoch ∧ Packaging.major f ≤ Packaging.major v ∧
      Packaging.major v ≤ Packaging.major c := by
  obtain ⟨hfv, hvc⟩ := h.between hv hf hc
  have hle := Pep440.epoch_le hfv
  have hle' := Pep440.epoch_le hvc
  have hvf : (read v).epoch = (read f).epoch := by omega
  rw [h.major, h.major, h.major]
  exact ⟨hvf.trans hepoch, Pep440.major_le hfv hvf.symm, Pep440.major_le hvc (hvf.trans hepoch)⟩

/-- a version of the set is of the generation that is pinned, exactly unless it strays -/
theorem generation_iff (h : Implements read) (hv : Packaging.contains s v = true) :
    (∀ m, specifierMajor s = some m → toString (Packaging.major v) = m) ↔ ¬ Strays read s v := by
  rw [specifierMajor_eq]
  cases hpinned : s.bounds.pinned with
  | cons w l =>
    have hmem : minVersion w l ∈ s.bounds.pinned := by
      rw [hpinned]
      exact foldl_choose_mem (fun x m => Packaging.versionLt x m) w l
    refine iff_of_true (fun m hm => ?_) fun hstrays => ?_
    · rw [← Option.some.inj hm, h.pinned hv hmem]
    · rw [hstrays.1] at hpinned
      cases hpinned
  | nil =>
    dsimp only
    constructor
    · rintro hall ⟨-, f, operator, c, hf, hc, hcase⟩
      rw [hf, hc] at hall
      rcases hcase with ⟨-, rfl, hminor, hmicro, hnext, hmajor⟩ | ⟨-, hsame, hne⟩
      · have hpin : (Packaging.major f : Int) = ceilingMajor "<" c := by
          rw [ceilingMajor, if_pos ⟨rfl, hminor, hmicro⟩]
          omega
        have heq := toString_injective (hall _ (by
          rw [Option.bind_some, Option.bind_some, if_pos hpin]))
        omega
      · exact hne (toString_injective (hall _ (by
          rw [Option.bind_some, Option.bind_some, if_pos hsame])))
    · intro hnot m hm
      obtain ⟨f, hf, hm⟩ := Option.bind_eq_some_iff.1 hm
      obtain ⟨⟨operator, c⟩, hc, hm⟩ := Option.bind_eq_some_iff.1 hm
      split_ifs at hm with hpin
      cases hm
      congr 1
      by_contra hne
      refine hnot ⟨hpinned, f, operator, c, hf, hc, ?_⟩
      by_cases hepoch : (read f).epoch = (read c).epoch
      · obtain ⟨-, hfv, hvc⟩ := h.majors hv hf hc hepoch
        unfold ceilingMajor at hpin
        dsimp only at hpin
        split_ifs at hpin with hplain
        · exact Or.inl ⟨hepoch, hplain.1, hplain.2.1, hplain.2.2, by omega, by omega⟩
        · omega
      · exact Or.inr ⟨hepoch, hpin, hne⟩

/-! ## what is accepted -/

/-- **A version that the range of a requirement contains is accepted, exactly unless it strays.** -/
theorem generation_accepts_iff (h : Implements read) {name text : String}
    {r : CapabilityRequirement} (hr : CapabilityRequirement.parse name text = .ok r)
    {key : CapabilityKey} (hkey : CapabilityKey.ofVersion name v = .ok key) :
    (r.accepts key v = true ↔ Packaging.contains r.specifier v = true) ↔
      ¬ (Packaging.contains r.specifier v = true ∧ Strays read r.specifier v) := by
  obtain ⟨hname, hapi⟩ := CapabilityKey.make_eq hkey
  obtain ⟨specifier, -, hr⟩ := bind_ok.1 hr
  obtain ⟨required, hrequired, hr⟩ := bind_ok.1 hr
  cases hr
  obtain ⟨hrname, hrapi⟩ := CapabilityKey.make_eq hrequired
  have haccepts : CapabilityRequirement.accepts ⟨required, specifier, false⟩ key v = true ↔
      (∀ m, specifierMajor specifier = some m → toString (Packaging.major v) = m) ∧
        Packaging.contains specifier v = true := by
    simp only [CapabilityRequirement.accepts, hname, hrname, ne_eq, not_true_eq_false, if_false,
      hrapi, hapi]
    cases hmajor : specifierMajor specifier with
    | none => simp
    | some m =>
      by_cases hm : toString (Packaging.major v) = m
      · simp [hm]
      · simp [specifierMajor_ne hmajor]
  rw [haccepts]
  show (_ ↔ Packaging.contains specifier v = true) ↔
    ¬ (Packaging.contains specifier v = true ∧ Strays read specifier v)
  by_cases hv : Packaging.contains specifier v = true
  · simp only [hv, and_true, iff_true, true_and]
    exact generation_iff h hv
  · simp [hv]

end

/-! ## releases of any length, compared and admitted as PEP 440 has it -/

namespace Releases

def versionOf (text : String) : Option Pep440.Version :=
  if h : (split '.' text).all isDecimal = true ∧ (split '.' text).map toNat ≠ [] then
    some { release := (split '.' text).map toNat, release_ne := h.2 }
  else none

def read (v : Version) : Pep440.Version :=
  (versionOf v.text).getD { release := [0], release_ne := List.cons_ne_nil _ _ }

def parseVersion (s : String) : Option Version := (versionOf (strip s)).map fun _ => ⟨strip s⟩

scoped instance packaging : Packaging where
  parseVersion := parseVersion
  major v := (read v).major
  minor v := (read v).minor
  micro v := (read v).micro
  versionEq v w := decide ((read v).key = (read w).key)
  versionLt v w := decide ((read v).key < (read w).key)
  parseSpecifierSet s := (Plain.specifiersOf s).map fun l =>
    ⟨join "," (l.map fun p => p.1 ++ p.2)⟩
  specifiers s := (Plain.specifiersOf s.text).getD []
  contains s v := ((Plain.specifiersOf s.text).getD []).all fun spec =>
    (parseVersion (bareVersion spec.2)).all fun w =>
      Pep440.admits spec.1 (endsWith spec.2 ".*") (read w) (read v)

theorem implements : Implements read where
  major _ := rfl
  minor _ := rfl
  micro _ := rfl
  contains s v h spec hspec w hw := by
    have hall := List.all_eq_true.1 h spec hspec
    change parseVersion (bareVersion spec.2) = some w at hw
    rw [hw] at hall
    exact hall

theorem generation_accepts_iff_range : ∃ r key,
    CapabilityRequirement.parse "db" ">=1,<2" = .ok r ∧
    CapabilityKey.ofVersion "db" ⟨"1.4"⟩ = .ok key ∧
    ((r.accepts key ⟨"1.4"⟩ = true ↔ Packaging.contains r.specifier ⟨"1.4"⟩ = true) ↔
      ¬ (Packaging.contains r.specifier ⟨"1.4"⟩ = true ∧ Strays read r.specifier ⟨"1.4"⟩)) := by
  obtain ⟨r, hr, -⟩ := ok_of_map (CapabilityRequirement.parse "db" ">=1,<2")
    (fun r => r.key.apiVersion) "1" (by decide +kernel)
  obtain ⟨key, hkey, -⟩ := ok_of_map (CapabilityKey.ofVersion "db" ⟨"1.4"⟩)
    CapabilityKey.apiVersion "1" (by decide +kernel)
  exact ⟨r, key, hr, hkey, generation_accepts_iff implements hr hkey⟩

theorem contained_not_accepted : ∃ r key,
    CapabilityRequirement.parse "db" ">=1,<2.0.0.1" = .ok r ∧
    CapabilityKey.ofVersion "db" ⟨"2.0.0"⟩ = .ok key ∧
    ¬ (r.accepts key ⟨"2.0.0"⟩ = true ↔ Packaging.contains r.specifier ⟨"2.0.0"⟩ = true) := by
  obtain ⟨key, hkey, hf⟩ := ok_of_map (CapabilityKey.ofVersion "db" ⟨"2.0.0"⟩)
    (fun key => (CapabilityRequirement.parse "db" ">=1,<2.0.0.1").toOption.map fun r =>
      (r.accepts key ⟨"2.0.0"⟩, Packaging.contains r.specifier ⟨"2.0.0"⟩)) (some (false, true))
    (by decide +kernel)
  obtain ⟨r, hr, hf⟩ := Option.map_eq_some_iff.1 hf
  obtain ⟨haccepts, hcontains⟩ := Prod.mk.inj hf
  refine ⟨r, key, ok_of_toOption hr, hkey, fun hiff => ?_⟩
  rw [haccepts, hcontains] at hiff
  exact absurd (hiff.2 rfl) (by decide)

end Releases
end Chassis
