import Mathlib.Logic.Relation
import Chassis.Lib.Elimination

/-!
# Selection of providers under elimination

Consumers place demands, hard or soft; offers answer them; every offer has an owner, who is a
consumer too.  A demand picks the only offer whose owner is still in, or the preferred one.  A
consumer with an unmet hard demand is eliminated, and its own offers with it.

* `pick`            what a demand picks among the owners in `E`; more than one offer and no
                    preference among them is nothing;
* `survivors`       what the elimination leaves;
* `Feeds`           the selection graph among them; `Tangled` is on or downstream of its cycles;
* `choose_owner_iff`   whose offer is chosen: the preferred owner's, or the only one;
* `viable_survivors`   every survivor has all its hard demands met by survivors.
-/

namespace Selection
open Elimination

structure Market (ι ρ ω : Type*) where
  demands : ι → List ρ
  hard : ρ → Bool
  /-- what would do for a demand of a consumer, best first -/
  offers : ι → ρ → List ω
  owner : ω → ι
  prefer : ι → ρ → Option ι

namespace Market
variable {ι ρ ω : Type*} [DecidableEq ι]

/-- the offers for a demand whose owners are in `E` -/
def rivals (m : Market ι ρ ω) (E : List ι) (c : ι) (r : ρ) : List ω :=
  (m.offers c r).filter (fun o => m.owner o ∈ E)

/-- the only one, or else the first of the preferred owner -/
def choose (owner : ω → ι) (prefer : Option ι) : List ω → Option ω
  | [] => none
  | [o] => some o
  | o :: o' :: os => prefer.bind fun p => (o :: o' :: os).find? (fun x => owner x = p)

def pick (m : Market ι ρ ω) (E : List ι) (c : ι) (r : ρ) : Option ω :=
  choose m.owner (m.prefer c r) (m.rivals E c r)

def viable (m : Market ι ρ ω) (E : List ι) (c : ι) : Bool :=
  (m.demands c).all fun r => !m.hard r || (m.pick E c r).isSome

def survivors (m : Market ι ρ ω) (E : List ι) : List ι := eliminate m.viable E.length E

/-- `p` owns what a demand of the survivor `c` picks -/
def Selects (m : Market ι ρ ω) (E : List ι) (p c : ι) (r : ρ) : Prop :=
  c ∈ m.survivors E ∧ r ∈ m.demands c ∧
    ∃ o, m.pick (m.survivors E) c r = some o ∧ m.owner o = p

/-- the selection graph: some demand of `c` selects `p` -/
def Feeds (m : Market ι ρ ω) (E : List ι) (p c : ι) : Prop := ∃ r, m.Selects E p c r

/-- on a cycle of the selection graph, or downstream of one -/
def Tangled (m : Market ι ρ ω) (E : List ι) (p : ι) : Prop :=
  ∃ q, Relation.TransGen (m.Feeds E) q q ∧ Relation.ReflTransGen (m.Feeds E) q p

variable {m : Market ι ρ ω}

theorem mem_rivals {E : List ι} {c : ι} {r : ρ} {o : ω} :
    o ∈ m.rivals E c r ↔ o ∈ m.offers c r ∧ m.owner o ∈ E := by
  simp [rivals]

theorem choose_mem {owner : ω → ι} {prefer : Option ι} {l : List ω} {o : ω}
    (h : choose owner prefer l = some o) : o ∈ l := by
  match l, h with
  | [_], h =>
    cases h
    exact List.mem_cons_self
  | a :: b :: l, h =>
    obtain ⟨p, -, h⟩ := Option.bind_eq_some_iff.1 h
    exact List.mem_of_find?_eq_some h

/-- nothing is chosen among several whose owner is not preferred -/
theorem choose_none_iff {owner : ω → ι} {prefer : Option ι} {l : List ω} :
    choose owner prefer l = none ↔
      l = [] ∨ 2 ≤ l.length ∧ ∀ o ∈ l, prefer ≠ some (owner o) := by
  match l with
  | [] => exact iff_of_true rfl (Or.inl rfl)
  | [o] => exact iff_of_false (fun h => (nomatch h)) (by simp)
  | a :: b :: l =>
    simp only [choose, Option.bind_eq_none_iff, List.find?_eq_none, decide_eq_true_eq]
    constructor
    · exact fun h => Or.inr ⟨by simp, fun o ho hp => h _ hp o ho rfl⟩
    · rintro (h | ⟨-, h⟩) p hp o ho rfl
      · cases h
      · exact h o ho hp

/-- **Whose offer is chosen**: the preferred owner's if it has one, or else the only one. -/
theorem choose_owner_iff {owner : ω → ι} {prefer : Option ι} {l : List ω} {i : ι} :
    (∃ o, choose owner prefer l = some o ∧ owner o = i) ↔
      (∃ o ∈ l, owner o = i) ∧ (prefer = some i ∨ l.length = 1) := by
  match l with
  | [] => simp [choose]
  | [o] => simp [choose]
  | a :: b :: l =>
    have hmany : (a :: b :: l).length ≠ 1 := by simp
    rw [or_iff_left hmany]
    unfold choose
    constructor
    · rintro ⟨o, ho, rfl⟩
      obtain ⟨i, hprefer, hfind⟩ := Option.bind_eq_some_iff.1 ho
      have hown : owner o = i := by simpa using List.find?_some hfind
      exact ⟨⟨o, List.mem_of_find?_eq_some hfind, rfl⟩, hown ▸ hprefer⟩
    · rintro ⟨⟨o, ho, hown⟩, hprefer⟩
      simp only [hprefer, Option.bind_some]
      have hsome : ((a :: b :: l).find? fun x => decide (owner x = i)).isSome = true :=
        List.find?_isSome.2 ⟨o, ho, decide_eq_true hown⟩
      obtain ⟨o', ho'⟩ := Option.isSome_iff_exists.1 hsome
      exact ⟨o', ho', by simpa using List.find?_some ho'⟩

theorem pick_mem {E : List ι} {c : ι} {r : ρ} {o : ω} (h : m.pick E c r = some o) :
    o ∈ m.offers c r ∧ m.owner o ∈ E := mem_rivals.1 (choose_mem h)

theorem viable_iff {E : List ι} {c : ι} : m.viable E c = true ↔
    ∀ r ∈ m.demands c, m.hard r = true → ∃ o, m.pick E c r = some o := by
  simp only [viable, List.all_eq_true, Bool.or_eq_true, Bool.not_eq_true', Option.isSome_iff_exists]
  exact forall₂_congr fun r _ => by
    rw [← Bool.not_eq_true]
    exact Iff.intro (fun h hr => h.resolve_left (not_not_intro hr)) fun h => or_iff_not_imp_left.2
      fun hr => h (not_not.1 hr)

theorem survivors_sublist (E : List ι) : (m.survivors E).Sublist E := eliminate_sublist _ _

/-- **Every survivor has its hard demands met by survivors.** -/
theorem viable_survivors {E : List ι} {c : ι} (h : c ∈ m.survivors E) :
    m.viable (m.survivors E) c = true := eliminate_ok (Nat.le_refl _) c h

theorem Feeds.survivors {E : List ι} {p c : ι} (h : m.Feeds E p c) :
    p ∈ m.survivors E ∧ c ∈ m.survivors E := by
  obtain ⟨r, hc, -, o, ho, rfl⟩ := h
  exact ⟨(pick_mem ho).2, hc⟩

end Market
end Selection
