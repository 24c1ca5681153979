import Chassis.Core.Identity
import Chassis.Persistence.NormalForm
import Chassis.Persistence.Writing

/-!
# Freezing

What is published is frozen, deeply: mappings become frozen mappings, lists tuples, sets frozen
sets.

* `Datum.freeze`             `freeze`;
* `Datum.canonical`          `_canonicalize`, which sorts mappings by key and sets by text;
* `canonical_freeze`         freezing changes no canonical form;
* `sameText_canonical`       **data that are alike have one canonical text**;
* `canonicalJson_freeze`     so freezing changes no fingerprint, if Booleans are not numbers.
-/

set_option linter.unusedSectionVars false

namespace Chassis
open Py Canonical

/-- `_canonicalize`, of a scalar -/
def Scalar.canonical (F : FloatFormat) : Scalar → Scalar
  | .float f =>
    match f.whole? with
    | some n => .int n
    | Option.none => .float (F.round12 f)
  | s => s

/-- `_order`, the key elements of a set are sorted by -/
def Canonical.order (F : FloatFormat) (v : Canonical) : String := v.dumps F .plain

namespace Datum

/-! ## freezing -/

/-- what `frozenset` keeps: of equal elements the first -/
def members (l : List Datum) : List Datum :=
  l.foldl (fun kept d => if kept.any (same · d) then kept else kept ++ [d]) []

mutual

def freeze : Datum → Datum
  | .mapping _ items => .mapping true (freezeItems items)
  | .list l | .tuple l => .tuple (freezeAll l)
  | .set _ l => .set true (members (freezeAll l))
  | d => d

def freezeAll : List Datum → List Datum
  | [] => []
  | d :: l => freeze d :: freezeAll l

def freezeItems : List (String × Datum) → List (String × Datum)
  | [] => []
  | (k, d) :: l => (k, freeze d) :: freezeItems l

end

theorem freezeAll_eq (l : List Datum) : freezeAll l = l.map freeze := by
  induction l with
  | nil => rfl
  | cons d l ih => rw [freezeAll, ih, List.map_cons]

theorem freezeItems_eq (l : List (String × Datum)) :
    freezeItems l = l.map fun p => (p.1, freeze p.2) := by
  induction l with
  | nil => rfl
  | cons p l ih => rw [freezeItems, ih, List.map_cons]

theorem members_eq_self {l : List Datum} (h : l.Pairwise fun a b => same a b = false) :
    members l = l := by
  have hfold : ∀ kept : List Datum, (∀ a ∈ kept, ∀ b ∈ l, same a b = false) →
      l.foldl (fun kept d => if kept.any (same · d) then kept else kept ++ [d]) kept =
        kept ++ l := by
    induction l with
    | nil => exact fun kept _ => (List.append_nil kept).symm
    | cons d l ih =>
      intro kept hkept
      obtain ⟨hd, hl⟩ := List.pairwise_cons.1 h
      have hnew : kept.any (same · d) = false := by
        rw [List.any_eq_false]
        intro a ha
        rw [hkept a ha d List.mem_cons_self]
        exact Bool.false_ne_true
      rw [List.foldl_cons, hnew, if_neg Bool.false_ne_true, ih hl, List.append_assoc]
      · rfl
      · intro a ha b hb
        rcases List.mem_append.1 ha with ha | ha
        · exact hkept a ha b (List.mem_cons_of_mem d hb)
        · rw [List.mem_singleton.1 ha]
          exact hd b hb
  exact hfold [] fun _ ha => absurd ha List.not_mem_nil

theorem freeze_hashable (d : Datum) : d.Hashable → freeze d = d := by
  induction d using inductOn with
  | scalar s => exact fun _ => rfl
  | str s => exact fun _ => rfl
  | list l ih => exact fun h => h.elim
  | mapping frozen items ih => exact fun h => h.elim
  | tuple l ih =>
    intro h
    have hall := hashableAll_iff.1 h
    rw [freeze, freezeAll_eq, List.map_congr_left fun d hd => ih d hd (hall d hd), List.map_id']
  | set frozen l ih =>
    intro h
    obtain ⟨hall, hdiffer⟩ := hashable_set h
    cases frozen with
    | false => exact h.elim
    | true =>
      rw [freeze, freezeAll_eq, List.map_congr_left fun d hd => ih d hd (hall d hd), List.map_id',
        members_eq_self hdiffer]

theorem freeze_set {frozen : Bool} {l : List Datum} (h : (set frozen l).Formed) :
    freeze (.set frozen l) = .set true l := by
  obtain ⟨-, hall, hdiffer⟩ := h
  rw [hashableAll_iff] at hall
  rw [freeze, freezeAll_eq, List.map_congr_left fun d hd => freeze_hashable d (hall d hd),
    List.map_id', members_eq_self hdiffer]

theorem formed_freeze (d : Datum) : d.Formed → (freeze d).Formed := by
  have hseq : ∀ l : List Datum, (∀ d ∈ l, d.Formed → (freeze d).Formed) → FormedAll l →
      FormedAll (freezeAll l) := by
    intro l ih h
    rw [freezeAll_eq, formedAll_iff, List.forall_mem_map]
    exact fun d hd => ih d hd (formedAll_iff.1 h d hd)
  induction d using inductOn with
  | scalar s => exact id
  | str s => exact id
  | list l ih => exact hseq l ih
  | tuple l ih => exact hseq l ih
  | set frozen l ih =>
    intro h
    rw [freeze_set h]
    exact h
  | mapping frozen items ih =>
    intro h
    refine ⟨?_, ?_⟩
    · rw [freezeItems_eq, List.map_map]
      exact h.1
    · rw [freezeItems_eq, formedWithin_iff, List.forall_mem_map]
      exact fun p hp => ih p hp (formedWithin_iff.1 h.2 p hp)

/-- what is frozen stays as it is -/
theorem freeze_freeze (d : Datum) : d.Formed → freeze (freeze d) = freeze d := by
  have hseq : ∀ l : List Datum, (∀ d ∈ l, d.Formed → freeze (freeze d) = freeze d) →
      FormedAll l → freezeAll (freezeAll l) = freezeAll l := by
    intro l ih h
    rw [freezeAll_eq, freezeAll_eq, List.map_map]
    exact List.map_congr_left fun d hd => ih d hd (formedAll_iff.1 h d hd)
  induction d using inductOn with
  | scalar s => exact fun _ => rfl
  | str s => exact fun _ => rfl
  | list l ih => exact fun h => congrArg tuple (hseq l ih h)
  | tuple l ih => exact fun h => congrArg tuple (hseq l ih h)
  | set frozen l ih =>
    intro h
    rw [freeze_set h]
    show freeze (set true l) = set true l
    exact freeze_set h
  | mapping frozen items ih =>
    intro h
    rw [freeze, freeze, freezeItems_eq, freezeItems_eq, List.map_map]
    refine congrArg (mapping true) (List.map_congr_left fun p hp => ?_)
    exact congrArg (Prod.mk p.1) (ih p hp (formedWithin_iff.1 h.2 p hp))

/-! ## the canonical form -/

variable (F : FloatFormat)

mutual

/-- `_canonicalize` -/
def canonical : Datum → Canonical
  | .scalar s => .scalar (s.canonical F)
  | .str s => .str s
  | .mapping _ items => .dict (sortedBy Prod.fst (canonicalItems items))
  | .set _ l => .list (sortedBy (order F) (canonicalAll l))
  | .list l | .tuple l => .list (canonicalAll l)

def canonicalAll : List Datum → List Canonical
  | [] => []
  | d :: l => canonical d :: canonicalAll l

def canonicalItems : List (String × Datum) → List (String × Canonical)
  | [] => []
  | (k, d) :: l => (k, canonical d) :: canonicalItems l

end

def canonicalJson (d : Datum) : String := (d.canonical F).dumps F .compact

/-- `config_fingerprint` -/
def fingerprint [Platform] (plugin : String) (config : Datum) : String :=
  Platform.hashText
    ((mapping false [("plugin", .str plugin), ("config", config)]).canonicalJson F)

theorem canonicalAll_eq (l : List Datum) : canonicalAll F l = l.map (canonical F) := by
  induction l with
  | nil => rfl
  | cons d l ih => rw [canonicalAll, ih, List.map_cons]

theorem canonicalItems_eq (l : List (String × Datum)) :
    canonicalItems F l = l.map fun p => (p.1, canonical F p.2) := by
  induction l with
  | nil => rfl
  | cons p l ih => rw [canonicalItems, ih, List.map_cons]

/-- freezing changes no canonical form -/
theorem canonical_freeze (d : Datum) : d.Formed → (freeze d).canonical F = d.canonical F := by
  have hseq : ∀ l : List Datum,
      (∀ d ∈ l, d.Formed → (freeze d).canonical F = d.canonical F) → FormedAll l →
      canonicalAll F (freezeAll l) = canonicalAll F l := by
    intro l ih h
    rw [freezeAll_eq, canonicalAll_eq, canonicalAll_eq, List.map_map]
    exact List.map_congr_left fun d hd => ih d hd (formedAll_iff.1 h d hd)
  induction d using inductOn with
  | scalar s => exact fun _ => rfl
  | str s => exact fun _ => rfl
  | list l ih => exact fun h => congrArg Canonical.list (hseq l ih h)
  | tuple l ih => exact fun h => congrArg Canonical.list (hseq l ih h)
  | set frozen l ih =>
    intro h
    rw [freeze_set h, canonical, canonical]
  | mapping frozen items ih =>
    intro h
    have hitems : canonicalItems F (freezeItems items) = canonicalItems F items := by
      rw [freezeItems_eq, canonicalItems_eq, canonicalItems_eq, List.map_map]
      exact List.map_congr_left fun p hp =>
        congrArg (Prod.mk p.1) (ih p hp (formedWithin_iff.1 h.2 p hp))
    rw [freeze, canonical, canonical, hitems]

/-! ## sorting -/

variable {F}

theorem forall₂_of_map_eq {α β γ : Type} {f : α → γ} {g : β → γ} {l : List α} {m : List β}
    (h : l.map f = m.map g) : List.Forall₂ (fun a b => f a = g b) l m := by
  rw [← List.forall₂_eq_eq_eq, List.forall₂_map_left_iff, List.forall₂_map_right_iff] at h
  exact h

theorem forall₂_sortedBy {α β κ : Type} [LinearOrder κ] (key : α → κ) (key' : β → κ)
    {R : α → β → Prop} (hkey : ∀ a b, R a b → key a = key' b) {l : List α} {m : List β}
    (h : List.Forall₂ R l m) : List.Forall₂ R (sortedBy key l) (sortedBy key' m) := by
  have hinsert : ∀ {a b} {l : List α} {m : List β}, R a b → List.Forall₂ R l m →
      List.Forall₂ R (l.orderedInsert (fun x y => key x ≤ key y) a)
        (m.orderedInsert (fun x y => key' x ≤ key' y) b) := by
    intro a b l m hab h
    induction h with
    | nil => exact .cons hab .nil
    | cons hcd hrest ih =>
      rw [List.orderedInsert, List.orderedInsert, hkey _ _ hab, hkey _ _ hcd]
      split
      · exact .cons hab (.cons hcd hrest)
      · exact .cons hcd ih
  induction h with
  | nil => exact .nil
  | cons hab _ ih => exact hinsert hab ih

/-- **Elements of sets are sorted alike**: those that are tied have one text. -/
theorem sorted_sameText {l m l' : List Canonical} (h : List.Forall₂ (SameText F) l m)
    (hperm : m.Perm l') :
    List.Forall₂ (SameText F) (sortedBy (order F) l) (sortedBy (order F) l') := by
  have hkeys : l.map (order F) = m.map (order F) := by
    clear hperm
    induction h with
    | nil => rfl
    | cons hvw _ ih => rw [List.map_cons, List.map_cons, ih, order, order, dumps, dumps, hvw]
  have hsorted : (sortedBy (order F) l).map (order F) = (sortedBy (order F) l').map (order F) := by
    have hl := sortedBy_map id (order F) l
    have hl' := sortedBy_map id (order F) l'
    refine hl.symm.trans (Eq.trans ?_ hl')
    refine sorted_eq_of_perm ?_
    rw [hkeys]
    exact hperm.map (order F)
  exact (forall₂_of_map_eq hsorted).imp fun _ _ => sameText_of_dumps

/-! ## data that are alike -/

theorem whole?_value (f : PyFloat) : f.value.whole? = f.whole? := by
  cases f <;> rfl

theorem eq_of_value {f g : PyFloat} (h : f.value = g.value) (hf : f.whole? = none)
    (hg : g.whole? = none) : f = g := by
  have hself : ∀ {f : PyFloat}, f.whole? = none → f.value = f := by
    intro f hf
    cases f <;> first | rfl | cases hf
  rw [← hself hf, h, hself hg]

theorem eq_bool_of_kind {s : Scalar} (h : s.kind = .boolean) : ∃ b, s = .bool b := by
  cases s with
  | bool b => exact ⟨b, rfl⟩
  | none => cases h
  | int n =>
    simp only [Scalar.kind] at h
    split at h <;> cases h
  | float f =>
    simp only [Scalar.kind] at h
    split at h <;> cases h

/-- scalars that are equal, and not told apart, have one canonical form -/
theorem canonical_told {s t : Scalar} (h : s.told = t.told) : s.canonical F = t.canonical F := by
  obtain ⟨hnumber, hkind⟩ := Prod.mk.inj h
  have hwhole : ∀ {n : Int} {f : PyFloat}, (PyFloat.finite n) = f.value → (Scalar.int n).kind =
      (Scalar.float f).kind → f.whole? = some n := by
    intro n f hvalue hkind
    rw [← whole?_value, ← hvalue]
    simp only [Scalar.kind] at hkind
    by_cases hn : n.natAbs < 2 ^ 53
    · exact if_pos ⟨rfl, hn⟩
    · rw [if_neg hn] at hkind
      split at hkind <;> cases hkind
  cases s with
  | none =>
    cases t with
    | none => rfl
    | _ => cases hnumber
  | bool b =>
    cases t with
    | bool c =>
      cases b <;> cases c <;> first | rfl | simp [Scalar.number] at hnumber
    | none => cases hnumber
    | _ => exact nomatch eq_bool_of_kind hkind.symm
  | int n =>
    cases t with
    | none => cases hnumber
    | bool b => exact nomatch eq_bool_of_kind hkind
    | int m =>
      obtain rfl : n = m := by simpa [Scalar.number] using hnumber
      rfl
    | float f =>
      rw [Scalar.canonical, Scalar.canonical, hwhole (Option.some.inj hnumber) hkind]
      exact fun _ h => nomatch h
  | float f =>
    cases t with
    | none => cases hnumber
    | bool b => exact nomatch eq_bool_of_kind hkind
    | int n =>
      rw [Scalar.canonical, Scalar.canonical, hwhole (Option.some.inj hnumber).symm hkind.symm]
      exact fun _ h => nomatch h
    | float g =>
      have hvalue := Option.some.inj hnumber
      have hsame : f.whole? = g.whole? := by rw [← whole?_value f, hvalue, whole?_value]
      rw [Scalar.canonical, Scalar.canonical, hsame]
      cases hg : g.whole? with
      | some n => rfl
      | none => rw [eq_of_value hvalue (hsame.trans hg) hg]

/-- **Data that are alike have one text in every style**, if scalars with one key have one
canonical form. -/
theorem sameText_canonical {κ : Type} {key : Scalar → κ}
    (hkey : ∀ s t, key s = key t → s.canonical F = t.canonical F) (d : Datum) :
    ∀ e, d.Formed → Alike key d e → SameText F (d.canonical F) (e.canonical F) := by
  have hseq : ∀ l : List Datum, (∀ d ∈ l, ∀ e, d.Formed → Alike key d e →
      SameText F (d.canonical F) (e.canonical F)) → FormedAll l → ∀ l',
      List.Forall₂ (Alike key) l l' →
      List.Forall₂ (SameText F) (canonicalAll F l) (canonicalAll F l') := by
    intro l ih h l' hl
    rw [canonicalAll_eq, canonicalAll_eq, List.forall₂_map_left_iff, List.forall₂_map_right_iff]
    exact forall₂_mono hl fun d hd e _ => ih d hd e (formedAll_iff.1 h d hd)
  induction d using inductOn with
  | scalar s =>
    rintro _ - ⟨hst⟩
    rw [canonical, canonical, hkey _ _ hst]
    exact fun _ => rfl
  | str s =>
    rintro _ - ⟨⟩
    exact fun _ => rfl
  | list l ih =>
    intro e h halike
    cases halike with
    | list hl => exact sameText_list (hseq l ih h _ hl)
  | tuple l ih =>
    intro e h halike
    cases halike with
    | tuple hl => exact sameText_list (hseq l ih h _ hl)
  | set frozen l ih =>
    intro e h halike
    cases halike with
    | set _ _ hl hperm =>
      refine sameText_list (sorted_sameText (hseq l ih h.1 _ hl) ?_)
      rw [canonicalAll_eq, canonicalAll_eq]
      exact hperm.map _
  | mapping frozen items ih =>
    intro e h halike
    cases halike with
    | @mapping _ m items' _ _ hnames hvalues hperm =>
      have hformed := formedWithin_iff.1 h.2
      have hmatch : List.Forall₂ (fun p p' => p.1 = p'.1 ∧ SameText F p.2 p'.2)
          (canonicalItems F items) (canonicalItems F m) := by
        rw [canonicalItems_eq, canonicalItems_eq, List.forall₂_map_left_iff,
          List.forall₂_map_right_iff]
        rw [List.forall₂_map_left_iff, List.forall₂_map_right_iff] at hvalues
        have hboth := forall₂_and (forall₂_of_map_eq hnames) hvalues
        exact forall₂_mono hboth fun p hp p' _ hpp =>
          ⟨hpp.1, ih p hp p'.2 (hformed p hp) hpp.2⟩
      have hnodup : ((canonicalItems F m).map Prod.fst).Nodup := by
        rw [canonicalItems_eq, List.map_map]
        show (m.map Prod.fst).Nodup
        rw [← hnames]
        exact h.1
      have hsorted : sortedBy Prod.fst (canonicalItems F m) =
          sortedBy Prod.fst (canonicalItems F items') := by
        refine sortedBy_eq_of_perm (fun a ha b hb hab =>
          List.inj_on_of_nodup_map hnodup ha hb hab) ?_
        rw [canonicalItems_eq, canonicalItems_eq]
        exact hperm.map _
      rw [canonical, canonical, ← hsorted]
      exact sameText_dict (forall₂_sortedBy Prod.fst Prod.fst (fun _ _ h => h.1) hmatch)

theorem canonicalJson_alike {κ : Type} {key : Scalar → κ}
    (hkey : ∀ s t, key s = key t → s.canonical F = t.canonical F) {d e : Datum} (hd : d.Formed)
    (h : Alike key d e) : canonicalJson F e = canonicalJson F d :=
  congrArg String.ofList (sameText_canonical hkey d e hd h .compact).symm

variable (F)

theorem fingerprint_congr [Platform] {c d : Datum} (plugin : String)
    (h : SameText F (c.canonical F) (d.canonical F)) :
    fingerprint F plugin c = fingerprint F plugin d := by
  have hitems : List.Forall₂ (fun p p' => p.1 = p'.1 ∧ SameText F p.2 p'.2)
      (canonicalItems F [("plugin", .str plugin), ("config", c)])
      (canonicalItems F [("plugin", .str plugin), ("config", d)]) :=
    .cons ⟨rfl, fun _ => rfl⟩ (.cons ⟨rfl, h⟩ .nil)
  have hsorted := sameText_dict (forall₂_sortedBy Prod.fst Prod.fst (fun _ _ h => h.1) hitems)
  unfold fingerprint canonicalJson
  exact congrArg (fun text => Platform.hashText (String.ofList text)) (hsorted .compact)

/-- **Freezing changes no identity.**  What is frozen, however it is iterated, has the canonical
text it had, and freezing it again changes nothing; no order of a mapping or a set shows in the
text; and a frozen configuration has the fingerprint of every declared one that is equal to what it
was, Booleans told apart from numbers and large integers from floats. -/
theorem canonicalJson_freeze [Platform] :
    (∀ d : Datum, d.Formed → freeze (freeze d) = freeze d ∧
      canonicalJson F (freeze d) = canonicalJson F d ∧
      ∀ e, Alike id (freeze d) e → canonicalJson F e = canonicalJson F d) ∧
    (∀ d e : Datum, d.Formed → Alike id d e → canonicalJson F e = canonicalJson F d) ∧
    ∀ (plugin : String) (declared config installed : Datum), declared.Formed → config.Formed →
      installed.Formed → sameTold config declared = true →
      sameTold (freeze config) installed = true →
      fingerprint F plugin installed = fingerprint F plugin declared := by
  have hid : ∀ s t : Scalar, id s = id t → s.canonical F = t.canonical F := by
    rintro s _ rfl
    rfl
  have htold : ∀ s t : Scalar, s.told = t.told → s.canonical F = t.canonical F :=
    fun _ _ h => canonical_told h
  have hfreeze : ∀ d : Datum, d.Formed → canonicalJson F (freeze d) = canonicalJson F d := by
    intro d hd
    unfold canonicalJson
    rw [canonical_freeze F d hd]
  refine ⟨fun d hd => ⟨freeze_freeze d hd, hfreeze d hd, fun e he => ?_⟩,
    fun d e hd he => canonicalJson_alike hid hd he, ?_⟩
  · rw [← hfreeze d hd]
    exact canonicalJson_alike hid (formed_freeze d hd) he
  · intro plugin declared config installed hdeclared hconfig hinstalled hsame hfrozen
    have hbefore := sameText_canonical htold config declared hconfig
      (alike_of_equal config declared hconfig hdeclared hsame)
    have hafter := sameText_canonical htold (freeze config) installed (formed_freeze config hconfig)
      (alike_of_equal (freeze config) installed (formed_freeze config hconfig) hinstalled hfrozen)
    rw [canonical_freeze F config hconfig] at hafter
    rw [← fingerprint_congr F plugin hafter, fingerprint_congr F plugin hbefore]

end Datum

/-! ## payloads -/

mutual

/-- the data that payloads are elsewhere, where a sequence is a list and nothing is a set -/
def Datum.ofValue : Value → Datum
  | .none => .scalar .none
  | .bool b => .scalar (.bool b)
  | .int n => .scalar (.int n)
  | .float q => .scalar (.float (.finite q))
  | .str s => .str s
  | .list l => .list (ofValues l)
  | .dict items => .mapping false (ofItems items)
  | .object typeName _ => .str typeName

def Datum.ofValues : List Value → List Datum
  | [] => []
  | v :: l => ofValue v :: ofValues l

def Datum.ofItems : List (String × Value) → List (String × Datum)
  | [] => []
  | (k, v) :: l => (k, ofValue v) :: ofItems l

end

mutual

/-- the same, of canonical payloads -/
def Canonical.ofValue : Value → Canonical
  | .none => .scalar .none
  | .bool b => .scalar (.bool b)
  | .int n => .scalar (.int n)
  | .float q => .scalar (.float (.finite q))
  | .str s => .str s
  | .list l => .list (ofValues l)
  | .dict items => .dict (ofItems items)
  | .object typeName _ => .str typeName

def Canonical.ofValues : List Value → List Canonical
  | [] => []
  | v :: l => ofValue v :: ofValues l

def Canonical.ofItems : List (String × Value) → List (String × Canonical)
  | [] => []
  | (k, v) :: l => (k, ofValue v) :: ofItems l

end

theorem Canonical.ofItems_eq (l : List (String × Value)) :
    Canonical.ofItems l = l.map fun p => (p.1, Canonical.ofValue p.2) := by
  induction l with
  | nil => rfl
  | cons p l ih => rw [Canonical.ofItems, ih, List.map_cons]

theorem objectTypeItems?_eq_none {l : List (String × Value)} :
    objectTypeItems? l = none ↔ ∀ p ∈ l, p.2.objectType? = none := by
  induction l with
  | nil => exact iff_of_true rfl fun _ hp => nomatch hp
  | cons p l ih =>
    rw [List.forall_mem_cons, ← ih]
    exact Option.orElse_eq_none _ _

mutual

theorem objectType?_canonicalize : (v : Value) → v.objectType? = none →
    (canonicalize v).objectType? = none
  | .none, _ | .bool _, _ | .int _, _ | .str _, _ => rfl
  | .float q, _ => by
    rw [canonicalize, canonicalFloat]
    split <;> rfl
  | .list l, h => objectTypeList?_canonicalizeList l h
  | .dict items, h => by
    refine objectTypeItems?_eq_none.2 fun p hp => ?_
    exact objectTypeItems?_eq_none.1 (objectTypeItems?_canonicalizeItems items h) p
      (mem_sortedBy.1 hp)
  | .object _ _, h => nomatch h

theorem objectTypeList?_canonicalizeList : (l : List Value) → objectTypeList? l = none →
    objectTypeList? (canonicalizeList l) = none
  | [], _ => rfl
  | v :: l, h => by
    obtain ⟨hv, hl⟩ := (Option.orElse_eq_none _ _).1 h
    exact (Option.orElse_eq_none _ _).2
      ⟨objectType?_canonicalize v hv, objectTypeList?_canonicalizeList l hl⟩

theorem objectTypeItems?_canonicalizeItems : (l : List (String × Value)) →
    objectTypeItems? l = none → objectTypeItems? (canonicalizeItems l) = none
  | [], _ => rfl
  | (_, v) :: l, h => by
    obtain ⟨hv, hl⟩ := (Option.orElse_eq_none _ _).1 h
    exact (Option.orElse_eq_none _ _).2
      ⟨objectType?_canonicalize v hv, objectTypeItems?_canonicalizeItems l hl⟩

end

section
variable [Platform] {F : FloatFormat} (hround : ∀ q, F.round12 (.finite q) = .finite (round12 q))

section
include hround

mutual

/-- on payloads the two canonical forms are one -/
theorem canonical_ofValue : (v : Value) →
    (Datum.ofValue v).canonical F = Canonical.ofValue (canonicalize v)
  | .none | .bool _ | .int _ | .str _ | .object _ _ => rfl
  | .float q => by
    have hwhole : (PyFloat.finite q).whole? = if Small q then some q.num else none := rfl
    rw [Datum.ofValue, Datum.canonical, Scalar.canonical, hwhole, canonicalize, canonicalFloat_eq]
    split
    · rename_i n hn
      split at hn
      · rename_i hsmall
        cases hn
        rw [if_pos hsmall]
        rfl
      · cases hn
    · rename_i hn
      split at hn
      · cases hn
      · rename_i hsmall
        rw [if_neg hsmall, hround]
        rfl
  | .list l => congrArg Canonical.list (canonicalAll_ofValues l)
  | .dict items => by
    rw [Datum.ofValue, Datum.canonical, canonicalItems_ofItems items, canonicalize,
      Canonical.ofValue, Canonical.ofItems_eq, Canonical.ofItems_eq, sortedBy_map]

theorem canonicalAll_ofValues : (l : List Value) →
    Datum.canonicalAll F (Datum.ofValues l) = Canonical.ofValues (canonicalizeList l)
  | [] => rfl
  | v :: l => by
    rw [Datum.ofValues, Datum.canonicalAll, canonical_ofValue v, canonicalAll_ofValues l]
    rfl

theorem canonicalItems_ofItems : (l : List (String × Value)) →
    Datum.canonicalItems F (Datum.ofItems l) = Canonical.ofItems (canonicalizeItems l)
  | [] => rfl
  | (k, v) :: l => by
    rw [Datum.ofItems, Datum.canonicalItems, canonical_ofValue v, canonicalItems_ofItems l]
    rfl

end
end

variable (htext : ∀ q, F.text (.finite q) = (Platform.floatRepr q).toList)
include htext

mutual

theorem write_ofValue (style : JsonStyle) : (v : Value) → v.objectType? = none →
    (Canonical.ofValue v).write F style = style.value v
  | .none, _ | .bool _, _ | .int _, _ | .str _, _ => rfl
  | .float q, _ => htext q
  | .list [], _ => rfl
  | .list (v :: l), h => by
    obtain ⟨hv, hl⟩ := (Option.orElse_eq_none _ _).1 h
    rw [Canonical.ofValue, Canonical.ofValues, Canonical.write, Canonical.writeAll,
      JsonStyle.joined, JsonStyle.value, write_ofValue style v hv, writeAll_ofValues style l hl,
      List.append_assoc]
  | .dict [], _ => rfl
  | .dict ((k, v) :: l), h => by
    obtain ⟨hv, hl⟩ := (Option.orElse_eq_none _ _).1 h
    rw [Canonical.ofValue, Canonical.ofItems, Canonical.write, Canonical.writeItems,
      JsonStyle.joined, JsonStyle.value, write_ofValue style v hv, writeItems_ofItems style l hl]
    simp only [List.append_assoc, List.cons_append]
  | .object _ _, h => nomatch h

theorem writeAll_ofValues (style : JsonStyle) : (l : List Value) → objectTypeList? l = none →
    (Canonical.writeAll F style (Canonical.ofValues l)).flatMap
      (fun t => ',' :: (style.gap ++ t)) = style.elements l
  | [], _ => rfl
  | v :: l, h => by
    obtain ⟨hv, hl⟩ := (Option.orElse_eq_none _ _).1 h
    rw [Canonical.ofValues, Canonical.writeAll, List.flatMap_cons, writeAll_ofValues style l hl,
      write_ofValue style v hv, JsonStyle.elements, List.cons_append, List.append_assoc]

theorem writeItems_ofItems (style : JsonStyle) : (l : List (String × Value)) →
    objectTypeItems? l = none → (Canonical.writeItems F style (Canonical.ofItems l)).flatMap
      (fun t => ',' :: (style.gap ++ t)) = style.members l
  | [], _ => rfl
  | (k, v) :: l, h => by
    obtain ⟨hv, hl⟩ := (Option.orElse_eq_none _ _).1 h
    rw [Canonical.ofItems, Canonical.writeItems, List.flatMap_cons, writeItems_ofItems style l hl,
      write_ofValue style v hv, JsonStyle.members]
    simp only [List.append_assoc, List.cons_append]

end

include hround in
/-- **The fingerprint of a configuration that is a payload** is the one the reconciler compares. -/
theorem fingerprint_ofValue (plugin : String) {config : Dict String Value} (h : IsData config) :
    configFingerprint plugin config =
      .ok (Datum.fingerprint F plugin (Datum.ofValue (.dict config.items))) := by
  have hdata : (Value.dict [("plugin", .str plugin),
      ("config", .dict config.items)]).objectType? = none := by
    rw [objectType?_payload]
    exact h
  have hcanonical := canonical_ofValue hround
    (.dict [("plugin", .str plugin), ("config", .dict config.items)])
  unfold configFingerprint stableHash
  rw [hdata]
  refine congrArg (fun text => Except.ok (Platform.hashText text)) ?_
  show renderJson (canonicalize _) = String.ofList (Canonical.write F .compact
    (Datum.canonical F (Datum.ofValue (.dict [("plugin", .str plugin),
      ("config", .dict config.items)]))))
  rw [hcanonical, ← dumps_compact, write_ofValue htext _ _ (objectType?_canonicalize _ hdata)]
  rfl

end

namespace Decimals
open Datum

theorem isDigit_plain {c : Char} (h : c.isDigit = true) : delimiter c = false := by
  by_contra hdelimiter
  rw [Bool.not_eq_false] at hdelimiter
  simp only [delimiter, Bool.or_eq_true, decide_eq_true_eq] at hdelimiter
  rcases hdelimiter with ((((((rfl | rfl) | rfl) | rfl) | rfl) | rfl) | rfl) | rfl <;>
    exact absurd h (by decide)

theorem text_plain (q : Rat) : ∀ c ∈ (text q).toList, delimiter c = false := by
  have hplaces : ∀ c ∈ places q, delimiter c = false := by
    intro c hc
    have hsub := List.mem_of_mem_drop (List.mem_reverse.1
      ((List.dropWhile_sublist _).subset (List.mem_reverse.1 hc)))
    exact isDigit_plain (isDigit_repr hsub)
  intro c hc
  simp only [text, String.toList_append, List.mem_append] at hc
  rcases hc with ((hc | hc) | hc) | hc
  · split at hc
    · exact plain_of_all (by decide) c hc
    · cases hc
  · exact isDigit_plain (isDigit_repr hc)
  · exact plain_of_all (by decide) c hc
  · split at hc
    · exact plain_of_all (by decide) c hc
    · rw [String.toList_ofList] at hc
      exact hplaces c hc

theorem text_ne_nil (q : Rat) : (text q).toList ≠ [] := by
  simp only [text, String.toList_append]
  simp

/-- decimals are rounded and written exactly -/
def format : FloatFormat where
  round12
    | .finite q => if round12 q = 0 ∧ q < 0 then .negZero else .finite (round12 q)
    | f => f
  text
    | .finite q => (text q).toList
    | .negZero => "-0.0".toList
    | .infinite negative => if negative then "-Infinity".toList else "Infinity".toList
    | .nan _ => "NaN".toList
  text_ne_nil f := by
    cases f with
    | finite q => exact text_ne_nil q
    | negZero => decide
    | infinite negative => cases negative <;> decide
    | nan _ => exact (show "NaN".toList ≠ [] by decide)
  text_plain f := by
    cases f with
    | finite q => exact text_plain q
    | negZero => exact plain_of_all (by decide)
    | infinite negative => cases negative <;> exact plain_of_all (by decide)
    | nan _ =>
      exact plain_of_all (show "NaN".toList.all (fun c => !delimiter c) = true by decide)

/-- a tuple of a float that rounds to one -/
def nearOne (n : Nat) : Datum := .tuple [.scalar (.float (.finite (1 + 1 / 2 ^ n)))]

/-- a list and a set of two tuples, which round alike -/
def declared : Datum :=
  .mapping false [("order", .list [.scalar (.int 2), .scalar (.float (.finite (1 / 2)))]),
    ("members", .set false [nearOne 45, nearOne 46])]

/-- the same, with a float for an integer, and in other orders -/
def installing : Datum :=
  .mapping false [("members", .set false [nearOne 46, nearOne 45]),
    ("order", .list [.scalar (.float (.finite 2)), .scalar (.float (.finite (1 / 2)))])]

/-- that, frozen, in other orders again -/
def installed : Datum :=
  .mapping true [("order", .tuple [.scalar (.int 2), .scalar (.float (.finite (1 / 2)))]),
    ("members", .set true [nearOne 45, nearOne 46])]

theorem nearOne_formed (n m : Nat) (h : same (nearOne n) (nearOne m) = false) (frozen : Bool) :
    (set frozen [nearOne n, nearOne m]).Formed :=
  ⟨⟨⟨trivial, trivial⟩, ⟨trivial, trivial⟩, trivial⟩,
    ⟨⟨trivial, trivial⟩, ⟨trivial, trivial⟩, trivial⟩, by simp [h]⟩

theorem canonicalJson_freeze_installing :
    freeze (freeze installing) = freeze installing ∧
    (freeze installing).canonicalJson format = installing.canonicalJson format ∧
    fingerprint format "web" installed = fingerprint format "web" declared := by
  have hdeclared : declared.Formed := ⟨by decide, ⟨trivial, trivial, trivial⟩,
    nearOne_formed 45 46 (by decide +kernel) false, trivial⟩
  have hinstalling : installing.Formed := ⟨by decide, nearOne_formed 46 45 (by decide +kernel) false,
    ⟨trivial, trivial, trivial⟩, trivial⟩
  have hinstalled : installed.Formed := ⟨by decide, ⟨trivial, trivial, trivial⟩,
    nearOne_formed 45 46 (by decide +kernel) true, trivial⟩
  obtain ⟨hfreeze, -, hprint⟩ := canonicalJson_freeze format
  obtain ⟨htwice, htext, -⟩ := hfreeze installing hinstalling
  exact ⟨htwice, htext, hprint "web" declared installing installed hdeclared hinstalling hinstalled
    (by decide +kernel) (by decide +kernel)⟩

/-- a configuration of one scalar -/
def flag (s : Scalar) : Datum := .mapping false [("a", .scalar s)]

/-- True equals 1, and so do configurations with the one and the other; their fingerprints
differ. -/
theorem flags_are_numbers :
    (flag (.bool true)).Formed ∧ (flag (.int 1)).Formed ∧
    same (flag (.bool true)) (flag (.int 1)) = true ∧
    fingerprint format "web" (freeze (flag (.bool true))) ≠
      fingerprint format "web" (flag (.int 1)) :=
  ⟨⟨by decide, trivial, trivial⟩, ⟨by decide, trivial, trivial⟩, by decide +kernel,
    by decide +kernel⟩

end Decimals

end Chassis
