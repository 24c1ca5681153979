import Mathlib.Logic.Relation
import Chassis.Lib.Dict
import Chassis.Capabilities.Keys
import Chassis.Core.Values

/-!
# The hierarchy of composition scopes, as the resolver sees it

* `ScopeSpec`    one scope: its path, its parent, the capability view it declares;
* `ScopeIndex`   a validated hierarchy: distinct paths, a root, declared parents, no cycle;
* `lineage`      the paths from the root down to a scope;
* `allowed`      the intersection of the views declared along the lineage;
* `mem_lineage`, `exposes_iff`   what the two mean, in terms of the specs alone;
* `mem_ordered`  the walk from the root meets every scope below it.
-/

namespace Chassis
open Py

def rootScope : String := "/"

/-- structural description of one composition scope -/
structure ScopeSpec where
  path : String
  name : String
  parent : Option String
  capabilities : Option (List String) := none
  tools : Option (List String) := none
  requirements : List CapabilityRequirement := []
  metadata : Dict String Value := Dict.empty
  deriving DecidableEq

/-- the root scope used when no hierarchy is supplied -/
def rootSpec : ScopeSpec := { path := rootScope, name := "root", parent := none }

def specAt (specs : List ScopeSpec) (path : String) : Option ScopeSpec :=
  specs.find? (fun s => s.path = path)

/-- `chain` is what lies below `current`; the result is the chain from the root down -/
def climb (specs : List ScopeSpec) : Nat → List String → String → Except Err (List String)
  | 0, _, current => .error (ConfigurationError "composition scope cycle detected"
      [("path", current)])
  | n + 1, chain, current =>
    if current ∈ chain then
      .error (ConfigurationError "composition scope cycle detected" [("path", current)])
    else
      match (specAt specs current).bind ScopeSpec.parent with
      | none => .ok (current :: chain)
      | some parent => climb specs n (current :: chain) parent

/-- the walk of `_lineage`; no chain without repetition is longer than the specs -/
def lineageOf (specs : List ScopeSpec) (path : String) : Except Err (List String) :=
  climb specs (specs.length + 1) [] path

/-- the first path that occurs twice -/
def firstRepeated : List String → List String → Option String
  | _, [] => none
  | seen, p :: l => if p ∈ seen then some p else firstRepeated (seen ++ [p]) l

/-- a validated hierarchy of scope specifications -/
structure ScopeIndex where
  specs : List ScopeSpec
  paths_nodup : (specs.map ScopeSpec.path).Nodup
  root_mem : rootScope ∈ specs.map ScopeSpec.path
  parent_mem : ∀ s ∈ specs, ∀ p ∈ s.parent, p ∈ specs.map ScopeSpec.path
  rooted : ∀ s ∈ specs, (lineageOf specs s.path).isOk = true

namespace ScopeIndex

def make (specs : Option (List ScopeSpec)) : Except Err ScopeIndex :=
  let entries := specs.getD [rootSpec]
  let paths := entries.map ScopeSpec.path
  if h₁ : paths.Nodup then
    if h₂ : rootScope ∈ paths then
      if h₃ : ∀ s ∈ entries, ∀ p ∈ s.parent, p ∈ paths then
        if h₄ : ∀ s ∈ entries, (lineageOf entries s.path).isOk = true then
          .ok ⟨entries, h₁, h₂, h₃, h₄⟩
        else
          match entries.filterMap (fun s => match lineageOf entries s.path with
            | .error e => some e
            | .ok _ => none) with
          | e :: _ => .error e
          | [] => .error (ConfigurationError "composition scope cycle detected")
      else
        match entries.filterMap (fun s => s.parent.bind fun p =>
          if p ∈ paths then none else some (s.path, p)) with
        | (path, parent) :: _ => .error (ConfigurationError
            "composition scope parent is not declared" [("path", path), ("parent", parent)])
        | [] => .error (ConfigurationError "composition scope parent is not declared")
    else
      .error (ConfigurationError "composition scopes must include the root scope"
        [("path", rootScope)])
  else
    .error (ConfigurationError "duplicate composition scope path"
      [("path", (firstRepeated [] paths).getD "")])

variable (ix : ScopeIndex)

def spec? (path : String) : Option ScopeSpec := specAt ix.specs path

def paths : List String := ix.specs.map ScopeSpec.path

/-- the paths from the root down to `path` -/
def lineage (path : String) : List String :=
  match lineageOf ix.specs path with
  | .ok l => l
  | .error _ => []

/-- one more view along the lineage -/
def narrow (allowed : Option (List String)) (ancestor : String) : Option (List String) :=
  match (ix.spec? ancestor).bind ScopeSpec.capabilities with
  | none => allowed
  | some view =>
    match allowed with
    | none => some view
    | some l => some (l.filter (· ∈ view))

/-- the capabilities a scope may observe; `none` is all of them -/
def allowed (path : String) : Option (List String) := (ix.lineage path).foldl ix.narrow none

def require (path : String) : Except Err Unit :=
  if path ∈ ix.paths then .ok ()
  else .error (ConfigurationError "plugin entry refers to an undeclared composition scope"
    [("path", path)])

def children (path : String) : List String :=
  sorted ((ix.specs.filter (fun s => s.parent = some path)).map ScopeSpec.path)

/-- the subtree of `path` in pre-order -/
def walk : Nat → String → List ScopeSpec
  | 0, _ => []
  | n + 1, path => (ix.spec? path).toList ++ (ix.children path).flatMap (walk n)

def ordered : List ScopeSpec := ix.walk ix.specs.length rootScope

theorem mem_specs_of_walk {n : Nat} {path : String} {s : ScopeSpec} (h : s ∈ ix.walk n path) :
    s ∈ ix.specs := by
  induction n generalizing path with
  | zero => cases h
  | succ n ih =>
    rw [walk] at h
    rcases List.mem_append.1 h with h | h
    · exact List.mem_of_find?_eq_some (Option.mem_toList.1 h)
    · obtain ⟨child, -, h⟩ := List.mem_flatMap.1 h
      exact ih h

/-- whether the view of `consumer` contains `capability` -/
def exposes (consumer capability : String) : Bool :=
  match ix.allowed consumer with
  | none => true
  | some l => l.contains capability

def canSee (consumer provider capability : String) : Bool :=
  (ix.lineage consumer).contains provider && ix.exposes consumer capability

end ScopeIndex

/-! ## lineages, in terms of the specs -/

/-- `parent` is the declared parent of `child` -/
def ParentOf (specs : List ScopeSpec) (child parent : String) : Prop :=
  ∃ s ∈ specs, s.path = child ∧ s.parent = some parent

/-- `ancestor` is `path` or one of its ancestors -/
def OnLineage (specs : List ScopeSpec) : String → String → Prop :=
  Relation.ReflTransGen (ParentOf specs)

theorem specAt_eq_some {specs : List ScopeSpec} (h : (specs.map ScopeSpec.path).Nodup)
    {path : String} {s : ScopeSpec} : specAt specs path = some s ↔ s ∈ specs ∧ s.path = path := by
  constructor
  · intro hs
    exact ⟨List.mem_of_find?_eq_some hs, by simpa using List.find?_some hs⟩
  · rintro ⟨hs, rfl⟩
    obtain ⟨t, ht⟩ : ∃ t, specAt specs s.path = some t := by
      rw [← Option.isSome_iff_exists, specAt, List.find?_isSome]
      exact ⟨s, hs, by simp⟩
    have htp : t.path = s.path := by simpa using List.find?_some ht
    rw [ht, List.inj_on_of_nodup_map h (List.mem_of_find?_eq_some ht) hs htp]

theorem parentOf_iff {specs : List ScopeSpec} (h : (specs.map ScopeSpec.path).Nodup)
    {child parent : String} :
    ParentOf specs child parent ↔ (specAt specs child).bind ScopeSpec.parent = some parent := by
  rw [Option.bind_eq_some_iff]
  constructor
  · rintro ⟨s, hs, hc, hp⟩
    exact ⟨s, (specAt_eq_some h).2 ⟨hs, hc⟩, hp⟩
  · rintro ⟨s, hs, hp⟩
    obtain ⟨hs, hc⟩ := (specAt_eq_some h).1 hs
    exact ⟨s, hs, hc, hp⟩

theorem mem_climb {specs : List ScopeSpec} (h : (specs.map ScopeSpec.path).Nodup) {n : Nat}
    {chain l : List String} {current : String} (hl : climb specs n chain current = .ok l)
    {x : String} : x ∈ l ↔ x ∈ chain ∨ OnLineage specs current x := by
  induction n generalizing chain current with
  | zero => cases hl
  | succ n ih =>
    simp only [climb] at hl
    split at hl
    · cases hl
    · rw [OnLineage, Relation.ReflTransGen.cases_head_iff]
      split at hl
      · rename_i hnone
        have hno : ∀ p, ¬ ParentOf specs current p := fun p hp => by
          rw [parentOf_iff h, hnone] at hp
          cases hp
        cases hl
        simp [hno, or_comm, eq_comm]
      · rename_i p hp
        have hone : ∀ q, ParentOf specs current q ↔ q = p := fun q => by
          rw [parentOf_iff h, hp, Option.some_inj, eq_comm]
        rw [ih hl]
        simp only [hone, exists_eq_left, List.mem_cons]
        rw [or_assoc, or_comm (a := x = current), or_assoc, or_comm (b := x = current)]
        simp only [OnLineage, eq_comm]

theorem climb_nodup {specs : List ScopeSpec} {n : Nat} {chain l : List String}
    {current : String} (hchain : chain.Nodup) (h : climb specs n chain current = .ok l) : l.Nodup := by
  induction n generalizing chain current with
  | zero => cases h
  | succ n ih =>
    simp only [climb] at h
    split at h
    · cases h
    · rename_i hnew
      split at h
      · cases h
        exact List.nodup_cons.2 ⟨hnew, hchain⟩
      · exact ih (List.nodup_cons.2 ⟨hnew, hchain⟩) h

namespace ScopeIndex
variable (ix : ScopeIndex)

theorem mem_paths {path : String} : path ∈ ix.paths ↔ ∃ s ∈ ix.specs, s.path = path :=
  List.mem_map

/-- **The lineage of a declared scope is the scope and its ancestors.** -/
theorem mem_lineage {path : String} (h : path ∈ ix.paths) {x : String} :
    x ∈ ix.lineage path ↔ OnLineage ix.specs path x := by
  obtain ⟨s, hs, rfl⟩ := ix.mem_paths.1 h
  have hok := ix.rooted s hs
  rcases hl : lineageOf ix.specs s.path with e | l
  · rw [hl] at hok
    cases hok
  · rw [lineage, hl, mem_climb ix.paths_nodup hl]
    simp

theorem lineage_nodup (path : String) : (ix.lineage path).Nodup := by
  unfold lineage
  rcases hl : lineageOf ix.specs path with e | l
  · exact List.nodup_nil
  · exact climb_nodup List.nodup_nil hl

theorem onLineage_mem_paths {path x : String} (h : path ∈ ix.paths)
    (hx : OnLineage ix.specs path x) : x ∈ ix.paths := by
  induction hx with
  | refl => exact h
  | tail _ hp _ =>
    obtain ⟨s, hs, -, hpar⟩ := hp
    exact ix.parent_mem s hs _ hpar

theorem mem_foldl_narrow (l : List String) (a : Option (List String)) (c : String) :
    (∀ v ∈ l.foldl ix.narrow a, c ∈ v) ↔
      (∀ v ∈ a, c ∈ v) ∧ ∀ x ∈ l, ∀ v, (ix.spec? x).bind ScopeSpec.capabilities = some v → c ∈ v := by
  induction l generalizing a with
  | nil => simp
  | cons x l ih =>
    rw [List.foldl_cons, ih]
    have hstep : (∀ v ∈ ix.narrow a x, c ∈ v) ↔ (∀ v ∈ a, c ∈ v) ∧
        ∀ v, (ix.spec? x).bind ScopeSpec.capabilities = some v → c ∈ v := by
      simp only [narrow]
      rcases (ix.spec? x).bind ScopeSpec.capabilities with _ | view
      · simp
      · rcases a with _ | a
        · simp
        · simp
    rw [hstep]
    simp only [List.forall_mem_cons, and_assoc]

/-- **A scope exposes a capability iff every view declared along its lineage contains it.** -/
theorem exposes_iff {path c : String} (h : path ∈ ix.paths) : ix.exposes path c = true ↔
    ∀ s ∈ ix.specs, OnLineage ix.specs path s.path → ∀ v, s.capabilities = some v → c ∈ v := by
  have hall : ix.exposes path c = true ↔ ∀ v ∈ ix.allowed path, c ∈ v := by
    simp only [exposes]
    rcases ix.allowed path with _ | l <;> simp
  rw [hall, allowed, mem_foldl_narrow]
  constructor
  · rintro ⟨-, hx⟩ s hs hon v hv
    refine hx s.path ((ix.mem_lineage h).2 hon) v ?_
    rw [spec?, (specAt_eq_some ix.paths_nodup).2 ⟨hs, rfl⟩]
    exact hv
  · refine fun hx => ⟨by simp, fun x hxl v hv => ?_⟩
    obtain ⟨s, hat, hview⟩ := Option.bind_eq_some_iff.1 hv
    obtain ⟨hs, rfl⟩ := (specAt_eq_some ix.paths_nodup).1 hat
    exact hx s hs ((ix.mem_lineage h).1 hxl) v hview

theorem canSee_iff {consumer provider capability : String} (h : consumer ∈ ix.paths) :
    ix.canSee consumer provider capability = true ↔
      OnLineage ix.specs consumer provider ∧ ∀ s ∈ ix.specs,
        OnLineage ix.specs consumer s.path → ∀ v, s.capabilities = some v → capability ∈ v := by
  rw [canSee, Bool.and_eq_true, List.contains_iff_mem, ix.mem_lineage h, ix.exposes_iff h]

theorem make_specs {specs : Option (List ScopeSpec)} {ix : ScopeIndex} (h : make specs = .ok ix) :
    ix.specs = specs.getD [rootSpec] := by
  simp only [make] at h
  split at h
  · split at h
    · split at h
      · split at h
        · cases h
          rfl
        · split at h <;> cases h
      · split at h <;> cases h
    · cases h
  · cases h

end ScopeIndex

/-! ## the walk from the root -/

theorem climb_append {specs : List ScopeSpec} {n : Nat} {below chain l : List String}
    {current : String} (h : climb specs n (below ++ chain) current = .ok l) :
    ∃ above, climb specs n below current = .ok above ∧ l = above ++ chain := by
  induction n generalizing below current with
  | zero => cases h
  | succ n ih =>
    simp only [climb] at h ⊢
    split at h
    · cases h
    · rename_i hnew
      rw [if_neg fun hin => hnew (List.mem_append_left _ hin)]
      generalize (specAt specs current).bind ScopeSpec.parent = parent at h ⊢
      cases parent with
      | none =>
        cases h
        exact ⟨current :: below, rfl, rfl⟩
      | some parent =>
        rw [← List.cons_append] at h
        exact ih h

theorem climb_fuel {specs : List ScopeSpec} {n : Nat} {chain l : List String} {current : String}
    (h : climb specs n chain current = .ok l) : climb specs (n + 1) chain current = .ok l := by
  induction n generalizing chain current with
  | zero => cases h
  | succ n ih =>
    rw [climb] at h ⊢
    split at h
    · cases h
    · rename_i hnew
      rw [if_neg hnew]
      generalize (specAt specs current).bind ScopeSpec.parent = parent at h ⊢
      cases parent with
      | none => exact h
      | some parent => exact ih h

namespace ScopeIndex
variable (ix : ScopeIndex)

theorem lineage_child {child parent : String} (h : ParentOf ix.specs child parent) :
    ix.lineage child = ix.lineage parent ++ [child] := by
  obtain ⟨s, hs, rfl, hparent⟩ := h
  have hat : (specAt ix.specs s.path).bind ScopeSpec.parent = some parent :=
    (parentOf_iff ix.paths_nodup).1 ⟨s, hs, rfl, hparent⟩
  have hok := ix.rooted s hs
  rcases hl : lineageOf ix.specs s.path with e | l
  · rw [hl] at hok
    cases hok
  · have hclimb := hl
    unfold lineageOf climb at hclimb
    rw [if_neg List.not_mem_nil, hat] at hclimb
    obtain ⟨above, habove, rfl⟩ :=
      @climb_append ix.specs ix.specs.length [] [s.path] l parent hclimb
    unfold lineage
    rw [hl, show lineageOf ix.specs parent = .ok above from climb_fuel habove]

theorem length_lineage_le {x y : String} (h : OnLineage ix.specs x y) :
    (ix.lineage y).length ≤ (ix.lineage x).length := by
  induction h with
  | refl => exact le_refl _
  | tail _ hp ih =>
    rw [ix.lineage_child hp, List.length_append] at ih
    omega

theorem mem_children {child parent : String} :
    child ∈ ix.children parent ↔ ParentOf ix.specs child parent := by
  unfold children
  rw [mem_sortedBy, List.mem_map]
  constructor
  · rintro ⟨s, hs, rfl⟩
    obtain ⟨hs, hparent⟩ := List.mem_filter.1 hs
    exact ⟨s, hs, rfl, of_decide_eq_true hparent⟩
  · rintro ⟨s, hs, rfl, hparent⟩
    exact ⟨s, List.mem_filter.2 ⟨hs, decide_eq_true hparent⟩, rfl⟩

/-- the walk meets what is below a scope, as deep as its fuel reaches -/
theorem mem_walk {n : Nat} {path : String} {s : ScopeSpec} :
    s ∈ ix.walk n path ↔ s ∈ ix.specs ∧ OnLineage ix.specs s.path path ∧
      (ix.lineage s.path).length < (ix.lineage path).length + n := by
  induction n generalizing path with
  | zero =>
    refine iff_of_false List.not_mem_nil fun h => ?_
    have hle := ix.length_lineage_le h.2.1
    omega
  | succ n ih =>
    rw [walk, List.mem_append, List.mem_flatMap]
    constructor
    · rintro (h | ⟨child, hchild, h⟩)
      · obtain ⟨hs, rfl⟩ := (specAt_eq_some ix.paths_nodup).1 (Option.mem_toList.1 h)
        exact ⟨hs, .refl, by omega⟩
      · obtain ⟨hs, hon, hlt⟩ := ih.1 h
        have hparent := ix.mem_children.1 hchild
        rw [ix.lineage_child hparent, List.length_append, List.length_singleton] at hlt
        exact ⟨hs, hon.tail hparent, by omega⟩
    · rintro ⟨hs, hon, hlt⟩
      rcases Relation.ReflTransGen.cases_tail hon with heq | ⟨child, hon, hparent⟩
      · refine Or.inl (Option.mem_toList.2 ?_)
        exact (specAt_eq_some ix.paths_nodup).2 ⟨hs, heq.symm⟩
      · refine Or.inr ⟨child, ix.mem_children.2 hparent, ih.2 ⟨hs, hon, ?_⟩⟩
        rw [ix.lineage_child hparent, List.length_append, List.length_singleton]
        omega

/-- **The walk from the root meets exactly what is below it**: its fuel never runs out. -/
theorem mem_ordered {s : ScopeSpec} :
    s ∈ ix.ordered ↔ s ∈ ix.specs ∧ OnLineage ix.specs s.path rootScope := by
  unfold ordered
  rw [ix.mem_walk]
  refine ⟨fun h => ⟨h.1, h.2.1⟩, fun h => ⟨h.1, h.2, ?_⟩⟩
  have hroot : rootScope ∈ ix.lineage rootScope := (ix.mem_lineage ix.root_mem).2 .refl
  have hpos := List.length_pos_of_mem hroot
  have hpath : s.path ∈ ix.paths := List.mem_map_of_mem h.1
  have hle : (ix.lineage s.path).length ≤ ix.paths.length := by
    have hsub : ix.lineage s.path ⊆ ix.paths := fun x hx =>
      ix.onLineage_mem_paths hpath ((ix.mem_lineage hpath).1 hx)
    exact (List.subperm_of_subset (ix.lineage_nodup s.path) hsub).length_le
  rw [paths, List.length_map] at hle
  omega

end ScopeIndex
end Chassis
