import Chassis.Composition.Agreement
import Chassis.Plugins.Catalog

/-!
# Removing a scope

What `remove` takes away is decided three times: by a test on the texts of paths, by the lists of
children, and by the scopes that entries name.

* `isWithin_pathOf`   the test on texts compares the names on the paths;
* `Lodged`            entries are kept under their own ids, in scopes that the tree has;
* `Evicted`           the entries declared in some scopes go, and nothing else of the owner;
* `SubtreeRemoved`    exactly a scope and what is below it goes;
* `removes_subtree`   in every tree that its own scopes were built with.
-/

set_option linter.unusedSectionVars false

namespace Chassis
open Py

/-! ## paths and their names -/

theorem pathOf_nonempty {l : List String} (hl : ∀ name ∈ l, ValidName name) :
    Harness.pathOf l ≠ "" := by
  rcases l with _ | ⟨name, above⟩
  · decide
  · intro he
    have hlen := length_joinPath (Harness.pathOf above) (hl name List.mem_cons_self)
    rw [show joinPath (Harness.pathOf above) name = "" from he] at hlen
    exact absurd hlen (Nat.not_lt_zero _)

theorem pathOf_injective {l m : List String} (hl : ∀ name ∈ l, ValidName name)
    (hm : ∀ name ∈ m, ValidName name) (h : Harness.pathOf l = Harness.pathOf m) : l = m := by
  induction l generalizing m with
  | nil =>
    rcases m with _ | ⟨name, above⟩
    · rfl
    · exact absurd h.symm (joinPath_ne_root (hm name List.mem_cons_self))
  | cons name above ih =>
    have hname := hl name List.mem_cons_self
    rcases m with _ | ⟨name', above'⟩
    · exact absurd h (joinPath_ne_root hname)
    · have habove := fun n hn => hl n (List.mem_cons_of_mem name hn)
      have habove' := fun n hn => hm n (List.mem_cons_of_mem name' hn)
      obtain ⟨hpath, rfl⟩ := joinPath_injective (pathOf_nonempty habove) (pathOf_nonempty habove')
        hname (hm name' List.mem_cons_self) h
      rw [ih habove habove' hpath]

/-- **The test on texts** compares the names on the paths, the innermost first. -/
theorem isWithin_pathOf {l m : List String} (hl : ∀ name ∈ l, ValidName name)
    (hm : ∀ name ∈ m, ValidName name) (hne : m ≠ []) :
    CompositionTree.isWithin (Harness.pathOf l) (Harness.pathOf m) = true ↔ m <:+ l := by
  induction l with
  | nil =>
    refine iff_of_false (HandleTree.not_isWithin_root ?_ (pathOf_nonempty hm)) ?_
    · intro hroot
      exact hne (pathOf_injective hm (fun _ hn => nomatch hn) hroot)
    · intro hsuffix
      exact hne (List.suffix_nil.1 hsuffix)
  | cons name above ih =>
    have hsame : Harness.pathOf (name :: above) = Harness.pathOf m ↔ m = name :: above := by
      refine ⟨fun h => (pathOf_injective hl hm h).symm, fun h => by rw [h]⟩
    rw [List.suffix_cons_iff, ← ih fun n hn => hl n (List.mem_cons_of_mem _ hn), ← hsame]
    exact CompositionTree.isWithin_joinPath (hl name List.mem_cons_self)

/-- a path is another one, or lies below it: its outer names are those of the other -/
def Under (path ancestor : String) : Prop := Harness.segments ancestor <:+ Harness.segments path

instance (path ancestor : String) : Decidable (Under path ancestor) :=
  inferInstanceAs (Decidable (Harness.segments ancestor <:+ Harness.segments path))

theorem Handle.segments_path (c : Handle) : Harness.segments c.path = c.names := by
  have hcanon := canonicalScopePath_path c
  refine pathOf_injective (fun _ hn => validName_of_segments hcanon hn)
    (fun _ hn => Handle.validName_of_names hn) ?_
  rw [pathOf_segments hcanon, c.path_eq]

theorem isWithin_iff_under {c : Handle} {path : String}
    (hpath : canonicalScopePath path = .ok path) (hroot : path ≠ rootScope) :
    CompositionTree.isWithin c.path path = true ↔ Under c.path path := by
  have hne : Harness.segments path ≠ [] := by
    intro hnil
    have hsame := pathOf_segments hpath
    rw [hnil] at hsame
    exact hroot hsame.symm
  unfold Under
  rw [c.segments_path, ← isWithin_pathOf (fun _ hn => Handle.validName_of_names hn)
    (fun _ hn => validName_of_segments hpath hn) hne, ← c.path_eq, pathOf_segments hpath]

namespace HandleTree
variable {t t' : HandleTree}

/-! ## the entries of the owner -/

/-- entries are kept under their own ids, in scopes that the tree has -/
def Lodged (t : HandleTree) : Prop :=
  ∀ id e, t.owner.entries.get? id = some e → e.entryId = id ∧ (t.index.get? e.scope).isSome

structure Evicted (paths : String → Prop) (r r' : PluginRegistry) : Prop where
  rest : r' = { r with entries := r'.entries }
  entries : ∀ id e, r'.entries.get? id = some e ↔
    r.entries.get? id = some e ∧ ¬ paths e.scope

theorem evicted_drop (hkeys : ∀ id e, t.owner.entries.get? id = some e → e.entryId = id)
    (scope : Handle) : Evicted (· = scope.path) t.owner (t.drop scope).owner := by
  have howner : (t.drop scope).owner = { t.owner with
      entries := (t.owner.entriesForScope scope.path).foldl (fun d e => d.erase e)
        t.owner.entries } := t.owner.uninstallEach _
  rw [howner]
  refine ⟨rfl, fun id e => ?_⟩
  show ((t.owner.entriesForScope scope.path).foldl (fun d e => d.erase e)
    t.owner.entries).get? id = some e ↔ _
  rw [Dict.get?_foldl_erase (fun e : String => e)]
  have hlisted : (∃ a ∈ t.owner.entriesForScope scope.path, a = id) ↔
      ∃ e, t.owner.entries.get? id = some e ∧ e.scope = scope.path := by
    rw [exists_eq_right, PluginRegistry.mem_entriesForScope hkeys]
  constructor
  · intro h
    split at h
    · cases h
    · rename_i hout
      refine ⟨h, fun hscope => hout ?_⟩
      exact hlisted.2 ⟨e, h, hscope⟩
  · rintro ⟨h, hscope⟩
    rw [if_neg, h]
    intro hin
    obtain ⟨e', he', hscope'⟩ := hlisted.1 hin
    rw [h] at he'
    cases he'
    exact hscope hscope'

theorem Evicted.keys {paths : String → Prop} {r r' : PluginRegistry} (h : Evicted paths r r')
    (hkeys : ∀ id e, r.entries.get? id = some e → e.entryId = id) :
    ∀ id e, r'.entries.get? id = some e → e.entryId = id :=
  fun id e he => hkeys id e ((h.entries id e).1 he).1

theorem evicted_foldl_drop (gone : List Handle) {t : HandleTree}
    (hkeys : ∀ id e, t.owner.entries.get? id = some e → e.entryId = id) :
    Evicted (fun path => ∃ s ∈ gone, path = s.path) t.owner (gone.foldl drop t).owner := by
  induction gone generalizing t with
  | nil =>
    refine ⟨rfl, fun id e => (and_iff_left ?_).symm⟩
    rintro ⟨s, hs, -⟩
    cases hs
  | cons scope gone ih =>
    have hone := evicted_drop hkeys scope
    have hrest := ih (hone.keys hkeys)
    refine ⟨?_, fun id e => ?_⟩
    · show ((gone.foldl drop (t.drop scope)).owner : PluginRegistry) = { t.owner with
        entries := (gone.foldl drop (t.drop scope)).owner.entries }
      rw [hrest.rest, hone.rest]
    · show (gone.foldl drop (t.drop scope)).owner.entries.get? id = some e ↔ _
      rw [hrest.entries, hone.entries, and_assoc, List.exists_mem_cons_iff, not_or]

theorem mem_withdrawn (gone : List Handle) {t : HandleTree}
    (hkeys : ∀ id e, t.owner.entries.get? id = some e → e.entryId = id) {id : String} :
    id ∈ withdrawn gone t ↔
      ∃ e, t.owner.entries.get? id = some e ∧ ∃ s ∈ gone, e.scope = s.path := by
  induction gone generalizing t with
  | nil =>
    refine iff_of_false List.not_mem_nil ?_
    rintro ⟨e, -, s, hs, -⟩
    cases hs
  | cons scope gone ih =>
    have hone := evicted_drop hkeys scope
    rw [withdrawn, List.mem_append, PluginRegistry.mem_entriesForScope hkeys,
      ih (hone.keys hkeys)]
    constructor
    · rintro (⟨e, he, hscope⟩ | ⟨e, he, s, hs, hscope⟩)
      · exact ⟨e, he, scope, List.mem_cons_self, hscope⟩
      · exact ⟨e, ((hone.entries id e).1 he).1, s, List.mem_cons_of_mem _ hs, hscope⟩
    · rintro ⟨e, he, s, hs, hscope⟩
      by_cases hfirst : e.scope = scope.path
      · exact Or.inl ⟨e, he, hfirst⟩
      · rcases List.mem_cons.1 hs with rfl | hs
        · exact absurd hscope hfirst
        · exact Or.inr ⟨e, (hone.entries id e).2 ⟨he, hfirst⟩, s, hs, hscope⟩

theorem nodup_withdrawn (gone : List Handle) {t : HandleTree}
    (hkeys : ∀ id e, t.owner.entries.get? id = some e → e.entryId = id) :
    (withdrawn gone t).Nodup := by
  induction gone generalizing t with
  | nil => exact List.nodup_nil
  | cons scope gone ih =>
    have hone := evicted_drop hkeys scope
    refine List.nodup_append.2 ⟨PluginRegistry.nodup_entriesForScope hkeys _,
      ih (hone.keys hkeys), ?_⟩
    rintro id hid id' hid' rfl
    obtain ⟨e, he, hscope⟩ := (PluginRegistry.mem_entriesForScope hkeys).1 hid
    obtain ⟨e', he', -⟩ := (mem_withdrawn gone (hone.keys hkeys)).1 hid'
    obtain ⟨hbefore, hkept⟩ := (hone.entries id e').1 he'
    rw [he] at hbefore
    cases hbefore
    exact hkept hscope

/-! ## where entries are -/

/-- scopes are only added, and the owner is left alone -/
structure Widened (t t' : HandleTree) : Prop where
  owner : t'.owner = t.owner
  index : ∀ path, (t.index.get? path).isSome → (t'.index.get? path).isSome

namespace Widened

theorem refl (t : HandleTree) : Widened t t := ⟨rfl, fun _ h => h⟩

theorem trans {t'' : HandleTree} (a : Widened t t') (b : Widened t' t'') : Widened t t'' :=
  ⟨b.owner.trans a.owner, fun path h => b.index path (a.index path h)⟩

theorem lodged (a : Widened t t') (hl : t.Lodged) : t'.Lodged := by
  intro id e he
  rw [a.owner] at he
  exact ⟨(hl id e he).1, a.index _ (hl id e he).2⟩

end Widened

theorem widened_attach {scope : Handle} (h : t.attach scope = .ok t') : Widened t t' := by
  obtain ⟨-, parent, -, rfl⟩ := attach_ok.1 h
  refine ⟨rfl, fun path hpath => ?_⟩
  rw [index_graft]
  split
  · rfl
  · exact hpath

theorem widened_child (t : HandleTree) (parent : Handle) (name : String)
    (capabilities tools : Option (List String)) (metadata : Dict String Value) :
    Widened t (t.child parent name capabilities tools metadata).2 := by
  unfold child
  split
  · exact .refl t
  · rename_i hname
    have hconstruct : Widened t (t.construct parent ⟨name, hname⟩
      ⟨capabilities.map nameSet, tools.map nameSet, metadata, Dict.empty⟩).2 :=
      ⟨rfl, fun _ h => h⟩
    simp only
    split
    · exact hconstruct
    · rename_i hatt
      exact hconstruct.trans (widened_attach hatt)

theorem widened_ensureNames (t : HandleTree) (l : List String) :
    Widened t (t.ensureNames l).2 := by
  induction l with
  | nil => exact .refl t
  | cons name above ih =>
    rw [ensureNames]
    split
    · exact .refl t
    · split
      · rename_i hens
        rw [hens] at ih
        exact ih
      · rename_i hens
        rw [hens] at ih
        exact ih.trans (widened_child _ _ _ _ _ _)

theorem widened_ensure (t : HandleTree) (path : String) : Widened t (t.ensure path).2 := by
  unfold ensure
  split
  · exact .refl t
  · exact t.widened_ensureNames _

theorem widened_resolveParent (t : HandleTree) (parent : ScopeArg) (createParents : Bool) :
    Widened t (t.resolveParent parent createParents).2 := by
  cases parent with
  | none => exact .refl t
  | scope scope => exact .refl t
  | path path =>
    unfold resolveParent
    simp only
    split
    · exact t.widened_ensure path
    · split <;> exact .refl t

namespace Sound
variable (hs : t.Sound)
include hs

theorem remove_present {path : String} {scope : Handle} (hroot : path ≠ rootScope)
    (hget : t.index.get? path = some scope) :
    ∃ parent, scope.parent = some parent ∧
      t.remove path = (.ok (sorted (withdrawn (t.descendants path) t)),
        { (t.descendants path).foldl drop t with
          children := Function.update t.children parent ((t.children parent).erase scope)
          dirty := true }) := by
  obtain ⟨hpath, -⟩ := hs.keyed hget
  have hlinked := (hs.indexed.1 hget).1
  cases scope with
  | root => exact absurd hpath.symm hroot
  | child parent name serial =>
    refine ⟨parent, rfl, ?_⟩
    have hcanon := canonicalScopePath_path (.child parent name serial)
    rw [hpath] at hcanon
    obtain ⟨hchildren, -, -⟩ := foldl_drop (t.descendants path) t
    unfold remove
    rw [if_neg hroot, hcanon]
    simp only [hget]
    simp only [Handle.parent]
    rw [hchildren, if_pos (linked_child.1 hlinked).2]

theorem remove_absent {path : String} (hcanon : canonicalScopePath path = .ok path)
    (hroot : path ≠ rootScope) (hget : t.index.get? path = none) :
    t.remove path = (.ok [], t) := by
  unfold remove
  rw [if_neg hroot, hcanon]
  simp only [hget]

theorem path_gone {path : String} (hcanon : canonicalScopePath path = .ok path)
    (hroot : path ≠ rootScope) {p : String} {c : Handle} (hget : t.index.get? p = some c) :
    (∃ d ∈ t.descendants path, p = d.path) ↔ Under p path := by
  obtain ⟨hlinked, rfl⟩ := hs.indexed.1 hget
  rw [← isWithin_iff_under hcanon hroot]
  constructor
  · rintro ⟨d, hd, hpath⟩
    obtain ⟨-, hw⟩ := (mem_descendants hs.toFormed).1 hd
    rw [hpath]
    exact hw
  · intro hw
    exact ⟨c, (mem_descendants hs.toFormed).2 ⟨hlinked, hw⟩, rfl⟩

theorem under_present {path : String} (hcanon : canonicalScopePath path = .ok path) {c : Handle}
    (hc : t.Linked c) (hunder : Under c.path path) : (t.index.get? path).isSome := by
  unfold Under at hunder
  rw [c.segments_path] at hunder
  have hhere : ∀ {d : Handle}, t.Linked d → Harness.segments path = d.names →
      (t.index.get? path).isSome := by
    intro d hd hnames
    have hpath : d.path = path := by rw [d.path_eq, ← hnames, pathOf_segments hcanon]
    rw [hs.indexed.2 ⟨hd, hpath⟩]
    rfl
  induction c with
  | root => exact hhere hc (List.suffix_nil.1 hunder)
  | child parent name serial ih =>
    rcases List.suffix_cons_iff.1 hunder with hsame | hunder
    · exact hhere hc hsame
    · exact ih (linked_child.1 hc).1 hunder

end Sound

/-- **Every call keeps entries in scopes of the tree.** -/
theorem Lodged.step (hl : t.Lodged) (hs : t.Sound) (op : TreeOp) : (t.step op).Lodged := by
  cases op with
  | child scope name capabilities tools metadata => exact (t.widened_child _ _ _ _ _).lodged hl
  | treeChild name parent capabilities tools metadata createParents =>
    have hparent := t.widened_resolveParent parent createParents
    show (t.treeChild _ _ _ _ _ _).2.Lodged
    unfold treeChild
    split
    · rename_i hres
      rw [hres] at hparent
      exact hparent.lodged hl
    · rename_i hres
      rw [hres] at hparent
      exact (hparent.trans (widened_child _ _ _ _ _ _)).lodged hl
  | ensure path => exact (t.widened_ensure path).lodged hl
  | attach scope =>
    rw [step_attach]
    rcases hatt : t.attach scope with e | t'
    · exact hl
    · exact (widened_attach hatt).lodged hl
  | remove path =>
    show (t.remove path).2.Lodged
    rcases remove_cases hs.toFormed path with heq | ⟨scope, parent, hne, hget, rfl, -, hr⟩
    · rw [heq]
      exact hl
    · obtain ⟨parent', -, heq⟩ := hs.remove_present hne hget
      have hev := evicted_foldl_drop (t.descendants scope.path) fun id e he => (hl id e he).1
      intro id e he
      have howner : (t.remove scope.path).2.owner =
          ((t.descendants scope.path).foldl drop t).owner := by rw [heq]
      rw [howner, hev.entries] at he
      refine ⟨(hl id e he.1).1, ?_⟩
      rw [hr.index, if_neg]
      · exact (hl id e he.1).2
      · rintro ⟨d, hd, hscope⟩
        exact he.2 ⟨d, hd, hscope.symm⟩
  | declare scope change => exact hl
  | install plugin entryId replace scope =>
    show (t.install plugin entryId replace scope).2.Lodged
    unfold HandleTree.install
    split
    · exact hl
    · rename_i path hpath
      split
      · exact hl
      · rename_i entry owner hinst
        obtain ⟨-, -, -, -, hscope, -, rfl⟩ := PluginRegistry.install_ok hinst
        intro id e he
        have he' : (t.owner.entries.set entry.entryId entry).get? id = some e := he
        rw [Dict.get?_set] at he'
        split at he'
        · rename_i hid
          cases he'
          refine ⟨hid.symm, ?_⟩
          obtain ⟨c, hc⟩ := scopePath_indexed hs.toFormed hpath
          show (t.index.get? entry.scope).isSome
          rw [hscope, hc]
          rfl
        · exact hl id e he'
  | uninstall entryId =>
    intro id e he
    have he' : (t.owner.entries.erase entryId).get? id = some e := he
    rw [Dict.get?_erase] at he'
    split at he'
    · cases he'
    · exact hl id e he'

/-! ## what goes -/

/-- **Exactly a scope and what is below it goes**: of the index, of the structure and of the
entries. -/
structure SubtreeRemoved (t : HandleTree) (path : String) (listed : List String)
    (t' : HandleTree) : Prop where
  found : ∀ p c, t'.get p = .ok (some c) ↔ t.get p = .ok (some c) ∧ ¬ Under p path
  walked : ∀ p, p ∈ t'.paths ↔ p ∈ t.paths ∧ ¬ Under p path
  entries : ∀ id e, t'.owner.entry? id = some e ↔
    t.owner.entry? id = some e ∧ ¬ Under e.scope path
  /-- the ids of the entries declared in the scopes that went -/
  returned : ∀ id, id ∈ listed ↔ ∃ e c, t.owner.entry? id = some e ∧
    t.get e.scope = .ok (some c) ∧ Under e.scope path
  sorted : listed.Pairwise (· < ·)
  /-- the revisions too are what they were -/
  owner : t'.owner = { t.owner with entries := t'.owner.entries }
  declared : t'.declared = t.declared
  children : ∀ p c, t'.get p = .ok (some c) →
    t'.children c = (t.children c).filter fun d => d.path ≠ path

theorem Formed.get_iff (hf : t.Formed) {p : String} {c : Handle} :
    t.get p = .ok (some c) ↔ t.index.get? p = some c := by
  refine ⟨hf.get_some, fun h => ?_⟩
  obtain ⟨rfl, -⟩ := hf.keyed h
  exact bind_ok.2 ⟨_, canonicalScopePath_path c, congrArg Except.ok h⟩

theorem foldl_drop_declared (gone : List Handle) (t : HandleTree) :
    (gone.foldl drop t).declared = t.declared := by
  induction gone generalizing t with
  | nil => rfl
  | cons scope gone ih => exact ih (t.drop scope)

/-- in a sound tree, the scope that a path leads to is the only one on a list with that path -/
theorem Sound.children_filter (hs : t.Sound) {path : String} {scope parent c : Handle}
    (hget : t.index.get? path = some scope) (hparent : scope.parent = some parent)
    (hc : t.Linked c) :
    Function.update t.children parent ((t.children parent).erase scope) c =
      (t.children c).filter fun d => d.path ≠ path := by
  have hlinked : ∀ d ∈ t.children c, t.Linked d := by
    intro d hd
    obtain ⟨name, serial, rfl⟩ := hs.child_cases hd
    exact linked_child.2 ⟨hc, hd⟩
  have hsame : ∀ d ∈ t.children c, d.path = path ↔ d = scope := by
    intro d hd
    constructor
    · intro hpath
      have hind := hs.indexed.2 ⟨hlinked d hd, hpath⟩
      rw [hget] at hind
      exact (Option.some.inj hind).symm
    · rintro rfl
      exact (hs.keyed hget).1
  have hfilter : ((t.children c).filter fun d => d.path ≠ path) =
      (t.children c).filter fun d => d ≠ scope := by
    refine List.filter_congr fun d hd => ?_
    rw [decide_eq_decide, not_iff_not]
    exact hsame d hd
  rw [hfilter, Function.update_apply]
  split
  · rename_i hcp
    subst hcp
    rw [(hs.once c).erase_eq_filter]
    refine List.filter_congr fun d _ => ?_
    show (!decide (d = scope)) = _
    rw [decide_not]
  · rename_i hcp
    refine (List.filter_eq_self.2 fun d hd => decide_eq_true ?_).symm
    rintro rfl
    have hp := (hs.listed hd).1
    rw [hparent] at hp
    exact hcp (Option.some.inj hp).symm

/-- **Removing a scope** of a sound tree. -/
theorem Sound.remove_subtree (hs : t.Sound) (hl : t.Lodged) {path : String}
    (hcanon : canonicalScopePath path = .ok path) (hroot : path ≠ rootScope) :
    ∃ listed, (t.remove path).1 = .ok listed ∧
      SubtreeRemoved t path listed (t.remove path).2 := by
  have hkeys : ∀ id e, t.owner.entries.get? id = some e → e.entryId = id :=
    fun id e he => (hl id e he).1
  have hhoused : ∀ {id e}, t.owner.entries.get? id = some e →
      ∃ c, t.index.get? e.scope = some c := fun he => Option.isSome_iff_exists.1 (hl _ _ he).2
  rcases hget : t.index.get? path with _ | scope
  · have hnone : ∀ {p c}, t.index.get? p = some c → ¬ Under p path := by
      intro p c hc hunder
      obtain ⟨hlinked, rfl⟩ := hs.indexed.1 hc
      have hsome := hs.under_present hcanon hlinked hunder
      rw [hget] at hsome
      cases hsome
    have hentry : ∀ {id e}, t.owner.entries.get? id = some e → ¬ Under e.scope path := by
      intro id e he
      obtain ⟨c, hc⟩ := hhoused he
      exact hnone hc
    rw [hs.remove_absent hcanon hroot hget]
    refine ⟨[], rfl, ⟨?_, ?_, ?_, ?_, List.Pairwise.nil, rfl, rfl, ?_⟩⟩
    · intro p c
      exact (and_iff_left_of_imp fun h => hnone (hs.get_some h)).symm
    · intro p
      refine (and_iff_left_of_imp fun h => ?_).symm
      obtain ⟨c, hc⟩ := hs.mem_paths.1 h
      exact hnone hc
    · intro id e
      exact (and_iff_left_of_imp hentry).symm
    · intro id
      refine iff_of_false List.not_mem_nil ?_
      rintro ⟨e, -, he, -, hunder⟩
      exact hentry he hunder
    · intro p c hc
      have hlinked := (hs.indexed.1 (hs.get_some hc)).1
      refine (List.filter_eq_self.2 fun d hd => decide_eq_true ?_).symm
      rintro rfl
      obtain ⟨name, serial, rfl⟩ := hs.child_cases hd
      rw [hs.indexed.2 ⟨linked_child.2 ⟨hlinked, hd⟩, rfl⟩] at hget
      cases hget
  · obtain ⟨hpath, -⟩ := hs.keyed hget
    obtain ⟨parent, hparent, heq⟩ := hs.remove_present hroot hget
    have hr : Removed t (t.remove path).2 scope parent := by
      obtain ⟨-, hcreated, hindex⟩ := foldl_drop (t.descendants path) t
      rw [heq]
      refine ⟨hcreated, rfl, fun k => ?_⟩
      show ((t.descendants path).foldl drop t).index.get? k = _
      rw [hindex, Dict.get?_foldl_erase, hpath]
    have hs' : (t.remove path).2.Sound :=
      hs.removed (by rw [Live, hpath]; exact hget) hparent (hpath ▸ hroot) hr
    have hev := evicted_foldl_drop (t.descendants path) hkeys
    have hindex : ∀ {p c}, (t.remove path).2.index.get? p = some c ↔
        t.index.get? p = some c ∧ ¬ Under p path := by
      intro p c
      rw [hr.index, hpath]
      constructor
      · intro h
        split at h
        · cases h
        · rename_i hout
          refine ⟨h, fun hunder => hout ?_⟩
          obtain ⟨d, hd, hp⟩ := (hs.path_gone hcanon hroot h).2 hunder
          exact ⟨d, hd, hp.symm⟩
      · rintro ⟨h, hunder⟩
        rw [if_neg, h]
        rintro ⟨d, hd, hp⟩
        exact hunder ((hs.path_gone hcanon hroot h).1 ⟨d, hd, hp.symm⟩)
    have hunder : ∀ {id e}, t.owner.entries.get? id = some e →
        ((∃ s ∈ t.descendants path, e.scope = s.path) ↔ Under e.scope path) := by
      intro id e he
      obtain ⟨c, hc⟩ := hhoused he
      exact hs.path_gone hcanon hroot hc
    have howner : (t.remove path).2.owner = ((t.descendants path).foldl drop t).owner := by
      rw [heq]
    refine ⟨sorted (withdrawn (t.descendants path) t), by rw [heq],
      ⟨?_, ?_, ?_, ?_, ?_, ?_, ?_, ?_⟩⟩
    · intro p c
      rw [hs'.get_iff, hs.get_iff]
      exact hindex
    · intro p
      rw [hs'.mem_paths, hs.mem_paths, exists_congr fun c => hindex, exists_and_right]
    · intro id e
      show (t.remove path).2.owner.entries.get? id = some e ↔ t.owner.entries.get? id = some e ∧ _
      rw [howner, hev.entries]
      exact and_congr_right fun he => not_congr (hunder he)
    · intro id
      rw [mem_sortedBy, mem_withdrawn _ hkeys]
      constructor
      · rintro ⟨e, he, hgone⟩
        obtain ⟨c, hc⟩ := hhoused he
        exact ⟨e, c, he, hs.get_iff.2 hc, (hunder he).1 hgone⟩
      · rintro ⟨e, c, he, -, hgone⟩
        exact ⟨e, he, (hunder he).2 hgone⟩
    · have hle := sortedBy_pairwise (fun id : String => id) (withdrawn (t.descendants path) t)
      have hne : (sorted (withdrawn (t.descendants path) t)).Nodup :=
        sortedBy_nodup (nodup_withdrawn _ hkeys)
      exact hle.imp₂ (fun a b hab hne => lt_of_le_of_ne hab hne) hne
    · rw [howner]
      exact hev.rest
    · rw [heq]
      exact foldl_drop_declared _ t
    · intro p c hc
      have hbefore := hindex.1 (hs'.get_some hc)
      rw [hr.children]
      exact hs.children_filter hget hparent (hs.indexed.1 hbefore.1).1

/-! ## trees that their own scopes were built with -/

instance (t : HandleTree) (scope : Handle) : Decidable (t.Live scope) :=
  inferInstanceAs (Decidable (t.index.get? scope.path = some scope))

/-- A call is made on scopes that the tree has.  Nobody attaches a scope but `child`. -/
def OnTree (t : HandleTree) : TreeOp → Prop
  | .child scope _ _ _ _ => t.Live scope
  | .treeChild _ (.scope scope) _ _ _ _ => t.Live scope
  | .attach _ => False
  | .declare scope _ => t.Live scope
  | .install _ _ _ (.scope scope) => t.Live scope
  | _ => True

instance decidableOnTree (t : HandleTree) : ∀ op : TreeOp, Decidable (t.OnTree op)
  | .child scope _ _ _ _ => inferInstanceAs (Decidable (t.Live scope))
  | .treeChild _ .none _ _ _ _ => isTrue trivial
  | .treeChild _ (.path _) _ _ _ _ => isTrue trivial
  | .treeChild _ (.scope scope) _ _ _ _ => inferInstanceAs (Decidable (t.Live scope))
  | .ensure _ => isTrue trivial
  | .attach _ => isFalse id
  | .remove _ => isTrue trivial
  | .declare scope _ => inferInstanceAs (Decidable (t.Live scope))
  | .install _ _ _ .none => isTrue trivial
  | .install _ _ _ (.path _) => isTrue trivial
  | .install _ _ _ (.scope scope) => inferInstanceAs (Decidable (t.Live scope))
  | .uninstall _ => isTrue trivial

theorem Formed.obtained (hf : t.Formed) {op : TreeOp} (h : t.OnTree op) : op.Obtained t := by
  have hlive : ∀ {scope : Handle}, t.Live scope → scope.Issued t.created :=
    fun hl => (hf.keyed hl).2
  cases op with
  | child scope name capabilities tools metadata => exact hlive h
  | treeChild name parent capabilities tools metadata createParents =>
    cases parent with
    | none => trivial
    | path path => trivial
    | scope scope => exact hlive h
  | ensure path => trivial
  | attach scope => exact absurd h id
  | remove path => trivial
  | declare scope change => exact hlive h
  | install plugin entryId replace scope =>
    cases scope with
    | none => trivial
    | path path => trivial
    | scope scope => exact hlive h
  | uninstall entryId => trivial

theorem OnTree.grounded {op : TreeOp} (h : t.OnTree op) : t.Grounded op := by
  cases op with
  | child scope name capabilities tools metadata => exact Or.inr h
  | treeChild name parent capabilities tools metadata createParents =>
    cases parent with
    | none => trivial
    | path path => trivial
    | scope scope => exact Or.inr h
  | ensure path => trivial
  | attach scope => exact absurd h id
  | remove path => trivial
  | declare scope change => trivial
  | install plugin entryId replace scope => trivial
  | uninstall entryId => trivial

theorem lodged_new : ({} : HandleTree).Lodged := fun _ _ he => nomatch he

/-- **What `child`, `ensure` and the installations lead to** is sound, and houses its entries. -/
theorem sound_after {ops : List TreeOp} (h : Calls.Throughout step {} OnTree ops) :
    (after ops).Sound ∧ (after ops).Lodged := by
  refine Calls.run_invariant (I := fun t => t.Sound ∧ t.Lodged) ⟨sound_new, lodged_new⟩ ?_ h
  rintro t op ⟨hs, hl⟩ hop
  exact ⟨hs.step (hs.obtained hop) hop.grounded, hl.step hs op⟩

/-- **Removing a scope removes exactly its subtree**, after any calls on scopes of the tree. -/
theorem removes_subtree {ops : List TreeOp} (h : Calls.Throughout step {} OnTree ops)
    {path : String} (hcanon : canonicalScopePath path = .ok path) (hroot : path ≠ rootScope) :
    ∃ listed, ((after ops).remove path).1 = .ok listed ∧
      SubtreeRemoved (after ops) path listed ((after ops).remove path).2 := by
  obtain ⟨hs, hl⟩ := sound_after h
  exact hs.remove_subtree hl hcanon hroot

/-- a scope with a child, and one whose name begins alike, with an entry in each and one at the
root -/
def similarCalls : List TreeOp :=
  [.child .root "x" none none Dict.empty, .child firstScope "y" none none Dict.empty,
    .ensure "/xy", .install (plainPlugin "a" [] [] []) none false (.path "/xy"),
    .install (plainPlugin "d" [] [] []) none false (.path "/x/y"),
    .install (plainPlugin "b" [] [] []) none false (.path "/x"),
    .install (plainPlugin "c" [] [] []) none false .none]

theorem removes_subtree_similar :
    ((after similarCalls).remove "/x").1.toOption = some ["b", "d"] ∧
    ((after similarCalls).remove "/x").2.owner.entries.keys = ["a", "c"] ∧
    ∃ listed, ((after similarCalls).remove "/x").1 = .ok listed ∧
      SubtreeRemoved (after similarCalls) "/x" listed ((after similarCalls).remove "/x").2 :=
  ⟨by decide +kernel, by decide +kernel,
    removes_subtree (by decide +kernel) (by decide +kernel) (by decide)⟩

end HandleTree

end Chassis
