import Chassis.Composition.Agreement
import Chassis.Plugins.Validation
import Chassis.Plugins.Plan

/-!
# Accepted desired state resolves

* `climb_total`          where every parent has a shorter path than its children, every scope has a
                         lineage;
* `make_total_iff`       so the scopes of a tree are a hierarchy, iff no path is listed twice;
* `resolve_total_iff`    accepted manifests in its scopes resolve, iff whatever they require and have
                         optional as well can be parsed as it is required;
* `Sound.resolves`       where only grounded calls built the tree, that is all there is to it.
-/

set_option linter.unusedSectionVars false

namespace Chassis
open Py

/-! ## lineages -/

/-- **Every walk up to shorter paths ends**: the chain below it has no repetitions, and all of it
is longer. -/
theorem climb_total {specs : List ScopeSpec} (hn : (specs.map ScopeSpec.path).Nodup)
    (hshort : ∀ s ∈ specs, ∀ p, s.parent = some p → p ∈ specs.map ScopeSpec.path ∧
      p.toList.length < s.path.toList.length) {n : Nat} {chain : List String} {current : String}
    (hchain : chain.Nodup) (hsub : chain ⊆ specs.map ScopeSpec.path)
    (hlong : ∀ c ∈ chain, current.toList.length < c.toList.length)
    (hcur : current ∈ specs.map ScopeSpec.path) (hfuel : specs.length < n + chain.length) :
    ∃ l, climb specs n chain current = .ok l := by
  have hnew : current ∉ chain := fun hin => lt_irrefl _ (hlong current hin)
  have hchain' : (current :: chain).Nodup := List.nodup_cons.2 ⟨hnew, hchain⟩
  have hsub' : current :: chain ⊆ specs.map ScopeSpec.path := List.cons_subset.2 ⟨hcur, hsub⟩
  induction n generalizing chain current with
  | zero =>
    have hlen := (hchain'.subperm hsub').length_le
    rw [List.length_cons, List.length_map] at hlen
    omega
  | succ n ih =>
    unfold climb
    rw [if_neg hnew]
    cases hparent : (specAt specs current).bind ScopeSpec.parent with
    | none => exact ⟨_, rfl⟩
    | some parent =>
      obtain ⟨s, hat, hp⟩ := Option.bind_eq_some_iff.1 hparent
      obtain ⟨hs, hpath⟩ := (specAt_eq_some hn).1 hat
      obtain ⟨hdecl, hlt⟩ := hshort s hs parent hp
      rw [hpath] at hlt
      have hlong' : ∀ c ∈ current :: chain, parent.toList.length < c.toList.length := by
        intro c hc
        rcases List.mem_cons.1 hc with rfl | hc
        · exact hlt
        · exact hlt.trans (hlong c hc)
      have hout : parent ∉ current :: chain := fun hin => lt_irrefl _ (hlong' parent hin)
      refine ih hchain' hsub' hlong' hdecl ?_ hout (List.nodup_cons.2 ⟨hout, hchain'⟩)
        (List.cons_subset.2 ⟨hdecl, hsub'⟩)
      rw [List.length_cons]
      omega

theorem lineageOf_total {specs : List ScopeSpec} (hn : (specs.map ScopeSpec.path).Nodup)
    (hshort : ∀ s ∈ specs, ∀ p, s.parent = some p → p ∈ specs.map ScopeSpec.path ∧
      p.toList.length < s.path.toList.length) {s : ScopeSpec} (hs : s ∈ specs) :
    (lineageOf specs s.path).isOk = true := by
  obtain ⟨l, hl⟩ : ∃ l, climb specs (specs.length + 1) [] s.path = .ok l :=
    climb_total hn hshort List.nodup_nil (List.nil_subset _) (fun _ hc => nomatch hc)
      (List.mem_map_of_mem hs) (Nat.lt_succ_self _)
  unfold lineageOf
  rw [hl]
  rfl

/-! ## the scopes of a tree -/

namespace HandleTree
variable {t : HandleTree}

theorem Formed.root_mem (hf : t.Formed) : rootScope ∈ t.paths :=
  hf.mem_paths.2 ⟨.root, rfl, rfl⟩

theorem Formed.specs_parent (hf : t.Formed) {s : ScopeSpec} (hs : s ∈ t.specs) {p : String}
    (hp : s.parent = some p) : p ∈ t.specs.map ScopeSpec.path ∧
      p.toList.length < s.path.toList.length := by
  obtain ⟨c, hc, rfl⟩ := List.mem_map.1 hs
  rw [specs_paths]
  cases c with
  | root => cases hp
  | child parent name serial =>
    cases hp
    have hlinked := (linked_child.1 (hf.mem_ordered.1 hc)).1
    exact ⟨hf.mem_paths.2 ⟨parent, hlinked, rfl⟩, Handle.length_path_child parent name serial⟩

/-- **The scopes of a tree are a hierarchy** iff no path is listed twice. -/
theorem Formed.make_total_iff (hf : t.Formed) :
    (∃ index, ScopeIndex.make (some t.specs) = .ok index) ↔ t.paths.Nodup := by
  constructor
  · rintro ⟨index, h⟩
    have hspecs : index.specs = t.specs := ScopeIndex.make_specs h
    rw [← specs_paths, ← hspecs]
    exact index.paths_nodup
  · intro hn
    rw [← specs_paths] at hn
    have hshort : ∀ s ∈ t.specs, ∀ p, s.parent = some p → p ∈ t.specs.map ScopeSpec.path ∧
        p.toList.length < s.path.toList.length := fun s hs p hp => hf.specs_parent hs hp
    have hroot := hf.root_mem
    rw [← specs_paths] at hroot
    unfold ScopeIndex.make
    simp only [Option.getD_some]
    have hparents : ∀ s ∈ t.specs, ∀ p ∈ s.parent, p ∈ t.specs.map ScopeSpec.path :=
      fun s hs p hp => (hshort s hs p hp).1
    rw [dif_pos hn, dif_pos hroot, dif_pos hparents,
      dif_pos fun s hs => lineageOf_total hn hshort hs]
    exact ⟨_, rfl⟩

/-! ## resolution -/

section
variable [Packaging] {candidates : List PluginCandidate}

theorem orderedCandidates_total (h : (candidates.map PluginCandidate.entryId).Nodup) :
    ∃ ordered, orderedCandidates candidates = .ok ordered := by
  have hfirst : ∀ {seen l : List String}, l.Nodup → (∀ x ∈ l, x ∉ seen) →
      firstRepeated seen l = none := by
    intro seen l hl hout
    induction l generalizing seen with
    | nil => rfl
    | cons a l ih =>
      obtain ⟨ha, hl⟩ := List.nodup_cons.1 hl
      rw [firstRepeated, if_neg (hout a List.mem_cons_self)]
      refine ih hl fun x hx hin => ?_
      rcases List.mem_append.1 hin with hin | hin
      · exact hout x (List.mem_cons_of_mem _ hx) hin
      · rw [List.mem_singleton.1 hin] at hx
        exact ha hx
  have hsorted : ((sortedBy PluginCandidate.entryId candidates).map PluginCandidate.entryId).Nodup :=
    (((sortedBy_perm PluginCandidate.entryId candidates).map _).nodup_iff).2 h
  unfold orderedCandidates
  simp only
  rw [hfirst hsorted fun _ _ => List.not_mem_nil]
  exact ⟨_, rfl⟩

/-- **What can be resolved** among accepted manifests in the scopes of a tree. -/
theorem Formed.resolves_iff (hf : t.Formed)
    (hids : (candidates.map PluginCandidate.entryId).Nodup)
    (hvalid : ∀ c ∈ candidates, c.manifest.validate = .ok ()) (prefer : Dict String String) :
    (∃ plan, resolve candidates prefer (some t.specs) = .ok plan) ↔
      (∀ c ∈ candidates, c.manifest.OverlapParses) ∧ (∀ c ∈ candidates, c.scope ∈ t.paths) ∧
        t.paths.Nodup := by
  constructor
  · rintro ⟨plan, h⟩
    obtain ⟨index, entries, hprepare, -⟩ := resolve_ok.1 h
    have hcomp := prepareAll_ok hprepare
    have hspecs : index.specs = t.specs := hcomp.specs
    refine ⟨fun c hc p hp _ => ?_, fun c hc => ?_, ?_⟩
    · obtain ⟨e, he, rfl⟩ := (hcomp.mem c).1 hc
      exact requiredCapabilities_total.1 ⟨_, (hcomp.parsed e he).required⟩ p hp
    · obtain ⟨e, he, rfl⟩ := (hcomp.mem c).1 hc
      have hscope := hcomp.scope e he
      rw [ScopeIndex.paths, hspecs, specs_paths] at hscope
      exact hscope
    · rw [← specs_paths, ← hspecs]
      exact index.paths_nodup
  · rintro ⟨hover, hscopes, hn⟩
    obtain ⟨ordered, hord⟩ := orderedCandidates_total hids
    have hmem : ∀ c ∈ ordered, c ∈ candidates := fun c hc =>
      ((orderedCandidates_ok hord).1 c).2 hc
    obtain ⟨index, hindex⟩ := hf.make_total_iff.2 hn
    have hrequire : (ordered.forM fun c => index.require c.scope) = .ok () := by
      refine forM_ok_iff.2 fun c hc => ?_
      have hpaths : index.paths = t.paths := by
        rw [ScopeIndex.paths, show index.specs = t.specs from ScopeIndex.make_specs hindex,
          specs_paths]
      rw [ScopeIndex.require, if_pos]
      rw [hpaths]
      exact hscopes c (hmem c hc)
    have hlegible : ∀ c ∈ ordered, c.manifest.Legible := fun c hc =>
      (PluginManifest.legible_iff (hvalid c (hmem c hc))).2 (hover c (hmem c hc))
    obtain ⟨entries, hentries⟩ := prepare_total hlegible
    refine ⟨composePlan index entries prefer, resolve_ok.2 ⟨index, entries, ?_, rfl⟩⟩
    exact bind_ok.2 ⟨ordered, hord, bind_ok.2 ⟨index, hindex, bind_ok.2 ⟨(), hrequire,
      bind_ok.2 ⟨entries, hentries, rfl⟩⟩⟩⟩

/-- **Accepted desired state resolves**, whatever the calls that built the tree, iff its scopes are
declared once and what is required and optional as well can be parsed as it is required; and all
that the resolver parses is parsed by validation before, iff that is declared twice in the same
way. -/
theorem resolve_total_iff {ops : List TreeOp} (h : Legit ops)
    (hids : (candidates.map PluginCandidate.entryId).Nodup)
    (hvalid : ∀ c ∈ candidates, c.manifest.validate = .ok ()) (prefer : Dict String String) :
    ((∃ plan, resolve candidates prefer (some (after ops).specs) = .ok plan) ↔
      (∀ c ∈ candidates, c.manifest.OverlapParses) ∧
        (∀ c ∈ candidates, c.scope ∈ (after ops).paths) ∧ (after ops).paths.Nodup) ∧
    (((∃ plan, resolve candidates prefer (some (after ops).specs) = .ok plan) ∧
        ∀ c ∈ candidates, ∀ d ∈ c.manifest.resolved, d ∈ c.manifest.validated) ↔
      (∀ c ∈ candidates, c.manifest.OverlapAgrees) ∧
        (∀ c ∈ candidates, c.scope ∈ (after ops).paths) ∧ (after ops).paths.Nodup) := by
  have hf : (after ops).Formed :=
    Calls.run_invariant formed_new (fun _ _ hf ho => hf.step ho) h
  have htotal := hf.resolves_iff hids hvalid prefer
  have hparsed : (∀ c ∈ candidates, ∀ d ∈ c.manifest.resolved, d ∈ c.manifest.validated) ↔
      ∀ c ∈ candidates, c.manifest.OverlapAgrees :=
    forall₂_congr fun _ _ => PluginManifest.resolved_validated_iff
  refine ⟨htotal, ?_⟩
  rw [htotal, hparsed]
  constructor
  · rintro ⟨⟨-, hscopes, hn⟩, hagrees⟩
    exact ⟨hagrees, hscopes, hn⟩
  · rintro ⟨hagrees, hscopes, hn⟩
    exact ⟨⟨fun c hc => (hagrees c hc).parses (hvalid c hc), hscopes, hn⟩, hagrees⟩

end

/-! ## an accepted manifest that does not resolve -/

section
open Plain

/-- it requires what it has optional as well, under a specifier that cannot be parsed -/
def garbledCandidate : PluginCandidate :=
  { entryId := "search"
    manifest :=
      { name := "search", version := "1.0.0"
        requires := Dict.ofList [("database", "the newest")]
        optional := Dict.ofList [("database", ">=1")] } }

theorem garbled_unresolvable : garbledCandidate.manifest.validate = .ok () ∧
    garbledCandidate.scope ∈ (after []).paths ∧
      ∀ plan, resolve [garbledCandidate] Dict.empty (some (after []).specs) ≠ .ok plan := by
  have hfails : (resolve [garbledCandidate] Dict.empty (some (after []).specs)).isOk = false := by
    decide +kernel
  refine ⟨by decide +kernel, by decide +kernel, fun plan h => ?_⟩
  rw [h] at hfails
  cases hfails

/-- two scopes below the root -/
def pageCalls : List TreeOp := [.child .root "web" none none Dict.empty, .ensure "/web/api"]

/-- it requires, under another specifier, what it has optional as well -/
def searchCandidate : PluginCandidate :=
  { entryId := "search", scope := "/web"
    manifest :=
      { name := "search", version := "1.0.0"
        requires := Dict.ofList [("database", "<9")]
        optional := Dict.ofList [("database", ">=1")] } }

/-- a plugin in every scope -/
def pageCandidates : List PluginCandidate :=
  [searchCandidate,
    { entryId := "page", scope := "/web/api"
      manifest :=
        { name := "page", version := "1.0.0", requires := Dict.ofList [("database", ">=1")] } },
    { entryId := "store"
      manifest :=
        { name := "store", version := "1.0.0"
          provides := Dict.ofList [("database", .one "1.2.0")] } }]

theorem resolve_total_iff_web :
    (∃ plan, resolve pageCandidates Dict.empty (some (after pageCalls).specs) = .ok plan) ∧
      ¬ ∀ c ∈ pageCandidates, ∀ d ∈ c.manifest.resolved, d ∈ c.manifest.validated := by
  have hlegit : Legit pageCalls := by
    unfold Legit
    decide +kernel
  have hids : (pageCandidates.map PluginCandidate.entryId).Nodup := by decide
  obtain ⟨htotal, hparsed⟩ := resolve_total_iff hlegit hids (by decide +kernel) Dict.empty
  have hrequires : ∀ c ∈ pageCandidates, ∀ p ∈ c.manifest.requires.items,
      (CapabilityRequirement.parse p.1 p.2).isOk = true := by decide +kernel
  have hplan := htotal.2 ⟨?_, by decide +kernel, by decide +kernel⟩
  · refine ⟨hplan, fun hall => ?_⟩
    obtain ⟨hagrees, -⟩ := hparsed.1 ⟨hplan, hall⟩
    have hsame := hagrees searchCandidate List.mem_cons_self "database" "<9" ">=1"
      (by decide +kernel) (by decide +kernel)
    exact absurd hsame (by decide)
  · intro c hc p hp _
    have hp := hrequires c hc p hp
    cases hr : CapabilityRequirement.parse p.1 p.2 with
    | ok r => exact ⟨r, rfl⟩
    | error e =>
      rw [hr] at hp
      cases hp

end

/-! ## grounded calls -/

theorem below_of_linkedFrom {h c : Handle} (hc : t.LinkedFrom h c) : h.Below c := by
  induction c with
  | root => exact hc
  | child parent name serial ih =>
    rcases hc with hc | ⟨hp, -⟩
    · exact Or.inl hc
    · exact Or.inr (ih hp)

theorem depth_of_below {h c : Handle} (hc : h.Below c) : h.depth ≤ c.depth := by
  induction c with
  | root =>
    cases hc
    exact le_refl _
  | child parent name serial ih =>
    rcases hc with rfl | hp
    · exact le_refl _
    · exact (ih hp).trans (Nat.le_succ _)

theorem below_unique {h h' c : Handle} (hc : h.Below c) (hc' : h'.Below c)
    (hd : h.depth = h'.depth) : h = h' := by
  induction c with
  | root => exact (show Handle.root = h from hc).symm.trans hc'
  | child parent name serial ih =>
    have hdepth : (Handle.child parent name serial).depth = parent.depth + 1 := rfl
    rcases hc with hc | hp <;> rcases hc' with hc' | hp'
    · exact hc.symm.trans hc'
    · have hle := depth_of_below hp'
      rw [← hd, ← hc, hdepth] at hle
      omega
    · have hle := depth_of_below hp
      rw [hd, ← hc', hdepth] at hle
      omega
    · exact ih hp hp'

namespace Sound
variable (hs : t.Sound)
include hs

theorem walk_nodup (n : Nat) (h : Handle) : (t.walk n h).Nodup := by
  induction n generalizing h with
  | zero => exact List.nodup_nil
  | succ n ih =>
    rw [walk, List.nodup_cons, List.nodup_flatMap]
    have hchild : ∀ {d}, d ∈ sortedBy Handle.name (t.children h) → d.depth = h.depth + 1 := by
      intro d hd
      obtain ⟨name, serial, rfl⟩ := hs.child_cases (mem_sortedBy.1 hd)
      rfl
    refine ⟨fun hin => ?_, fun d _ => ih d, ?_⟩
    · obtain ⟨d, hd, hin⟩ := List.mem_flatMap.1 hin
      have hle := hs.depth_of_linkedFrom (hs.mem_walk.1 hin).1
      rw [hchild hd] at hle
      omega
    · have hnodup : (sortedBy Handle.name (t.children h)).Nodup := sortedBy_nodup (hs.once h)
      refine hnodup.imp_of_mem fun {d e} hd he hne => ?_
      intro c hcd hce
      exact hne (below_unique (below_of_linkedFrom (hs.mem_walk.1 hcd).1)
        (below_of_linkedFrom (hs.mem_walk.1 hce).1) ((hchild hd).trans (hchild he).symm))

/-- **A sound tree** lists no path twice. -/
theorem paths_nodup : t.paths.Nodup := by
  refine List.Nodup.map_on (fun c hc d hd heq => ?_) (hs.walk_nodup _ _)
  have hsame : some c = some d := by
    rw [← hs.indexed.2 ⟨hs.mem_ordered.1 hc, heq⟩, hs.indexed.2 ⟨hs.mem_ordered.1 hd, rfl⟩]
  exact Option.some.inj hsame

theorem resolves [Packaging] {candidates : List PluginCandidate}
    (hids : (candidates.map PluginCandidate.entryId).Nodup)
    (hvalid : ∀ c ∈ candidates, c.manifest.validate = .ok ())
    (hover : ∀ c ∈ candidates, c.manifest.OverlapParses)
    (hscopes : ∀ c ∈ candidates, ∃ scope, t.scopePath scope = .ok c.scope)
    (prefer : Dict String String) :
    ∃ plan, resolve candidates prefer (some t.specs) = .ok plan := by
  refine (hs.toFormed.resolves_iff hids hvalid prefer).2 ⟨hover, fun c hc => ?_, hs.paths_nodup⟩
  obtain ⟨scope, hscope⟩ := hscopes c hc
  rw [← specs_paths]
  exact hs.agrees.installs scope _ hscope

end Sound

end HandleTree

end Chassis
