import Chassis.Capabilities.Specifiers
import Chassis.Composition.Removal

/-!
# What the calls of one scope do to the entries of the others

* `scopeInstall`, `scopeUninstall`   `install` and `uninstall` of a scope handle;
* `defaultEntryId_free`      an id that is made up is not taken;
* `call_entries`             what one call of a scope can do to the entries;
* `OthersStay`               the entries that other scopes declared are as they were;
* `Names`                    a call that is carried out and names such an entry;
* `othersStay_iff`           **the entries of other scopes stay iff no call of the scope names one**:
                             a handle does not check whose entry it was given.
-/

set_option linter.unusedSectionVars false

namespace Chassis
open Py

/-! ## ids that are made up -/

namespace PluginRegistry

/-- if the suffix is taken, so were all that were tried before -/
theorem freeSuffix_taken {r : PluginRegistry} {base : String} {n suffix : Nat}
    (h : (r.entries.get? (r.freeSuffix base n suffix)).isSome = true) (k : Nat) (hk : k < n) :
    (r.entries.get? (base ++ "-" ++ toString (suffix + k))).isSome = true := by
  induction n generalizing suffix k with
  | zero => exact absurd hk (Nat.not_lt_zero k)
  | succ n ih =>
    unfold freeSuffix at h
    split at h
    · rename_i htaken
      cases k with
      | zero => exact htaken
      | succ k =>
        rw [Nat.add_succ, ← Nat.succ_add]
        exact ih h k (Nat.lt_of_succ_lt_succ hk)
    · rename_i hfree
      exact absurd h hfree

/-- **An id that is made up is not taken**: with the name itself there would be more ids than
entries. -/
theorem defaultEntryId_free (r : PluginRegistry) (m : PluginManifest) :
    r.entries.get? (r.defaultEntryId m) = none := by
  by_contra hnot
  have htaken : (r.entries.get? (r.defaultEntryId m)).isSome = true :=
    Option.ne_none_iff_isSome.1 hnot
  unfold defaultEntryId at htaken
  split at htaken
  · rename_i hname
    let tried := (List.range r.entries.items.length).map fun k => m.name ++ "-" ++ toString (2 + k)
    have hinj : Function.Injective fun k : Nat => m.name ++ "-" ++ toString (2 + k) := by
      intro a b hab
      have htext := congrArg String.toList hab
      simp only [String.toList_append, List.append_cancel_left_eq] at htext
      exact Nat.add_left_cancel (toString_injective (String.toList_injective htext))
    have hnodup : (m.name :: tried).Nodup := by
      refine List.nodup_cons.2 ⟨fun hin => ?_, List.nodup_range.map hinj⟩
      obtain ⟨k, -, hk⟩ := List.mem_map.1 hin
      have hlength := congrArg (fun s : String => s.toList.length) hk
      simp only [String.toList_append, List.length_append] at hlength
      have hdash : ("-" : String).toList.length = 1 := rfl
      omega
    have hkeys : m.name :: tried ⊆ r.entries.keys := by
      intro id hid
      refine Dict.mem_keys.2 (Option.isSome_iff_exists.1 ?_)
      rcases List.mem_cons.1 hid with rfl | hid
      · exact hname
      · obtain ⟨k, hk, rfl⟩ := List.mem_map.1 hid
        exact freeSuffix_taken htaken k (List.mem_range.1 hk)
    have hfew := (List.subperm_of_subset hnodup hkeys).length_le
    simp only [tried, List.length_cons, List.length_map, List.length_range, Dict.keys] at hfew
    omega
  · rename_i hname
    exact hname htaken

theorem install_given {r : PluginRegistry} {plugin : Plugin} {id : String} {replace : Bool}
    {scope : String} : (∃ entry r', r.install plugin (some id) replace scope = .ok (entry, r')) ↔
      validEntryId id = true ∧ ((r.entries.get? id).isSome = true → replace = true) := by
  unfold install
  cases hvalid : validEntryId id with
  | false => simp [hvalid]
  | true =>
    cases replace with
    | true => simp [hvalid]
    | false =>
      cases hget : r.entries.get? id with
      | none => simp [hvalid, hget]
      | some entry => simp [hvalid, hget]

end PluginRegistry

/-! ## calls of a scope -/

/-- the calls of a scope handle that change desired entries -/
inductive ScopeCall
  | install (source : PluginSource) (entryId : Option String)
    (config : Option (Dict String Value)) (replace : Bool)
  | uninstall (entryId : String)

/-- the call names this entry, and is carried out if there is one -/
def ScopeCall.Names (id : String) : ScopeCall → Prop
  | .install source entryId config replace => entryId = some id ∧ replace = true ∧
      PluginRegistry.validEntryId id = true ∧ ∃ plugin, source.made config = .ok plugin
  | .uninstall entryId => entryId = id

namespace HandleTree

def scopeInstall (t : HandleTree) (s : Handle) (source : PluginSource) (entryId : Option String)
    (config : Option (Dict String Value)) (replace : Bool) : Except Err String × HandleTree :=
  match t.scopePath (.scope s) with
  | .error e => (.error e, t)
  | .ok path =>
    match t.owner.installFrom source entryId config replace path with
    | .error e => (.error e, t)
    | .ok (entry, owner) => (.ok entry.entryId, { t with owner := owner, dirty := true })

/-- `CompositionScope.uninstall`: the scope it is called on plays no part -/
def scopeUninstall (t : HandleTree) (_s : Handle) (entryId : String) : Bool × HandleTree :=
  ((t.owner.uninstall entryId).1,
    { t with
      owner := (t.owner.uninstall entryId).2
      dirty := t.dirty || (t.owner.uninstall entryId).1 })

/-- what a call leaves behind, whether it raises or not -/
def call (s : Handle) (t : HandleTree) : ScopeCall → HandleTree
  | .install source entryId config replace => (t.scopeInstall s source entryId config replace).2
  | .uninstall entryId => (t.scopeUninstall s entryId).2

/-- the id is that of an entry that another scope declared -/
def Foreign (t : HandleTree) (s : Handle) (id : String) : Prop :=
  ∃ entry, t.owner.entries.get? id = some entry ∧ entry.scope ≠ s.path

/-- the entries that other scopes declared are still there, as they were -/
def OthersStay (t : HandleTree) (s : Handle) (t' : HandleTree) : Prop :=
  ∀ id entry, t.owner.entries.get? id = some entry → entry.scope ≠ s.path →
    t'.owner.entries.get? id = some entry

/-! ## one call -/

variable {t : HandleTree} {s : Handle}

theorem Live.scopePath (h : t.Live s) : t.scopePath (.scope s) = .ok s.path := by
  have hpath := canonicalScopePath_path s
  have hget : t.get s.path = .ok (some s) := bind_ok.2 ⟨s.path, hpath, congrArg Except.ok h⟩
  exact bind_ok.2 ⟨s.path, hpath, bind_ok.2 ⟨some s, hget, rfl⟩⟩

theorem scopeInstall_ok (h : t.Live s) {source : PluginSource} {entryId : Option String}
    {config : Option (Dict String Value)} {replace : Bool} {entry : PluginEntry}
    {owner : PluginRegistry}
    (hok : t.owner.installFrom source entryId config replace s.path = .ok (entry, owner)) :
    t.scopeInstall s source entryId config replace =
      (.ok entry.entryId, { t with owner := owner, dirty := true }) := by
  unfold scopeInstall
  rw [h.scopePath]
  simp only [hok]

theorem scopeInstall_error (h : t.Live s) {source : PluginSource} {entryId : Option String}
    {config : Option (Dict String Value)} {replace : Bool} {e : Err}
    (herror : t.owner.installFrom source entryId config replace s.path = .error e) :
    t.scopeInstall s source entryId config replace = (.error e, t) := by
  unfold scopeInstall
  rw [h.scopePath]
  simp only [herror]

/-- what a call makes of the entries: none changed, one is gone, or one is declared in the scope,
under the id that was given or one that was free -/
theorem call_entries (h : t.Live s) (c : ScopeCall) :
    (t.call s c).index = t.index ∧
    ((t.call s c).owner.entries = t.owner.entries ∨
      (∃ id, c.Names id ∧ (t.call s c).owner.entries = t.owner.entries.erase id) ∨
      ∃ entry : PluginEntry, entry.scope = s.path ∧
        (c.Names entry.entryId ∨ t.owner.entries.get? entry.entryId = none) ∧
        (t.call s c).owner.entries = t.owner.entries.set entry.entryId entry) := by
  cases c with
  | uninstall id => exact ⟨rfl, Or.inr (Or.inl ⟨id, rfl, rfl⟩)⟩
  | install source entryId config replace =>
    unfold call
    cases hinstall : t.owner.installFrom source entryId config replace s.path with
    | error e =>
      simp only [scopeInstall_error h hinstall]
      exact ⟨trivial, Or.inl trivial⟩
    | ok made =>
      obtain ⟨entry, owner⟩ := made
      simp only [scopeInstall_ok h hinstall]
      obtain ⟨plugin, hmade, hok⟩ := bind_ok.1 hinstall
      obtain ⟨hid, -, -, -, hscope, -, rfl⟩ := PluginRegistry.install_ok hok
      refine ⟨trivial, Or.inr (Or.inr ⟨entry, hscope, ?_, rfl⟩)⟩
      cases entryId with
      | none =>
        rw [hid]
        exact Or.inr (PluginRegistry.defaultEntryId_free _ _)
      | some id =>
        obtain ⟨hvalid, hreplace⟩ := PluginRegistry.install_given.1 ⟨entry, _, hok⟩
        obtain rfl : entry.entryId = id := hid
        cases hget : t.owner.entries.get? entry.entryId with
        | none => exact Or.inr rfl
        | some old =>
          rw [hget] at hreplace
          exact Or.inl ⟨rfl, hreplace rfl, hvalid, plugin, hmade⟩

theorem Live.call (h : t.Live s) (c : ScopeCall) : (t.call s c).Live s := by
  unfold HandleTree.Live
  rw [(call_entries h c).1]
  exact h

theorem call_unnamed (h : t.Live s) {c : ScopeCall} {id : String} (hn : ¬ c.Names id)
    {entry : PluginEntry} (he : t.owner.entries.get? id = some entry) :
    (t.call s c).owner.entries.get? id = some entry := by
  obtain ⟨-, hsame | ⟨id', hnames, herase⟩ | ⟨new, -, hnames, hset⟩⟩ := call_entries h c
  · rw [hsame]
    exact he
  · rw [herase, Dict.get?_erase_ne]
    · exact he
    · rintro rfl
      exact hn hnames
  · rw [hset, Dict.get?_set_ne]
    · exact he
    · rintro rfl
      rcases hnames with hnames | hfree
      · exact hn hnames
      · rw [hfree] at he
        cases he

/-- the id is free, or that of an entry of the scope -/
def Own (t : HandleTree) (s : Handle) (id : String) : Prop :=
  ∀ entry, t.owner.entries.get? id = some entry → entry.scope = s.path

theorem Own.call {id : String} (ho : t.Own s id) (h : t.Live s) (c : ScopeCall) : (t.call s c).Own s id := by
  intro entry he
  obtain ⟨-, hsame | ⟨id', -, herase⟩ | ⟨new, hscope, -, hset⟩⟩ := call_entries h c
  · rw [hsame] at he
    exact ho entry he
  · rw [herase, Dict.get?_erase] at he
    split at he
    · cases he
    · exact ho entry he
  · rw [hset, Dict.get?_set] at he
    split at he
    · exact Option.some.inj he ▸ hscope
    · exact ho entry he

theorem call_named (h : t.Live s) {c : ScopeCall} {id : String} (hn : c.Names id) :
    (t.call s c).Own s id := by
  intro entry he
  cases c with
  | uninstall id' =>
    obtain rfl : id' = id := hn
    have hgone : (t.call s (.uninstall id')).owner.entries.get? id' = none :=
      Dict.get?_erase_self _ _
    rw [hgone] at he
    cases he
  | install source entryId config replace =>
    obtain ⟨rfl, rfl, hvalid, plugin, hmade⟩ := hn
    have hgiven : ∃ new owner, t.owner.install plugin (some id) true s.path = .ok (new, owner) :=
      PluginRegistry.install_given.2 ⟨hvalid, fun _ => rfl⟩
    obtain ⟨new, owner, hok⟩ := hgiven
    have hfrom : t.owner.installFrom source (some id) config true s.path = .ok (new, owner) :=
      bind_ok.2 ⟨plugin, hmade, hok⟩
    have hcall : (t.call s (.install source (some id) config true)).owner = owner :=
      congrArg (fun r => r.2.owner) (scopeInstall_ok h hfrom)
    obtain ⟨hid, -, -, -, hscope, -, rfl⟩ := PluginRegistry.install_ok hok
    rw [hcall] at he
    have hnew : (t.owner.entries.set new.entryId new).get? id = some new := by
      rw [show new.entryId = id from hid]
      exact Dict.get?_set_self _ _ _
    rw [hnew] at he
    exact Option.some.inj he ▸ hscope

/-! ## sequences of calls -/

theorem Live.calls (h : t.Live s) (calls : List ScopeCall) :
    (Calls.run (HandleTree.call s) t calls).Live s := by
  induction calls using List.reverseRecOn with
  | nil => exact h
  | append_singleton calls c ih =>
    rw [Calls.run_concat]
    exact Live.call ih c

theorem Own.calls {id : String} (ho : t.Own s id) (h : t.Live s) (calls : List ScopeCall) :
    (Calls.run (HandleTree.call s) t calls).Own s id := by
  induction calls using List.reverseRecOn with
  | nil => exact ho
  | append_singleton calls c ih =>
    rw [Calls.run_concat]
    exact ih.call (Live.calls h calls) c

/-- **The entries of other scopes stay iff no call names one of them.**  An entry that is named is
lost for good: a scope can only declare its own. -/
theorem othersStay_iff (h : t.Live s) (calls : List ScopeCall) :
    t.OthersStay s (Calls.run (call s) t calls) ↔
      ∀ c ∈ calls, ∀ id, c.Names id → ¬ t.Foreign s id := by
  constructor
  · rintro hstay c hc id hnames ⟨entry, he, hscope⟩
    obtain ⟨before, later, rfl⟩ := List.append_of_mem hc
    have hsplit : Calls.run (call s) t (before ++ c :: later) =
        Calls.run (call s) ((Calls.run (call s) t before).call s c) later := by
      unfold Calls.run
      rw [List.foldl_append, List.foldl_cons]
    have hlive := Live.calls h before
    have hown := (call_named hlive hnames).calls (Live.call hlive c) later
    rw [hsplit] at hstay
    exact hscope (hown entry (hstay id entry he hscope))
  · intro hall
    induction calls using List.reverseRecOn with
    | nil => exact fun _ _ he _ => he
    | append_singleton calls c ih =>
      rw [Calls.run_concat]
      intro id entry he hscope
      have hbefore := ih fun c' hc' => hall c' (List.mem_append_left _ hc')
      refine call_unnamed (Live.calls h calls) (fun hnames => ?_) (hbefore id entry he hscope)
      exact hall c (List.mem_append_right _ (List.mem_singleton_self c)) id hnames
        ⟨entry, he, hscope⟩

def neighbours : HandleTree :=
  after [.child .root "x" none none Dict.empty, .ensure "/xy",
    .install (plainPlugin "a" [] [] []) none false (.path "/xy")]

theorem othersStay_iff_own :
    neighbours.OthersStay firstScope (Calls.run (call firstScope) neighbours
      [.install (.object (plainPlugin "b" [] [] [])) (some "b") none true, .uninstall "b"]) := by
  have hlive : neighbours.Live firstScope := by decide +kernel
  have hfree : neighbours.owner.entries.get? "b" = none := by decide +kernel
  refine (othersStay_iff hlive _).2 ?_
  rintro c hc id hnames ⟨entry, he, -⟩
  have hb : id = "b" := by
    rcases List.mem_cons.1 hc with rfl | hc
    · exact (Option.some.inj hnames.1).symm
    · obtain rfl := List.mem_singleton.1 hc
      exact hnames.symm
  rw [hb, hfree] at he
  cases he

/-- **A scope can withdraw and take over what another declared**: `/x` is given the entry of `/xy`. -/
theorem neighbour_taken :
    neighbours.Live firstScope ∧
    ¬ neighbours.OthersStay firstScope
      (Calls.run (call firstScope) neighbours [.uninstall "a"]) ∧
    ¬ neighbours.OthersStay firstScope (Calls.run (call firstScope) neighbours
      [.install (.object (plainPlugin "b" [] [] [])) (some "a") none true]) := by
  have hthere : (neighbours.owner.entries.get? "a").map PluginEntry.scope = some "/xy" := by
    decide +kernel
  have hgone : (Calls.run (call firstScope) neighbours
      [.uninstall "a"]).owner.entries.get? "a" = none := Dict.get?_erase_self _ _
  have htaken : ((Calls.run (call firstScope) neighbours
      [.install (.object (plainPlugin "b" [] [] [])) (some "a") none true]).owner.entries.get?
        "a").map PluginEntry.scope = some "/x" := by decide +kernel
  obtain ⟨entry, he, hscope⟩ := Option.map_eq_some_iff.1 hthere
  have hother : entry.scope ≠ firstScope.path := by
    rw [hscope]
    decide +kernel
  refine ⟨by decide +kernel, fun hstay => ?_, fun hstay => ?_⟩
  · have hstill := hstay "a" entry he hother
    rw [hgone] at hstill
    cases hstill
  · rw [hstay "a" entry he hother, Option.map_some, hscope] at htaken
    exact absurd htaken (by decide)

end HandleTree
end Chassis
