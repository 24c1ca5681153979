import Chassis.Capabilities.Plain
import Chassis.Langgraph.Graphs
import Chassis.Lib.Calls

/-!
# The cache of graphs as a list of the graphs used last

* `CacheOp`              the calls on one cache, and what they return;
* `CacheOp.reference`    the same on a list, the graph used last first, cut to the capacity;
* `Mirrors`              a cache, read backwards, is such a list, and its keys are those of the list;
* `cache_refines_lru`    **the cache is the list**, in every sequence of calls whose keys have
                         different digests, and what it evicts was used less recently than all it
                         keeps.
-/

set_option linter.unusedSectionVars false

namespace Chassis
open Py

inductive CacheOp (G P S : Type)
  | get (key : GraphCacheKey)
  | put (key : GraphCacheKey) (graph : CompiledStateGraph G P S)
  | invalidate (agent : Option String)

inductive CacheAnswer (G P S : Type)
  | found (graph : Option (CompiledStateGraph G P S))
  | stored
  | dropped (count : Nat)

/-- the graphs that were used last, the last one first -/
abbrev RecentGraphs (G P S : Type) := List (GraphCacheKey × CompiledStateGraph G P S)

/-- the key is one of those that are dropped -/
def GraphCacheKey.concerns (agent : Option String) (key : GraphCacheKey) : Bool :=
  agent.all fun name => key.agent = name

section
variable {G P S : Type}

namespace CacheOp

def key? : CacheOp G P S → Option GraphCacheKey
  | .get key => some key
  | .put key _ => some key
  | .invalidate _ => none

def uses (op : CacheOp G P S) (key : GraphCacheKey) : Bool := op.key? = some key

def reference (capacity : Nat) (r : RecentGraphs G P S) : CacheOp G P S → RecentGraphs G P S
  | .get key => Dict.touch key r
  | .put key graph => Dict.store capacity key graph r
  | .invalidate agent => r.filter fun p => !p.1.concerns agent

def referenceAnswer (r : RecentGraphs G P S) : CacheOp G P S → CacheAnswer G P S
  | .get key => .found (Dict.getItems key r)
  | .put _ _ => .stored
  | .invalidate agent => .dropped (r.filter fun p => p.1.concerns agent).length

variable [Platform]

def step (c : GraphCache G P S) : CacheOp G P S → GraphCache G P S
  | .get key => (c.get key).2
  | .put key graph => c.put key graph
  | .invalidate agent => (c.invalidate agent).2

def answer (c : GraphCache G P S) : CacheOp G P S → CacheAnswer G P S
  | .get key => .found (c.get key).1
  | .put _ _ => .stored
  | .invalidate agent => .dropped (c.invalidate agent).1

end CacheOp

variable [Platform]

def cacheAfter (maxEntries : Nat) (ops : List (CacheOp G P S)) : GraphCache G P S :=
  Calls.run CacheOp.step { maxEntries := maxEntries } ops

def recentAfter (maxEntries : Nat) (ops : List (CacheOp G P S)) : RecentGraphs G P S :=
  Calls.run (CacheOp.reference maxEntries) [] ops

def cacheAnswers (maxEntries : Nat) (ops : List (CacheOp G P S)) : List (CacheAnswer G P S) :=
  Calls.events CacheOp.step (fun c op => [op.answer c]) { maxEntries := maxEntries } ops

def recentAnswers (maxEntries : Nat) (ops : List (CacheOp G P S)) : List (CacheAnswer G P S) :=
  Calls.events (CacheOp.reference maxEntries) (fun r op => [op.referenceAnswer r]) [] ops

def keysUsed (ops : List (CacheOp G P S)) : Set GraphCacheKey := {key | ∃ op ∈ ops, op.key? = some key}

/-! ## the cache and the list -/

/-- the cache is this list -/
structure Mirrors (used : Set GraphCacheKey) (c : GraphCache G P S) (r : RecentGraphs G P S) :
    Prop where
  entries : c.entries.items.reverse = Dict.renamed GraphCacheKey.digest r
  keys : ∀ digest key, c.keys.get? digest = some key ↔ key ∈ r.map Prod.fst ∧ key.digest = digest
  known : ∀ p ∈ r, p.1 ∈ used

namespace Mirrors
variable {used : Set GraphCacheKey} {c : GraphCache G P S} {r : RecentGraphs G P S}

theorem nodup (h : Mirrors used c r) : ((r.map Prod.fst).map GraphCacheKey.digest).Nodup := by
  have hn := c.entries.nodup
  rw [← List.nodup_reverse, ← List.map_reverse, h.entries] at hn
  rw [List.map_map]
  unfold Dict.renamed at hn
  rw [List.map_map] at hn
  exact hn

theorem keys_nodup (h : Mirrors used c r) : (r.map Prod.fst).Nodup := .of_map _ h.nodup

theorem distinct (h : Mirrors used c r) (hinj : Set.InjOn GraphCacheKey.digest used)
    {key : GraphCacheKey} (hk : key ∈ used) : ∀ p ∈ r, p.1.digest = key.digest → p.1 = key :=
  fun p hp => hinj (h.known p hp) hk

theorem get?_entries (h : Mirrors used c r) (hinj : Set.InjOn GraphCacheKey.digest used)
    {key : GraphCacheKey} (hk : key ∈ used) :
    c.entries.get? key.digest = Dict.getItems key r := by
  rw [← Dict.getItems_reverse, h.entries, Dict.getItems_renamed (h.distinct hinj hk)]

theorem mem_entries (h : Mirrors used c r) {digest : String} {g : CompiledStateGraph G P S} :
    c.entries.get? digest = some g ↔ ∃ key, (key, g) ∈ r ∧ key.digest = digest := by
  rw [← Dict.mem_items, ← List.mem_reverse, h.entries, Dict.renamed, List.mem_map]
  constructor
  · rintro ⟨p, hp, hpg⟩
    cases hpg
    exact ⟨p.1, hp, rfl⟩
  · rintro ⟨key, hp, rfl⟩
    exact ⟨_, hp, rfl⟩

theorem digests (h : Mirrors used c r) (digest : String) :
    digest ∈ c.entries.keys ↔ digest ∈ c.keys.keys := by
  rw [Dict.mem_keys, Dict.mem_keys]
  constructor
  · rintro ⟨g, hg⟩
    obtain ⟨key, hin, hd⟩ := h.mem_entries.1 hg
    exact ⟨key, (h.keys digest key).2 ⟨List.mem_map_of_mem hin, hd⟩⟩
  · rintro ⟨key, hkey⟩
    obtain ⟨hin, hd⟩ := (h.keys digest key).1 hkey
    obtain ⟨p, hp, rfl⟩ := List.mem_map.1 hin
    exact ⟨p.2, h.mem_entries.2 ⟨p.1, hp, hd⟩⟩

/-! ### step by step -/

theorem get (h : Mirrors used c r) (hinj : Set.InjOn GraphCacheKey.digest used)
    {key : GraphCacheKey} (hk : key ∈ used) :
    (c.get key).1 = Dict.getItems key r ∧ Mirrors used (c.get key).2 (Dict.touch key r) := by
  have hget := h.get?_entries hinj hk
  unfold GraphCache.get Dict.touch
  rcases hfound : Dict.getItems key r with _ | g
  · rw [hfound] at hget
    simp only [hget]
    exact ⟨trivial, h.entries, h.keys, h.known⟩
  · rw [hfound] at hget
    simp only [hget]
    have hin : key ∈ r.map Prod.fst := by
      obtain ⟨key', hin, hd⟩ := h.mem_entries.1 hget
      obtain rfl := h.distinct hinj hk _ hin hd
      exact List.mem_map_of_mem hin
    have htouch : Dict.touch key r = (key, g) :: r.filter fun p => p.1 ≠ key := by
      unfold Dict.touch
      rw [hfound]
    have hsame : ∀ k, k ∈ (Dict.touch key r).map Prod.fst ↔ k ∈ r.map Prod.fst := by
      intro k
      rw [htouch, List.map_cons, List.mem_cons]
      by_cases hkey : k = key
      · simp [hkey, hin]
      · simp [hkey]
    rw [← htouch]
    refine ⟨trivial, ?_, ?_, ?_⟩
    · rw [Dict.reverse_moveToEnd, h.entries, Dict.touch_renamed (h.distinct hinj hk)]
    · intro digest k
      rw [hsame]
      exact h.keys digest k
    · intro p hp
      obtain ⟨q, hq, hqp⟩ := List.mem_map.1 ((hsame p.1).1 (List.mem_map_of_mem hp))
      exact hqp ▸ h.known q hq

theorem set (h : Mirrors used c r) (hinj : Set.InjOn GraphCacheKey.digest used)
    {key : GraphCacheKey} (hk : key ∈ used) (graph : CompiledStateGraph G P S) :
    Mirrors used
      { c with
        entries := (c.entries.set key.digest graph).moveToEnd key.digest
        keys := c.keys.set key.digest key }
      ((key, graph) :: r.filter fun p => p.1 ≠ key) := by
  have hdistinct := h.distinct hinj hk
  refine ⟨?_, fun digest k => ?_, fun p hp => ?_⟩
  · show ((c.entries.set key.digest graph).moveToEnd key.digest).items.reverse = _
    rw [Dict.reverse_set_moveToEnd, h.entries, Dict.filter_renamed hdistinct]
    rfl
  · have hmem : k ∈ ((key, graph) :: r.filter fun p => p.1 ≠ key).map Prod.fst ↔
        k = key ∨ k ∈ r.map Prod.fst := by
      rw [List.map_cons, List.mem_cons]
      by_cases hkey : k = key
      · simp [hkey]
      · simp [hkey]
    show (c.keys.set key.digest key).get? digest = some k ↔ _
    rw [hmem, Dict.get?_set]
    split
    · rename_i hd
      rw [hd, Option.some.injEq]
      constructor
      · rintro rfl
        exact ⟨Or.inl rfl, rfl⟩
      · rintro ⟨rfl | hin, hdigest⟩
        · rfl
        · obtain ⟨p, hp, rfl⟩ := List.mem_map.1 hin
          exact (hdistinct p hp hdigest).symm
    · rename_i hd
      rw [h.keys]
      constructor
      · rintro ⟨hin, hdigest⟩
        exact ⟨Or.inr hin, hdigest⟩
      · rintro ⟨rfl | hin, hdigest⟩
        · exact absurd hdigest.symm hd
        · exact ⟨hin, hdigest⟩
  · rcases List.mem_cons.1 hp with rfl | hp
    · exact hk
    · exact h.known p (List.mem_of_mem_filter hp)

theorem drop (h : Mirrors used c r) {entries : Dict String (CompiledStateGraph G P S)}
    {gone : List String} {q : GraphCacheKey → Bool}
    (hentries : entries.items.reverse =
      Dict.renamed GraphCacheKey.digest (r.filter fun p => q p.1))
    (hgone : ∀ p ∈ r, p.1.digest ∈ gone ↔ q p.1 = false) :
    Mirrors used
      { c with
        entries := entries
        keys := gone.foldl (fun keys digest => keys.erase digest) c.keys }
      (r.filter fun p => q p.1) := by
  refine ⟨hentries, fun digest k => ?_, fun p hp => h.known p (List.mem_of_mem_filter hp)⟩
  show (gone.foldl (fun keys digest => keys.erase digest) c.keys).get? digest = some k ↔ _
  rw [Dict.get?_foldl_erase (fun d : String => d)]
  constructor
  · intro hget
    split at hget
    · cases hget
    · rename_i hkept
      obtain ⟨hin, rfl⟩ := (h.keys digest k).1 hget
      obtain ⟨p, hp, rfl⟩ := List.mem_map.1 hin
      have hq : q p.1 = true := by
        by_contra hfalse
        exact hkept ⟨_, (hgone p hp).2 (Bool.eq_false_iff.2 hfalse), rfl⟩
      exact ⟨List.mem_map_of_mem (List.mem_filter.2 ⟨hp, hq⟩), rfl⟩
  · rintro ⟨hin, rfl⟩
    obtain ⟨p, hp, rfl⟩ := List.mem_map.1 hin
    obtain ⟨hp, hq⟩ := List.mem_filter.1 hp
    rw [if_neg, h.keys]
    · exact ⟨List.mem_map_of_mem hp, rfl⟩
    · rintro ⟨digest, hdigest, rfl⟩
      rw [(hgone p hp).1 hdigest] at hq
      cases hq

theorem filter_take (h : Mirrors used c r) (n : Nat) :
    (r.filter fun p => decide (p.1 ∈ (r.take n).map Prod.fst)) = r.take n := by
  have hn := h.keys_nodup
  rw [← List.take_append_drop n r, List.map_append] at hn
  have hkept : ∀ p ∈ r.take n, decide (p.1 ∈ (r.take n).map Prod.fst) = true :=
    fun p hp => decide_eq_true (List.mem_map_of_mem hp)
  have hgone : ∀ p ∈ r.drop n, ¬ decide (p.1 ∈ (r.take n).map Prod.fst) = true := by
    intro p hp hin
    exact List.disjoint_of_nodup_append hn (of_decide_eq_true hin) (List.mem_map_of_mem hp)
  calc r.filter _ = (r.take n ++ r.drop n).filter fun p => decide (p.1 ∈ (r.take n).map Prod.fst) := by
        rw [List.take_append_drop]
    _ = r.take n := by
        rw [List.filter_append, List.filter_eq_self.2 hkept, List.filter_eq_nil_iff.2 hgone,
          List.append_nil]

theorem evict (h : Mirrors used c r) (n : Nat) :
    Mirrors used
      { c with
        entries := c.entries.evict n
        keys := (c.entries.evicted n).foldl (fun keys digest => keys.erase digest) c.keys }
      (r.take n) := by
  rw [← h.filter_take n]
  refine h.drop (q := fun key => decide (key ∈ (r.take n).map Prod.fst)) ?_ fun p hp => ?_
  · rw [h.filter_take, Dict.reverse_evict, h.entries, Dict.renamed, Dict.renamed, List.map_take]
  · have hn := h.nodup
    rw [← List.take_append_drop n r, List.map_append, List.map_append] at hn
    have hevicted : p.1.digest ∈ c.entries.evicted n ↔
        p.1.digest ∈ ((r.drop n).map Prod.fst).map GraphCacheKey.digest := by
      rw [Dict.mem_evicted, h.entries, Dict.renamed, ← List.map_drop, List.map_map, List.map_map]
      rfl
    rw [hevicted, decide_eq_false_iff_not]
    constructor
    · intro hgone hkept
      exact List.disjoint_of_nodup_append hn (List.mem_map_of_mem hkept) hgone
    · intro hkept
      rw [← List.take_append_drop n r, List.mem_append] at hp
      rcases hp with hp | hp
      · exact absurd (List.mem_map_of_mem hp) hkept
      · exact List.mem_map_of_mem (List.mem_map_of_mem hp)

theorem put (h : Mirrors used c r) (hinj : Set.InjOn GraphCacheKey.digest used)
    {key : GraphCacheKey} (hk : key ∈ used) (graph : CompiledStateGraph G P S) :
    Mirrors used (c.put key graph) (Dict.store c.maxEntries key graph r) := by
  obtain ⟨hentries, hkeys, hknown⟩ := (h.set hinj hk graph).evict c.maxEntries
  exact ⟨hentries, hkeys, hknown⟩

theorem mem_invalidated (h : Mirrors used c r) {agent : Option String} {digest : String} :
    digest ∈ (c.keys.items.filter fun p => agent.all fun name => p.2.agent = name).map Prod.fst ↔
      ∃ p ∈ r, p.1.concerns agent = true ∧ p.1.digest = digest := by
  constructor
  · intro hin
    obtain ⟨p, hp, rfl⟩ := List.mem_map.1 hin
    obtain ⟨hp, hconcerns⟩ := List.mem_filter.1 hp
    obtain ⟨hkey, hd⟩ := (h.keys p.1 p.2).1 (Dict.mem_items.1 hp)
    obtain ⟨q, hq, hqp⟩ := List.mem_map.1 hkey
    exact ⟨q, hq, hqp ▸ hconcerns, hqp ▸ hd⟩
  · rintro ⟨p, hp, hconcerns, rfl⟩
    have hkey := (h.keys p.1.digest p.1).2 ⟨List.mem_map_of_mem hp, rfl⟩
    exact List.mem_map.2 ⟨(p.1.digest, p.1),
      List.mem_filter.2 ⟨Dict.mem_items.2 hkey, hconcerns⟩, rfl⟩

theorem invalidate (h : Mirrors used c r) (agent : Option String) :
    (c.invalidate agent).1 = (r.filter fun p => p.1.concerns agent).length ∧
      Mirrors used (c.invalidate agent).2 (r.filter fun p => !p.1.concerns agent) := by
  have hn := h.nodup
  have hdropped : ∀ p ∈ r, p.1.digest ∈
      (c.keys.items.filter fun p => agent.all fun name => p.2.agent = name).map Prod.fst ↔
        (!p.1.concerns agent) = false := by
    intro p hp
    rw [h.mem_invalidated, Bool.not_eq_false']
    constructor
    · rintro ⟨q, hq, hconcerns, hd⟩
      have hqp := List.inj_on_of_nodup_map hn (List.mem_map_of_mem hq) (List.mem_map_of_mem hp) hd
      exact hqp ▸ hconcerns
    · intro hconcerns
      exact ⟨p, hp, hconcerns, rfl⟩
  constructor
  · have hperm : ((c.keys.items.filter fun p => agent.all fun name => p.2.agent = name).map
        Prod.fst).Perm (((r.filter fun p => p.1.concerns agent).map Prod.fst).map
          GraphCacheKey.digest) := by
      refine (List.perm_ext_iff_of_nodup ?_ ?_).2 fun digest => ?_
      · exact c.keys.nodup.sublist (List.filter_sublist.map Prod.fst)
      · exact hn.sublist ((List.filter_sublist.map Prod.fst).map _)
      · rw [h.mem_invalidated, List.map_map, List.mem_map]
        constructor
        · rintro ⟨p, hp, hconcerns, hd⟩
          exact ⟨p, List.mem_filter.2 ⟨hp, hconcerns⟩, hd⟩
        · rintro ⟨p, hp, hd⟩
          exact ⟨p, List.mem_of_mem_filter hp, (List.mem_filter.1 hp).2, hd⟩
    have hlength := hperm.length_eq
    rw [List.length_map, List.length_map, List.length_map] at hlength
    show ((c.keys.items.filter _).map Prod.fst).length = _
    rw [List.length_map]
    exact hlength
  · have hleft : (((c.keys.items.filter fun p => agent.all fun name => p.2.agent = name).map
        Prod.fst).foldl (fun entries digest => entries.erase digest) c.entries).items.reverse =
          Dict.renamed GraphCacheKey.digest (r.filter fun p => !p.1.concerns agent) := by
      rw [Dict.items_foldl_erase, ← List.filter_reverse, h.entries, Dict.renamed, Dict.renamed,
        List.filter_map]
      refine congrArg _ (List.filter_congr fun p hp => ?_)
      have hiff := hdropped p hp
      cases hq : !p.1.concerns agent with
      | true =>
        rw [hq] at hiff
        exact decide_eq_true fun hin => Bool.noConfusion (hiff.1 hin)
      | false =>
        rw [hq] at hiff
        exact decide_eq_false fun hnot => hnot (hiff.2 rfl)
    obtain ⟨hentries, hkeys, hknown⟩ := h.drop (q := fun key => !key.concerns agent) hleft hdropped
    exact ⟨hentries, hkeys, hknown⟩

theorem invalidated (h : Mirrors used c r) (agent : Option String) (digest : String) :
    (∀ key, (c.invalidate agent).2.keys.get? digest = some key ↔
      c.keys.get? digest = some key ∧ key.concerns agent = false) ∧
    ∀ g, (c.invalidate agent).2.entries.get? digest = some g ↔
      c.entries.get? digest = some g ∧
        ∃ key, c.keys.get? digest = some key ∧ key.concerns agent = false := by
  obtain ⟨-, hafter⟩ := h.invalidate agent
  constructor
  · intro key
    rw [hafter.keys, h.keys]
    constructor
    · rintro ⟨hin, hd⟩
      obtain ⟨p, hp, rfl⟩ := List.mem_map.1 hin
      obtain ⟨hp, hq⟩ := List.mem_filter.1 hp
      exact ⟨⟨List.mem_map_of_mem hp, hd⟩, Bool.not_eq_true' _ ▸ hq⟩
    · rintro ⟨⟨hin, hd⟩, hq⟩
      obtain ⟨p, hp, rfl⟩ := List.mem_map.1 hin
      exact ⟨List.mem_map_of_mem (List.mem_filter.2 ⟨hp, by rw [hq]; rfl⟩), hd⟩
  · intro g
    rw [hafter.mem_entries, h.mem_entries]
    constructor
    · rintro ⟨key, hin, hd⟩
      obtain ⟨hin, hq⟩ := List.mem_filter.1 hin
      refine ⟨⟨key, hin, hd⟩, key, (h.keys digest key).2 ⟨List.mem_map_of_mem hin, hd⟩, ?_⟩
      exact Bool.not_eq_true' _ ▸ hq
    · rintro ⟨⟨key, hin, hd⟩, key', hkey', hq⟩
      obtain ⟨hin', hd'⟩ := (h.keys digest key').1 hkey'
      obtain rfl := List.inj_on_of_nodup_map h.nodup hin' (List.mem_map_of_mem hin)
        (hd'.trans hd.symm)
      exact ⟨key', List.mem_filter.2 ⟨hin, by rw [hq]; rfl⟩, hd⟩

theorem step (h : Mirrors used c r) (hinj : Set.InjOn GraphCacheKey.digest used)
    (op : CacheOp G P S) (hk : ∀ key, op.key? = some key → key ∈ used) :
    op.answer c = op.referenceAnswer r ∧
      Mirrors used (CacheOp.step c op) (CacheOp.reference c.maxEntries r op) := by
  cases op with
  | get key =>
    obtain ⟨hfound, hafter⟩ := h.get hinj (hk key rfl)
    exact ⟨congrArg CacheAnswer.found hfound, hafter⟩
  | put key graph => exact ⟨rfl, h.put hinj (hk key rfl) graph⟩
  | invalidate agent =>
    obtain ⟨hcount, hafter⟩ := h.invalidate agent
    exact ⟨congrArg CacheAnswer.dropped hcount, hafter⟩

end Mirrors

theorem CacheOp.step_maxEntries (c : GraphCache G P S) (op : CacheOp G P S) :
    (CacheOp.step c op).maxEntries = c.maxEntries := by
  cases op with
  | get key =>
    show (c.get key).2.maxEntries = _
    unfold GraphCache.get
    cases hget : c.entries.get? key.digest with
    | none => simp only [hget]
    | some g => simp only [hget]
  | put key graph => rfl
  | invalidate agent => rfl

theorem cacheAfter_concat (n : Nat) (ops : List (CacheOp G P S)) (op : CacheOp G P S) :
    cacheAfter n (ops ++ [op]) = CacheOp.step (cacheAfter n ops) op := Calls.run_concat _ _ _ _

theorem recentAfter_concat (n : Nat) (ops : List (CacheOp G P S)) (op : CacheOp G P S) :
    recentAfter n (ops ++ [op]) = CacheOp.reference n (recentAfter n ops) op :=
  Calls.run_concat _ _ _ _

theorem cacheAfter_maxEntries (n : Nat) (ops : List (CacheOp G P S)) :
    (cacheAfter n ops).maxEntries = n := by
  induction ops using List.reverseRecOn with
  | nil => rfl
  | append_singleton ops op ih => rw [cacheAfter_concat, CacheOp.step_maxEntries, ih]

/-- **The cache is the list** after every sequence of calls, and returned the same. -/
theorem cacheAfter_mirrors {used : Set GraphCacheKey}
    (hinj : Set.InjOn GraphCacheKey.digest used) (n : Nat) {ops : List (CacheOp G P S)}
    (hk : keysUsed ops ⊆ used) :
    cacheAnswers n ops = recentAnswers n ops ∧
      Mirrors used (cacheAfter n ops) (recentAfter n ops) := by
  induction ops using List.reverseRecOn with
  | nil =>
    refine ⟨rfl, rfl, fun digest key => ?_, fun p hp => absurd hp List.not_mem_nil⟩
    exact iff_of_false (fun hget => nomatch hget) fun hin => absurd hin.1 List.not_mem_nil
  | append_singleton ops op ih =>
    have hbefore : keysUsed ops ⊆ used := by
      rintro key ⟨o, ho, hkey⟩
      exact hk ⟨o, List.mem_append_left _ ho, hkey⟩
    obtain ⟨hanswers, hmirrors⟩ := ih hbefore
    have hlast : ∀ key, op.key? = some key → key ∈ used := fun key hkey =>
      hk ⟨op, List.mem_append_right _ List.mem_cons_self, hkey⟩
    obtain ⟨hanswer, hafter⟩ := hmirrors.step hinj op hlast
    rw [cacheAfter_maxEntries] at hafter
    constructor
    · unfold cacheAnswers recentAnswers at hanswers ⊢
      rw [Calls.events_concat, Calls.events_concat, hanswers]
      exact congrArg (fun a => _ ++ [a]) hanswer
    · rw [cacheAfter_concat, recentAfter_concat]
      exact hafter

/-- the list is never longer than the capacity, and stands in the order of use -/
theorem recentAfter_byUse (n : Nat) (ops : List (CacheOp G P S)) :
    (recentAfter n ops).length ≤ n ∧ Dict.ByUse CacheOp.uses ops (recentAfter n ops) := by
  induction ops using List.reverseRecOn with
  | nil => exact ⟨Nat.zero_le n, List.Pairwise.nil⟩
  | append_singleton ops op ih =>
    obtain ⟨hlength, hbyUse⟩ := ih
    rw [recentAfter_concat]
    cases op with
    | get key =>
      refine ⟨(Dict.length_touch key).trans hlength, hbyUse.touch fun key' => ?_⟩
      rw [CacheOp.uses, CacheOp.key?, decide_eq_true_eq, Option.some.injEq, eq_comm]
    | put key graph =>
      refine ⟨List.length_take_le _ _, hbyUse.store (fun key' => ?_) n graph⟩
      rw [CacheOp.uses, CacheOp.key?, decide_eq_true_eq, Option.some.injEq, eq_comm]
    | invalidate agent =>
      refine ⟨(List.length_filter_le _ _).trans hlength, ?_⟩
      exact (hbyUse.sublist List.filter_sublist).unused fun _ _ => rfl

/-! ## eviction -/

/-- putting this graph drops a key that was there, or the new one -/
def GraphCache.Drops (c : GraphCache G P S) (key : GraphCacheKey) (graph : CompiledStateGraph G P S)
    (gone : GraphCacheKey) : Prop :=
  (gone = key ∨ c.keys.get? gone.digest = some gone) ∧
    (c.put key graph).entries.get? gone.digest = none

/-- what a `put` drops was used less recently than all it keeps -/
theorem evicts_least_recent {used : Set GraphCacheKey}
    (hinj : Set.InjOn GraphCacheKey.digest used) {n : Nat} {ops : List (CacheOp G P S)}
    {key : GraphCacheKey} {graph : CompiledStateGraph G P S}
    (hk : keysUsed (ops ++ [.put key graph]) ⊆ used) {gone kept : GraphCacheKey}
    (hgone : (cacheAfter n ops).Drops key graph gone)
    (hkept : ((cacheAfter n ops).put key graph).keys.get? kept.digest = some kept) :
    Dict.lastUse CacheOp.uses (ops ++ [CacheOp.put key graph]) gone <
      Dict.lastUse CacheOp.uses (ops ++ [CacheOp.put key graph]) kept := by
  have hops : keysUsed ops ⊆ used := by
    rintro k ⟨o, ho, hkey⟩
    exact hk ⟨o, List.mem_append_left _ ho, hkey⟩
  have hkey : key ∈ used := hk ⟨_, List.mem_append_right _ List.mem_cons_self, rfl⟩
  obtain ⟨-, hbefore⟩ := cacheAfter_mirrors hinj n hops
  have hafter := hbefore.put hinj hkey graph
  rw [cacheAfter_maxEntries] at hafter
  obtain ⟨hwas, hdropped⟩ := hgone
  let full := (key, graph) :: (recentAfter n ops).filter fun p => p.1 ≠ key
  have hfull : Dict.ByUse CacheOp.uses (ops ++ [CacheOp.put key graph]) full := by
    refine (recentAfter_byUse n ops).2.used (fun key' => ?_) graph
    rw [CacheOp.uses, CacheOp.key?, decide_eq_true_eq, Option.some.injEq, eq_comm]
  have hin : ∃ g, (gone, g) ∈ full := by
    by_cases hnew : gone = key
    · exact ⟨graph, hnew ▸ List.mem_cons_self⟩
    · obtain ⟨hold, -⟩ := (hbefore.keys _ gone).1 (hwas.resolve_left hnew)
      obtain ⟨p, hp, rfl⟩ := List.mem_map.1 hold
      exact ⟨p.2, List.mem_cons_of_mem _ (List.mem_filter.2 ⟨hp, decide_eq_true hnew⟩)⟩
  obtain ⟨g, hg⟩ := hin
  have hcut : (gone, g) ∈ full.drop n := by
    rw [← List.take_append_drop n full, List.mem_append] at hg
    refine hg.resolve_left fun hleft => ?_
    have hthere := hafter.mem_entries.2 ⟨gone, hleft, rfl⟩
    rw [hdropped] at hthere
    cases hthere
  obtain ⟨hleft, -⟩ := (hafter.keys _ kept).1 hkept
  obtain ⟨p, hp, rfl⟩ := List.mem_map.1 hleft
  exact hfull.cut n hp hcut

/-- **The cache is a bounded list of the graphs used last.**  It returns what the list returns, in
every sequence of calls whose keys have different digests.  After each of them it holds the graphs
of the list, in that order; both of its maps have the same digests, never more than it may hold;
what a `put` drops was used less recently than all that is kept; and what an invalidation drops is
what belongs to the agent. -/
theorem cache_refines_lru (maxEntries : Nat) (ops : List (CacheOp G P S))
    (hinj : Set.InjOn GraphCacheKey.digest (keysUsed ops)) :
    cacheAnswers maxEntries ops = recentAnswers maxEntries ops ∧
    ∀ before, before <+: ops →
      let c := cacheAfter maxEntries before
      c.entries.items.reverse = Dict.renamed GraphCacheKey.digest (recentAfter maxEntries before) ∧
      (∀ digest, digest ∈ c.entries.keys ↔ digest ∈ c.keys.keys) ∧
      c.entries.items.length ≤ maxEntries ∧
      (∀ key graph, before ++ [.put key graph] <+: ops → ∀ gone kept, c.Drops key graph gone →
        (c.put key graph).keys.get? kept.digest = some kept →
        Dict.lastUse CacheOp.uses (before ++ [CacheOp.put key graph]) gone <
          Dict.lastUse CacheOp.uses (before ++ [CacheOp.put key graph]) kept) ∧
      ∀ agent digest,
        (∀ key, (c.invalidate agent).2.keys.get? digest = some key ↔
          c.keys.get? digest = some key ∧ key.concerns agent = false) ∧
        ∀ g, (c.invalidate agent).2.entries.get? digest = some g ↔
          c.entries.get? digest = some g ∧
            ∃ key, c.keys.get? digest = some key ∧ key.concerns agent = false := by
  have hused : ∀ {before}, before <+: ops → keysUsed before ⊆ keysUsed ops := by
    rintro before hpre key ⟨o, ho, hkey⟩
    exact ⟨o, hpre.subset ho, hkey⟩
  refine ⟨(cacheAfter_mirrors hinj maxEntries Set.Subset.rfl).1, fun before hpre => ?_⟩
  obtain ⟨-, hmirrors⟩ := cacheAfter_mirrors hinj maxEntries (hused hpre)
  refine ⟨hmirrors.entries, hmirrors.digests, ?_, ?_, hmirrors.invalidated⟩
  · have hlength := congrArg List.length hmirrors.entries
    rw [List.length_reverse, Dict.renamed, List.length_map] at hlength
    rw [hlength]
    exact (recentAfter_byUse maxEntries before).1
  · intro key graph hput gone kept hgone hkept
    exact evicts_least_recent hinj (hused hput) hgone hkept

end

section
open scoped Plain

def agentKey (agent : String) : GraphCacheKey := ⟨agent, "1", "", "", "", []⟩

def emptyGraph : CompiledStateGraph Unit Unit Unit := ⟨(), none, none, ⟨"", "1", [], ⟨"", []⟩, Dict.empty⟩⟩

/-- `a` is used again before there is no room for the third -/
def threeAgents : List (CacheOp Unit Unit Unit) :=
  [.put (agentKey "a") emptyGraph, .put (agentKey "b") emptyGraph, .get (agentKey "a"),
    .put (agentKey "c") emptyGraph, .get (agentKey "b"), .invalidate (some "a")]

theorem cache_refines_lru_three : cacheAnswers 2 threeAgents = recentAnswers 2 threeAgents ∧
    (cacheAfter 2 threeAgents).entries.items.length ≤ 2 := by
  have hall : ∀ k ∈ ["a", "b", "c"].map agentKey, ∀ k' ∈ ["a", "b", "c"].map agentKey,
      k.digest = k'.digest → k = k' := by decide +kernel
  have hused : ∀ op ∈ threeAgents, ∀ k ∈ op.key?, k ∈ ["a", "b", "c"].map agentKey := by decide
  have hinj : Set.InjOn GraphCacheKey.digest (keysUsed threeAgents) := by
    rintro k ⟨op, hop, hk⟩ k' ⟨op', hop', hk'⟩
    exact hall k (hused op hop k hk) k' (hused op' hop' k' hk')
  obtain ⟨hanswers, hreached⟩ := cache_refines_lru 2 threeAgents hinj
  exact ⟨hanswers, (hreached threeAgents (List.prefix_refl _)).2.2.1⟩

end

end Chassis
