import Chassis.Core.GenerationStore
import Chassis.Harness.Hosting
import Chassis.Harness.Residents
import Chassis.Harness.Singles
import Chassis.Harness.Tally

/-!
# What the live generations retain

* `generationPressure`   the report, without its ages;
* `reaching`             the live generations that have an instance, newest first;
* `Report.Tells`         what the report is supposed to say of a harness;
* `pressure_exact`       **it says so, in every configuration**, and what no generation reaches is
                         no longer there, unless a dispatch was aborted.
-/

set_option linter.unusedSectionVars false

namespace Chassis
open Py Coop

/-! ## the report -/

/-- a plugin that a generation was published with -/
structure RetainedPlugin where
  entryId : String
  instanceId : String
  plugin : String
  version : String
  state : String
  generationRefs : Nat
  deriving DecidableEq

structure GenerationPressureEntry where
  generationId : String
  sequence : Nat
  state : String
  isCurrent : Bool
  leases : Nat
  retainedPlugins : List RetainedPlugin
  deriving DecidableEq

/-- one live resource, and the generations that can still reach it -/
structure ResourceReachability where
  instanceId : String
  entryId : String
  plugin : String
  state : String
  generationRefs : Nat
  generations : List String
  retainedBy : List String
  deriving DecidableEq

def ResourceReachability.shared (r : ResourceReachability) : Bool := 1 < r.generations.length

structure GenerationPressureReport where
  currentGenerationId : Option String
  liveGenerations : Nat
  drainingGenerations : Nat
  totalLeases : Nat
  generations : List GenerationPressureEntry
  instanceGenerations : Dict String (List String)
  historyLimit : Nat
  historyRetained : Nat
  historyEvicted : Nat
  resources : List ResourceReachability

def retainedByLease : String := "lease"

def retainedBySharing : String := "sharing"

/-- an instance of a generation as it is now: the registry has it, as long as it is live -/
def Harness.present (h : Harness) (i : PluginInstance) : PluginInstance :=
  (h.plugins.instances.get? i.instanceId).getD i

def Harness.retainedPlugin (h : Harness) (i : PluginInstance) : RetainedPlugin :=
  ⟨i.entryId, i.instanceId, i.manifest.name, i.manifest.version, (h.present i).state.value,
    (h.present i).generationRefs⟩

def Harness.pressureEntry (h : Harness) (g : RuntimeGeneration) : GenerationPressureEntry :=
  ⟨g.generationId, g.sequence, g.state.value,
    h.generations.current.any fun current => current.sequence = g.sequence, g.leases,
    g.instances.map h.retainedPlugin⟩

/-- `setdefault(key, []).append(value)` -/
def appendTo {α : Type} (d : Dict String (List α)) (p : String × α) : Dict String (List α) :=
  d.set p.1 ((d.get? p.1).getD [] ++ [p.2])

/-- what the loops see: an instance in each generation that has it -/
def GenerationManager.sightings (m : GenerationManager) : List (RuntimeGeneration × PluginInstance) :=
  m.live.flatMap fun g => g.instances.map fun i => (g, i)

/-- `instance_generations`, each newest first -/
def GenerationManager.instanceGenerations (m : GenerationManager) : Dict String (List String) :=
  ((m.sightings.map fun s => (s.2.instanceId, s.1.sequence, s.1.generationId)).foldl appendTo
    Dict.empty).mapValues fun l => (sortedBy (fun p => -(p.1 : Int)) l).map Prod.snd

def GenerationManager.leasedInstances (m : GenerationManager) : List String :=
  (m.live.filter fun g => 0 < g.leases).flatMap RuntimeGeneration.instanceIds

def Harness.resource (h : Harness) (i : RetainedPlugin) : ResourceReachability :=
  let reaching := (h.generations.instanceGenerations.get? i.instanceId).getD []
  { instanceId := i.instanceId
    entryId := i.entryId
    plugin := i.plugin
    state := i.state
    generationRefs := i.generationRefs
    generations := reaching
    retainedBy := sorted ((if 1 < reaching.length then [retainedBySharing] else []) ++
      if i.instanceId ∈ h.generations.leasedInstances then [retainedByLease] else []) }

/-- `resource_facts`, as the last generation that has the instance tells them -/
def Harness.resourceFacts (h : Harness) : Dict String RetainedPlugin :=
  Dict.ofList (h.generations.sightings.map fun s => (s.2.instanceId, h.retainedPlugin s.2))

def Harness.generationPressure (h : Harness) : GenerationPressureReport :=
  let m := h.generations
  { currentGenerationId := m.current.map RuntimeGeneration.generationId
    liveGenerations := m.live.length
    drainingGenerations := m.draining.length
    totalLeases := (m.live.map RuntimeGeneration.leases).sum
    generations := sortedBy (fun e => -(e.sequence : Int)) (m.live.map h.pressureEntry)
    instanceGenerations := m.instanceGenerations
    historyLimit := m.historyLimit
    historyRetained := m.retired.length
    historyEvicted := m.evicted
    resources := ((sortedBy Prod.fst h.resourceFacts.items).map fun p => h.resource p.2).filter fun r =>
      r.generations ≠ [] }

def Harness.instanceGenerations (h : Harness) (instanceId : String) : List String :=
  (h.generationPressure.instanceGenerations.get? instanceId).getD []

/-! ## what it says -/

theorem appendTo_getD {α : Type} (l : List (String × α)) (d : Dict String (List α)) (k : String) :
    ((l.foldl appendTo d).get? k).getD [] =
      (d.get? k).getD [] ++ (l.filter fun p => p.1 = k).map Prod.snd := by
  induction l generalizing d with
  | nil => exact (List.append_nil _).symm
  | cons p l ih =>
    rw [List.foldl_cons, ih, appendTo, Dict.get?_set]
    by_cases hk : k = p.1
    · rw [if_pos hk, List.filter_cons, if_pos (decide_eq_true hk.symm), List.map_cons, hk,
        Option.getD_some, List.append_assoc]
      rfl
    · rw [if_neg hk, List.filter_cons, if_neg (by simpa using Ne.symm hk)]

/-- the live generations that have an instance, newest first -/
def Harness.reaching (h : Harness) (instanceId : String) : List RuntimeGeneration :=
  (sortedBy (fun g : RuntimeGeneration => -(g.sequence : Int)) h.generations.live).filter fun g =>
    instanceId ∈ g.instanceIds

theorem sightings_filter (m : GenerationManager) (hs : ∀ g ∈ m.live, g.instanceIds.Nodup)
    (id : String) : ((m.sightings.filter fun s => s.2.instanceId = id).map Prod.fst) =
      m.live.filter fun g => id ∈ g.instanceIds := by
  unfold GenerationManager.sightings
  generalize m.live = l at hs
  induction l with
  | nil => rfl
  | cons g l ih =>
    have hrest := ih fun g' hg' => hs g' (List.mem_cons_of_mem _ hg')
    have hone : ((g.instances.map fun i => (g, i)).filter fun s => s.2.instanceId = id).map Prod.fst =
        if id ∈ g.instanceIds then [g] else [] := by
      have hnodup := hs g List.mem_cons_self
      unfold RuntimeGeneration.instanceIds at hnodup ⊢
      generalize g.instances = is at hnodup
      induction is with
      | nil => rfl
      | cons i is ih' =>
        rw [List.map_cons, List.nodup_cons] at hnodup
        have hstep := ih' hnodup.2
        rw [List.map_cons]
        by_cases hi : i.instanceId = id
        · rw [List.filter_cons, if_pos (decide_eq_true hi), List.map_cons, hstep,
            if_neg fun hin => hnodup.1 (hi ▸ hin), if_pos]
          rw [List.map_cons, hi]
          exact List.mem_cons_self
        · rw [List.filter_cons, if_neg (by simpa using hi), hstep]
          have hsame : id ∈ (i :: is).map PluginInstance.instanceId ↔
              id ∈ is.map PluginInstance.instanceId := by
            rw [List.map_cons, List.mem_cons]
            exact or_iff_right (Ne.symm hi)
          simp only [hsame]
    rw [List.flatMap_cons, List.filter_append, List.map_append, hrest, hone]
    by_cases hg : id ∈ g.instanceIds
    · rw [if_pos hg, List.filter_cons, if_pos (decide_eq_true hg)]
      rfl
    · rw [if_neg hg, List.filter_cons, if_neg (by simpa using hg)]
      rfl

section
variable [Packaging] [Platform] {h : Harness}

theorem instanceGenerations_reaching (hs : h.Singular) (id : String) :
    (h.generations.instanceGenerations.get? id).getD [] =
      (h.reaching id).map RuntimeGeneration.generationId := by
  have hnodup : ∀ g ∈ h.generations.live, g.instanceIds.Nodup := fun g hg => (hs g hg).instances
  have hgroup := appendTo_getD (h.generations.sightings.map fun s =>
    (s.2.instanceId, s.1.sequence, s.1.generationId)) Dict.empty id
  rw [Dict.get?_empty, Option.getD_none, List.nil_append, List.filter_map, List.map_map] at hgroup
  have hseen := congrArg (List.map fun g : RuntimeGeneration => (g.sequence, g.generationId))
    (sightings_filter h.generations hnodup id)
  rw [List.map_map] at hseen
  replace hgroup := hgroup.trans hseen
  unfold GenerationManager.instanceGenerations
  rw [Dict.get?_mapValues]
  have hmap : ∀ o : Option (List (Nat × String)),
      (o.map fun l => (sortedBy (fun p => -(p.1 : Int)) l).map Prod.snd).getD [] =
        (sortedBy (fun p => -(p.1 : Int)) (o.getD [])).map Prod.snd := by
    intro o
    cases o with
    | none => rfl
    | some l => rfl
  rw [hmap, hgroup, sortedBy_map, List.map_map]
  unfold Harness.reaching
  rw [sortedBy_filter]
  rfl

theorem mem_sightings {m : GenerationManager} {s : RuntimeGeneration × PluginInstance} :
    s ∈ m.sightings ↔ s.1 ∈ m.live ∧ s.2 ∈ s.1.instances := by
  unfold GenerationManager.sightings
  rw [List.mem_flatMap]
  constructor
  · rintro ⟨g, hg, hin⟩
    obtain ⟨i, hi, rfl⟩ := List.mem_map.1 hin
    exact ⟨hg, hi⟩
  · rintro ⟨hg, hi⟩
    exact ⟨s.1, hg, List.mem_map_of_mem hi⟩

theorem resourceFacts_some {id : String} {x : RetainedPlugin}
    (hx : h.resourceFacts.get? id = some x) : ∃ i : PluginInstance, i.instanceId = id ∧
      id ∈ h.generations.reachableInstanceIds ∧ x = h.retainedPlugin i := by
  unfold Harness.resourceFacts at hx
  rw [Dict.get?_ofList_eq] at hx
  obtain ⟨p, hp, rfl⟩ := Option.map_eq_some_iff.1 hx
  have hk := List.find?_some hp
  obtain rfl : p.1 = id := of_decide_eq_true hk
  obtain ⟨s, hs, rfl⟩ := List.mem_map.1 (List.mem_reverse.1 (List.mem_of_find?_eq_some hp))
  obtain ⟨hg, hi⟩ := mem_sightings.1 hs
  exact ⟨s.2, rfl, GenerationManager.mem_reachable.2 ⟨s.1, hg, List.mem_map_of_mem hi⟩, rfl⟩

theorem resourceFacts_isSome {id : String} (hid : id ∈ h.generations.reachableInstanceIds) :
    (h.resourceFacts.get? id).isSome := by
  obtain ⟨g, hg, hin⟩ := GenerationManager.mem_reachable.1 hid
  obtain ⟨i, hi, rfl⟩ := List.mem_map.1 hin
  unfold Harness.resourceFacts
  rw [Dict.get?_ofList_eq, Option.isSome_map, List.find?_isSome]
  have hseen : (g, i) ∈ h.generations.sightings := mem_sightings.2 ⟨hg, hi⟩
  exact ⟨_, List.mem_reverse.2 (List.mem_map_of_mem hseen), decide_eq_true rfl⟩

theorem mem_reaching {id : String} {g : RuntimeGeneration} :
    g ∈ h.reaching id ↔ g ∈ h.generations.live ∧ id ∈ g.instanceIds := by
  unfold Harness.reaching
  rw [List.mem_filter, mem_sortedBy, decide_eq_true_eq]

theorem reaching_nil {id : String} :
    h.reaching id = [] ↔ id ∉ h.generations.reachableInstanceIds := by
  rw [List.eq_nil_iff_forall_not_mem, GenerationManager.mem_reachable]
  constructor
  · rintro hnone ⟨g, hg⟩
    exact hnone g (mem_reaching.2 hg)
  · intro hnone g hg
    exact hnone ⟨g, mem_reaching.1 hg⟩

theorem mem_resources (hs : h.Singular) {r : ResourceReachability} :
    r ∈ h.generationPressure.resources ↔ ∃ i : PluginInstance,
      h.resourceFacts.get? i.instanceId = some (h.retainedPlugin i) ∧
        r = h.resource (h.retainedPlugin i) := by
  show r ∈ ((sortedBy Prod.fst h.resourceFacts.items).map fun p => h.resource p.2).filter _ ↔ _
  rw [List.mem_filter, List.mem_map]
  constructor
  · rintro ⟨⟨p, hp, rfl⟩, -⟩
    have hget : h.resourceFacts.get? p.1 = some p.2 := Dict.mem_items.1 (mem_sortedBy.1 hp)
    obtain ⟨i, hid, -, hx⟩ := resourceFacts_some hget
    rw [← hid, hx] at hget
    rw [hx]
    exact ⟨i, hget, rfl⟩
  · rintro ⟨i, hget, rfl⟩
    refine ⟨⟨_, mem_sortedBy.2 (Dict.mem_items.2 hget), rfl⟩, decide_eq_true ?_⟩
    obtain ⟨-, -, hreach, -⟩ := resourceFacts_some hget
    show (h.generations.instanceGenerations.get? i.instanceId).getD [] ≠ []
    rw [instanceGenerations_reaching hs]
    intro hnil
    exact reaching_nil.1 (List.map_eq_nil_iff.1 hnil) hreach

/-- an instance belongs to a generation with leases iff a run in progress holds such a one -/
theorem mem_leasedInstances (ha : h.generations.Accounted h.runs) (ht : h.Tallied) {id : String} :
    id ∈ h.generations.leasedInstances ↔
      ∃ l ∈ h.runs, id ∈ l.generation.instanceIds := by
  unfold GenerationManager.leasedInstances
  rw [List.mem_flatMap]
  constructor
  · rintro ⟨g, hg, hid⟩
    obtain ⟨hlive, hleases⟩ := List.mem_filter.1 hg
    rw [decide_eq_true_eq, GenerationManager.Tallied.leases ht ha hlive] at hleases
    obtain ⟨l, hl⟩ := List.exists_mem_of_length_pos hleases
    obtain ⟨hl, hseq⟩ := List.mem_filter.1 hl
    obtain ⟨g', hg', hs, hinst, -⟩ := ha.held l hl
    obtain rfl := ha.eq_of_sequence hlive hg' ((of_decide_eq_true hseq).symm.trans hs.symm)
    refine ⟨l, hl, ?_⟩
    unfold RuntimeGeneration.instanceIds
    rw [← hinst]
    exact hid
  · rintro ⟨l, hl, hid⟩
    obtain ⟨g, hg, hs, hinst, -⟩ := ha.held l hl
    refine ⟨g, List.mem_filter.2 ⟨hg, decide_eq_true (ha.leases_pos hl hg hs)⟩, ?_⟩
    unfold RuntimeGeneration.instanceIds at hid ⊢
    rw [hinst]
    exact hid

theorem mem_marks {a b : String} (hab : a ≠ b) {p q : Prop} [Decidable p] [Decidable q] :
    (a ∈ sorted ((if p then [a] else []) ++ if q then [b] else []) ↔ p) ∧
      (b ∈ sorted ((if p then [a] else []) ++ if q then [b] else []) ↔ q) := by
  rw [mem_sortedBy, mem_sortedBy]
  by_cases hp : p
  · by_cases hq : q
    · simp [hp, hq]
    · simp [hp, hq, hab.symm]
  · by_cases hq : q
    · simp [hp, hq, hab]
    · simp [hp, hq]

/-- what the report says of a harness -/
structure GenerationPressureReport.Tells (r : GenerationPressureReport) (h : Harness) : Prop where
  leases : r.totalLeases = h.runs.length
  newest : r.generations.Pairwise fun newer older => older.sequence < newer.sequence
  live : (r.generations.map GenerationPressureEntry.sequence).Perm
    (h.generations.live.map RuntimeGeneration.sequence)
  counts : ∀ e ∈ r.generations,
    e.leases = (h.runs.filter fun l => l.generation.sequence = e.sequence).length
  reaching : ∀ id, (r.instanceGenerations.get? id).getD [] =
    (h.reaching id).map RuntimeGeneration.generationId
  sorted : (r.resources.map ResourceReachability.instanceId).Pairwise (· < ·)
  reached : ∀ id, id ∈ r.resources.map ResourceReachability.instanceId ↔
    id ∈ h.generations.reachableInstanceIds
  present : ∀ x ∈ r.resources, ∃ i, h.plugins.instances.get? x.instanceId = some i ∧
    i.state = .active ∧ x.state = PluginState.active.value ∧ x.generationRefs = i.generationRefs
  generations : ∀ x ∈ r.resources,
    x.generations = (h.reaching x.instanceId).map RuntimeGeneration.generationId
  leased : ∀ x ∈ r.resources, retainedByLease ∈ x.retainedBy ↔
    ∃ l ∈ h.runs, x.instanceId ∈ l.generation.instanceIds
  shared : ∀ x ∈ r.resources, retainedBySharing ∈ x.retainedBy ↔ x.shared = true

theorem tells_of (hs : h.Safe) (ht : h.Tallied) (hsingle : h.Singular) :
    h.generationPressure.Tells h := by
  have ha := hs.accounted
  have hgen : ∀ i, (h.resource (h.retainedPlugin i)).generations =
      (h.reaching i.instanceId).map RuntimeGeneration.generationId :=
    fun i => instanceGenerations_reaching hsingle i.instanceId
  refine
    { leases := GenerationManager.Tallied.total ht ha
      newest := ?_
      live := ?_
      counts := ?_
      reaching := instanceGenerations_reaching hsingle
      sorted := ?_
      reached := ?_
      present := ?_
      generations := ?_
      leased := ?_
      shared := ?_ }
  · have hle := sortedBy_pairwise (fun e : GenerationPressureEntry => -(e.sequence : Int))
      (h.generations.live.map h.pressureEntry)
    have hnodup : ((sortedBy (fun e : GenerationPressureEntry => -(e.sequence : Int))
        (h.generations.live.map h.pressureEntry)).map GenerationPressureEntry.sequence).Nodup := by
      refine ((sortedBy_perm _ _).map _).nodup_iff.2 ?_
      rw [List.map_map]
      exact ha.nodup
    refine (hle.and (List.pairwise_map.1 hnodup)).imp ?_
    rintro a b ⟨hab, hne⟩
    omega
  · refine ((sortedBy_perm _ _).map _).trans ?_
    rw [List.map_map]
    exact List.Perm.refl _
  · intro e he
    obtain ⟨g, hg, rfl⟩ := List.mem_map.1 (mem_sortedBy.1 he)
    exact GenerationManager.Tallied.leases ht ha hg
  · have hle := sortedBy_pairwise Prod.fst h.resourceFacts.items
    have hnodup : ((sortedBy Prod.fst h.resourceFacts.items).map Prod.fst).Nodup :=
      ((sortedBy_perm _ _).map _).nodup_iff.2 h.resourceFacts.nodup
    have hkey : ∀ p ∈ sortedBy Prod.fst h.resourceFacts.items,
        (h.resource p.2).instanceId = p.1 := by
      intro p hp
      obtain ⟨i, hid, -, hx⟩ := resourceFacts_some (Dict.mem_items.1 (mem_sortedBy.1 hp))
      rw [hx]
      exact hid
    have hlt : ((sortedBy Prod.fst h.resourceFacts.items).map fun p => h.resource p.2).Pairwise
        fun a b => a.instanceId < b.instanceId := by
      rw [List.pairwise_map]
      refine (hle.and (List.pairwise_map.1 hnodup)).imp_of_mem ?_
      rintro p q hp hq ⟨hpq, hne⟩
      rw [hkey p hp, hkey q hq]
      exact lt_of_le_of_ne hpq hne
    rw [List.pairwise_map]
    exact hlt.filter _
  · intro id
    rw [List.mem_map]
    constructor
    · rintro ⟨x, hx, rfl⟩
      obtain ⟨i, hget, rfl⟩ := (mem_resources hsingle).1 hx
      obtain ⟨-, -, hreach, -⟩ := resourceFacts_some hget
      exact hreach
    · intro hid
      obtain ⟨x, hx⟩ := Option.isSome_iff_exists.1 (resourceFacts_isSome hid)
      obtain ⟨i, rfl, -, rfl⟩ := resourceFacts_some hx
      exact ⟨_, (mem_resources hsingle).2 ⟨i, hx, rfl⟩, rfl⟩
  · intro x hx
    obtain ⟨i, hget, rfl⟩ := (mem_resources hsingle).1 hx
    obtain ⟨-, -, hreach, -⟩ := resourceFacts_some hget
    obtain ⟨live, hlive, hactive⟩ := hs.reached _ hreach
    have hpresent : h.present i = live := by
      unfold Harness.present
      rw [hlive]
      rfl
    refine ⟨live, hlive, hactive, ?_, ?_⟩
    · show (h.present i).state.value = _
      rw [hpresent, hactive]
    · show (h.present i).generationRefs = _
      rw [hpresent]
  · intro x hx
    obtain ⟨i, -, rfl⟩ := (mem_resources hsingle).1 hx
    exact hgen i
  · intro x hx
    obtain ⟨i, -, rfl⟩ := (mem_resources hsingle).1 hx
    rw [← mem_leasedInstances ha ht]
    exact (mem_marks (by decide)).2
  · intro x hx
    obtain ⟨i, -, rfl⟩ := (mem_resources hsingle).1 hx
    rw [ResourceReachability.shared, decide_eq_true_eq]
    exact (mem_marks (by decide)).1

/-- **The report is exact.**  Whatever was composed, leased and returned, in whatever order and at
whatever awaits: it counts the runs in progress, each at the generation it holds, lists the live
generations, newest first, and for every instance those of them that have it.  While nobody
composes, an instance that it lists no generation for is not active, unless a handler aborted a
dispatch; and when a job has just succeeded, every resource counts the generations that it is listed
with. -/
theorem pressure_exact {h : Harness} {history : List (Event Job Err × HarnessConfig)}
    {c : HarnessConfig} (hrun : ControlRun h history c) :
    c.state.generationPressure.Tells c.state ∧
    (UnabortedRun h history c → c.running = none → ∀ id,
      c.state.instanceGenerations id = [] ↔ ¬ c.state.Active id) ∧
    (∀ j, (.ended j (.ok ()), c) ∈ history.head? →
      ∀ x ∈ c.state.generationPressure.resources, x.generationRefs = x.generations.length) := by
  have htells := tells_of hrun.safe hrun.tallied hrun.singular
  refine ⟨htells, fun hcalm hidle id => ?_, fun j hend x hx => ?_⟩
  · have hlist : c.state.instanceGenerations id = [] ↔
        id ∉ c.state.generations.reachableInstanceIds := by
      show (c.state.generationPressure.instanceGenerations.get? id).getD [] = [] ↔ _
      rw [htells.reaching, List.map_eq_nil_iff, reaching_nil]
    rw [hlist, not_iff_not]
    constructor
    · exact fun hid => hrun.safe.reached id hid
    · rintro ⟨i, hi, hactive⟩
      rcases hcalm.resident hidle id i hi with hfailed | ⟨-, hreach⟩
      · cases hactive.symm.trans hfailed
      · exact hreach
  · obtain ⟨i, hi, -, -, hrefs⟩ := htells.present x hx
    have hcount := hrun.counted (List.mem_of_mem_head? hend) _ i hi
    rw [hrefs, hcount, htells.generations x hx, List.length_map]
    unfold Harness.references Harness.reaching
    rw [hrun.safe.keyed _ i hi, ← sortedBy_filter, length_sortedBy]

end

section
open scoped Plain

/-- the state after a generation was replaced that a run still holds -/
@[irreducible] def supersededState : Harness := (play superseded).config.state

theorem superseded_run : ControlRun {} (play superseded).history ⟨supersededState, none⟩ := by
  unfold supersededState
  exact play_control superseded (by decide +kernel)

theorem pressure_exact_superseded :
    (supersededState.generationPressure.resources.map fun x =>
      (x.entryId, x.generationRefs, x.generations, x.retainedBy)) =
        [("p", 2, ["gen_0002", "gen_0001"], ["lease", "sharing"]), ("q", 1, ["gen_0002"], [])] ∧
    supersededState.generationPressure.totalLeases = 1 ∧
    supersededState.generationPressure.Tells supersededState ∧
    ∀ id, supersededState.instanceGenerations id = [] ↔ ¬ supersededState.Active id := by
  have hcalm : UnabortedRun {} (play superseded).history ⟨supersededState, none⟩ := by
    unfold supersededState
    exact superseded_unaborted
  obtain ⟨htells, hlisted, -⟩ := pressure_exact superseded_run
  exact ⟨by unfold supersededState; decide +kernel, by unfold supersededState; decide +kernel,
    htells, hlisted hcalm rfl⟩

end

end Chassis
