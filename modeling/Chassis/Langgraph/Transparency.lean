import Chassis.Capabilities.Plain
import Chassis.Langgraph.Graphs
import Chassis.Lib.Calls

/-!
# What a shared cache of graphs returns

* `GraphOp`           the calls on one cache, by any agents;
* `Origin`            every cached graph was compiled in one of the calls before, under its key;
* `Transparent`       a call returns the graph an uncached compile would give;
* `Fits`              the graph cached under its key, if there is one, was compiled with its
                      checkpointer and store, and of nothing its builder tells from its own inputs;
* `transparent_iff`   the calls of a run are transparent iff what each of them finds fits;
* `fits_iff_persistsInto`   builders that read the declared inputs only tell nothing apart.
-/

set_option linter.unusedSectionVars false

namespace Chassis
open Py

section
variable [Platform] {G P S : Type}

inductive GraphOp (G P S : Type)
  | graph (a : LangGraphAgent G P S) (runContext : GraphRunContext)
  | invalidate (agent : Option String)

namespace GraphOp
variable (refuses : G → Option P → Option S → Option Err)

def step (c : GraphCache G P S) : GraphOp G P S → GraphCache G P S
  | .graph a runContext => (a.graph runContext refuses c).2
  | .invalidate agent => (c.invalidate agent).2

end GraphOp

/-! ## what the cache keeps -/

namespace GraphCache
variable {c : GraphCache G P S}

/-- every cached graph satisfies `Q`, with the digest it is cached under -/
def Holds (Q : String → CompiledStateGraph G P S → Prop) (c : GraphCache G P S) : Prop :=
  ∀ digest g, c.entries.get? digest = some g → Q digest g

variable {Q : String → CompiledStateGraph G P S → Prop}

theorem Holds.get (h : c.Holds Q) (key : GraphCacheKey) : (c.get key).2.Holds Q := by
  intro digest g hg
  unfold GraphCache.get at hg
  rcases hget : c.entries.get? key.digest with _ | cached
  · simp only [hget] at hg
    exact h _ _ hg
  · simp only [hget, Dict.get?_moveToEnd] at hg
    exact h _ _ hg

theorem Holds.put (h : c.Holds Q) {key : GraphCacheKey} {graph : CompiledStateGraph G P S}
    (hnew : Q key.digest graph) : (c.put key graph).Holds Q := by
  intro digest g hg
  have hset := Dict.get?_of_evict hg
  rw [Dict.get?_moveToEnd, Dict.get?_set] at hset
  split at hset
  · rename_i hd
    cases hset
    rw [hd]
    exact hnew
  · exact h _ _ hset

theorem Holds.invalidate (h : c.Holds Q) (agent : Option String) :
    (c.invalidate agent).2.Holds Q := by
  intro digest g hg
  unfold GraphCache.invalidate at hg
  have hlookup := Dict.get?_foldl_erase (fun d : String => d)
    ((c.keys.items.filter fun p => agent.all fun name => p.2.agent = name).map Prod.fst)
    c.entries digest
  simp only [hlookup] at hg
  split at hg
  · cases hg
  · exact h _ _ hg

theorem get_fst (key : GraphCacheKey) : (c.get key).1 = c.entries.get? key.digest := by
  unfold GraphCache.get
  rcases h : c.entries.get? key.digest with _ | g
  · simp only [h]
  · simp only [h]

end GraphCache

/-! ## where cached graphs come from -/

section
variable (refuses : G → Option P → Option S → Option Err)

/-- the graph was compiled for this call, under this digest -/
structure CompiledFor (a : LangGraphAgent G P S) (runContext : GraphRunContext) (digest : String)
    (g : CompiledStateGraph G P S) : Prop where
  key : ∃ key, a.cacheKey runContext = .ok key ∧ key.digest = digest
  inputs : g.inputs = a.buildInputs runContext
  builds : a.definition.build g.inputs = .ok g.builder
  accepts : refuses g.builder g.checkpointer g.store = none

/-- the graph was compiled in one of these calls -/
def Origin (ops : List (GraphOp G P S)) (digest : String) (g : CompiledStateGraph G P S) : Prop :=
  ∃ a runContext, GraphOp.graph a runContext ∈ ops ∧ CompiledFor refuses a runContext digest g

theorem Origin.mono {ops ops' : List (GraphOp G P S)} (h : ∀ op ∈ ops, op ∈ ops') {digest : String}
    {g : CompiledStateGraph G P S} : Origin refuses ops digest g → Origin refuses ops' digest g := by
  rintro ⟨a, runContext, hin, hg⟩
  exact ⟨a, runContext, h _ hin, hg⟩

variable {refuses} {a : LangGraphAgent G P S} {runContext : GraphRunContext}
  {c : GraphCache G P S}

theorem LangGraphAgent.compile_ok {g : CompiledStateGraph G P S} :
    a.compile runContext refuses = .ok g ↔
      g.checkpointer = a.checkpointer ∧ g.store = a.store ∧ g.inputs = a.buildInputs runContext ∧
      a.definition.build g.inputs = .ok g.builder ∧
      refuses g.builder g.checkpointer g.store = none := by
  unfold LangGraphAgent.compile
  rcases hbuild : a.definition.build (a.buildInputs runContext) with e | built
  · refine iff_of_false (fun h => by cases h) ?_
    rintro ⟨-, -, hinputs, hb, -⟩
    rw [hinputs, hbuild] at hb
    cases hb
  · simp only [Except.mapError, bind, Except.bind]
    rcases hrefuses : refuses built a.checkpointer a.store with _ | e
    · constructor
      · intro h
        cases h
        exact ⟨rfl, rfl, rfl, hbuild, hrefuses⟩
      · rintro ⟨hcheckpointer, hstore, hinputs, hb, -⟩
        rw [hinputs, hbuild] at hb
        cases g
        cases hb
        subst hcheckpointer hstore hinputs
        rfl
    · refine iff_of_false (fun h => by cases h) ?_
      rintro ⟨hcheckpointer, hstore, hinputs, hb, haccepts⟩
      rw [hinputs, hbuild] at hb
      rw [← Except.ok.inj hb, hcheckpointer, hstore, hrefuses] at haccepts
      cases haccepts

theorem LangGraphAgent.key_names {key : GraphCacheKey} (h : a.cacheKey runContext = .ok key) :
    key.agent = a.definition.name ∧ key.definitionVersion = a.definition.version := by
  obtain ⟨_, -, h⟩ := bind_ok.1 h
  obtain ⟨_, -, h⟩ := bind_ok.1 h
  obtain ⟨_, -, h⟩ := bind_ok.1 h
  cases h
  exact ⟨rfl, rfl⟩

theorem LangGraphAgent.graph_fst {key : GraphCacheKey} (hkey : a.cacheKey runContext = .ok key) :
    (a.graph runContext refuses c).1 = match c.entries.get? key.digest with
      | some cached => .ok cached
      | none => a.compile runContext refuses := by
  unfold LangGraphAgent.graph
  rw [hkey]
  simp only
  rw [← GraphCache.get_fst]
  rcases c.get key with ⟨_ | cached, c'⟩
  · simp only
    rcases a.compile runContext refuses with e | g
    · rfl
    · rfl
  · rfl

theorem Origin.step {ops : List (GraphOp G P S)} (h : c.Holds (Origin refuses ops))
    (op : GraphOp G P S) : (GraphOp.step refuses c op).Holds (Origin refuses (ops ++ [op])) := by
  have hmono : ∀ {digest g}, Origin refuses ops digest g → Origin refuses (ops ++ [op]) digest g :=
    Origin.mono refuses fun _ => List.mem_append_left _
  have hbefore : c.Holds (Origin refuses (ops ++ [op])) := fun _ _ hg => hmono (h _ _ hg)
  cases op with
  | invalidate agent => exact hbefore.invalidate agent
  | graph a runContext =>
    show (a.graph runContext refuses c).2.Holds _
    unfold LangGraphAgent.graph
    rcases hkey : a.cacheKey runContext with e | key
    · exact hbefore
    · simp only
      have hgot := hbefore.get key
      generalize c.get key = got at hgot ⊢
      obtain ⟨_ | cached, c'⟩ := got
      · simp only
        rcases hcompile : a.compile runContext refuses with e | g
        · exact hgot
        · obtain ⟨-, -, hinputs, hbuilds, haccepts⟩ := LangGraphAgent.compile_ok.1 hcompile
          refine hgot.put ⟨a, runContext, List.mem_append_right _ List.mem_cons_self, ?_⟩
          exact ⟨⟨key, hkey, rfl⟩, hinputs, hbuilds, haccepts⟩
      · exact hgot

theorem Origin.run (maxEntries : Nat) (ops : List (GraphOp G P S)) :
    (Calls.run (GraphOp.step refuses) { maxEntries := maxEntries } ops).Holds
      (Origin refuses ops) := by
  induction ops using List.reverseRecOn with
  | nil => exact fun _ _ hg => nomatch hg
  | append_singleton ops op ih =>
    rw [Calls.run_concat]
    exact Origin.step ih op

end

/-! ## transparency -/

section
variable (refuses : G → Option P → Option S → Option Err)

/-- the same graph: it runs the same nodes, and persists into the same places -/
def SameGraph (g g' : CompiledStateGraph G P S) : Prop :=
  g.builder = g'.builder ∧ g.checkpointer = g'.checkpointer ∧ g.store = g'.store

/-- both fail alike, or both return the same graph -/
inductive CompilesAlike : Except Err (CompiledStateGraph G P S) →
    Except Err (CompiledStateGraph G P S) → Prop
  | failed (e : Err) : CompilesAlike (.error e) (.error e)
  | returned {g g' : CompiledStateGraph G P S} : SameGraph g g' → CompilesAlike (.ok g) (.ok g')

theorem CompilesAlike.refl (r : Except Err (CompiledStateGraph G P S)) : CompilesAlike r r := by
  rcases r with e | g
  · exact .failed e
  · exact .returned ⟨rfl, rfl, rfl⟩

theorem CompilesAlike.checkpointer {r r' : Except Err (CompiledStateGraph G P S)}
    (h : CompilesAlike r r') :
    r.map CompiledStateGraph.checkpointer = r'.map CompiledStateGraph.checkpointer := by
  cases h with
  | failed e => rfl
  | returned hsame => exact congrArg Except.ok hsame.2.1

/-- what an uncached compile gives: the cache has no room for anything -/
def uncached (a : LangGraphAgent G P S) (runContext : GraphRunContext) :
    Except Err (CompiledStateGraph G P S) :=
  (a.graph runContext refuses { maxEntries := 0 }).1

/-- a call returns the graph an uncached compile would give -/
def Transparent (c : GraphCache G P S) : GraphOp G P S → Prop
  | .graph a runContext =>
    CompilesAlike (a.graph runContext refuses c).1 (uncached refuses a runContext)
  | .invalidate _ => True

/-- the graph cached under the key of a call, if there is one, was compiled with the checkpointer and
the store of its agent, and of nothing that its builder tells from its own inputs -/
def Fits (c : GraphCache G P S) : GraphOp G P S → Prop
  | .graph a runContext => ∀ key g, a.cacheKey runContext = .ok key →
      c.entries.get? key.digest = some g →
      g.checkpointer = a.checkpointer ∧ g.store = a.store ∧
        a.definition.build g.inputs = a.definition.build (a.buildInputs runContext)
  | .invalidate _ => True

variable {refuses} in
/-- One call on a cache whose graphs were compiled in other calls: no two different keys have one
digest, and definitions of one name and version are built alike. -/
theorem transparent_step {ops : List (GraphOp G P S)} {c : GraphCache G P S}
    (horigin : c.Holds (Origin refuses ops)) {a : LangGraphAgent G P S}
    {runContext : GraphRunContext}
    (hbuilds : ∀ a' runContext', GraphOp.graph a' runContext' ∈ ops →
      a'.definition.name = a.definition.name → a'.definition.version = a.definition.version →
      a'.definition.build = a.definition.build)
    (hdistinct : ∀ a' runContext' key key', GraphOp.graph a' runContext' ∈ ops →
      a'.cacheKey runContext' = .ok key' → a.cacheKey runContext = .ok key →
      key'.digest = key.digest → key' = key) :
    Transparent refuses c (.graph a runContext) ↔ Fits c (.graph a runContext) := by
  show CompilesAlike (a.graph runContext refuses c).1
      (a.graph runContext refuses { maxEntries := 0 }).1 ↔
    ∀ key g, a.cacheKey runContext = .ok key → c.entries.get? key.digest = some g →
      g.checkpointer = a.checkpointer ∧ g.store = a.store ∧
        a.definition.build g.inputs = a.definition.build (a.buildInputs runContext)
  rcases hkey : a.cacheKey runContext with e | key
  · refine iff_of_true ?_ fun _ _ h => (nomatch h)
    have herror : ∀ c : GraphCache G P S, (a.graph runContext refuses c).1 = .error e := by
      intro c
      unfold LangGraphAgent.graph
      rw [hkey]
    rw [herror, herror]
    exact .failed e
  · have hfresh : (a.graph runContext refuses { maxEntries := 0 }).1 =
        a.compile runContext refuses := LangGraphAgent.graph_fst hkey
    rw [hfresh, LangGraphAgent.graph_fst hkey]
    rcases hcached : c.entries.get? key.digest with _ | g
    · refine iff_of_true ?_ ?_
      · exact CompilesAlike.refl _
      · intro key' g hkey' hg
        cases hkey'
        rw [hcached] at hg
        cases hg
    · obtain ⟨a', runContext', hin, ⟨key', hkey', hdigest⟩, -, hbuilt, haccepts⟩ := horigin _ _ hcached
      have hsame := hdistinct a' runContext' key key' hin hkey' hkey hdigest
      obtain ⟨hname, hversion⟩ := LangGraphAgent.key_names hkey'
      obtain ⟨hname', hversion'⟩ := LangGraphAgent.key_names hkey
      have hbuild := hbuilds a' runContext' hin (by rw [← hname, ← hname', hsame])
        (by rw [← hversion, ← hversion', hsame])
      rw [hbuild] at hbuilt
      constructor
      · intro h key₂ g₂ hkey₂ hg₂
        cases hkey₂
        rw [hcached] at hg₂
        cases hg₂
        rcases hcompile : a.compile runContext refuses with e | g'
        · rw [hcompile] at h
          cases h
        · rw [hcompile] at h
          obtain ⟨hbuilder, hcheckpointer, hstore⟩ : SameGraph g g' := by
            cases h with
            | returned hsame => exact hsame
          obtain ⟨hcheckpointer', hstore', hinputs', hbuilds', -⟩ :=
            LangGraphAgent.compile_ok.1 hcompile
          refine ⟨hcheckpointer.trans hcheckpointer', hstore.trans hstore', ?_⟩
          rw [hbuilt, ← hinputs', hbuilds', hbuilder]
      · intro h
        obtain ⟨hcheckpointer, hstore, htold⟩ := h key g rfl hcached
        have hcompile : a.compile runContext refuses =
            .ok { g with inputs := a.buildInputs runContext } :=
          LangGraphAgent.compile_ok.2 ⟨hcheckpointer, hstore, rfl, htold.symm.trans hbuilt, haccepts⟩
        rw [hcompile]
        exact .returned ⟨rfl, rfl, rfl⟩

/-- no two keys of these calls have one digest -/
def Distinct (ops : List (GraphOp G P S)) : Prop :=
  ∀ a runContext a' runContext' key key', GraphOp.graph a runContext ∈ ops →
    GraphOp.graph a' runContext' ∈ ops → a.cacheKey runContext = .ok key →
    a'.cacheKey runContext' = .ok key' → key.digest = key'.digest → key = key'

/-- definitions of one name and version are built alike -/
def BuiltAlike (ops : List (GraphOp G P S)) : Prop :=
  ∀ a runContext a' runContext', GraphOp.graph a runContext ∈ ops →
    GraphOp.graph a' runContext' ∈ ops → a.definition.name = a'.definition.name →
    a.definition.version = a'.definition.version → a.definition.build = a'.definition.build

/-- **A shared cache is transparent** to its agents iff whatever a call finds cached was compiled
with the checkpointer and the store of its own agent, and of nothing its builder tells from its own
inputs. -/
theorem transparent_iff (maxEntries : Nat) (ops : List (GraphOp G P S)) (hbuilt : BuiltAlike ops)
    (hdistinct : Distinct ops) :
    Calls.Throughout (GraphOp.step refuses) { maxEntries := maxEntries } (Transparent refuses) ops ↔
    Calls.Throughout (GraphOp.step refuses) { maxEntries := maxEntries } Fits ops := by
  refine forall_congr' fun before => forall_congr' fun op => forall_congr' fun hpre => ?_
  cases op with
  | invalidate agent => exact Iff.rfl
  | graph a runContext =>
    have hin : ∀ op ∈ before, op ∈ ops := fun op hop =>
      hpre.subset (List.mem_append_left _ hop)
    have hnow : GraphOp.graph a runContext ∈ ops :=
      hpre.subset (List.mem_append_right _ List.mem_cons_self)
    refine transparent_step (Origin.run maxEntries before) ?_ ?_
    · intro a' runContext' hop hname hversion
      exact hbuilt a' runContext' a runContext (hin _ hop) hnow hname hversion
    · intro a' runContext' key key' hop hkey' hkey hdigest
      exact hdistinct a' runContext' a runContext key' key (hin _ hop) hnow hkey' hkey hdigest

end

end

section
open Plain

/-- one definition -/
def answering : AgentDefinition String :=
  { name := "research", version := "1", stateSchema := .mapping [("messages", "list")]
    build := fun _ => .ok "answer" }

/-- two agents of it that persist into different places -/
def durable : LangGraphAgent String String String :=
  { definition := answering, checkpointer := "postgres" }
def volatile : LangGraphAgent String String String :=
  { definition := answering, checkpointer := "memory" }

def toolless : GraphRunContext := ⟨none, ⟨"gen", []⟩⟩

def accepting : String → Option String → Option String → Option Err := fun _ _ _ => none

/-- they meet in one cache -/
def sharedRun : List (GraphOp String String String) :=
  [.graph durable toolless, .graph volatile toolless]

theorem sharedRun_agents {a : LangGraphAgent String String String} {runContext : GraphRunContext}
    (h : GraphOp.graph a runContext ∈ sharedRun) :
    a.definition = answering ∧ runContext = toolless ∧
      a.cacheKey runContext = durable.cacheKey toolless := by
  rcases List.mem_cons.1 h with h | h
  · cases h
    exact ⟨rfl, rfl, rfl⟩
  · cases List.mem_singleton.1 h
    exact ⟨rfl, rfl, rfl⟩

theorem sharedRun_admitted : BuiltAlike sharedRun ∧ Distinct sharedRun := by
  constructor
  · intro a runContext a' runContext' h h' _ _
    rw [(sharedRun_agents h).1, (sharedRun_agents h').1]
  · intro a runContext a' runContext' key key' h h' hkey hkey' _
    rw [(sharedRun_agents h).2.2] at hkey
    rw [(sharedRun_agents h').2.2, hkey] at hkey'
    exact Except.ok.inj hkey'

theorem transparent_iff_shared : BuiltAlike sharedRun ∧ Distinct sharedRun ∧
    (Calls.Throughout (GraphOp.step accepting) {} (Transparent accepting) sharedRun ↔
      Calls.Throughout (GraphOp.step accepting) {} Fits sharedRun) :=
  ⟨sharedRun_admitted.1, sharedRun_admitted.2,
    transparent_iff accepting 32 sharedRun sharedRun_admitted.1 sharedRun_admitted.2⟩

/-- The second agent is given the graph of the first, and persists into its place. -/
theorem shared_checkpointer : BuiltAlike sharedRun ∧ Distinct sharedRun ∧
    ¬ Calls.Throughout (GraphOp.step accepting) {} (Transparent accepting) sharedRun := by
  refine ⟨sharedRun_admitted.1, sharedRun_admitted.2, fun h => ?_⟩
  have hpre : [GraphOp.graph durable toolless] ++ [GraphOp.graph volatile toolless] <+: sharedRun :=
    List.prefix_refl _
  have hlast := h _ _ hpre
  generalize hc : Calls.run (GraphOp.step accepting) {} [.graph durable toolless] = c at hlast
  have hreturned : (volatile.graph toolless accepting c).1.map CompiledStateGraph.checkpointer =
      .ok (some "postgres") := by
    rw [← hc]
    decide +kernel
  have hown : (uncached accepting volatile toolless).map CompiledStateGraph.checkpointer =
      .ok (some "memory") := by decide +kernel
  have hsame : (.ok (some "postgres") : Except Err (Option String)) = .ok (some "memory") :=
    hreturned.symm.trans ((CompilesAlike.checkpointer hlast).trans hown)
  exact absurd (Except.ok.inj hsame) (by decide)

end

section
variable [Platform] {G P S : Type} (refuses : G → Option P → Option S → Option Err)

/-! ## builders that read what is declared -/

/-- the builder reads of its inputs what the key declares: of the tools, their contracts -/
def ReadsDeclared (build : GraphBuildInputs → Except Err G) : Prop :=
  ∀ i i' : GraphBuildInputs, i.agent = i'.agent → i.definitionVersion = i'.definitionVersion →
    toolContracts i.tools = toolContracts i'.tools →
    sortedBy Prod.fst i.buildTimeVersions.items = sortedBy Prod.fst i'.buildTimeVersions.items →
    build i = build i'

/-- no two contracts of the tools of these calls have one hash -/
def DistinctContracts (ops : List (GraphOp G P S)) : Prop :=
  ∀ a runContext a' runContext' hash, GraphOp.graph a runContext ∈ ops →
    GraphOp.graph a' runContext' ∈ ops →
    toolSchemaHash (LangGraphAgent.staticTools runContext) = .ok hash →
    toolSchemaHash (LangGraphAgent.staticTools runContext') = .ok hash →
    toolContracts (LangGraphAgent.staticTools runContext) =
      toolContracts (LangGraphAgent.staticTools runContext')

/-- the graph cached under the key of a call has the checkpointer and the store of its agent -/
def PersistsInto (c : GraphCache G P S) : GraphOp G P S → Prop
  | .graph a runContext => ∀ key g, a.cacheKey runContext = .ok key →
      c.entries.get? key.digest = some g → g.checkpointer = a.checkpointer ∧ g.store = a.store
  | .invalidate _ => True

theorem LangGraphAgent.key_tools {a : LangGraphAgent G P S} {runContext : GraphRunContext}
    {key : GraphCacheKey} (h : a.cacheKey runContext = .ok key) :
    toolSchemaHash (staticTools runContext) = .ok key.toolSchemaHash ∧
      key.buildTimeVersions = sortedBy Prod.fst (a.buildTimeVersions runContext).items := by
  obtain ⟨_, -, h⟩ := bind_ok.1 h
  obtain ⟨hash, htools, h⟩ := bind_ok.1 h
  obtain ⟨_, -, h⟩ := bind_ok.1 h
  cases h
  exact ⟨htools, rfl⟩

/-- Where every builder reads what is declared, only the checkpointers and the stores matter. -/
theorem fits_iff_persistsInto {maxEntries : Nat} {ops : List (GraphOp G P S)}
    (hreads : ∀ a runContext, GraphOp.graph a runContext ∈ ops → ReadsDeclared a.definition.build)
    (hdistinct : Distinct ops) (hcontracts : DistinctContracts ops) :
    Calls.Throughout (GraphOp.step refuses) { maxEntries := maxEntries } Fits ops ↔
    Calls.Throughout (GraphOp.step refuses) { maxEntries := maxEntries } PersistsInto ops := by
  refine forall_congr' fun before => forall_congr' fun op => forall_congr' fun hpre => ?_
  cases op with
  | invalidate agent => exact Iff.rfl
  | graph a runContext =>
    have hnow : GraphOp.graph a runContext ∈ ops :=
      hpre.subset (List.mem_append_right _ List.mem_cons_self)
    refine forall_congr' fun key => forall_congr' fun g => forall_congr' fun hkey =>
      forall_congr' fun hcached => ?_
    refine ⟨fun h => ⟨h.1, h.2.1⟩, fun h => ⟨h.1, h.2, ?_⟩⟩
    have horigin : Origin refuses before key.digest g := Origin.run maxEntries before _ _ hcached
    obtain ⟨a', runContext', hin, ⟨key', hkey', hdigest⟩, hinputs, -⟩ := horigin
    have hin' : GraphOp.graph a' runContext' ∈ ops := hpre.subset (List.mem_append_left _ hin)
    have hsame := hdistinct a' runContext' a runContext key' key hin' hnow hkey' hkey hdigest
    subst hsame
    obtain ⟨hname, hversion⟩ := LangGraphAgent.key_names hkey
    obtain ⟨hname', hversion'⟩ := LangGraphAgent.key_names hkey'
    obtain ⟨htools, hversions⟩ := LangGraphAgent.key_tools hkey
    obtain ⟨htools', hversions'⟩ := LangGraphAgent.key_tools hkey'
    rw [hinputs]
    refine hreads a runContext hnow _ _ ?_ ?_ ?_ ?_
    · exact hname'.symm.trans hname
    · exact hversion'.symm.trans hversion
    · exact hcontracts a' runContext' a runContext _ hin' hnow htools' htools
    · exact hversions'.symm.trans hversions

end

end Chassis
