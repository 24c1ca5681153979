import Chassis.Harness.Reconcile
import Chassis.Lib.Monitor

/-!
# The harness among its tasks

* `install`, `uninstall`, `provide`, `withdraw`, `preferProvider`, `addScope`, `removeScope`,
  `changeScope`   the synchronous operations on the desired state;
* `acquire`, `release`   the leases of runs;
* `Acts`          everything a task may do at an await of the one that holds the composition lock;
* `Job`           what takes the lock;
* `HarnessRun`    the runs of the whole;
* `play`          concrete ones, computed.
-/

namespace Chassis
open Py Coop

variable [Packaging] [Platform]

namespace Harness
variable (h : Harness)

/-! ## desired state -/

def markDirty : Harness := { h with dirty := true }

/-- `_scope_path`: a declared scope, the root if none is named -/
def scopePath (scope : Option String) : Except Err String :=
  match scope with
  | none => .ok rootScope
  | some path => do
    let path ← canonicalScopePath path
    if (h.composition.get? path).isNone then
      .error (ConfigurationError "cannot install into an undeclared composition scope"
        [("path", path)])
    else .ok path

def install (plugin : Plugin) (entryId : Option String) (replace : Bool)
    (scope : Option String) : Except Err (String × Harness) := do
  let path ← h.scopePath scope
  let (entry, plugins) ← h.plugins.install plugin entryId replace path
  return (entry.entryId, { h with plugins := plugins, dirty := true })

def uninstall (entryId : String) : Bool × Harness :=
  let (removed, plugins) := h.plugins.uninstall entryId
  (removed, { h with plugins := plugins, dirty := h.dirty || removed })

/-- the entry of the capabilities the application provides -/
def servicesEntry : String := "chassis.services"

/-- `_services_plugin`: it promises every provision under its stated version -/
def servicesPlugin (provisions : List (CapabilityKey × Option String)) (source : Nat) : Plugin :=
  let provides := provisions.foldl (fun (d : Dict String (List String)) p =>
    let promised := p.2.getD p.1.apiVersion
    let versions := (d.get? p.1.name).getD []
    if promised ∈ versions then d else d.set p.1.name (versions ++ [promised])) Dict.empty
  { manifest :=
      { name := "chassis-services", version := "1.0.0",
        provides := Dict.ofList (provides.items.map fun p => (p.1, Provided.many p.2)) }
    implementation := "chassis.harness._services_plugin.<locals>.services"
    source := source }

/-- `_sync_services_entry`; a manifest whose contracts do not parse is refused -/
def syncServicesEntry : Except Err Harness :=
  if h.provisions.items = [] then
    .ok { h with plugins := (h.plugins.uninstall servicesEntry).2 }
  else do
    let services := servicesPlugin h.provisions.items h.drawn
    let _ ← services.manifest.providedKeys
    let (_, h) ← install { h with drawn := h.drawn + 1 } services (some servicesEntry)
      (h.plugins.entry? servicesEntry).isSome none
    return h

/-- the provisions are changed first, and stay so if the entry cannot be brought in line -/
def withProvisions (provisions : Dict CapabilityKey (Option String)) : Except Err Unit × Harness :=
  let changed := { h with provisions := provisions }
  match changed.syncServicesEntry with
  | .error e => (.error e, changed)
  | .ok h => (.ok (), h.markDirty)

/-- `provide`, of a value stated to be of a version -/
def provide (capability : CapabilityKey) (version : Option String) : Except Err Unit × Harness :=
  h.withProvisions (h.provisions.set capability version)

/-- `withdraw`, by key or by name -/
def withdraw (matching : CapabilityKey → Bool) : Except Err Unit × Harness :=
  let removed := h.provisions.keys.filter matching
  if removed = [] then (.ok (), h)
  else h.withProvisions (removed.foldl (fun d k => d.erase k) h.provisions)

/-- `prefer_provider`; the key says how broadly the preference applies -/
def preferProvider (capability provider : String) (consumer scope : Option String) :
    Except Err Harness := do
  let key ← match consumer, scope with
    | some c, some _ => .error (ConfigurationError
        "a provider preference cannot be scoped to a consumer and a scope at once"
        [("consumer", c)])
    | some c, none => .ok (c ++ ":" ++ capability)
    | none, some s => do
      let path ← h.scopePath (some s)
      .ok ("scope:" ++ path ++ ":" ++ capability)
    | none, none => .ok capability
  return { h with providerPreference := h.providerPreference.set key provider, dirty := true }

/-! ### the tree of scopes -/

/-- `child` of a scope of the tree -/
def addScope (parent name : String) (capabilities tools : Option (List String))
    (metadata : Dict String Value) : Except Err Harness := do
  let tree ← h.composition.attach parent name capabilities tools metadata
  return markDirty { h with composition := tree }

/-- `remove`: the entries of the scope and of what is below it are uninstalled -/
def removeScope (path : String) : Except Err (List String × Harness) := do
  if path = rootScope then
    .error (ConfigurationError "the root composition scope cannot be removed" [("path", path)])
  else
    let path ← canonicalScopePath path
    if (h.composition.get? path).isNone then .ok ([], h)
    else
      let step (s : List String × Harness) (scope : CompositionScope) : List String × Harness :=
        (s.2.plugins.entriesForScope scope.path).foldl (fun s e =>
          let (removed, h) := s.2.uninstall e
          (if removed then s.1 ++ [e] else s.1, h)) s
      let (entries, h') := (h.composition.descendants path).foldl step ([], h)
      .ok (sorted entries, markDirty { h' with composition := h.composition.detach path })

/-- what a scope can change of itself -/
inductive ScopeChange
  | setMetadata (metadata : Dict String Value)
  | require (requirement : CapabilityRequirement)
  | restrict (capabilities : List String)
  | unrestrict
  | selectTools (tools : List String)
  | exposeAllTools

def ScopeChange.apply : ScopeChange → CompositionScope → CompositionScope
  | .setMetadata metadata, s => { s with metadata := metadata }
  | .require r, s => { s with requirements := s.requirements.set r.name r }
  | .restrict capabilities, s => { s with capabilities := some (nameSet capabilities) }
  | .unrestrict, s => { s with capabilities := none }
  | .selectTools tools, s => { s with tools := some (nameSet tools) }
  | .exposeAllTools, s => { s with tools := none }

def changeScope (path : String) (change : ScopeChange) : Harness :=
  markDirty { h with composition := h.composition.modify path change.apply }

/-- `drop_requirement`: the tree is invalidated only if there was one -/
def dropRequirement (path capability : String) : Bool × Harness :=
  let removed := ((h.composition.get? path).bind fun s => s.requirements.get? capability).isSome
  if removed then
    (true, markDirty { h with composition := h.composition.modify path fun s =>
      { s with requirements := s.requirements.erase capability } })
  else (false, h)

/-! ## leases -/

/-- the start of `acquire` -/
def acquire : Except Err Harness :=
  if h.state = .stopping ∨ h.state = .stopped then
    .error (HarnessStateError ("cannot start a run on a harness that is " ++ h.state.value)
      [("harness", h.name), ("state", h.state.value)])
  else do
    let (lease, m) ← h.generations.acquireLease
    return { h with generations := m, runs := h.runs ++ [lease] }

/-- the end of `acquire`, in the run that holds the `n`-th lease; whether a reclamation has to
follow -/
def release (n : Nat) : Except Err (Bool × Harness) :=
  match h.runs[n]? with
  | none => .ok (false, h)
  | some lease => do
    let (becameIdle, m) ← h.generations.releaseLease lease
    return (becameIdle, { h with generations := m, runs := h.runs.eraseIdx n })

/-- `start`, up to the reconciliation -/
def start : Harness := if h.state = .created then { h with state := .running } else h

def hasPendingChanges : Bool := h.dirty

end Harness

/-! ## all tasks together -/

/-- an operation on the desired state, carried out by some task -/
inductive DesiredAct : Harness → Harness → Prop
  | install {h h' : Harness} (plugin : Plugin) (entryId : Option String) (replace : Bool)
    (scope : Option String) {id : String} :
    h.install plugin entryId replace scope = .ok (id, h') → DesiredAct h h'
  | uninstall (h : Harness) (entryId : String) : DesiredAct h (h.uninstall entryId).2
  | provide (h : Harness) (capability : CapabilityKey) (version : Option String) :
    DesiredAct h (h.provide capability version).2
  | withdraw (h : Harness) (matching : CapabilityKey → Bool) : DesiredAct h (h.withdraw matching).2
  | preferProvider {h h' : Harness} (capability provider : String)
    (consumer scope : Option String) :
    h.preferProvider capability provider consumer scope = .ok h' → DesiredAct h h'
  | addScope {h h' : Harness} (parent name : String) (capabilities tools : Option (List String))
    (metadata : Dict String Value) :
    h.addScope parent name capabilities tools metadata = .ok h' → DesiredAct h h'
  | removeScope {h h' : Harness} (path : String) {entries : List String} :
    h.removeScope path = .ok (entries, h') → DesiredAct h h'
  | changeScope (h : Harness) (path : String) (change : Harness.ScopeChange) :
    DesiredAct h (h.changeScope path change)
  | dropRequirement (h : Harness) (path capability : String) :
    DesiredAct h (h.dropRequirement path capability).2

/-- a run takes a lease, or returns the one it holds -/
inductive LeaseAct : Harness → Harness → Prop
  | acquire {h h' : Harness} : h.acquire = .ok h' → LeaseAct h h'
  | release {h h' : Harness} (n : Nat) {becameIdle : Bool} :
    h.release n = .ok (becameIdle, h') → LeaseAct h h'

/-- what a task does that does not hold the composition lock; secrets are read at any time -/
inductive Acts : Harness → Harness → Prop
  | desired {h h' : Harness} : DesiredAct h h' → Acts h h'
  | lease {h h' : Harness} : LeaseAct h h' → Acts h h'
  | start (h : Harness) : Acts h h.start
  | learn (h : Harness) (secrets : List String) : Acts h (h.learn secrets)

/-- what takes the composition lock -/
inductive Job
  | reconcile
  | reclaimAfterDrain
  deriving DecidableEq, Repr

def Job.program : Job → Task Unit
  | .reconcile => do
    let _ ← Chassis.reconcile
  | .reclaimAfterDrain => Chassis.reclaimAfterDrain

structure Fresh (h : Harness) : Prop where
  created : h.state = .created
  plugins : h.plugins = {}
  registries : h.capabilities = Owned.empty ∧ h.tools = Owned.empty ∧ h.hooks = Owned.empty
  generations : h.generations = { historyLimit := h.generations.historyLimit }
  clean : h.dirty = false ∧ h.origin = none
  noRuns : h.runs = []

abbrev HarnessConfig := Config Harness Operation Job Answer Err

def HarnessRun (h : Harness) (history : List (Event Job Err × HarnessConfig))
    (c : HarnessConfig) : Prop := Fresh h ∧ Run Acts Job.program ⟨h, none⟩ history c

/-! ## concrete runs -/

/-- a plugin, with the versions of capabilities it promises and requires -/
def plainPlugin (name : String) (provides requires optional : List (String × String)) : Plugin where
  manifest :=
    { name := name, version := "1.0.0"
      provides := Dict.ofList (provides.map fun p => (p.1, .one p.2))
      requires := Dict.ofList requires, optional := Dict.ofList optional }
  implementation := "plugins." ++ name

/-- every operation succeeds, and a `setup` registers what its manifest promises -/
def honest : (l : Operation) → Answer l
  | .setup i => show SetupAnswer from
    { capabilities := i.manifest.providedContracts.filterMap fun p =>
        match CapabilityKey.fromVersion p.1 p.2 with
        | .ok key => some (key, some p.2)
        | .error _ => none }
  | .teardown _ => show TeardownAnswer from {}
  | .close _ => show CloseAnswer from {}
  | .handler .. => show HandlerAnswer from {}

/-- an installation under the plugin's own name; a refused one changes nothing -/
def Harness.installed (plugin : Plugin) (h : Harness) : Harness :=
  match h.install plugin (some plugin.manifest.name) true none with
  | .ok (_, h') => h'
  | .error _ => h

/-- the harness after a run took a lease, if one is to be had -/
def Harness.acquired (h : Harness) : Harness :=
  match h.acquire with
  | .ok h' => h'
  | .error _ => h

abbrev HarnessCourse := Course Harness Operation Job Answer Err

omit [Platform] in
theorem Acts.refl (h : Harness) : Acts h h := .learn h []

omit [Platform] in
theorem Harness.installed_acts (plugin : Plugin) (h : Harness) : Acts h (h.installed plugin) := by
  unfold Harness.installed
  split
  · rename_i hi
    exact .desired (.install plugin _ _ _ hi)
  · exact .refl h

omit [Platform] in
theorem Harness.acquired_acts (h : Harness) : Acts h h.acquired := by
  unfold Harness.acquired
  split
  · rename_i ha
    exact .lease (.acquire ha)
  · exact .refl h

/-- what a concrete run is made of -/
inductive Move
  | install (plugin : Plugin)
  | acquire
  | start (j : Job)
  | resume (answer : (l : Operation) → Answer l)

def Move.play (c : HarnessCourse) : Move → HarnessCourse
  | .install plugin => c.act (Harness.installed plugin)
  | .acquire => c.act Harness.acquired
  | .start j => c.start Job.program j
  | .resume answer => c.resume answer

/-- the run of some moves from a harness -/
def playFrom (h : Harness) (moves : List Move) : HarnessCourse :=
  moves.foldl Move.play (Course.begin h)

def play (moves : List Move) : HarnessCourse := playFrom {} moves

theorem playFrom_given {gives : (l : Operation) → Answer l → Prop} (h : Harness)
    {moves : List Move} (hgives : ∀ answer, Move.resume answer ∈ moves → ∀ l, gives l (answer l)) :
    RunGiven gives Acts Job.program ⟨h, none⟩ (playFrom h moves).history
      (playFrom h moves).config := by
  have hloop : ∀ c : HarnessCourse,
      RunGiven gives Acts Job.program ⟨h, none⟩ c.history c.config →
      RunGiven gives Acts Job.program ⟨h, none⟩ (moves.foldl Move.play c).history
        (moves.foldl Move.play c).config := by
    induction moves with
    | nil => exact fun c hc => hc
    | cons m rest ih =>
      intro c hc
      refine ih (fun answer hin => hgives answer (List.mem_cons_of_mem _ hin)) (m.play c) ?_
      cases m with
      | install plugin => exact Course.act_run hc (Harness.installed_acts plugin _)
      | acquire => exact Course.act_run hc (Harness.acquired_acts _)
      | start j => exact Course.start_run hc j
      | resume answer => exact Course.resume_run hc (hgives answer List.mem_cons_self)
  exact hloop _ .refl

theorem playFrom_run {h : Harness} (hf : Fresh h) (moves : List Move) :
    HarnessRun h (playFrom h moves).history (playFrom h moves).config :=
  ⟨hf, playFrom_given h fun _ _ _ => trivial⟩

theorem play_run (moves : List Move) :
    HarnessRun {} (play moves).history (play moves).config :=
  playFrom_run ⟨rfl, rfl, ⟨rfl, rfl, rfl⟩, rfl, ⟨rfl, rfl⟩, rfl⟩ moves

end Chassis
