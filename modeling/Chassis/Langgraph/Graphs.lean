import Chassis.Core.Generations
import Chassis.Harness.Registries
import Chassis.Lib.Recency
import Chassis.Persistence.Hashing

/-!
# Agent definitions and the cache of compiled graphs

* `AgentDefinition`, `GraphBuildInputs`   how a graph is built, and of what;
* `buildCacheKey`      what it is cached under: hashes of the declared inputs of the build;
* `GraphCache`         at most so many compiled graphs, those used last; `get`, `put`, `invalidate`;
* `LangGraphAgent.graph`   the graph of a run, compiled when it is not cached.

What a builder makes (`G`), checkpointers (`P`) and stores (`S`) are LangGraph's own, and so is what
it refuses to compile.  Telemetry is left out.
-/

namespace Chassis
open Py

variable [Platform]

/-! ## hashes -/

/-- `stable_hash(payload, length=32)` -/
def stableHash32 (payload : Value) : Except Err String := do
  let digest ← stableHash payload
  return String.ofList (digest.toList.take 32)

inductive StateSchema
  /-- a model, and what `model_json_schema` makes of it -/
  | model (jsonSchema : Except Err Value)
  | annotated (name : String) (annotations : List (String × String))
  | mapping (annotations : List (String × String))
  | other (typeName : String)

def annotationTexts (annotations : List (String × String)) : Value :=
  .dict (annotations.map fun p => (p.1, .str p.2))

def schemaHash : StateSchema → Except Err String
  | .model jsonSchema => do stableHash (← jsonSchema)
  | .annotated name annotations =>
    stableHash (.dict [("schema", .str name), ("fields", annotationTexts annotations)])
  | .mapping annotations => stableHash (annotationTexts annotations)
  | .other typeName =>
    .error (ConfigurationError "state schema cannot be hashed" [("schema", typeName)])

structure BaseTool where
  /-- which object it is -/
  object : Nat
  name : String
  description : String
  inputSchema : InputSchema
  deriving DecidableEq

def toolSchemaPayload (t : BaseTool) : Except Err Value :=
  match t.inputSchema with
  | .absent =>
    .ok (.dict [("name", .str t.name), ("description", .str t.description), ("args", .none)])
  | .schema value =>
    .ok (.dict [("name", .str t.name), ("description", .str t.description), ("args", value)])
  | .fails =>
    .error (ConfigurationError "tool input schema cannot be serialized" [("tool", t.name)])

/-- `item["name"]` of such a payload -/
def payloadName : Value → String
  | .dict (("name", .str name) :: _) => name
  | _ => ""

def toolContracts (tools : List BaseTool) : Except Err Value := do
  let payload ← tools.mapM toolSchemaPayload
  return .list (sortedBy payloadName payload)

def toolSchemaHash (tools : List BaseTool) : Except Err String := do
  stableHash (← toolContracts tools)

/-! ## definitions -/

/-- a registered tool and the tool itself -/
structure GraphTool where
  entry : RegisteredTool
  tool : BaseTool
  deriving DecidableEq

/-- the tools reachable from one generation -/
structure GraphToolSnapshot where
  generationId : String
  entries : List GraphTool
  deriving DecidableEq

/-- everything a builder may use -/
structure GraphBuildInputs where
  agent : String
  definitionVersion : String
  tools : List BaseTool
  toolSnapshot : GraphToolSnapshot
  buildTimeVersions : Dict String String

/-- how to build one agent's graph, and what affects that build -/
structure AgentDefinition (G : Type) where
  name : String
  version : String
  stateSchema : StateSchema
  /-- pure in what it receives -/
  build : GraphBuildInputs → Except Err G
  buildTimeCapabilities : List String := []
  middleware : List String := []

/-- identity of one compiled graph -/
structure GraphCacheKey where
  agent : String
  definitionVersion : String
  stateSchemaHash : String
  toolSchemaHash : String
  middlewareHash : String
  buildTimeVersions : List (String × String)
  deriving DecidableEq

def GraphCacheKey.toDict (k : GraphCacheKey) : Value :=
  .dict [("agent", .str k.agent), ("definition_version", .str k.definitionVersion),
    ("state_schema_hash", .str k.stateSchemaHash), ("tool_schema_hash", .str k.toolSchemaHash),
    ("middleware_hash", .str k.middlewareHash),
    ("build_time_versions", .dict (k.buildTimeVersions.map fun p => (p.1, .str p.2)))]

/-- `digest`: a key is all text, so it can be hashed -/
def GraphCacheKey.digest (k : GraphCacheKey) : String :=
  String.ofList ((digestOf k.toDict).toList.take 32)

variable {G P S : Type}

def buildCacheKey (d : AgentDefinition G) (tools : List BaseTool)
    (buildTimeVersions : Dict String String) : Except Err GraphCacheKey := do
  let stateHash ← (schemaHash d.stateSchema).mapError fun e =>
    if e.kind.isException then
      GraphBuildError ("state schema of agent " ++ quoted d.name ++ " cannot be hashed")
        [("agent", d.name)]
    else e
  return {
    agent := d.name
    definitionVersion := d.version
    stateSchemaHash := stateHash
    toolSchemaHash := ← toolSchemaHash tools
    middlewareHash := ← stableHash32 (.list (d.middleware.map .str))
    buildTimeVersions := sortedBy Prod.fst buildTimeVersions.items }

/-! ## the cache -/

structure CompiledStateGraph (G P S : Type) where
  builder : G
  checkpointer : Option P
  store : Option S
  /-- what its builder was given -/
  inputs : GraphBuildInputs

structure GraphCacheStats where
  hits : Nat := 0
  misses : Nat := 0
  builds : Nat := 0
  evictions : Nat := 0
  invalidations : Nat := 0

structure GraphCache (G P S : Type) where
  maxEntries : Nat := 32
  entries : Dict String (CompiledStateGraph G P S) := Dict.empty
  keys : Dict String GraphCacheKey := Dict.empty
  stats : GraphCacheStats := {}

namespace GraphCache
variable (c : GraphCache G P S)

def get (key : GraphCacheKey) : Option (CompiledStateGraph G P S) × GraphCache G P S :=
  let digest := key.digest
  match c.entries.get? digest with
  | none => (none, { c with stats := { c.stats with misses := c.stats.misses + 1 } })
  | some graph =>
    (some graph, { c with
      entries := c.entries.moveToEnd digest
      stats := { c.stats with hits := c.stats.hits + 1 } })

def put (key : GraphCacheKey) (graph : CompiledStateGraph G P S) : GraphCache G P S :=
  let digest := key.digest
  let entries := (c.entries.set digest graph).moveToEnd digest
  let evicted := entries.evicted c.maxEntries
  { c with
    entries := entries.evict c.maxEntries
    keys := evicted.foldl (fun keys digest => keys.erase digest) (c.keys.set digest key)
    stats := { c.stats with
      builds := c.stats.builds + 1
      evictions := c.stats.evictions + evicted.length } }

/-- `invalidate`, of one agent or of all: how many graphs it dropped, and the cache -/
def invalidate (agent : Option String) : Nat × GraphCache G P S :=
  let digests := (c.keys.items.filter fun p => agent.all fun name => p.2.agent = name).map Prod.fst
  (digests.length, { c with
    entries := digests.foldl (fun entries digest => entries.erase digest) c.entries
    keys := digests.foldl (fun keys digest => keys.erase digest) c.keys
    stats := { c.stats with invalidations := c.stats.invalidations + digests.length } })

end GraphCache

/-! ## agents -/

structure GraphRunContext where
  tools : Option GraphToolSnapshot
  capabilities : CapabilitySnapshot

def CapabilitySnapshot.providers (s : CapabilitySnapshot) (name : String) :
    List CapabilityRegistration :=
  s.registrations.filter fun c => c.key.name = name

structure LangGraphAgent (G P S : Type) where
  definition : AgentDefinition G
  checkpointer : Option P := none
  store : Option S := none

namespace LangGraphAgent
variable (a : LangGraphAgent G P S) (runContext : GraphRunContext)

def staticTools : List BaseTool :=
  match runContext.tools with
  | none => []
  | some snapshot => snapshot.entries.map GraphTool.tool

def buildTimeVersions : Dict String String :=
  a.definition.buildTimeCapabilities.foldl (fun versions capability =>
    let providers := runContext.capabilities.providers capability
    versions.set capability (if providers = [] then "absent"
      else join "," (sorted (providers.map fun c => c.version.text)))) Dict.empty

def cacheKey : Except Err GraphCacheKey :=
  buildCacheKey a.definition (staticTools runContext) (a.buildTimeVersions runContext)

def buildInputs : GraphBuildInputs where
  agent := a.definition.name
  definitionVersion := a.definition.version
  tools := staticTools runContext
  toolSnapshot := runContext.tools.getD ⟨"", []⟩
  buildTimeVersions := a.buildTimeVersions runContext

def buildFailed (e : Err) : Err :=
  if e.kind = .GraphBuildError ∨ ¬ e.kind.isException then e
  else GraphBuildError ("agent " ++ quoted a.definition.name ++ " failed to build its graph")
    [("agent", a.definition.name), ("definition_version", a.definition.version)]

def compileFailed (e : Err) : Err :=
  if ¬ e.kind.isException then e
  else GraphBuildError ("agent " ++ quoted a.definition.name ++ " failed to compile its graph")
    [("agent", a.definition.name), ("definition_version", a.definition.version)]

/-- the graph is built and compiled; `refuses` is why LangGraph does not compile one -/
def compile (refuses : G → Option P → Option S → Option Err) :
    Except Err (CompiledStateGraph G P S) := do
  let builderGraph ← (a.definition.build (a.buildInputs runContext)).mapError a.buildFailed
  match refuses builderGraph a.checkpointer a.store with
  | some e => .error (a.compileFailed e)
  | none => .ok ⟨builderGraph, a.checkpointer, a.store, a.buildInputs runContext⟩

/-- `graph`: what it returns, and the cache after it -/
def graph (refuses : G → Option P → Option S → Option Err) (c : GraphCache G P S) :
    Except Err (CompiledStateGraph G P S) × GraphCache G P S :=
  match a.cacheKey runContext with
  | .error e => (.error e, c)
  | .ok key =>
    match c.get key with
    | (some cached, c) => (.ok cached, c)
    | (none, c) =>
      match a.compile runContext refuses with
      | .error e => (.error e, c)
      | .ok compiled => (.ok compiled, c.put key compiled)

end LangGraphAgent
end Chassis
