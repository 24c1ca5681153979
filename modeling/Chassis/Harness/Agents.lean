import Chassis.Harness.Configure

/-!
# Agents in the control plane

* `ensureScope`     the scope at a path, with the ancestors it lacks;
* `declareScope`    what a spec declares of its scope;
* `materialize`     `_materialize`: the scope and the contributions of a spec, undone if it fails;
* `installAgent`, `replaceAgent`, `removeAgent`   as in the source.

An operation that raises returns the harness it leaves behind as well.
-/

namespace Chassis
open Py

variable [Packaging] [Platform]

namespace Harness
variable (h : Harness)

/-! ## the scope of an agent -/

def pathOf : List String → String
  | [] => rootScope
  | name :: above => joinPath (pathOf above) name

/-- the names of a canonical path, innermost first -/
def segments (path : String) : List String :=
  if path = rootScope then [] else (split '/' (String.ofList (path.toList.drop 1))).reverse

/-- `ensure` -/
def ensureScope (h : Harness) : List String → Except Err Unit × Harness
  | [] => (.ok (), h)
  | name :: above =>
    if (h.composition.get? (pathOf (name :: above))).isSome then (.ok (), h)
    else
      match ensureScope h above with
      | (.error e, h') => (.error e, h')
      | (.ok (), h') =>
        match h'.addScope (pathOf above) name none none Dict.empty with
        | .error e => (.error e, h')
        | .ok h'' => (.ok (), h'')

/-- `require` of a scope -/
def requireScope (path name specifier : String) (optional : Bool) : Except Err Harness := do
  let requirement ← CapabilityRequirement.parse name specifier optional
  return h.changeScope path (.require requirement)

/-- the requirements of a spec, up to the first that does not parse -/
def requireAll (path : String) (optional : Bool) :
    List (String × String) → Harness → Option Err × Harness
  | [], h => (none, h)
  | p :: rest, h =>
    match h.requireScope path p.1 p.2 optional with
    | .error e => (some e, h)
    | .ok h' => requireAll path optional rest h'

def declareViews (path : String) (capabilities tools : Option (List String)) : Harness :=
  let h := match capabilities with
    | none => h.changeScope path .unrestrict
    | some names => h.changeScope path (.restrict names)
  match tools with
  | none => h.changeScope path .exposeAllTools
  | some names => h.changeScope path (.selectTools names)

def requirementNames (path : String) : List String :=
  match h.composition.get? path with
  | none => []
  | some s => sorted s.requirements.keys

def dropRequirements (path : String) : Harness :=
  (h.requirementNames path).foldl (fun h name => (h.dropRequirement path name).2) h

/-- the metadata of a spec, with the two keys that attribute the scope to its revision -/
def agentMetadata (spec : AgentSpec) : Dict String Value :=
  (spec.metadata.set agentMetadataKey (.str spec.name)).set agentRevisionMetadataKey
    (.str spec.revision)

def declareScope (spec : AgentSpec) : Option Err × Harness :=
  let path := spec.scopePath
  let h := (h.declareViews path spec.capabilities spec.tools).dropRequirements path
  match requireAll path false (sortedBy Prod.fst spec.requires.items) h with
  | (some e, h) => (some e, h)
  | (none, h) =>
    match requireAll path true (sortedBy Prod.fst spec.optional.items) h with
    | (some e, h) => (some e, h)
    | (none, h) => (none, h.changeScope path (.setMetadata (agentMetadata spec)))

/-- `_restore_scope`; the text of a specifier that was parsed parses to the same -/
def restoreScope (path : String) (state : CompositionScope) : Harness :=
  let h := (h.declareViews path state.capabilities state.tools).dropRequirements path
  let h := (sortedBy Prod.fst state.requirements.items).foldl
    (fun h p => h.changeScope path (.require p.2)) h
  h.changeScope path (.setMetadata state.metadata)

/-! ## its contributions -/

/-- `_entry_id` -/
def agentEntryId (agent plugin : String) : String := "agent:" ++ agent ++ ":" ++ plugin

/-- one contribution, as it was validated -/
structure StagedContribution where
  entryId : String
  pluginName : String
  source : PluginSource
  config : Option (Dict String Value)

/-- one contribution is staged, if its id is free or belongs to the agent already -/
def stageContribution (spec : AgentSpec) (owned : List String) (p : String × Contribution) :
    Except Err StagedContribution :=
  let entryId := agentEntryId spec.name p.1
  if (h.plugins.entry? entryId).isSome ∧ entryId ∉ owned then
    .error (ConfigurationError
      "an entry with this agent-owned id exists outside this agent's revisions"
      [("agent", spec.name), ("entry", entryId)])
  else
    match p.2 with
    | .config config => do
      let construct ← h.catalog.find p.1
      return ⟨entryId, p.1, .class construct, some config⟩
    | .object plugin => .ok ⟨entryId, p.1, .object plugin, none⟩
    | .class _ _ construct => .ok ⟨entryId, p.1, .class construct, none⟩

/-- `_stage_contributions`: nothing changes here -/
def stageContributions (spec : AgentSpec) (previous : Option AgentRevision) :
    Except Err (List StagedContribution) :=
  (sortedBy Prod.fst spec.plugins.items).mapM
    (h.stageContribution spec ((previous.map AgentRevision.entries).getD []))

/-- a contribution that is installed already, in this scope -/
def unchanged (path : String) (s : StagedContribution) : Bool :=
  match s.config, h.plugins.entry? s.entryId with
  | some config, some e => e.manifest.name = s.pluginName &&
      Value.same (.dict e.config.items) (.dict config.items) && e.scope = path
  | _, _ => false

/-- `_install_contributions`: what it raised, if it did, the harness by then, and what would undo
it, newest first -/
def installContributions (path : String) :
    List StagedContribution → Harness → List Undo → Option Err × Harness × List Undo
  | [], h, undo => (none, h, undo)
  | s :: rest, h, undo =>
    if h.unchanged path s then installContributions path rest h undo
    else
      match h.installFrom s.source (some s.entryId) s.config (h.plugins.entry? s.entryId).isSome
        (some path) with
      | .error e => (some e, h, h.entryRestorer s.entryId :: undo)
      | .ok (_, h') => installContributions path rest h' (h.entryRestorer s.entryId :: undo)

/-! ## revisions -/

/-- the scope of a spec, which is owned if it had to be created -/
def provideScope (path : String) : Except Err Unit × Harness :=
  if (h.composition.get? path).isSome then (.ok (), h)
  else
    match h.ensureScope (segments path) with
    | (.error e, h) => (.error e, h)
    | (.ok (), h) => (.ok (), { h with agents := h.agents.own path })

/-- the part of `_materialize` that is undone if it raises -/
def declareAgent (spec : AgentSpec) (staged : List StagedContribution) :
    Option Err × Harness × List Undo :=
  match h.provideScope spec.scopePath with
  | (.error e, h) => (some e, h, [])
  | (.ok (), h) =>
    match h.declareScope spec with
    | (some e, h) => (some e, h, [])
    | (none, h) => installContributions spec.scopePath staged h []

def retractScope (path : String) : Harness :=
  let h := if (h.composition.get? path).isSome then
      match h.removeScope path with
      | .ok (_, h) => h
      | .error _ => h
    else h
  { h with agents := h.agents.disown path }

/-- what undoes it: the entries, the pending flag, and the scope, in this order -/
def undeclareAgent (path : String) (state : Option CompositionScope) (pending : Bool)
    (undo : List Undo) : Harness :=
  let h := { undo.foldl restoreEntry h with dirty := pending }
  match state with
  | some s => h.restoreScope path s
  | none => h.retractScope path

def uninstallAll (entries : List String) : Harness :=
  entries.foldl (fun h e => (h.uninstall e).2) h

/-- what `_materialize` checks before anything changes -/
def stageAgent (spec : AgentSpec) (previous : Option AgentRevision) :
    Except Err (List StagedContribution) := do
  let staged ← h.stageContributions spec previous
  let path ← canonicalScopePath spec.scopePath
  if (h.composition.get? path).isSome ∧ path ∉ h.agents.ownedScopePaths then
    .error (ConfigurationError "refusing to take over a user-owned composition scope"
      [("agent", spec.name), ("scope", path)])
  else .ok staged

/-- the entries of the previous revision that the new one does not have go -/
def dropContributions (previous : Option AgentRevision) (entries : List String) : Harness :=
  h.uninstallAll (((previous.map AgentRevision.entries).getD []).filter (· ∉ entries))

def materialize (spec : AgentSpec) (previous : Option AgentRevision) :
    Except Err AgentRevision × Harness :=
  match h.stageAgent spec previous with
  | .error e => (.error e, h)
  | .ok staged =>
    match h.declareAgent spec staged with
    | (some e, h', undo) =>
      (.error e, h'.undeclareAgent spec.scopePath (h.composition.get? spec.scopePath) h.dirty undo)
    | (none, h', _) =>
      let entries := sorted (staged.map StagedContribution.entryId)
      let h' := h'.dropContributions previous entries
      match stableHash (redactConfig h'.redactor (compositionPayload spec)) with
      | .error e => (.error e, h')
      | .ok digest => (.ok ⟨spec, spec.scopePath, entries, digest⟩, h')

/-- `_withdraw` -/
def withdrawRevision (r : AgentRevision) : Except Err Unit × Harness :=
  if r.scope ∈ h.agents.ownedScopePaths ∧ (h.composition.get? r.scope).isSome then
    match h.removeScope r.scope with
    | .error e => (.error e, h)
    | .ok (_, h) => (.ok (), { h with agents := h.agents.disown r.scope })
  else (.ok (), h.uninstallAll r.entries)

def withdrawOptional : Option AgentRevision → Except Err Unit × Harness
  | none => (.ok (), h)
  | some r => h.withdrawRevision r

/-- the rest of `install`, of a revision that is not the active one -/
def selectRevision (spec : AgentSpec) (replace : Bool) (active : Option String) :
    Except Err AgentRevision × Harness :=
  if active.isSome ∧ active ≠ some spec.revision ∧ !replace then
    (.error (ConfigurationError
      "agent already has an active revision; pass replace=True to change it"
      [("agent", spec.name), ("active", active.getD ""), ("requested", spec.revision)]), h)
  else
    let candidate := (active.filter (· ≠ spec.revision)).bind (h.agents.published spec.name)
    let superseded := candidate.filter fun r => r.scope ≠ spec.scopePath
    let previous := candidate.filter fun r => r.scope = spec.scopePath
    match h.materialize spec previous with
    | (.error e, h) => (.error e, h)
    | (.ok revision, h) =>
      match h.withdrawOptional superseded with
      | (.error e, h) => (.error e, h)
      | (.ok (), h) => (.ok revision, { h with agents := h.agents.publish revision })

def installAgent (spec : AgentSpec) (replace : Bool) : Except Err AgentRevision × Harness :=
  let h := { h with agents := h.agents.remember spec.name }
  let active := h.agents.activeRevisions.get? spec.name
  match h.agents.published spec.name spec.revision with
  | none => h.selectRevision spec replace active
  | some r =>
    if !r.spec.same spec then
      (.error (ConfigurationError
        "a published agent revision is immutable; declare a new revision"
        [("agent", spec.name), ("revision", spec.revision)]), h)
    else if active = some spec.revision then (.ok r, h)
    else h.selectRevision spec replace active

def replaceAgent (spec : AgentSpec) : Except Err AgentRevision × Harness :=
  h.installAgent spec true

/-- `remove`: no new run selects the agent -/
def removeAgent (name : String) : Except Err Bool × Harness :=
  match h.agents.specHistory.get? name with
  | none => (.ok false, h)
  | some history =>
    let active := (h.agents.activeRevisions.get? name).bind history.get?
    match { h with agents := h.agents.retire name }.withdrawOptional active with
    | (.error e, h) => (.error e, h)
    | (.ok (), h) => (.ok true, h)

end Harness
end Chassis
