import Chassis.Persistence.Hashing
import Chassis.Plugins.Resolver
import Chassis.Secrets.Redaction

/-!
# Semantic identity of composition nodes

A node whose semantic inputs are unchanged may be carried into the next generation.  The identity
collects these inputs: the implementation, the declared contracts, the configuration, the scope,
and the provider each requirement resolved to, by entry and by instance.

* `DependencyBinding`       how one requirement resolved in one composition;
* `SemanticIdentity`        the identity; its equality is what reuse is decided by;
* `buildSemanticIdentity`   the identity of one entry of a plan;
* `buildSemanticIdentity_ok`   what it comes to.
-/

set_option linter.unusedSectionVars false

namespace Chassis
open Py

def RequirementStatus.value : RequirementStatus → String
  | .resolved => "resolved"
  | .noProvider => "no_provider"
  | .versionMismatch => "version_mismatch"
  | .ambiguous => "ambiguous"
  | .selfReference => "self_reference"
  | .notVisible => "not_visible"
  | .providerPending => "provider_pending"

/-- how one requirement of a node resolved -/
structure DependencyBinding where
  capability : String
  consumer : String
  providerEntryId : Option String
  providerInstanceId : Option String
  /-- the behavioural digest of the provider -/
  providerIdentity : Option String
  status : RequirementStatus
  deriving DecidableEq

structure SemanticIdentity where
  entryId : String
  kind : String
  scopePath : String
  implementationFingerprint : String
  contractFingerprint : String
  configFingerprint : String
  dependencyFingerprint : String
  configDisplayFingerprint : String
  bindings : List DependencyBinding
  deriving DecidableEq

def optionalText : Option String → Value
  | none => .none
  | some s => .str s

/-- what counts of a binding for behaviour: no instance -/
def DependencyBinding.semanticKey (b : DependencyBinding) : Value :=
  .list [.str b.capability, optionalText b.providerEntryId, optionalText b.providerIdentity,
    .str b.status.value]

section
variable [Platform]

def implementationFingerprint (m : PluginManifest) (implementation : String) : String :=
  let payload := [("identity", Value.str m.identity), ("implementation", .str implementation)]
  digestOf (.dict (match m.implementationRevision with
    | none => payload
    | some revision => payload ++ [("implementation_revision", .str revision)]))

def providedValue : Provided → Value
  | .one v => .str v
  | .many vs => .list (vs.map .str)

def contractFingerprint (m : PluginManifest) : String :=
  digestOf (.dict
    [("provides", .dict ((sortedBy Prod.fst m.provides.items).map fun p =>
        (p.1, providedValue p.2))),
     ("requires", .dict ((sortedBy Prod.fst m.requires.items).map fun p => (p.1, .str p.2))),
     ("optional", .dict ((sortedBy Prod.fst m.optional.items).map fun p => (p.1, .str p.2))),
     ("permissions", .list (m.permissions.map .str)),
     ("config_version", .int m.configVersion)])

/-- stable identity of the effective configuration, secrets included -/
def configFingerprint (plugin : String) (config : Dict String Value) : Except Err String :=
  stableHash (.dict [("plugin", .str plugin), ("config", .dict config.items)])

/-- transitive behavioural digest, a provider's identity -/
def SemanticIdentity.identityDigest (i : SemanticIdentity) : String :=
  digestOf (.dict
    [("kind", .str i.kind), ("implementation", .str i.implementationFingerprint),
     ("contracts", .str i.contractFingerprint), ("config", .str i.configFingerprint),
     ("scope", .str i.scopePath), ("dependencies", .str i.dependencyFingerprint)])

/-- what an entry brings to its identity by itself -/
structure OwnInputs where
  entryId : String
  scopePath : String
  manifest : PluginManifest
  config : Dict String Value
  implementation : String

/-- `DependencyBinding(...)` of one resolution, the provider looked up in the control plane -/
def dependencyBinding (consumer : String) (instanceOf identityOf : String → Option String)
    (r : RequirementResolution) : DependencyBinding :=
  { capability := r.requirement.name
    consumer := consumer
    providerEntryId := r.providerEntryId
    providerInstanceId := r.providerEntryId.bind instanceOf
    providerIdentity := r.providerEntryId.bind identityOf
    status := r.status }

/-- Providers have their identities before their consumers, so the two lookups answer for nodes
that are already decided. -/
def buildSemanticIdentity (own : OwnInputs) (resolutions : List RequirementResolution)
    (instanceOf identityOf : String → Option String) (redactor : Redactor) :
    Except Err SemanticIdentity := do
  let bindings := sortedBy DependencyBinding.capability
    (resolutions.map (dependencyBinding own.entryId instanceOf identityOf))
  let config ← configFingerprint own.manifest.name own.config
  let display ← stableHash (redactConfig redactor (.dict own.config.items))
  return {
    entryId := own.entryId
    kind := "plugin"
    scopePath := own.scopePath
    implementationFingerprint := implementationFingerprint own.manifest own.implementation
    contractFingerprint := contractFingerprint own.manifest
    configFingerprint := config
    dependencyFingerprint := digestOf (.list (bindings.map DependencyBinding.semanticKey))
    configDisplayFingerprint := display
    bindings := bindings }

/-! ## what it is made of -/

/-- a configuration that is all data -/
def IsData (config : Dict String Value) : Prop := (Value.dict config.items).objectType? = none

/-- the digest of a configuration as it may be displayed -/
def configDisplay (redactor : Redactor) (config : Dict String Value) : String :=
  digestOf (redactConfig redactor (.dict config.items))

/-- the identity an entry has, if its configuration is data -/
def semanticIdentityOf (own : OwnInputs) (resolutions : List RequirementResolution)
    (instanceOf identityOf : String → Option String) (redactor : Redactor) : SemanticIdentity :=
  let bindings := sortedBy DependencyBinding.capability
    (resolutions.map (dependencyBinding own.entryId instanceOf identityOf))
  { entryId := own.entryId
    kind := "plugin"
    scopePath := own.scopePath
    implementationFingerprint := implementationFingerprint own.manifest own.implementation
    contractFingerprint := contractFingerprint own.manifest
    configFingerprint :=
      digestOf (.dict [("plugin", .str own.manifest.name), ("config", .dict own.config.items)])
    dependencyFingerprint := digestOf (.list (bindings.map DependencyBinding.semanticKey))
    configDisplayFingerprint := configDisplay redactor own.config
    bindings := bindings }

theorem objectType?_payload (plugin : String) (config : Value) :
    (Value.dict [("plugin", .str plugin), ("config", config)]).objectType? = config.objectType? := by
  show (config.objectType?).orElse (fun _ => none) = _
  cases config.objectType? <;> rfl

/-- **An identity is built of every configuration that is data**, whatever the redactor knows. -/
theorem buildSemanticIdentity_ok {own : OwnInputs} {resolutions : List RequirementResolution}
    {instanceOf identityOf : String → Option String} {redactor : Redactor}
    {identity : SemanticIdentity} :
    buildSemanticIdentity own resolutions instanceOf identityOf redactor = .ok identity ↔
      IsData own.config ∧
        semanticIdentityOf own resolutions instanceOf identityOf redactor = identity := by
  unfold buildSemanticIdentity configFingerprint stableHash
  rw [objectType?_payload]
  cases hdata : (Value.dict own.config.items).objectType? with
  | some typeName =>
    refine ⟨fun h => (nomatch h), fun h => ?_⟩
    exact nomatch hdata.symm.trans h.1
  | none =>
    rw [redactConfig_data redactor _ hdata]
    refine ⟨fun h => ⟨hdata, Except.ok.inj h⟩, fun h => ?_⟩
    rw [← h.2]
    rfl

/-- without data there is no identity, and the error does not depend on the secrets -/
theorem buildSemanticIdentity_redactor {own : OwnInputs} {resolutions : List RequirementResolution}
    {instanceOf identityOf : String → Option String} (r r' : Redactor) :
    buildSemanticIdentity own resolutions instanceOf identityOf r =
        buildSemanticIdentity own resolutions instanceOf identityOf r' ↔
      (IsData own.config → configDisplay r own.config = configDisplay r' own.config) := by
  by_cases hdata : IsData own.config
  · rw [buildSemanticIdentity_ok.2 ⟨hdata, rfl⟩, buildSemanticIdentity_ok.2 ⟨hdata, rfl⟩]
    constructor
    · intro h _
      exact congrArg SemanticIdentity.configDisplayFingerprint (Except.ok.inj h)
    · intro h
      unfold semanticIdentityOf
      rw [h hdata]
  · refine ⟨fun _ hd => absurd hd hdata, fun _ => ?_⟩
    obtain ⟨typeName, hobj⟩ := Option.ne_none_iff_exists'.1 hdata
    have hpayload : (Value.dict [("plugin", .str own.manifest.name),
        ("config", .dict own.config.items)]).objectType? = some typeName := by
      rw [objectType?_payload, hobj]
    unfold buildSemanticIdentity configFingerprint stableHash
    rw [hpayload]
    rfl

end

end Chassis
