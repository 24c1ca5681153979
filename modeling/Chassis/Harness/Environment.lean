import Chassis.Capabilities.Plain
import Chassis.Harness.Snapshots

/-!
# The services a run executes against

* `Objects`              what a policy engine and a secret provider answer, and which objects are such;
* `systemRequirement`    the provider of the policy or secrets capability, or the reason there is none;
* `PolicyService`, `SecretService`   what a run is given: an object, or a stand-in that denies;
* `runEnvironment`       the services of a run of one generation;
* `ServedClosed`         the default where nothing is registered, a provider where it is the only one
                         or preferred, denial otherwise;
* `Unrepeated`           a sole provider has registered itself once, or is preferred;
* `services_fail_closed_iff`   **exactly then it is so with both services**, in every published scope;
* `denied_by_itself`     a run with a sole policy engine that is registered in two versions.
-/

set_option linter.unusedSectionVars false

namespace Chassis
open Py

structure SecretValue where
  name : String
  value : String
  deriving DecidableEq

/-- the objects that are registered, or configured, as services -/
structure Objects (V : Type) where
  /-- the value of a registration -/
  valueOf : CapabilityRegistration → V
  isPolicyEngine : V → Bool
  isSecretProvider : V → Bool
  evaluate : V → PolicyRequest → Except Err PolicyResult
  get : V → String → Except Err SecretValue
  getOptional : V → String → Except Err (Option SecretValue)

section
variable {V : Type}

/-! ## system requirements -/

namespace RuntimeGeneration
variable (g : RuntimeGeneration)

def scopedCapabilities (scope : Option String) : Except Err CapabilitySnapshot := do
  match ← g.resolvedScope scope with
  | none => return g.snapshot
  | some resolved => return .fromRegistrations g.generationId (g.snapshot.registrations.filter
      fun r => r.providerId ∈ (Dict.getItems r.key.name resolved.visible).getD [])

/-- `_preferred_provider`: the preference of the scope, or else of the composition -/
def preferredProvider (capability : String) (scopePath : Option String) : Option String :=
  match scopePath.bind fun path =>
      g.metadata.providerPreferences.get? ("scope:" ++ path ++ ":" ++ capability) with
  | some nearest => some nearest
  | none => g.metadata.providerPreferences.get? capability

/-- the first of these that the preference names: itself, or else by the entry or instance that
registered it -/
def preferredAmong (preferred : String) (eligible : List CapabilityRegistration) :
    Option CapabilityRegistration :=
  match eligible.find? fun r => preferred = r.registrationId ∨ preferred = r.providerId with
  | some r => some r
  | none =>
    let preferredInstances := (g.instances.filter fun i =>
      preferred = i.entryId ∨ preferred = i.instanceId).map PluginInstance.instanceId
    eligible.find? fun r => r.providerId ∈ preferredInstances

/-- the registrations of a capability name, in any scope -/
def allRegistered (key : CapabilityKey) : List CapabilityRegistration :=
  g.snapshot.registrations.filter fun r => r.key.name = key.name

def registered (key : CapabilityKey) (resolved : Option ResolvedScope) :
    List CapabilityRegistration :=
  match resolved with
  | none => g.allRegistered key
  | some s => (g.allRegistered key).filter fun r =>
      r.providerId ∈ (Dict.getItems key.name s.visible).getD []

/-- those of them that have the required key and implement the contract -/
def eligible (key : CapabilityKey) (implements : CapabilityRegistration → Bool)
    (resolved : Option ResolvedScope) : List CapabilityRegistration :=
  (g.registered key resolved).filter fun r => r.key = key ∧ implements r = true

def mismatch (key : CapabilityKey) (message : String) (providers : List CapabilityRegistration) :
    Err where
  kind := .CapabilityVersionMismatch
  message := "no provider of " ++ key.str ++ message
  context := [("capability", key.str), ("generation_id", g.generationId),
    ("providers", join ", " (providers.map CapabilityRegistration.providerId))]

def ambiguous (key : CapabilityKey) (providers : List CapabilityRegistration) : Err where
  kind := .CapabilityAmbiguous
  message := "capability " ++ key.str ++ " has several eligible providers and no explicit preference"
  context := [("capability", key.str), ("generation_id", g.generationId),
    ("providers", join ", " (providers.map CapabilityRegistration.providerId))]

/-- the one eligible provider, or the preferred one of several -/
def chooseProvider (key : CapabilityKey) (implements : CapabilityRegistration → Bool)
    (resolved : Option ResolvedScope) : Except Err CapabilityRegistration :=
  if g.registered key resolved = [] then
    .error (g.mismatch key " is visible in this composition scope" (g.allRegistered key))
  else match g.eligible key implements resolved with
    | [] => .error (g.mismatch key " implements the required contract" (g.registered key resolved))
    | [r] => .ok r
    | r :: rest =>
      match (g.preferredProvider key.name (resolved.map ResolvedScope.path)).bind fun preferred =>
          g.preferredAmong preferred (r :: rest) with
      | some chosen => .ok chosen
      | none => .error (g.ambiguous key (r :: rest))

/-- `_system_requirement`: the registration whose value is used; none for the default -/
def systemRequirement (key : CapabilityKey) (implements : CapabilityRegistration → Bool)
    (scope : Option String) : Except Err (Option CapabilityRegistration) :=
  if g.allRegistered key = [] then .ok none
  else do
    let resolved ← g.resolvedScope scope
    some <$> g.chooseProvider key implements resolved

end RuntimeGeneration

/-! ## services -/

/-- the policy engine of a run -/
inductive PolicyService (V : Type)
  | engine (value : V)
  /-- `_FailClosedPolicy` -/
  | failClosed (error : Err)

def PolicyService.evaluate (o : Objects V) (request : PolicyRequest) :
    PolicyService V → Except Err PolicyResult
  | .engine value => o.evaluate value request
  | .failClosed error => .ok
      { allowed := false, reason := "policy resolution failed: " ++ error.message }

/-- the secret provider of a run -/
inductive SecretService (V : Type)
  /-- handed out through the redactor: what is read, is redacted from then on -/
  | redacting (value : V)
  /-- `_FailClosedSecrets` -/
  | failClosed (error : Err)

def secretRefused (error : Err) (name : String) : Err :=
  { kind := .SecretResolutionError
    message := "secret provider resolution failed"
    context := [("secret", name), ("reason", error.message)] }

def SecretService.get (o : Objects V) (redactor : Redactor) (name : String) :
    SecretService V → Except Err SecretValue × Redactor
  | .redacting value =>
    match o.get value name with
    | .ok secret => (.ok secret, redactor.add secret.value)
    | .error e => (.error e, redactor)
  | .failClosed error => (.error (secretRefused error name), redactor)

def SecretService.getOptional (o : Objects V) (redactor : Redactor) (name : String) :
    SecretService V → Except Err (Option SecretValue) × Redactor
  | .redacting value =>
    match o.getOptional value name with
    | .ok (some secret) => (.ok (some secret), redactor.add secret.value)
    | .ok none => (.ok none, redactor)
    | .error e => (.error e, redactor)
  | .failClosed error => (.error (secretRefused error name), redactor)

def policyKey : CapabilityKey := ⟨"policy", "1", by decide, CapabilityKey.generation_one⟩
def secretsKey : CapabilityKey := ⟨"secrets", "1", by decide, CapabilityKey.generation_one⟩

/-- what a run of a generation executes against -/
structure RunEnvironment (V : Type) where
  generation : RuntimeGeneration
  capabilities : CapabilitySnapshot
  tools : ToolSnapshot
  hooks : HookSnapshot
  policy : PolicyService V
  secrets : SecretService V

/-- the object a requirement resolved to -/
def Objects.used (o : Objects V) (default : V) : Option CapabilityRegistration → V
  | none => default
  | some r => o.valueOf r

/-- `run_environment`, the harness being configured with `policy` and `secrets` -/
def Harness.runEnvironment (h : Harness) (o : Objects V) (policy secrets : V)
    (g : RuntimeGeneration) (scope : Option String) : Except Err (RunEnvironment V) := do
  let policyService : PolicyService V :=
    match g.systemRequirement policyKey (fun r => o.isPolicyEngine (o.valueOf r)) scope with
    | .ok used => .engine (o.used policy used)
    | .error e => .failClosed e
  let secretService : SecretService V :=
    match g.systemRequirement secretsKey (fun r => o.isSecretProvider (o.valueOf r)) scope with
    | .ok used => .redacting (o.used secrets used)
    | .error e => .failClosed e
  let capabilities ← g.scopedCapabilities scope
  let tools ← h.toolSnapshot g scope
  return {
    generation := g
    capabilities := capabilities
    tools := tools
    hooks := h.hookSnapshot g
    policy := policyService
    secrets := secretService }

/-! ## which provider it is -/

namespace RuntimeGeneration

/-- the preference names the registration, its provider, or the entry of that -/
def Named (g : RuntimeGeneration) (preferred : String) (r : CapabilityRegistration) : Prop :=
  preferred = r.registrationId ∨ preferred = r.providerId ∨
    ∃ i ∈ g.instances, (preferred = i.entryId ∨ preferred = i.instanceId) ∧
      r.providerId = i.instanceId

def Prefers (g : RuntimeGeneration) (key : CapabilityKey) (scope : Option String)
    (r : CapabilityRegistration) : Prop :=
  ∃ preferred, g.preferredProvider key.name scope = some preferred ∧ g.Named preferred r

/-- the scope is one of the published tree -/
def Publishes (g : RuntimeGeneration) (scope : Option String) : Prop :=
  ∀ path, scope = some path → (g.scopes.get? path).isSome = true

/-- the providers of a capability that are visible in a scope -/
def Sees (g : RuntimeGeneration) (scope : Option String) (name providerId : String) : Prop :=
  ∀ path, scope = some path → ∃ s, g.scopes.get? path = some s ∧
    providerId ∈ (Dict.getItems name s.visible).getD []

/-- a registration that may be used in the scope -/
structure Serves (g : RuntimeGeneration) (key : CapabilityKey)
    (implements : CapabilityRegistration → Bool) (scope : Option String)
    (r : CapabilityRegistration) : Prop where
  registered : r ∈ g.snapshot.registrations
  visible : g.Sees scope key.name r.providerId
  key : r.key = key
  implements : implements r = true

def serving (g : RuntimeGeneration) (key : CapabilityKey)
    (implements : CapabilityRegistration → Bool) (scope : Option String) :
    List CapabilityRegistration :=
  match g.resolvedScope scope with
  | .ok resolved => g.eligible key implements resolved
  | .error _ => []

variable {g : RuntimeGeneration} {key : CapabilityKey}
  {implements : CapabilityRegistration → Bool} {scope : Option String}

theorem mem_allRegistered {r : CapabilityRegistration} :
    r ∈ g.allRegistered key ↔ r ∈ g.snapshot.registrations ∧ r.key.name = key.name := by
  rw [allRegistered, List.mem_filter, decide_eq_true_eq]

theorem Publishes.resolved (hp : g.Publishes scope) : ∃ resolved,
    g.resolvedScope scope = .ok resolved ∧ resolved.map ResolvedScope.path = scope ∧
      ∀ name id, g.Sees scope name id ↔
        ∀ s, resolved = some s → id ∈ (Dict.getItems name s.visible).getD [] := by
  cases scope with
  | none =>
    refine ⟨none, rfl, rfl, fun name id => ?_⟩
    exact iff_of_true (fun _ h => nomatch h) fun _ h => nomatch h
  | some path =>
    obtain ⟨s, hs⟩ := Option.isSome_iff_exists.1 (hp path rfl)
    have hfound := List.find?_some hs
    have hpath : s.path = path := of_decide_eq_true hfound
    refine ⟨some s, ?_, congrArg some hpath, fun name id => ?_⟩
    · unfold resolvedScope
      simp only [hs]
    · constructor
      · rintro hsees s' hs'
        obtain rfl := Option.some.inj hs'
        obtain ⟨s', hs', hin⟩ := hsees path rfl
        obtain rfl := Option.some.inj (hs.symm.trans hs')
        exact hin
      · rintro hsees path' hpath'
        obtain rfl := Option.some.inj hpath'
        exact ⟨s, hs, hsees s rfl⟩

theorem mem_serving (hp : g.Publishes scope) {r : CapabilityRegistration} :
    r ∈ g.serving key implements scope ↔ g.Serves key implements scope r := by
  obtain ⟨resolved, hres, -, hsees⟩ := hp.resolved
  have hregistered : r ∈ g.registered key resolved ↔ r ∈ g.allRegistered key ∧
      g.Sees scope key.name r.providerId := by
    rw [hsees]
    cases resolved with
    | none => simp [registered]
    | some s => simp [registered]
  unfold serving
  simp only [hres, eligible, List.mem_filter, hregistered, mem_allRegistered, decide_eq_true_eq]
  constructor
  · rintro ⟨⟨⟨hin, -⟩, hvisible⟩, hkey, himpl⟩
    exact ⟨hin, hvisible, hkey, himpl⟩
  · rintro ⟨hin, hvisible, hkey, himpl⟩
    exact ⟨⟨⟨hin, congrArg CapabilityKey.name hkey⟩, hvisible⟩, hkey, himpl⟩

theorem mem_preferredInstances {preferred id : String} :
    id ∈ (g.instances.filter fun i => preferred = i.entryId ∨ preferred = i.instanceId).map
        PluginInstance.instanceId ↔
      ∃ i ∈ g.instances, (preferred = i.entryId ∨ preferred = i.instanceId) ∧ id = i.instanceId := by
  rw [List.mem_map]
  constructor
  · rintro ⟨i, hi, rfl⟩
    obtain ⟨hin, hnamed⟩ := List.mem_filter.1 hi
    exact ⟨i, hin, of_decide_eq_true hnamed, rfl⟩
  · rintro ⟨i, hin, hnamed, rfl⟩
    exact ⟨i, List.mem_filter.2 ⟨hin, decide_eq_true hnamed⟩, rfl⟩

theorem preferredAmong_spec (g : RuntimeGeneration) (preferred : String)
    (l : List CapabilityRegistration) :
    (∀ r, g.preferredAmong preferred l = some r → r ∈ l ∧ g.Named preferred r) ∧
      ((∃ r ∈ l, g.Named preferred r) → ∃ r, g.preferredAmong preferred l = some r) := by
  unfold preferredAmong
  cases hdirect : l.find? fun r => preferred = r.registrationId ∨ preferred = r.providerId with
  | some r =>
    simp only
    have hfound := List.find?_some hdirect
    have hnamed := of_decide_eq_true hfound
    refine ⟨?_, fun _ => ⟨r, rfl⟩⟩
    rintro r' hr'
    obtain rfl := Option.some.inj hr'
    exact ⟨List.mem_of_find?_eq_some hdirect, hnamed.imp id Or.inl⟩
  | none =>
    simp only
    constructor
    · intro r hr
      have hfound := List.find?_some hr
      have hin := of_decide_eq_true hfound
      exact ⟨List.mem_of_find?_eq_some hr, Or.inr (Or.inr (mem_preferredInstances.1 hin))⟩
    · rintro ⟨r, hr, hnamed⟩
      have hnot := of_decide_eq_false (Bool.eq_false_iff.2 (List.find?_eq_none.1 hdirect r hr))
      have hentry : r.providerId ∈ (g.instances.filter fun i =>
          preferred = i.entryId ∨ preferred = i.instanceId).map PluginInstance.instanceId := by
        rcases hnamed with hid | hprovider | hentry
        · exact absurd (Or.inl hid) hnot
        · exact absurd (Or.inr hprovider) hnot
        · exact mem_preferredInstances.2 hentry
      refine Option.isSome_iff_exists.1 (List.find?_isSome.2 ⟨r, hr, decide_eq_true hentry⟩)

/-- **Who is chosen** is the one eligible provider, or one that the preference names. -/
theorem chooseProvider_spec {resolved : Option ResolvedScope}
    (hpath : resolved.map ResolvedScope.path = scope) :
    (∀ r, g.chooseProvider key implements resolved = .ok r →
      r ∈ g.eligible key implements resolved ∧
        (g.eligible key implements resolved = [r] ∨ g.Prefers key scope r)) ∧
      ((∃ r, g.chooseProvider key implements resolved = .ok r) ↔
        (∃ r, g.eligible key implements resolved = [r]) ∨
          ∃ r ∈ g.eligible key implements resolved, g.Prefers key scope r) := by
  have hnone : g.registered key resolved = [] → g.eligible key implements resolved = [] := by
    intro hnil
    unfold eligible
    rw [hnil, List.filter_nil]
  unfold chooseProvider
  split
  · rename_i hnil
    rw [hnone hnil]
    refine ⟨fun r hr => (nomatch hr), iff_of_false (fun h => ?_) fun h => ?_⟩
    · obtain ⟨r, hr⟩ := h
      cases hr
    · rcases h with ⟨r, hr⟩ | ⟨r, hr, -⟩
      · cases hr
      · exact absurd hr List.not_mem_nil
  · cases heligible : g.eligible key implements resolved with
    | nil =>
      refine ⟨fun r hr => (nomatch hr), iff_of_false (fun h => ?_) fun h => ?_⟩
      · obtain ⟨r, hr⟩ := h
        cases hr
      · rcases h with ⟨r, hr⟩ | ⟨r, hr, -⟩
        · cases hr
        · exact absurd hr List.not_mem_nil
    | cons r rest =>
      cases rest with
      | nil =>
        refine ⟨?_, iff_of_true ⟨r, rfl⟩ (Or.inl ⟨r, rfl⟩)⟩
        rintro r' hr'
        obtain rfl := Except.ok.inj hr'
        exact ⟨List.mem_cons_self, Or.inl rfl⟩
      | cons r' rest =>
        simp only [hpath]
        cases hpref : g.preferredProvider key.name scope with
        | none =>
          rw [Option.bind_none]
          refine ⟨fun x hx => (nomatch hx), iff_of_false (fun h => ?_) fun h => ?_⟩
          · obtain ⟨x, hx⟩ := h
            cases hx
          · rcases h with ⟨x, hx⟩ | ⟨x, -, preferred, hp, -⟩
            · cases hx
            · rw [hpref] at hp
              cases hp
        | some preferred =>
          rw [Option.bind_some]
          obtain ⟨hchosen, hsome⟩ := g.preferredAmong_spec preferred (r :: r' :: rest)
          cases hamong : g.preferredAmong preferred (r :: r' :: rest) with
          | none =>
            refine ⟨fun x hx => (nomatch hx), iff_of_false (fun h => ?_) fun h => ?_⟩
            · obtain ⟨x, hx⟩ := h
              cases hx
            · rcases h with ⟨x, hx⟩ | ⟨x, hx, p, hp, hnamed⟩
              · cases hx
              · obtain rfl := Option.some.inj (hpref.symm.trans hp)
                obtain ⟨y, hy⟩ := hsome ⟨x, hx, hnamed⟩
                rw [hamong] at hy
                cases hy
          | some x =>
            obtain ⟨hin, hnamed⟩ := hchosen x hamong
            have hprefers : g.Prefers key scope x := ⟨preferred, hpref, hnamed⟩
            refine ⟨?_, iff_of_true ⟨x, rfl⟩ (Or.inr ⟨x, hin, hprefers⟩)⟩
            rintro y hy
            obtain rfl := Except.ok.inj hy
            exact ⟨hin, Or.inr hprefers⟩

/-- how a system requirement is met, registration by registration -/
structure Met (g : RuntimeGeneration) (key : CapabilityKey)
    (implements : CapabilityRegistration → Bool) (scope : Option String)
    (used : Except Err (Option CapabilityRegistration)) : Prop where
  default_iff : used = .ok none ↔ ∀ r ∈ g.snapshot.registrations, r.key.name ≠ key.name
  provider : ∀ r, used = .ok (some r) → g.Serves key implements scope r ∧
    (g.serving key implements scope = [r] ∨ g.Prefers key scope r)
  provider_iff : (∃ r, used = .ok (some r)) ↔ (∃ r, g.serving key implements scope = [r]) ∨
    ∃ r, g.Serves key implements scope r ∧ g.Prefers key scope r

theorem systemRequirement_met (hp : g.Publishes scope) :
    g.Met key implements scope (g.systemRequirement key implements scope) := by
  obtain ⟨resolved, hres, hpath, -⟩ := hp.resolved
  have hserving : g.serving key implements scope = g.eligible key implements resolved := by
    unfold serving
    simp only [hres]
  have hall : g.allRegistered key = [] ↔ ∀ r ∈ g.snapshot.registrations, r.key.name ≠ key.name := by
    unfold allRegistered
    rw [List.filter_eq_nil_iff]
    refine forall₂_congr fun r _ => ?_
    rw [decide_eq_true_eq]
  unfold systemRequirement
  split
  · rename_i hnil
    have hnone : ∀ r, ¬ g.Serves key implements scope r := by
      intro r hr
      exact hall.1 hnil r hr.registered (congrArg CapabilityKey.name hr.key)
    refine ⟨iff_of_true rfl (hall.1 hnil), fun r hr => (nomatch hr), iff_of_false ?_ ?_⟩
    · rintro ⟨r, hr⟩
      cases hr
    · rintro (⟨r, hr⟩ | ⟨r, hr, -⟩)
      · refine hnone r ((mem_serving hp).1 ?_)
        rw [hr]
        exact List.mem_cons_self
      · exact hnone r hr
  · rename_i hsome
    have hspec : (∀ r, g.chooseProvider key implements resolved = .ok r → _) ∧ _ :=
      chooseProvider_spec hpath
    obtain ⟨hchosen, hiff⟩ := hspec
    simp only [← hserving, mem_serving hp] at hchosen hiff
    rw [hres]
    show g.Met key implements scope (some <$> g.chooseProvider key implements resolved)
    cases hchoose : g.chooseProvider key implements resolved with
    | error e =>
      rw [hchoose] at hiff
      refine ⟨iff_of_false (fun h => nomatch h) (mt hall.2 hsome), fun r hr => (nomatch hr), ?_⟩
      rw [← hiff]
      refine iff_of_false ?_ ?_
      · rintro ⟨r, hr⟩
        cases hr
      · rintro ⟨r, hr⟩
        cases hr
    | ok r =>
      rw [hchoose] at hiff
      refine ⟨iff_of_false (fun h => nomatch h) (mt hall.2 hsome), ?_, ?_⟩
      · rintro r' hr'
        obtain rfl := Option.some.inj (Except.ok.inj hr')
        exact hchosen r hchoose
      · exact iff_of_true ⟨r, rfl⟩ (hiff.1 ⟨r, rfl⟩)

/-! ## provider by provider -/

/-- all that may be used in the scope is of one provider -/
structure Sole (g : RuntimeGeneration) (key : CapabilityKey)
    (implements : CapabilityRegistration → Bool) (scope : Option String) (providerId : String) :
    Prop where
  serves : ∃ r, g.Serves key implements scope r
  sole : ∀ r, g.Serves key implements scope r → r.providerId = providerId

/-- **How a system requirement is to be met**: by the default where no provider is registered, in any
scope; by a provider that may be used, if it is the only one or preferred; by none otherwise. -/
structure ServedClosed (g : RuntimeGeneration) (key : CapabilityKey)
    (implements : CapabilityRegistration → Bool) (scope : Option String)
    (used : Except Err (Option CapabilityRegistration)) : Prop where
  default_iff : used = .ok none ↔ ∀ r ∈ g.snapshot.registrations, r.key.name ≠ key.name
  provider : ∀ r, used = .ok (some r) → g.Serves key implements scope r ∧
    (g.Sole key implements scope r.providerId ∨ g.Prefers key scope r)
  provider_iff : (∃ r, used = .ok (some r)) ↔ (∃ providerId, g.Sole key implements scope providerId) ∨
    ∃ r, g.Serves key implements scope r ∧ g.Prefers key scope r

/-- no two registrations may be used in the scope -/
def Single (g : RuntimeGeneration) (key : CapabilityKey)
    (implements : CapabilityRegistration → Bool) (scope : Option String) : Prop :=
  g.snapshot.registrations.Pairwise fun r r' =>
    ¬ (g.Serves key implements scope r ∧ g.Serves key implements scope r')

/-- a provider that is the only one has registered itself once, or else it is preferred -/
def Unrepeated (g : RuntimeGeneration) (key : CapabilityKey)
    (implements : CapabilityRegistration → Bool) (scope : Option String) : Prop :=
  ∀ providerId, g.Sole key implements scope providerId →
    g.Single key implements scope ∨ ∃ r, g.Serves key implements scope r ∧ g.Prefers key scope r

theorem filter_eq_singleton {α : Type} (p : α → Bool) (l : List α) :
    (∃ a, l.filter p = [a]) ↔
      (∃ a ∈ l, p a = true) ∧ l.Pairwise fun a b => ¬ (p a = true ∧ p b = true) := by
  have hpair : (l.Pairwise fun a b => ¬ (p a = true ∧ p b = true)) ↔
      (l.filter p).Pairwise fun _ _ => False := by
    rw [List.pairwise_filter]
    exact List.Pairwise.iff fun a b => not_and
  have hmem : (∃ a ∈ l, p a = true) ↔ ∃ a, a ∈ l.filter p := by
    simp only [List.mem_filter]
  rw [hpair, hmem]
  constructor
  · rintro ⟨a, ha⟩
    rw [ha]
    exact ⟨⟨a, List.mem_singleton_self a⟩, List.pairwise_singleton _ _⟩
  · rintro ⟨⟨a, ha⟩, hapart⟩
    cases hf : l.filter p with
    | nil =>
      rw [hf] at ha
      cases ha
    | cons b rest =>
      rw [hf] at hapart
      cases rest with
      | nil => exact ⟨b, rfl⟩
      | cons c rest =>
        exact absurd ((List.pairwise_cons.1 hapart).1 c List.mem_cons_self) id

/-- one registration is left iff something may be used and no two registrations -/
theorem serving_singleton (hp : g.Publishes scope) :
    (∃ r, g.serving key implements scope = [r]) ↔
      (∃ r, g.Serves key implements scope r) ∧ g.Single key implements scope := by
  classical
  have hserving : g.serving key implements scope =
      g.snapshot.registrations.filter fun r => g.Serves key implements scope r := by
    obtain ⟨resolved, hres, -, -⟩ := hp.resolved
    have hin : ∀ r ∈ g.snapshot.registrations,
        (g.Serves key implements scope r ↔ r ∈ g.serving key implements scope) :=
      fun r _ => (mem_serving hp).symm
    have hform : ∃ q : CapabilityRegistration → Bool,
        g.serving key implements scope = g.snapshot.registrations.filter q := by
      unfold serving
      simp only [hres, eligible, registered, allRegistered]
      cases resolved with
      | none => exact ⟨_, List.filter_filter⟩
      | some s => exact ⟨_, by rw [List.filter_filter, List.filter_filter]⟩
    obtain ⟨q, hq⟩ := hform
    rw [hq]
    refine List.filter_congr fun r hr => ?_
    have hiff := hin r hr
    rw [hq, List.mem_filter] at hiff
    by_cases hqr : q r = true
    · rw [hqr]
      exact (decide_eq_true (hiff.2 ⟨hr, hqr⟩)).symm
    · rw [Bool.not_eq_true] at hqr
      rw [hqr]
      refine (decide_eq_false fun hs => ?_).symm
      cases hqr.symm.trans (hiff.1 hs).2
  rw [hserving, filter_eq_singleton]
  simp only [decide_eq_true_eq]
  refine and_congr ?_ Iff.rfl
  constructor
  · rintro ⟨r, -, hr⟩
    exact ⟨r, hr⟩
  · rintro ⟨r, hr⟩
    exact ⟨r, hr.registered, hr⟩

theorem Met.closed {used : Except Err (Option CapabilityRegistration)} (hp : g.Publishes scope)
    (hmet : g.Met key implements scope used) (hrep : g.Unrepeated key implements scope) :
    g.ServedClosed key implements scope used where
  default_iff := hmet.default_iff
  provider := by
    intro r hr
    obtain ⟨hserves, hone⟩ := hmet.provider r hr
    refine ⟨hserves, hone.imp_left fun hone => ⟨⟨r, hserves⟩, fun r' hr' => ?_⟩⟩
    have hin := (mem_serving hp).2 hr'
    rw [hone] at hin
    rw [List.mem_singleton.1 hin]
  provider_iff := by
    rw [hmet.provider_iff]
    constructor
    · rintro (⟨r, hone⟩ | hprefers)
      · refine Or.inl ⟨r.providerId, ?_, fun r' hr' => ?_⟩
        · exact ((serving_singleton hp).1 ⟨r, hone⟩).1
        · have hin := (mem_serving hp).2 hr'
          rw [hone] at hin
          rw [List.mem_singleton.1 hin]
      · exact Or.inr hprefers
    · rintro (⟨providerId, hsole⟩ | hprefers)
      · refine (hrep providerId hsole).imp_left fun hsingle => ?_
        exact (serving_singleton hp).2 ⟨hsole.serves, hsingle⟩
      · exact Or.inr hprefers

/-- a provider that is the only one is registered repeatedly where nothing is found for it -/
theorem Met.unrepeated {used used' : Except Err (Option CapabilityRegistration)}
    (hp : g.Publishes scope) (hmet : g.Met key implements scope used)
    (hclosed : g.ServedClosed key implements scope used')
    (hfound : ∀ r, used' = .ok (some r) → ∃ r', used = .ok r') :
    g.Unrepeated key implements scope := by
  intro providerId hsole
  obtain ⟨r, hr⟩ := hclosed.provider_iff.2 (Or.inl ⟨providerId, hsole⟩)
  obtain ⟨r', hr'⟩ := hfound r hr
  have hprovider : ∃ r, used = .ok (some r) := by
    cases r' with
    | some r' => exact ⟨r', hr'⟩
    | none =>
      obtain ⟨x, hx⟩ := hsole.serves
      exact absurd (congrArg CapabilityKey.name hx.key) (hmet.default_iff.1 hr' x hx.registered)
  refine (hmet.provider_iff.1 hprovider).imp_left fun hone => ?_
  exact ((serving_singleton hp).1 hone).2

end RuntimeGeneration

/-- the stand-in for a policy engine denies everything -/
def PolicyService.Denies (o : Objects V) (s : PolicyService V) : Prop :=
  ∀ request, ∃ result, s.evaluate o request = .ok result ∧ result.allowed = false

/-- the stand-in for a secret provider gives nothing -/
def SecretService.Denies (o : Objects V) (s : SecretService V) : Prop :=
  ∀ redactor name, ∃ e, s.get o redactor name = (.error e, redactor) ∧
    s.getOptional o redactor name = (.error e, redactor)

theorem PolicyService.failClosed_denies (o : Objects V) (e : Err) :
    (PolicyService.failClosed e : PolicyService V).Denies o := by
  intro request
  exact ⟨_, rfl, rfl⟩

theorem SecretService.failClosed_denies (o : Objects V) (e : Err) :
    (SecretService.failClosed e : SecretService V).Denies o := by
  intro redactor name
  exact ⟨_, rfl, rfl⟩

/-- the policy engine is the object that meets the requirement, or a stand-in that denies -/
def PolicyService.Is (o : Objects V) (default : V) (s : PolicyService V) :
    Except Err (Option CapabilityRegistration) → Prop
  | .ok used => s = .engine (o.used default used)
  | .error _ => (∃ e, s = .failClosed e) ∧ s.Denies o

/-- the secret provider likewise -/
def SecretService.Is (o : Objects V) (default : V) (s : SecretService V) :
    Except Err (Option CapabilityRegistration) → Prop
  | .ok used => s = .redacting (o.used default used)
  | .error _ => (∃ e, s = .failClosed e) ∧ s.Denies o

/-- what is to be used as policy engine and as secret provider of a run in a scope -/
def RunEnvironment.FailsClosed (env : RunEnvironment V) (o : Objects V) (policy secrets : V)
    (g : RuntimeGeneration) (scope : Option String) : Prop :=
  (∃ used, g.ServedClosed policyKey (fun r => o.isPolicyEngine (o.valueOf r)) scope used ∧
    env.policy.Is o policy used) ∧
  ∃ used, g.ServedClosed secretsKey (fun r => o.isSecretProvider (o.valueOf r)) scope used ∧
    env.secrets.Is o secrets used

/-- **When system services fail closed.**  In every published scope a run has an environment; and its
services are those of the harness iff no provider is registered, in any scope, those of a provider
that is visible, has the key and implements the contract, if it is the only one or preferred, and
stand-ins that deny otherwise, exactly when no provider that is the only one is registered repeatedly
without being preferred. -/
theorem services_fail_closed_iff (h : Harness) (o : Objects V) (policy secrets : V)
    (g : RuntimeGeneration) (scope : Option String) (hp : g.Publishes scope) :
    ∃ env, h.runEnvironment o policy secrets g scope = .ok env ∧
      (env.FailsClosed o policy secrets g scope ↔
        g.Unrepeated policyKey (fun r => o.isPolicyEngine (o.valueOf r)) scope ∧
          g.Unrepeated secretsKey (fun r => o.isSecretProvider (o.valueOf r)) scope) := by
  obtain ⟨resolved, hres, -, -⟩ := hp.resolved
  have hcapabilities : ∃ capabilities, g.scopedCapabilities scope = .ok capabilities := by
    cases resolved with
    | none => exact ⟨_, bind_ok.2 ⟨_, hres, rfl⟩⟩
    | some s => exact ⟨_, bind_ok.2 ⟨_, hres, rfl⟩⟩
  have htools : ∃ tools, h.toolSnapshot g scope = .ok tools := by
    cases resolved with
    | none => exact ⟨_, bind_ok.2 ⟨_, hres, rfl⟩⟩
    | some s => exact ⟨_, bind_ok.2 ⟨_, hres, rfl⟩⟩
  obtain ⟨capabilities, hcapabilities⟩ := hcapabilities
  obtain ⟨tools, htools⟩ := htools
  refine ⟨_, bind_ok.2 ⟨capabilities, hcapabilities, bind_ok.2 ⟨tools, htools, rfl⟩⟩, ?_⟩
  have hpolicy : g.Met policyKey (fun r => o.isPolicyEngine (o.valueOf r)) scope _ :=
    RuntimeGeneration.systemRequirement_met hp
  have hsecrets : g.Met secretsKey (fun r => o.isSecretProvider (o.valueOf r)) scope _ :=
    RuntimeGeneration.systemRequirement_met hp
  refine and_congr ⟨?_, fun hrep => ⟨_, hpolicy.closed hp hrep, ?_⟩⟩
    ⟨?_, fun hrep => ⟨_, hsecrets.closed hp hrep, ?_⟩⟩
  · rintro ⟨used, hclosed, his⟩
    refine hpolicy.unrepeated hp hclosed fun r hr => ?_
    rw [hr] at his
    cases hmet : g.systemRequirement policyKey (fun r => o.isPolicyEngine (o.valueOf r)) scope with
    | ok used => exact ⟨used, rfl⟩
    | error e =>
      simp only [hmet] at his
      cases his
  · cases g.systemRequirement policyKey (fun r => o.isPolicyEngine (o.valueOf r)) scope with
    | ok used => exact rfl
    | error e => exact ⟨⟨e, rfl⟩, PolicyService.failClosed_denies o e⟩
  · rintro ⟨used, hclosed, his⟩
    refine hsecrets.unrepeated hp hclosed fun r hr => ?_
    rw [hr] at his
    cases hmet : g.systemRequirement secretsKey
        (fun r => o.isSecretProvider (o.valueOf r)) scope with
    | ok used => exact ⟨used, rfl⟩
    | error e =>
      simp only [hmet] at his
      cases his
  · cases g.systemRequirement secretsKey (fun r => o.isSecretProvider (o.valueOf r)) scope with
    | ok used => exact rfl
    | error e => exact ⟨⟨e, rfl⟩, SecretService.failClosed_denies o e⟩

end

/-- a policy engine that no scope can see -/
def hiddenEngine : CapabilityRegistration where
  registrationId := "cap_0001"
  key := policyKey
  version := ⟨"1.0.0"⟩
  providerId := "plugin_0001"
  providerName := "guard"
  scopeId := "plugin:guard"

def guardedGeneration : RuntimeGeneration where
  generationId := "gen_0001"
  sequence := 1
  snapshot := ⟨"gen_0001", [hiddenEngine]⟩
  instances := []
  metadata := ⟨0, 0, Dict.empty⟩
  scopes := .rootOnly

/-- numbers as objects: all of them allow everything, and know every secret -/
def permissive : Objects Nat where
  valueOf := fun _ => 0
  isPolicyEngine := fun _ => true
  isSecretProvider := fun _ => true
  evaluate := fun _ _ => .ok ⟨true, "", false⟩
  get := fun _ name => .ok ⟨name, "secret"⟩
  getOptional := fun _ name => .ok (some ⟨name, "secret"⟩)

theorem services_fail_closed_iff_hidden :
    ∃ env, ({} : Harness).runEnvironment permissive 1 2 guardedGeneration (some "/") = .ok env ∧
      env.FailsClosed permissive 1 2 guardedGeneration (some "/") ∧
      env.policy.Denies permissive ∧ env.secrets = .redacting 2 := by
  have hp : guardedGeneration.Publishes (some "/") := by
    rintro path hpath
    obtain rfl := Option.some.inj hpath
    rfl
  have hunseen : ∀ r, ¬ guardedGeneration.Serves policyKey (fun _ => true) (some "/") r := by
    rintro r ⟨-, hvisible, -, -⟩
    obtain ⟨s, hs, hin⟩ := hvisible "/" rfl
    obtain rfl : ScopeTree.flatRoot = s := Option.some.inj hs
    exact absurd hin List.not_mem_nil
  have hsecrets : ∀ r ∈ guardedGeneration.snapshot.registrations, r.key.name ≠ secretsKey.name := by
    intro r hr
    obtain rfl := List.mem_singleton.1 hr
    decide
  obtain ⟨env, henv, hiff⟩ := services_fail_closed_iff {} permissive 1 2 guardedGeneration
    (some "/") hp
  have hclosed : env.FailsClosed permissive 1 2 guardedGeneration (some "/") := by
    refine hiff.2 ⟨fun _ hsole => ?_, fun _ hsole => ?_⟩
    · obtain ⟨r, hr⟩ := hsole.serves
      exact absurd hr (hunseen r)
    · obtain ⟨r, hr⟩ := hsole.serves
      exact absurd (congrArg CapabilityKey.name hr.key) (hsecrets r hr.registered)
  refine ⟨env, henv, hclosed, ?_, ?_⟩
  · obtain ⟨⟨used, hserved, his⟩, -⟩ := hclosed
    cases used with
    | error e => exact his.2
    | ok r =>
      cases r with
      | none => exact absurd rfl (hserved.default_iff.1 rfl hiddenEngine List.mem_cons_self)
      | some r => exact absurd (hserved.provider r rfl).1 (hunseen r)
  · obtain ⟨-, used, hserved, his⟩ := hclosed
    obtain rfl := hserved.default_iff.2 hsecrets
    exact his

section
open scoped Plain

/-- a `setup` that registers the policy engine it promises in two versions -/
def twice : (l : Operation) → Answer l
  | .setup _ => show SetupAnswer from
    { capabilities := [(policyKey, some "1.0.0"), (policyKey, some "1.1.0")] }
  | l => honest l

/-- one plugin, the only one that provides a policy engine -/
def guarding : HarnessCourse :=
  play [.install (plainPlugin "guard" [("policy", "1.0.0")] [] []), .start .reconcile,
    .resume twice]

/-- The only provider of the policy engine is denied, because it is registered in two versions. -/
theorem denied_by_itself : ∃ g env, HarnessRun {} guarding.history guarding.config ∧
    guarding.config.state.generations.current = some g ∧ g.Publishes (some "/") ∧
    g.snapshot.registrations.map (fun r => (r.providerId, r.key, r.version.text)) =
      [("plugin_0000", policyKey, "1.0.0"), ("plugin_0000", policyKey, "1.1.0")] ∧
    g.Sole policyKey (fun _ => true) (some "/") "plugin_0000" ∧
    guarding.config.state.runEnvironment permissive 1 2 g (some "/") = .ok env ∧
    env.policy.Denies permissive ∧ ¬ env.FailsClosed permissive 1 2 g (some "/") := by
  have hdata : (guarding.config.state.generations.current.map fun g =>
      (g.snapshot.registrations.map fun r => (r.providerId, r.key, r.version.text),
        (g.scopes.get? "/").map fun s => (Dict.getItems policyKey.name s.visible).getD [],
        match guarding.config.state.runEnvironment permissive 1 2 g (some "/") with
        | .ok env => match env.policy with
          | .failClosed _ => true
          | .engine _ => false
        | .error _ => false)) =
      some ([("plugin_0000", policyKey, "1.0.0"), ("plugin_0000", policyKey, "1.1.0")],
        some ["plugin_0000"], true) := by decide +kernel
  obtain ⟨g, hcurrent, hg⟩ := Option.map_eq_some_iff.1 hdata
  obtain ⟨hregistrations, hrest⟩ := Prod.mk.inj hg
  obtain ⟨hvisible, hpolicy⟩ := Prod.mk.inj hrest
  obtain ⟨root, hroot, hseen⟩ := Option.map_eq_some_iff.1 hvisible
  have hmem : ∀ r ∈ g.snapshot.registrations, r.providerId = "plugin_0000" ∧ r.key = policyKey := by
    intro r hr
    have hin := List.mem_map_of_mem (f := fun r : CapabilityRegistration =>
      (r.providerId, r.key, r.version.text)) hr
    rw [hregistrations] at hin
    rcases List.mem_cons.1 hin with hin | hin
    · exact ⟨(Prod.mk.inj hin).1, (Prod.mk.inj (Prod.mk.inj hin).2).1⟩
    · have hin := List.mem_singleton.1 hin
      exact ⟨(Prod.mk.inj hin).1, (Prod.mk.inj (Prod.mk.inj hin).2).1⟩
  have hsole : g.Sole policyKey (fun _ => true) (some "/") "plugin_0000" := by
    refine ⟨?_, fun r hr => (hmem r hr.registered).1⟩
    cases hl : g.snapshot.registrations with
    | nil =>
      rw [hl] at hregistrations
      cases hregistrations
    | cons r rest =>
      have hr : r ∈ g.snapshot.registrations := hl ▸ List.mem_cons_self
      refine ⟨r, hr, ?_, (hmem r hr).2, rfl⟩
      rintro path hpath
      obtain rfl := Option.some.inj hpath
      refine ⟨root, hroot, ?_⟩
      rw [hseen, (hmem r hr).1]
      exact List.mem_cons_self
  cases hrun : guarding.config.state.runEnvironment permissive 1 2 g (some "/") with
  | error e =>
    rw [hrun] at hpolicy
    cases hpolicy
  | ok env =>
    cases henv : env.policy with
    | engine value =>
      simp only [hrun, henv] at hpolicy
      cases hpolicy
    | failClosed e =>
      refine ⟨g, env, play_run _, hcurrent, ?_, hregistrations, hsole, hrun, ?_, ?_⟩
      · rintro path hpath
        obtain rfl := Option.some.inj hpath
        rw [hroot]
        rfl
      · rw [henv]
        exact PolicyService.failClosed_denies permissive e
      · rintro ⟨⟨used, hclosed, his⟩, -⟩
        obtain ⟨r, rfl⟩ := hclosed.provider_iff.2 (Or.inl ⟨_, hsole⟩)
        rw [henv] at his
        cases his

end

end Chassis
