import Chassis.Plugins.Resolver

/-!
# What a manifest has to pass

* `PluginManifest.validate`   the validators of a manifest, in their order;
* `PluginManifest.Legible`    everything the resolver parses of a manifest can be parsed;
* `resolved_validated_iff`    validation parses all that the resolver does, iff no name is declared
                              required in one way and optional in another;
* `legible_iff`               a validated manifest is legible iff the requirements that it declares
                              optional as well can be parsed as they are required;
* `prepare_total`             legible manifests are all the resolver needs.
-/

set_option linter.unusedSectionVars false

namespace Chassis
open Py

variable [Packaging]

namespace PluginManifest

/-- what a validator raises, and `pydantic` collects -/
def invalid (message : String) : Err := { kind := .Other, message := message }

/-- `_validate_capabilities`: what is required and optional as well is looked at once, as it is
optional -/
def validateCapabilities (m : PluginManifest) : Except Err Unit := do
  m.provides.items.forM fun p =>
    if p.2.versions = [] then
      .error (ConfigurationError "provides must list at least one version" [("capability", p.1)])
    else p.2.versions.forM fun version => do
      let _ ← CapabilityKey.fromVersion p.1 version
      return ()
  (m.requires.update m.optional).items.forM fun p => do
    let _ ← CapabilityRequirement.parse p.1 p.2
    return ()

def validateName (m : PluginManifest) : Except Err Unit :=
  if m.name = "" then .error (invalid "String should have at least 1 character") else .ok ()

def validateVersion (m : PluginManifest) : Except Err Unit := do
  let _ ← parseVersion m.version "PluginManifest"
  return ()

def validateConfigVersion (m : PluginManifest) : Except Err Unit :=
  if m.configVersion < 0 then .error (invalid "config_version must be non-negative") else .ok ()

def validateImplementationRevision (m : PluginManifest) : Except Err Unit :=
  match m.implementationRevision with
  | none => .ok ()
  | some revision =>
    if strip revision = "" ∨ revision ≠ strip revision then
      .error (invalid "implementation_revision must be a non-empty, trimmed string")
    else .ok ()

def validate (m : PluginManifest) : Except Err Unit := do
  m.validateName
  m.validateVersion
  m.validateConfigVersion
  m.validateImplementationRevision
  m.validateCapabilities

/-- everything the resolver parses of a manifest can be parsed -/
structure Legible (m : PluginManifest) : Prop where
  provides : ∀ c ∈ m.providedContracts, ∃ k, CapabilityKey.fromVersion c.1 c.2 = .ok k
  requires : ∀ p ∈ m.requires.items, ∃ r, CapabilityRequirement.parse p.1 p.2 = .ok r
  optional : ∀ p ∈ m.optional.items, ∃ r, CapabilityRequirement.parse p.1 p.2 = .ok r

/-- what is required under a name that is optional as well can be parsed -/
def OverlapParses (m : PluginManifest) : Prop :=
  ∀ p ∈ m.requires.items, p.1 ∈ m.optional.keys →
    ∃ r, CapabilityRequirement.parse p.1 p.2 = .ok r

/-- a string of a manifest that is parsed -/
inductive Declaration
  | contract (name version : String)
  | requirement (name specifier : String)
  deriving DecidableEq

def validated (m : PluginManifest) : List Declaration :=
  m.providedContracts.map (fun c => .contract c.1 c.2) ++
    (m.requires.update m.optional).items.map (fun p => .requirement p.1 p.2)

/-- what the resolver parses -/
def resolved (m : PluginManifest) : List Declaration :=
  m.providedContracts.map (fun c => .contract c.1 c.2) ++
    (m.requires.items ++ m.optional.items).map (fun p => .requirement p.1 p.2)

def Declaration.Parses : Declaration → Prop
  | contract name version => ∃ k, CapabilityKey.fromVersion name version = .ok k
  | requirement name specifier => ∃ r, CapabilityRequirement.parse name specifier = .ok r

/-- what is required and optional as well is declared twice in the same way -/
def OverlapAgrees (m : PluginManifest) : Prop :=
  ∀ name r o, m.requires.get? name = some r → m.optional.get? name = some o → r = o

section
variable {m : PluginManifest}

theorem forM_bind_ok {α β : Type} {f : α → Except Err β} {l : List α} :
    (l.forM fun a => do let _ ← f a; return ()) = .ok ⟨⟩ ↔ ∀ a ∈ l, ∃ b, f a = .ok b := by
  rw [forM_ok_iff]
  refine forall₂_congr fun a _ => ?_
  rw [bind_ok]
  exact exists_congr fun b => and_iff_left rfl

theorem validateCapabilities_provides (h : m.validateCapabilities = .ok ()) :
    ∀ c ∈ m.providedContracts, ∃ k, CapabilityKey.fromVersion c.1 c.2 = .ok k := by
  intro c hc
  obtain ⟨p, hp, hc⟩ := List.mem_flatMap.1 hc
  obtain ⟨version, hversion, rfl⟩ := List.mem_map.1 hc
  obtain ⟨u, hprovides, -⟩ := bind_ok.1 h
  have hone := forM_ok hprovides (mem_sortedBy.1 hp)
  split at hone
  · cases hone
  · exact forM_bind_ok.1 hone version hversion

theorem validateCapabilities_requirements (h : m.validateCapabilities = .ok ()) :
    ∀ p ∈ (m.requires.update m.optional).items,
      ∃ r, CapabilityRequirement.parse p.1 p.2 = .ok r := by
  obtain ⟨u, -, h⟩ := bind_ok.1 h
  exact forM_bind_ok.1 h

theorem validate_capabilities (h : m.validate = .ok ()) : m.validateCapabilities = .ok () := by
  obtain ⟨_, -, h⟩ := bind_ok.1 h
  obtain ⟨_, -, h⟩ := bind_ok.1 h
  obtain ⟨_, -, h⟩ := bind_ok.1 h
  obtain ⟨_, -, h⟩ := bind_ok.1 h
  exact h

theorem validated_parses (h : m.validate = .ok ()) : ∀ d ∈ m.validated, d.Parses := by
  have hcap := validate_capabilities h
  unfold validated
  rw [List.forall_mem_append, List.forall_mem_map, List.forall_mem_map]
  exact ⟨validateCapabilities_provides hcap, validateCapabilities_requirements hcap⟩

/-- **Validation parses all that the resolver does** iff no name is declared required in one way
and optional in another. -/
theorem resolved_validated_iff : (∀ d ∈ m.resolved, d ∈ m.validated) ↔ m.OverlapAgrees := by
  have hreq : ∀ name specifier, Declaration.requirement name specifier ∈ m.validated ↔
      (m.optional.get? name).or (m.requires.get? name) = some specifier := by
    intro name specifier
    rw [← Dict.get?_update, ← Dict.mem_items, validated, List.mem_append, List.mem_map, List.mem_map]
    constructor
    · rintro (⟨c, -, hc⟩ | ⟨p, hp, heq⟩)
      · cases hc
      · cases heq
        exact hp
    · exact fun hp => Or.inr ⟨_, hp, rfl⟩
  constructor
  · intro h name r o hr ho
    have hin : Declaration.requirement name r ∈ m.resolved :=
      List.mem_append_right _ (List.mem_map.2
        ⟨_, List.mem_append_left _ (Dict.mem_items.2 hr), rfl⟩)
    have hval := (hreq name r).1 (h _ hin)
    rw [ho] at hval
    exact (Option.some.inj hval).symm
  · intro h d hd
    rcases List.mem_append.1 hd with hd | hd
    · exact List.mem_append_left _ hd
    · obtain ⟨⟨name, specifier⟩, hp, rfl⟩ := List.mem_map.1 hd
      refine (hreq name specifier).2 ?_
      rcases List.mem_append.1 hp with hp | hp
      · rw [Dict.mem_items] at hp
        rcases ho : m.optional.get? name with _ | o
        · exact hp
        · rw [h name specifier o hp ho]
          rfl
      · rw [Dict.mem_items.1 hp]
        rfl

/-- what is declared twice in the same way is parsed -/
theorem OverlapAgrees.parses (ha : m.OverlapAgrees) (h : m.validate = .ok ()) :
    m.OverlapParses := by
  intro p hp hin
  have hd : Declaration.requirement p.1 p.2 ∈ m.validated :=
    resolved_validated_iff.2 ha _ (List.mem_append_right _ (List.mem_map.2
      ⟨p, List.mem_append_left _ hp, rfl⟩))
  exact validated_parses h _ hd

/-- **A validated manifest is legible** iff what it requires and has optional as well can be parsed
as it is required. -/
theorem legible_iff (h : m.validate = .ok ()) : m.Legible ↔ m.OverlapParses := by
  have hcap := validate_capabilities h
  have hparsed := validateCapabilities_requirements hcap
  constructor
  · exact fun hm p hp _ => hm.requires p hp
  · intro hover
    refine ⟨validateCapabilities_provides hcap, fun p hp => ?_, fun p hp => ?_⟩
    · by_cases hin : p.1 ∈ m.optional.keys
      · exact hover p hp hin
      · refine hparsed p (Dict.mem_items.2 ?_)
        have hnone : m.optional.get? p.1 = none :=
          Option.eq_none_iff_forall_ne_some.2 fun v hv => hin (Dict.mem_keys.2 ⟨v, hv⟩)
        rw [Dict.get?_update, hnone]
        exact Dict.mem_items.1 hp
    · refine hparsed p (Dict.mem_items.2 ?_)
      rw [Dict.get?_update, Dict.mem_items.1 hp]
      rfl

end

end PluginManifest

/-! ## what the resolver needs -/

section
variable {m : PluginManifest}

/-- whether a requirement can be parsed does not depend on its being optional -/
theorem CapabilityRequirement.parse_optional {name requirement : String} {optional : Bool} :
    (∃ r, CapabilityRequirement.parse name requirement optional = .ok r) ↔
      ∃ r, CapabilityRequirement.parse name requirement = .ok r := by
  unfold CapabilityRequirement.parse
  constructor
  · rintro ⟨r, h⟩
    obtain ⟨s, hs, h⟩ := bind_ok.1 h
    obtain ⟨k, hk, -⟩ := bind_ok.1 h
    exact ⟨_, bind_ok.2 ⟨s, hs, bind_ok.2 ⟨k, hk, rfl⟩⟩⟩
  · rintro ⟨r, h⟩
    obtain ⟨s, hs, h⟩ := bind_ok.1 h
    obtain ⟨k, hk, -⟩ := bind_ok.1 h
    exact ⟨_, bind_ok.2 ⟨s, hs, bind_ok.2 ⟨k, hk, rfl⟩⟩⟩

theorem requiredCapabilities_total :
    (∃ l, m.requiredCapabilities = .ok l) ↔
      ∀ p ∈ m.requires.items, ∃ r, CapabilityRequirement.parse p.1 p.2 = .ok r := by
  constructor
  · rintro ⟨l, hl⟩ p hp
    obtain ⟨r, -, hr⟩ := mapM_ok_mem_left hl (mem_sortedBy.2 hp)
    exact CapabilityRequirement.parse_optional.1 ⟨r, hr⟩
  · intro h
    exact mapM_total fun p hp => CapabilityRequirement.parse_optional.2 (h p (mem_sortedBy.1 hp))

theorem PluginManifest.Legible.optionalCapabilities (hm : m.Legible) :
    ∃ l, m.optionalCapabilities = .ok l :=
  mapM_total fun p hp =>
    CapabilityRequirement.parse_optional.2 (hm.optional p (mem_sortedBy.1 hp))

theorem PluginManifest.Legible.providedKeys (hm : m.Legible) : ∃ l, m.providedKeys = .ok l :=
  mapM_total hm.provides

theorem PluginManifest.Legible.declaredOptions {c : PluginCandidate} (hm : c.manifest.Legible) :
    ∃ l, declaredOptions c = .ok l := by
  refine mapM_total fun nv hnv => ?_
  obtain ⟨k, hk⟩ := hm.provides nv hnv
  obtain ⟨v, hv, -⟩ := bind_ok.1 hk
  exact ⟨_, bind_ok.2 ⟨k, hk, bind_ok.2 ⟨v, hv, rfl⟩⟩⟩

end

/-- **Legible manifests are all the resolver needs** to prepare the entries. -/
theorem prepare_total {ordered : List PluginCandidate} (h : ∀ c ∈ ordered, c.manifest.Legible) :
    ∃ entries, prepare ordered = .ok entries := by
  obtain ⟨declared, hdec⟩ : ∃ declared,
      (ordered.mapM fun c => do return (c, ← declaredOptions c) : Except Err _) = .ok declared := by
    refine mapM_total fun c hc => ?_
    obtain ⟨l, hl⟩ := (h c hc).declaredOptions
    exact ⟨_, bind_ok.2 ⟨l, hl, rfl⟩⟩
  have hfirst : ∀ d ∈ declared, d.1.manifest.Legible := by
    intro d hd
    obtain ⟨c, hc, hcd⟩ := mapM_ok_mem hdec hd
    obtain ⟨_, -, hcd⟩ := bind_ok.1 hcd
    cases hcd
    exact h c hc
  obtain ⟨required, hreq⟩ : ∃ required, (declared.mapM fun p => do
      return (p, ← p.1.manifest.requiredCapabilities) : Except Err _) = .ok required := by
    refine mapM_total fun d hd => ?_
    obtain ⟨l, hl⟩ := requiredCapabilities_total.2 (hfirst d hd).requires
    exact ⟨_, bind_ok.2 ⟨l, hl, rfl⟩⟩
  have hsecond : ∀ r ∈ required, r.1.1.manifest.Legible := by
    intro r hr
    obtain ⟨d, hd, hdr⟩ := mapM_ok_mem hreq hr
    obtain ⟨_, -, hdr⟩ := bind_ok.1 hdr
    cases hdr
    exact hfirst d hd
  obtain ⟨entries, hentries⟩ : ∃ entries, (required.mapM fun p => do
      let optional ← p.1.1.manifest.optionalCapabilities
      let providedKeys ← p.1.1.manifest.providedKeys
      return ⟨p.1.1, p.1.2, providedKeys, p.2, optional⟩ : Except Err (List Prepared)) =
        .ok entries := by
    refine mapM_total fun r hr => ?_
    obtain ⟨l, hl⟩ := (hsecond r hr).optionalCapabilities
    obtain ⟨k, hk⟩ := (hsecond r hr).providedKeys
    exact ⟨_, bind_ok.2 ⟨l, hl, bind_ok.2 ⟨k, hk, rfl⟩⟩⟩
  exact ⟨entries, bind_ok.2 ⟨declared, hdec, bind_ok.2 ⟨required, hreq, hentries⟩⟩⟩

end Chassis
