import Chassis.Harness.Reconcile
import Chassis.Core.Impact
import Chassis.Plugins.Guarantees
import Chassis.Persistence.Canonical

/-!
# Identities along a plan

* `ResolutionPlan.Acyclic`   no entry is above itself in the graph of the selected providers;
* `Decides plan done ids`    identities that `_semantic_identity` built one after the other;
* `Identical`                two entries unfold to one dependency tree;
* `identityDigest_iff`       **the digest of an identity is its dependency tree**, where the hash is
                             injective.
-/

set_option linter.unusedSectionVars false

namespace Chassis
open Py

/-! ## the graph of a plan -/

/-- how a requirement resolved, without the instances -/
structure Resolved where
  capability : String
  status : RequirementStatus
  provider : Option String
  deriving DecidableEq

def RequirementResolution.resolved (r : RequirementResolution) : Resolved :=
  ⟨r.requirement.name, r.status, r.providerEntryId⟩

namespace ResolutionPlan

/-- the requirements of an entry, as `_semantic_identity` reads them off the plan -/
def requirementsOf (plan : ResolutionPlan) (e : String) : List RequirementResolution :=
  ((plan.planFor e).map PluginPlan.requirements).getD []

/-- how the requirements of an entry resolved, by capability -/
def resolvedOf (plan : ResolutionPlan) (e : String) : List Resolved :=
  sortedBy Resolved.capability ((plan.requirementsOf e).map RequirementResolution.resolved)

def Selects (plan : ResolutionPlan) (p c : String) : Prop :=
  c ∈ plan.activationOrder ∧ ∃ r ∈ plan.requirementsOf c, r.providerEntryId = some p

def Acyclic (plan : ResolutionPlan) : Prop := ∀ e, ¬ Relation.TransGen plan.Selects e e

theorem mem_resolvedOf {plan : ResolutionPlan} {e : String} {r : Resolved} :
    r ∈ plan.resolvedOf e ↔ ∃ q ∈ plan.requirementsOf e, q.resolved = r := by
  rw [resolvedOf, mem_sortedBy, List.mem_map]

end ResolutionPlan

section
variable [Packaging]

theorem selects_iff_feeds {index : ScopeIndex} {entries : List Prepared}
    {selection : Dict String String} (hn : (ids entries).Nodup)
    (hcyc : detectCycles index entries = []) {p c : String} :
    (composePlan index entries selection).Selects p c ↔
      (market index entries selection).Feeds (ids entries) p c := by
  have hmem : ∀ {e}, e ∈ (composePlan index entries selection).activationOrder ↔
      e ∈ survivors index entries selection := fun {e} => by
    rw [mem_activationOrder hn, hcyc]
    simp
  constructor
  · rintro ⟨hc, r, hr, hprov⟩
    obtain ⟨q, hq, rfl⟩ := survivors_mem (hmem.1 hc)
    rw [ResolutionPlan.requirementsOf, planFor_activated hn hq hc] at hr
    obtain ⟨hmr, hent, -⟩ := mem_resolutionsIn hn hq hr
    rw [hprov] at hent
    obtain ⟨o, ho, hown⟩ := Option.map_eq_some_iff.1 hent.symm
    exact ⟨r.requirement, hmem.1 hc, by rw [market_demands hn hq]; exact hmr, o, ho, hown⟩
  · rintro ⟨r, hc, hr, o, ho, rfl⟩
    obtain ⟨q, hq, rfl⟩ := survivors_mem hc
    rw [market_demands hn hq] at hr
    refine ⟨hmem.2 hc, ?_⟩
    rw [ResolutionPlan.requirementsOf, planFor_activated hn hq (hmem.2 hc)]
    refine ⟨_, List.mem_map_of_mem hr, ?_⟩
    obtain ⟨-, hent, -⟩ := resolveOne_picked index selection hn hq r
      (survivors index entries selection) (entries.flatMap Prepared.options) q.providedKeys
    have hpick : picked index entries selection (survivors index entries selection) q r = some o :=
      ho
    rw [hent, hpick]
    rfl

/-- **In an acyclic plan every selected provider comes before its consumer**, hard or optional. -/
theorem ResolutionPlan.Acyclic.before {candidates : List PluginCandidate}
    {prefer : Dict String String} {scopes : Option (List ScopeSpec)} {plan : ResolutionPlan}
    (hres : resolve candidates prefer scopes = .ok plan) (hcyc : plan.cycles = [])
    (ha : plan.Acyclic) {p c : String} (hsel : plan.Selects p c) :
    Kahn.Before plan.activationOrder p c := by
  obtain ⟨index, entries, hprep, rfl⟩ := resolve_ok.1 hres
  have hn : (ids entries).Nodup := (prepareAll_ok hprep).sorted.imp ne_of_lt
  have hc : detectCycles index entries = [] := hcyc
  have hgraph : (composePlan index entries prefer).Selects =
      (market index entries prefer).Feeds (ids entries) := by
    funext p c
    exact propext (selects_iff_feeds hn hc)
  refine (before_iff hn hc (selects_iff_feeds hn hc |>.1 hsel)).2 ?_
  rintro ⟨q, hq, -⟩
  rw [← hgraph] at hq
  exact absurd hq (ha q)

theorem activationOrder_nodup_of_resolve {candidates : List PluginCandidate}
    {prefer : Dict String String} {scopes : Option (List ScopeSpec)} {plan : ResolutionPlan}
    (hres : resolve candidates prefer scopes = .ok plan) : plan.activationOrder.Nodup := by
  obtain ⟨index, entries, hprep, rfl⟩ := resolve_ok.1 hres
  exact activationOrder_nodup ((prepareAll_ok hprep).sorted.imp ne_of_lt)

end

/-! ## identities in activation order -/

section
variable [Packaging] [Platform]

def Harness.semanticIdentityWith (h : Harness) (entry : PluginEntry) (plan : ResolutionPlan)
    (identities : Dict String SemanticIdentity) (instanceOf : String → Option String) :
    Except Err SemanticIdentity :=
  buildSemanticIdentity entry.own (plan.requirementsOf entry.entryId) instanceOf
    (h.identityOf identities) h.redactor

inductive Decides (plan : ResolutionPlan) : List String → Dict String SemanticIdentity → Prop
  | nil : Decides plan [] Dict.empty
  | snoc {done : List String} {ids : Dict String SemanticIdentity} {identity : SemanticIdentity}
      (h : Harness) (entry : PluginEntry) (instanceOf : String → Option String)
      (hd : Decides plan done ids)
      (hid : h.semanticIdentityWith entry plan ids instanceOf = .ok identity) :
      Decides plan (done ++ [entry.entryId]) (ids.set entry.entryId identity)

/-- what an identity tells of a requirement, given the identities of the providers -/
def Resolved.key (ids : Dict String SemanticIdentity) (r : Resolved) : Value :=
  .list [.str r.capability, optionalText r.provider,
    optionalText (r.provider.bind fun p => (ids.get? p).map SemanticIdentity.identityDigest),
    .str r.status.value]

/-- an identity that is founded on the decided identities of its providers -/
structure Founded (plan : ResolutionPlan) (ids : Dict String SemanticIdentity) (e : String)
    (i : SemanticIdentity) : Prop where
  entryId : i.entryId = e
  kind : i.kind = "plugin"
  bindings : i.bindings.map DependencyBinding.semanticKey =
    (plan.resolvedOf e).map (Resolved.key ids)
  dependencies : i.dependencyFingerprint =
    digestOf (.list (i.bindings.map DependencyBinding.semanticKey))
  providers : ∀ r ∈ plan.resolvedOf e, ∀ p, r.provider = some p → (ids.get? p).isSome = true

theorem Decides.mem {plan : ResolutionPlan} {done : List String}
    {ids : Dict String SemanticIdentity} (hd : Decides plan done ids) {e : String} :
    (ids.get? e).isSome = true ↔ e ∈ done := by
  induction hd with
  | nil => simp
  | snoc h entry instanceOf hd hid ih =>
    rw [Dict.get?_set, List.mem_append, List.mem_singleton]
    split
    · rename_i he
      simp [he]
    · rename_i he
      simp [he, ih]

/-- what is built with providers that are decided, is founded on them -/
theorem Harness.semanticIdentityWith_founded {h : Harness} {entry : PluginEntry}
    {plan : ResolutionPlan} {ids ids' : Dict String SemanticIdentity}
    {instanceOf : String → Option String} {identity : SemanticIdentity}
    (hid : h.semanticIdentityWith entry plan ids instanceOf = .ok identity)
    (hprov : ∀ r ∈ plan.requirementsOf entry.entryId, ∀ p, r.providerEntryId = some p →
      (ids.get? p).isSome = true ∧ ids'.get? p = ids.get? p) :
    Founded plan ids' entry.entryId identity := by
  obtain ⟨-, rfl⟩ := buildSemanticIdentity_ok.1 hid
  refine ⟨rfl, rfl, ?_, rfl, ?_⟩
  · -- sorting the bindings is sorting how the requirements resolved
    let bind := dependencyBinding entry.own.entryId instanceOf (h.identityOf ids)
    have hkey : ∀ r ∈ plan.requirementsOf entry.entryId,
        (bind r).semanticKey = (RequirementResolution.resolved r).key ids' := by
      intro r hr
      show Value.list [_, _, optionalText (r.providerEntryId.bind (h.identityOf ids)), _] =
        .list [_, _, optionalText (r.providerEntryId.bind _), _]
      cases hp : r.providerEntryId with
      | none => rfl
      | some p =>
        obtain ⟨hsome, hsame⟩ := hprov r hr p hp
        obtain ⟨known, hknown⟩ := Option.isSome_iff_exists.1 hsome
        rw [Option.bind_some, Option.bind_some, hsame, Harness.identityOf, hknown]
        rfl
    show (sortedBy DependencyBinding.capability
      ((plan.requirementsOf entry.entryId).map bind)).map DependencyBinding.semanticKey =
        (sortedBy Resolved.capability ((plan.requirementsOf entry.entryId).map
          RequirementResolution.resolved)).map (Resolved.key ids')
    rw [sortedBy_map, sortedBy_map, List.map_map, List.map_map]
    exact List.map_congr_left fun r hr => hkey r (mem_sortedBy.1 hr)
  · intro r hr p hp
    obtain ⟨q, hq, rfl⟩ := ResolutionPlan.mem_resolvedOf.1 hr
    obtain ⟨hsome, hsame⟩ := hprov q hq p hp
    rw [hsame]
    exact hsome

theorem Founded.mono {plan : ResolutionPlan} {ids ids' : Dict String SemanticIdentity} {e : String}
    {i : SemanticIdentity} (hf : Founded plan ids e i)
    (hsame : ∀ p, (ids.get? p).isSome = true → ids'.get? p = ids.get? p) :
    Founded plan ids' e i where
  entryId := hf.entryId
  kind := hf.kind
  bindings := by
    rw [hf.bindings]
    refine List.map_congr_left fun r hr => ?_
    unfold Resolved.key
    cases hp : r.provider with
    | none => rfl
    | some p => rw [Option.bind_some, Option.bind_some, hsame p (hf.providers r hr p hp)]
  dependencies := hf.dependencies
  providers := by
    intro r hr p hp
    rw [hsame p (hf.providers r hr p hp)]
    exact hf.providers r hr p hp

/-- **Every identity is founded on those of its providers**, if providers come first. -/
theorem Decides.founded {plan : ResolutionPlan} (hn : plan.activationOrder.Nodup)
    (hfirst : ∀ {p c}, plan.Selects p c → Kahn.Before plan.activationOrder p c)
    {done : List String} {ids : Dict String SemanticIdentity} (hd : Decides plan done ids)
    (hpre : done <+: plan.activationOrder) {e : String} {i : SemanticIdentity}
    (hi : ids.get? e = some i) : Founded plan ids e i := by
  induction hd with
  | nil => cases hi
  | @snoc done ids identity h entry instanceOf hd hid ih =>
    obtain ⟨rest, horder⟩ := hpre
    rw [List.append_assoc] at horder
    have hnew : entry.entryId ∉ done := by
      rw [← horder] at hn
      intro hin
      exact List.disjoint_of_nodup_append hn hin List.mem_cons_self
    have hkeep : ∀ p, (ids.get? p).isSome = true →
        (ids.set entry.entryId identity).get? p = ids.get? p := by
      intro p hp
      rw [Dict.get?_set, if_neg]
      rintro rfl
      exact hnew (hd.mem.1 hp)
    rw [Dict.get?_set] at hi
    split at hi
    · rename_i he
      obtain rfl := Option.some.inj hi
      rw [he]
      refine Harness.semanticIdentityWith_founded hid fun r hr p hp => ?_
      have hc : entry.entryId ∈ plan.activationOrder := by
        rw [← horder]
        exact List.mem_append_right _ List.mem_cons_self
      obtain ⟨l₁, l₂, hsplit, hp₁⟩ := hfirst (p := p) ⟨hc, r, hr, hp⟩
      have hdone : l₁ = done := by
        rw [← horder] at hsplit hn
        have h₁ : entry.entryId ∉ l₁ := by
          rw [hsplit] at hn
          intro hin
          exact List.disjoint_of_nodup_append hn hin List.mem_cons_self
        have hlen := congrArg (List.idxOf entry.entryId) hsplit
        rw [List.idxOf_append_of_notMem hnew, List.idxOf_append_of_notMem h₁, List.singleton_append,
          List.idxOf_cons_self, List.idxOf_cons_self] at hlen
        exact (List.append_inj_left hsplit hlen).symm
      have hsome : (ids.get? p).isSome = true := hd.mem.2 (hdone ▸ hp₁)
      exact ⟨hsome, hkeep p hsome⟩
    · exact (ih ((List.prefix_append done _).trans ⟨rest, by rw [← horder, List.append_assoc]⟩)
        hi).mono hkeep

end

/-! ## the tree of an identity -/

/-- what an identity says of its node alone -/
structure SameInputs (i j : SemanticIdentity) : Prop where
  implementation : i.implementationFingerprint = j.implementationFingerprint
  contracts : i.contractFingerprint = j.contractFingerprint
  config : i.configFingerprint = j.configFingerprint
  scope : i.scopePath = j.scopePath

/-- a plan, and the identities of its entries -/
structure Identified where
  plan : ResolutionPlan
  identities : Dict String SemanticIdentity

/-- **One dependency tree**: the same implementation, contracts, configuration and scope, the same
outcome of every requirement, and providers that are identical in the same sense. -/
inductive Identical (c₁ c₂ : Identified) : String → String → Prop
  | node {e₁ e₂ : String} {i₁ i₂ : SemanticIdentity}
      (h₁ : c₁.identities.get? e₁ = some i₁) (h₂ : c₂.identities.get? e₂ = some i₂)
      (inputs : SameInputs i₁ i₂) (resolved : c₁.plan.resolvedOf e₁ = c₂.plan.resolvedOf e₂)
      (providers : ∀ r ∈ c₁.plan.resolvedOf e₁, ∀ p, r.provider = some p → Identical c₁ c₂ p p) :
      Identical c₁ c₂ e₁ e₂

section
variable [Packaging] [Platform]

/-- The plan may be activated, its selected providers form no cycle, and the identities were built
in its activation order, so far. -/
structure Identified.Built (c : Identified) : Prop where
  resolved : ∃ candidates prefer scopes, resolve candidates prefer scopes = .ok c.plan
  composable : c.plan.raiseForCycles = .ok ()
  acyclic : c.plan.Acyclic
  decided : ∃ done, done <+: c.plan.activationOrder ∧ Decides c.plan done c.identities

theorem ResolutionPlan.cycles_of_raise {plan : ResolutionPlan} (h : plan.raiseForCycles = .ok ()) :
    plan.cycles = [] := by
  unfold raiseForCycles at h
  split at h
  · cases h
  · rename_i hc
    exact not_not.1 hc

namespace Identified.Built
variable {c : Identified}

theorem before (hb : c.Built) {p e : String} (hsel : c.plan.Selects p e) :
    Kahn.Before c.plan.activationOrder p e := by
  obtain ⟨candidates, prefer, scopes, hres⟩ := hb.resolved
  exact hb.acyclic.before hres (ResolutionPlan.cycles_of_raise hb.composable) hsel

theorem nodup (hb : c.Built) : c.plan.activationOrder.Nodup := by
  obtain ⟨candidates, prefer, scopes, hres⟩ := hb.resolved
  exact activationOrder_nodup_of_resolve hres

theorem founded (hb : c.Built) {e : String} {i : SemanticIdentity}
    (hi : c.identities.get? e = some i) : Founded c.plan c.identities e i := by
  obtain ⟨done, hpre, hd⟩ := hb.decided
  exact hd.founded hb.nodup hb.before hpre hi

theorem activated (hb : c.Built) {e : String} {i : SemanticIdentity}
    (hi : c.identities.get? e = some i) : e ∈ c.plan.activationOrder := by
  obtain ⟨done, hpre, hd⟩ := hb.decided
  exact hpre.subset (hd.mem.1 (Option.isSome_iff_exists.2 ⟨i, hi⟩))

end Identified.Built

end

/-! ## digests -/

section
variable [Platform]

/-- the hash tells canonical texts apart -/
def HashInjective : Prop := Set.InjOn Platform.hashText (Set.range canonicalJson)

theorem HashInjective.canonicalize (hinj : HashInjective) {v w : Value} (hv : v.isTextual = true)
    (hw : w.isTextual = true) (h : digestOf v = digestOf w) :
    Chassis.canonicalize v = Chassis.canonicalize w :=
  canonicalJson_injective hv hw (hinj ⟨v, rfl⟩ ⟨w, rfl⟩ h)

theorem optionalText_textual (o : Option String) :
    (optionalText o).isTextual = true ∧ canonicalize (optionalText o) = optionalText o := by
  cases o with
  | none => exact ⟨rfl, rfl⟩
  | some s => exact ⟨rfl, rfl⟩

theorem optionalText_inj {o o' : Option String} (h : optionalText o = optionalText o') : o = o' := by
  cases o with
  | none => cases o' with
    | none => rfl
    | some s => cases h
  | some s => cases o' with
    | none => cases h
    | some s' => exact congrArg some (Value.str.inj h)

theorem RequirementStatus.value_inj {s t : RequirementStatus} (h : s.value = t.value) : s = t := by
  cases s <;> cases t <;> first | rfl | exact absurd h (by decide)

theorem Resolved.key_textual (ids : Dict String SemanticIdentity) (r : Resolved) :
    (r.key ids).isTextual = true ∧ canonicalize (r.key ids) = r.key ids := by
  obtain ⟨hp, hp'⟩ := optionalText_textual r.provider
  obtain ⟨hd, hd'⟩ := optionalText_textual
    (r.provider.bind fun p => (ids.get? p).map SemanticIdentity.identityDigest)
  constructor
  · show isTextualList [_, _, _, _] = true
    rw [isTextualList_cons, isTextualList_cons, isTextualList_cons, isTextualList_cons]
    exact ⟨rfl, hp, hd, rfl, rfl⟩
  · show Value.list [.str _, canonicalize _, canonicalize _, .str _] = .list [_, _, _, _]
    rw [hp', hd']

theorem textual_keys (ids : Dict String SemanticIdentity) (l : List Resolved) :
    isTextualList (l.map (Resolved.key ids)) = true ∧
      canonicalizeList (l.map (Resolved.key ids)) = l.map (Resolved.key ids) := by
  induction l with
  | nil => exact ⟨rfl, rfl⟩
  | cons r l ih =>
    obtain ⟨htext, hcanon⟩ := r.key_textual ids
    refine ⟨isTextualList_cons.2 ⟨htext, ih.1⟩, ?_⟩
    rw [List.map_cons, canonicalizeList, hcanon, ih.2]

/-- a key tells the outcome, and the digest of the provider -/
theorem Resolved.key_eq_iff {ids₁ ids₂ : Dict String SemanticIdentity} {r s : Resolved} :
    r.key ids₁ = s.key ids₂ ↔ r = s ∧ ∀ p, r.provider = some p →
      (ids₁.get? p).map SemanticIdentity.identityDigest =
        (ids₂.get? p).map SemanticIdentity.identityDigest := by
  constructor
  · intro h
    simp only [Resolved.key, Value.list.injEq, List.cons.injEq, Value.str.injEq, and_true] at h
    obtain ⟨hcap, hprov, hdig, hstat⟩ := h
    have hrs : r = s := by
      obtain ⟨capability, status, provider⟩ := r
      obtain ⟨capability', status', provider'⟩ := s
      obtain rfl : capability = capability' := hcap
      obtain rfl : provider = provider' := optionalText_inj hprov
      obtain rfl : status = status' := RequirementStatus.value_inj hstat
      rfl
    refine ⟨hrs, fun p hp => ?_⟩
    replace hdig := optionalText_inj hdig
    rw [← hrs, hp] at hdig
    exact hdig
  · rintro ⟨rfl, hdig⟩
    unfold Resolved.key
    cases hp : r.provider with
    | none => rfl
    | some p => rw [Option.bind_some, Option.bind_some, hdig p hp]

theorem keys_eq_iff {ids₁ ids₂ : Dict String SemanticIdentity} {l m : List Resolved} :
    l.map (Resolved.key ids₁) = m.map (Resolved.key ids₂) ↔
      l = m ∧ ∀ r ∈ l, ∀ p, r.provider = some p →
        (ids₁.get? p).map SemanticIdentity.identityDigest =
          (ids₂.get? p).map SemanticIdentity.identityDigest := by
  induction l generalizing m with
  | nil =>
    cases m with
    | nil => simp
    | cons s m => simp
  | cons r l ih =>
    cases m with
    | nil => simp
    | cons s m =>
      rw [List.map_cons, List.map_cons, List.cons.injEq, Resolved.key_eq_iff, ih, List.cons.injEq,
        List.forall_mem_cons]
      tauto

/-- the digest of an identity is made of its own inputs and its dependencies -/
theorem SemanticIdentity.identityDigest_iff (hinj : HashInjective) {i j : SemanticIdentity}
    (hkind : i.kind = j.kind) : i.identityDigest = j.identityDigest ↔
      SameInputs i j ∧ i.dependencyFingerprint = j.dependencyFingerprint := by
  constructor
  · intro h
    have hcanon := hinj.canonicalize rfl rfl h
    have hperm := (sortedBy_perm Prod.fst _).symm.trans
      ((List.Perm.of_eq (Value.dict.inj hcanon)).trans (sortedBy_perm Prod.fst _))
    have hmem : ∀ x, x ∈ [("kind", Value.str i.kind),
        ("implementation", .str i.implementationFingerprint),
        ("contracts", .str i.contractFingerprint), ("config", .str i.configFingerprint),
        ("scope", .str i.scopePath), ("dependencies", .str i.dependencyFingerprint)] →
        x ∈ [("kind", Value.str j.kind),
          ("implementation", .str j.implementationFingerprint),
          ("contracts", .str j.contractFingerprint), ("config", .str j.configFingerprint),
          ("scope", .str j.scopePath), ("dependencies", .str j.dependencyFingerprint)] :=
      fun x hx => hperm.mem_iff.1 hx
    have himpl := hmem ("implementation", .str i.implementationFingerprint) (by simp)
    have hcont := hmem ("contracts", .str i.contractFingerprint) (by simp)
    have hconf := hmem ("config", .str i.configFingerprint) (by simp)
    have hscope := hmem ("scope", .str i.scopePath) (by simp)
    have hdep := hmem ("dependencies", .str i.dependencyFingerprint) (by simp)
    simp at himpl hcont hconf hscope hdep
    exact ⟨⟨himpl, hcont, hconf, hscope⟩, hdep⟩
  · rintro ⟨⟨himpl, hcont, hconf, hscope⟩, hdep⟩
    unfold identityDigest
    rw [hkind, himpl, hcont, hconf, hscope, hdep]

variable {plan₁ plan₂ : ResolutionPlan} {ids₁ ids₂ : Dict String SemanticIdentity} {e₁ e₂ : String}
  {i₁ i₂ : SemanticIdentity}

/-- fingerprints of dependencies are equal iff the bindings mean the same -/
theorem Founded.dependencies_iff (hinj : HashInjective) (f₁ : Founded plan₁ ids₁ e₁ i₁)
    (f₂ : Founded plan₂ ids₂ e₂ i₂) :
    i₁.dependencyFingerprint = i₂.dependencyFingerprint ↔
      i₁.bindings.map DependencyBinding.semanticKey = i₂.bindings.map DependencyBinding.semanticKey := by
  rw [f₁.dependencies, f₂.dependencies]
  refine ⟨fun h => ?_, fun h => by rw [h]⟩
  rw [f₁.bindings, f₂.bindings] at h ⊢
  obtain ⟨htext₁, hcanon₁⟩ := textual_keys ids₁ (plan₁.resolvedOf e₁)
  obtain ⟨htext₂, hcanon₂⟩ := textual_keys ids₂ (plan₂.resolvedOf e₂)
  have hcanon := Value.list.inj (hinj.canonicalize (v := .list _) (w := .list _) htext₁ htext₂ h)
  rw [hcanon₁, hcanon₂] at hcanon
  exact hcanon

theorem Founded.digest_iff (hinj : HashInjective) (f₁ : Founded plan₁ ids₁ e₁ i₁)
    (f₂ : Founded plan₂ ids₂ e₂ i₂) :
    i₁.identityDigest = i₂.identityDigest ↔ SameInputs i₁ i₂ ∧
      plan₁.resolvedOf e₁ = plan₂.resolvedOf e₂ ∧
      ∀ r ∈ plan₁.resolvedOf e₁, ∀ p, r.provider = some p →
        (ids₁.get? p).map SemanticIdentity.identityDigest =
          (ids₂.get? p).map SemanticIdentity.identityDigest := by
  rw [SemanticIdentity.identityDigest_iff hinj (f₁.kind.trans f₂.kind.symm),
    f₁.dependencies_iff hinj f₂, f₁.bindings, f₂.bindings, keys_eq_iff]

end

section
variable [Packaging] [Platform]

/-- **The digest of an identity is its dependency tree.**  The induction follows the activation
order: the digests of the providers are those of trees that were built earlier. -/
theorem digest_eq_iff_identical (hinj : HashInjective) {c₁ c₂ : Identified} (hb₁ : c₁.Built)
    (hb₂ : c₂.Built) {e₁ e₂ : String} {i₁ i₂ : SemanticIdentity}
    (h₁ : c₁.identities.get? e₁ = some i₁) (h₂ : c₂.identities.get? e₂ = some i₂) :
    i₁.identityDigest = i₂.identityDigest ↔ Identical c₁ c₂ e₁ e₂ := by
  constructor
  · intro h
    induction hpos : c₁.plan.activationOrder.idxOf e₁ using Nat.strong_induction_on
      generalizing e₁ e₂ i₁ i₂ with
    | _ n ih =>
      obtain ⟨hinputs, hres, hprov⟩ := ((hb₁.founded h₁).digest_iff hinj (hb₂.founded h₂)).1 h
      refine .node h₁ h₂ hinputs hres fun r hr p hp => ?_
      have hsome := (hb₁.founded h₁).providers r hr p hp
      obtain ⟨j₁, hj₁⟩ := Option.isSome_iff_exists.1 hsome
      obtain ⟨j₂, hj₂⟩ := Option.isSome_iff_exists.1
        ((hb₂.founded h₂).providers r (hres ▸ hr) p hp)
      have hdig := hprov r hr p hp
      rw [hj₁, hj₂] at hdig
      obtain ⟨q, hq, rfl⟩ := ResolutionPlan.mem_resolvedOf.1 hr
      obtain ⟨l₁, l₂, horder, hpl⟩ := hb₁.before ⟨hb₁.activated h₁, q, hq, hp⟩
      refine ih _ ?_ hj₁ hj₂ (Option.some.inj hdig) rfl
      have hn := hb₁.nodup
      rw [horder] at hn
      have hnot : e₁ ∉ l₁ := fun hin => List.disjoint_of_nodup_append hn hin List.mem_cons_self
      rw [← hpos, horder, List.idxOf_append_of_mem hpl, List.idxOf_append_of_notMem hnot]
      exact Nat.lt_add_right _ (List.idxOf_lt_length_iff.2 hpl)
  · intro h
    induction h generalizing i₁ i₂ with
    | @node e₁ e₂ j₁ j₂ hj₁ hj₂ hinputs hres _ ih =>
      obtain rfl := Option.some.inj (hj₁.symm.trans h₁)
      obtain rfl := Option.some.inj (hj₂.symm.trans h₂)
      refine ((hb₁.founded h₁).digest_iff hinj (hb₂.founded h₂)).2 ⟨hinputs, hres, ?_⟩
      intro r hr p hp
      obtain ⟨k₁, hk₁⟩ := Option.isSome_iff_exists.1 ((hb₁.founded h₁).providers r hr p hp)
      obtain ⟨k₂, hk₂⟩ := Option.isSome_iff_exists.1
        ((hb₂.founded h₂).providers r (hres ▸ hr) p hp)
      rw [hk₁, hk₂]
      exact congrArg some (ih r hr p hp hk₁ hk₂)

end

end Chassis
