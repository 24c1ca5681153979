import Chassis.Harness.Reconcile
import Chassis.Plugins.Diagnoses

/-!
# What a plugin is given

The resolutions of an entry are bound to live registrations by the name of the capability, hard
requirements first and optional ones after them: an optional requirement takes the place of a
hard one of the same name.

* `PluginContext.require`    what `setup` gets when it asks for a capability;
* `Harness.binding`          the registration one resolution is bound to;
* `bindings_accepted_iff`    every hard requirement is bound to what it accepts, exactly unless the
                             provider of an optional one of its name is outside its range.
-/

set_option linter.unusedSectionVars false

namespace Chassis
open Py

/-! ## the context of a plugin -/

/-- what the `setup` of an instance resolves its capabilities in -/
structure PluginContext where
  plugin : String
  instanceId : String
  resolved : Dict String CapabilityRegistration

/-- `CapabilityKey | str` -/
inductive Wanted
  | name (name : String)
  | key (key : CapabilityKey)

def Wanted.capability : Wanted → String
  | .name n => n
  | .key k => k.name

/-- the generation that is asked for, if one is -/
def Wanted.apiVersion : Wanted → String
  | .name _ => ""
  | .key k => k.apiVersion

namespace PluginContext

/-- the registration resolved for a required capability -/
def require (ctx : PluginContext) (wanted : Wanted) : Except Err CapabilityRegistration :=
  match ctx.resolved.get? wanted.capability with
  | none => .error
      { kind := .CapabilityNotFound
        message := "capability " ++ quoted wanted.capability ++ " is not resolved for plugin " ++
          quoted ctx.plugin
        context := [("plugin", ctx.plugin), ("instance_id", ctx.instanceId),
          ("capability", wanted.capability)] }
  | some registration =>
    if wanted.apiVersion ≠ "" ∧ registration.key.apiVersion ≠ wanted.apiVersion then .error
      { kind := .CapabilityVersionMismatch
        message := "capability " ++ quoted wanted.capability ++
          " resolved to contract generation " ++ quoted registration.key.apiVersion ++
          ", expected " ++ quoted wanted.apiVersion
        context := [("plugin", ctx.plugin), ("capability", wanted.capability),
          ("resolved", registration.key.apiVersion), ("expected", wanted.apiVersion)] }
    else .ok registration

theorem require_name {ctx : PluginContext} {name : String} {c : CapabilityRegistration} :
    ctx.require (.name name) = .ok c ↔ ctx.resolved.get? name = some c := by
  show (match ctx.resolved.get? name with
    | none => _
    | some registration => _) = _ ↔ _
  cases ctx.resolved.get? name with
  | none => simp
  | some registration => simp [Wanted.apiVersion]

end PluginContext

/-! ## the binding of one resolution -/

/-- among contracts of one name, the text tells the generation -/
theorem CapabilityKey.str_injective {k k' : CapabilityKey} (hname : k.name = k'.name)
    (h : k.str = k'.str) : k = k' := by
  have hapi : k.apiVersion = k'.apiVersion := by
    simp only [str, hname] at h
    split_ifs at h with ha hb hb
    · rw [ha, hb]
    · simpa [String.append_assoc] using congrArg String.length h
    · simpa [String.append_assoc] using congrArg String.length h
    · exact String.append_right_inj _ |>.1 h
  cases k
  cases k'
  cases hname
  cases hapi
  rfl

section
variable [Packaging] [Platform]

namespace Harness

/-- the registration that one resolution of a plan is bound to -/
def binding (h : Harness) (r : RequirementResolution) : Option CapabilityRegistration :=
  if !r.satisfied then none
  else
    match r.providerEntryId.bind h.plugins.instance? with
    | none => none
    | some provider =>
      let matching := (CapabilityRegistry.byName h.capabilities r.requirement.name).filter
        fun c => c.providerId = provider.instanceId && r.requirement.accepts c.key c.version
      let exact := matching.filter fun c =>
        some c.key.str = r.providerKey && some c.version.text = r.providerVersion
      (exact ++ matching).head?

theorem resolutionsFor_eq (h : Harness) (plan : ResolutionPlan) (e : String) :
    h.resolutionsFor plan e = (((plan.planFor e).map PluginPlan.requirements).getD []).foldl
      (fun resolved r => resolved.setSome r.requirement.name (h.binding r)) Dict.empty := by
  unfold resolutionsFor
  congr 1
  funext resolved r
  simp only [binding]
  split_ifs
  · rfl
  · cases r.providerEntryId.bind h.plugins.instance? with
    | none => rfl
    | some provider =>
      dsimp only
      generalize (_ ++ _ : List CapabilityRegistration) = l
      cases l <;> rfl

/-- a live registration of the provider under the chosen contract and version is the one bound -/
theorem binding_chosen {h : Harness} {r : RequirementResolution} {i : PluginInstance}
    {key : CapabilityKey} {version : Version} (hsat : r.satisfied = true)
    (hprovider : r.providerEntryId.bind h.plugins.instance? = some i)
    (hkey : r.providerKey = some key.str) (hversion : r.providerVersion = some version.text)
    (hname : key.name = r.requirement.name) (haccepts : r.requirement.accepts key version = true)
    (hlive : ∃ c ∈ CapabilityRegistry.ofProvider h.capabilities i.instanceId,
      c.key = key ∧ c.version = version) :
    ∃ c, h.binding r = some c ∧ c.key = key ∧ c.version = version := by
  obtain ⟨c₀, hc₀, rfl, rfl⟩ := hlive
  obtain ⟨hc₀, hid⟩ := List.mem_filter.1 hc₀
  have hmatching : c₀ ∈ (CapabilityRegistry.byName h.capabilities r.requirement.name).filter
      (fun c => c.providerId = i.instanceId && r.requirement.accepts c.key c.version) := by
    refine List.mem_filter.2 ⟨List.mem_filter.2 ⟨hc₀, decide_eq_true hname⟩, ?_⟩
    rw [hid, haccepts]
    rfl
  simp only [binding, hsat, hprovider, Bool.not_true, Bool.false_eq_true, if_false]
  generalize hm : List.filter _ (CapabilityRegistry.byName h.capabilities r.requirement.name)
    = matching at hmatching ⊢
  generalize hx : matching.filter (fun c => some c.key.str = r.providerKey &&
    some c.version.text = r.providerVersion) = exact
  have hin : c₀ ∈ exact := by
    rw [← hx]
    exact List.mem_filter.2 ⟨hmatching, by simp [hkey, hversion]⟩
  cases exact with
  | nil => exact absurd hin List.not_mem_nil
  | cons c l =>
    refine ⟨c, rfl, ?_⟩
    have hc : c ∈ matching.filter (fun c => some c.key.str = r.providerKey &&
        some c.version.text = r.providerVersion) := by
      rw [hx]
      exact List.mem_cons_self
    obtain ⟨hcm, hc⟩ := List.mem_filter.1 hc
    rw [hkey, hversion, Bool.and_eq_true, decide_eq_true_eq, decide_eq_true_eq, Option.some.injEq,
      Option.some.injEq] at hc
    rw [← hm] at hcm
    have hcname := of_decide_eq_true (List.mem_filter.1 (List.mem_filter.1 hcm).1).2
    exact ⟨CapabilityKey.str_injective (hcname.trans hname.symm) hc.1,
      congrArg Version.mk hc.2⟩

theorem binding_unsatisfied {h : Harness} {r : RequirementResolution} (hsat : r.satisfied = false) :
    h.binding r = none := by
  simp [binding, hsat]

end Harness

/-! ## what is given, against what is required -/

/-- some registrations are exactly the contracts that a manifest declares -/
def PluginManifest.Kept (m : PluginManifest) (l : List CapabilityRegistration) : Prop :=
  ∀ key version, (∃ c ∈ l, c.key = key ∧ c.version = version) ↔ m.Contract key version

/-- the providers a plan selects are mounted, and register exactly what they declare -/
structure Harness.ProvidersMounted (h : Harness) (candidates : List PluginCandidate)
    (pl : PluginPlan) : Prop where
  active : ∀ c ∈ candidates, c.active = true → c.manifest.Kept c.registrations
  mounted : ∀ r ∈ pl.requirements, ∀ p, r.providerEntryId = some p →
    ∀ c ∈ candidates, c.entryId = p → ∃ i, h.plugins.instance? p = some i ∧
      c.manifest.Kept (CapabilityRegistry.ofProvider h.capabilities i.instanceId)

/-- under the name of every hard requirement a context has what the requirement accepts -/
structure PluginContext.Served (ctx : PluginContext) (pl : PluginPlan) : Prop where
  bound : ∀ r ∈ pl.requirements, r.requirement.optional = false →
    ∃ c, ctx.resolved.get? r.requirement.name = some c ∧
      r.requirement.accepts c.key c.version = true
  require : ∀ r ∈ pl.requirements, r.requirement.optional = false →
    ∀ c, ctx.require (.name r.requirement.name) = .ok c →
      r.requirement.accepts c.key c.version = true

/-- the provider chosen for `s` is one that `r` accepts too -/
def RequirementResolution.ServesToo (s r : RequirementResolution) : Prop :=
  ∀ key : CapabilityKey, ∀ version : Version, s.providerKey = some key.str →
    s.providerVersion = some version.text → key.name = s.requirement.name →
    r.requirement.accepts key version = true

section
variable {index : ScopeIndex} {entries : List Prepared} {selection : Dict String String}
  {candidates : List PluginCandidate} {specs : List ScopeSpec} {h : Harness} {pl : PluginPlan}

theorem Harness.ProvidersMounted.binding (hm : h.ProvidersMounted candidates pl)
    (hcomp : Chassis.Composition candidates specs index entries) {p : Prepared} (hp : p ∈ entries)
    {E : List String} (hpl : pl.requirements = resolutionsIn index entries selection E p)
    {r : RequirementResolution} (hr : r ∈ pl.requirements) :
    (h.binding r).map (fun c => (c.key, c.version)) =
      (picked index entries selection E p r.requirement).map fun o => (o.key, o.version) := by
  have hn : (ids entries).Nodup := hcomp.sorted.imp ne_of_lt
  obtain ⟨-, hent, hkey, hversion, hsat⟩ := mem_resolutionsIn hn hp (hpl ▸ hr)
  cases ho : picked index entries selection E p r.requirement with
  | none =>
    rw [ho] at hsat
    rw [Harness.binding_unsatisfied hsat]
    rfl
  | some o =>
    rw [ho] at hent hkey hversion hsat
    obtain ⟨hvisible, hname, -, haccepts, -⟩ := picked_spec hn hp ho
    obtain ⟨d, hd, -, hdo, -⟩ := mem_visibleOptions hvisible
    have hdc : d.candidate ∈ candidates := (hcomp.mem _).2 ⟨d, hd, rfl⟩
    obtain ⟨i, hi, hkept⟩ := hm.mounted r hr o.entryId hent d.candidate hdc
      (options_entryId (hcomp.parsed d hd) hdo).symm
    have hcontract : d.candidate.manifest.Contract o.key o.version := by
      have hoffers := offers_of_mem (hcomp.parsed d hd) hdo
      simp only [PluginCandidate.Offers] at hoffers
      split_ifs at hoffers with hactive
      · exact (hm.active _ hdc hactive o.key o.version).1 hoffers
      · exact hoffers
    obtain ⟨c, hc, hck, hcv⟩ := Harness.binding_chosen hsat (by rw [hent]; exact hi) hkey hversion
      hname haccepts ((hkept o.key o.version).2 hcontract)
    rw [hc, Option.map_some, Option.map_some, hck, hcv]

variable (index entries selection) in
/-- the plan of an entry: its hard requirements, then its optional ones, each under its own name -/
theorem resolutionsIn_split {p : Prepared} (hp : p.Parsed) (E : List String) :
    ∃ hard soft, resolutionsIn index entries selection E p = hard ++ soft ∧
      (∀ r ∈ hard, r.requirement.optional = false) ∧ (∀ s ∈ soft, s.requirement.optional = true) ∧
      (hard.map fun r => r.requirement.name).Nodup ∧
      (soft.map fun s => s.requirement.name).Nodup := by
  have hsplit : resolutionsIn index entries selection E p =
      (p.required ++ p.optional).map fun r => resolveOne p.entryId .plugin r
        (buildView index entries E p.scope) selection (entries.flatMap Prepared.options)
        (some p.entryId) p.providedKeys := rfl
  rw [List.map_append] at hsplit
  refine ⟨_, _, hsplit, fun r hr => ?_, fun s hs => ?_, ?_, ?_⟩
  · obtain ⟨q, hq, rfl⟩ := List.mem_map.1 hr
    exact (PluginManifest.requiredCapabilities_hard hp.required hq).1
  · obtain ⟨q, hq, rfl⟩ := List.mem_map.1 hs
    exact (PluginManifest.optionalCapabilities_soft hp.optional hq).1
  · rw [List.map_map]
    exact PluginManifest.requiredCapabilities_names hp.required
  · rw [List.map_map]
    exact PluginManifest.optionalCapabilities_names hp.optional

/-- under the name of a hard requirement is what an optional one of that name is bound to, if it is
bound, and else what the hard one is -/
theorem resolutionsFor_hard {plan : ResolutionPlan} {e : String}
    (hplan : plan.planFor e = some pl) {hard soft : List RequirementResolution}
    (hpl : pl.requirements = hard ++ soft)
    (hhard : (hard.map fun r => r.requirement.name).Nodup)
    (hsoft : (soft.map fun s => s.requirement.name).Nodup) {r : RequirementResolution}
    (hr : r ∈ hard) :
    (∀ s ∈ soft, s.requirement.name = r.requirement.name →
      (h.resolutionsFor plan e).get? r.requirement.name = (h.binding s).or (h.binding r)) ∧
    ((∀ s ∈ soft, s.requirement.name ≠ r.requirement.name) →
      (h.resolutionsFor plan e).get? r.requirement.name = h.binding r) := by
  have hfirst := Dict.get?_foldl_setSome (fun r : RequirementResolution => r.requirement.name)
    h.binding hhard hr Dict.empty
  rw [Dict.get?_empty, Option.or_none] at hfirst
  rw [Harness.resolutionsFor_eq, hplan, Option.map_some, Option.getD_some, hpl, List.foldl_append]
  constructor
  · intro s hs hname
    rw [← hfirst, ← hname]
    exact Dict.get?_foldl_setSome (fun r : RequirementResolution => r.requirement.name) h.binding
      hsoft hs _
  · intro hnone
    rw [Dict.get?_foldl_setSome_missing (fun r : RequirementResolution => r.requirement.name)
      h.binding (fun hmem => ?_), hfirst]
    obtain ⟨s, hs, hname⟩ := List.mem_map.1 hmem
    exact hnone s hs hname

end

/-- **Every hard requirement of an activated entry is bound to what it accepts, exactly unless the
provider chosen for an optional requirement of its name is outside its range.** -/
theorem bindings_accepted_iff {candidates : List PluginCandidate} {prefer : Dict String String}
    {scopes : Option (List ScopeSpec)} {plan : ResolutionPlan} {h : Harness} {ctx : PluginContext}
    {e : String} {pl : PluginPlan} (hplan : resolve candidates prefer scopes = .ok plan)
    (he : e ∈ plan.activationOrder) (hpl : plan.planFor e = some pl)
    (hm : h.ProvidersMounted candidates pl) (hctx : ctx.resolved = h.resolutionsFor plan e) :
    ctx.Served pl ↔ ∀ r ∈ pl.requirements, ∀ s ∈ pl.requirements,
      r.requirement.optional = false → s.requirement.optional = true →
      s.requirement.name = r.requirement.name → s.ServesToo r := by
  obtain ⟨index, entries, hprep, rfl⟩ := resolve_ok.1 hplan
  have hcomp := prepareAll_ok hprep
  have hn : (ids entries).Nodup := hcomp.sorted.imp ne_of_lt
  obtain ⟨p, hp, rfl, hreqs⟩ := planFor_resolutions hn he hpl
  obtain ⟨hard, soft, hsplit, hhard, hsoft, hhardNames, hsoftNames⟩ :=
    resolutionsIn_split index entries prefer (hcomp.parsed p hp) (survivors index entries prefer)
  rw [← hreqs] at hsplit
  have hmem : ∀ r, r ∈ pl.requirements ↔ r ∈ hard ∨ r ∈ soft := fun r => by
    rw [hsplit, List.mem_append]
  have hhardMem : ∀ r ∈ pl.requirements, r.requirement.optional = false → r ∈ hard :=
    fun r hr hopt => ((hmem r).1 hr).resolve_right fun hs => by
      rw [hsoft r hs] at hopt
      cases hopt
  have hsoftMem : ∀ s ∈ pl.requirements, s.requirement.optional = true → s ∈ soft :=
    fun s hs hopt => ((hmem s).1 hs).resolve_left fun hr => by
      rw [hhard s hr] at hopt
      cases hopt
  have hbinding := fun r (hr : r ∈ pl.requirements) => hm.binding hcomp hp hreqs hr
  constructor
  · intro hserved r hr s hs hropt hsopt hname key version hkey hversion hkeyName
    obtain ⟨hover, -⟩ := resolutionsFor_hard hpl hsplit hhardNames hsoftNames
      (hhardMem r hr hropt)
    obtain ⟨-, -, hskey, hsversion, -⟩ := mem_resolutionsIn hn hp (hreqs ▸ hs)
    have hb := hbinding s hs
    rw [hkey] at hskey
    rw [hversion] at hsversion
    obtain ⟨o, ho, hokey⟩ := Option.map_eq_some_iff.1 hskey.symm
    rw [ho] at hb hsversion
    obtain ⟨c, hc, hcv⟩ := Option.map_eq_some_iff.1 hb
    obtain ⟨hck, hcv⟩ := Prod.mk.inj hcv
    have hkeyo : o.key = key :=
      CapabilityKey.str_injective ((picked_spec hn hp ho).2.1.trans hkeyName.symm) hokey
    have hversiono : o.version = version :=
      (congrArg Version.mk (Option.some.inj hsversion)).symm
    obtain ⟨c', hget, haccepts⟩ := hserved.bound r hr hropt
    rw [hctx, hover s (hsoftMem s hs hsopt) hname, hc] at hget
    cases hget
    rw [← hkeyo, ← hversiono, ← hck, ← hcv]
    exact haccepts
  · intro hserves
    have hbound : ∀ r ∈ pl.requirements, r.requirement.optional = false →
        ∃ c, ctx.resolved.get? r.requirement.name = some c ∧
          r.requirement.accepts c.key c.version = true := by
      intro r hr hropt
      have hrhard := hhardMem r hr hropt
      obtain ⟨hover, hown⟩ := resolutionsFor_hard hpl hsplit hhardNames hsoftNames hrhard
      obtain ⟨q, hprovider, -⟩ := activated_selects hn hp ((mem_activationOrder hn).1 he).1
        (hreqs ▸ hr) hropt
      obtain ⟨-, hent, -⟩ := mem_resolutionsIn hn hp (hreqs ▸ hr)
      rw [hprovider] at hent
      obtain ⟨o, ho, -⟩ := Option.map_eq_some_iff.1 hent.symm
      have hb := hbinding r hr
      rw [ho] at hb
      obtain ⟨c, hc, hcv⟩ := Option.map_eq_some_iff.1 hb
      obtain ⟨hck, hcv⟩ := Prod.mk.inj hcv
      have hown' : r.requirement.accepts c.key c.version = true := by
        rw [hck, hcv]
        exact (picked_spec hn hp ho).2.2.2.1
      rw [hctx]
      by_cases hsame : ∃ s ∈ soft, s.requirement.name = r.requirement.name
      · obtain ⟨s, hs, hname⟩ := hsame
        have hsmem := (hmem s).2 (Or.inr hs)
        rw [hover s hs hname]
        cases hsb : h.binding s with
        | none => exact ⟨c, hc, hown'⟩
        | some cs =>
          have hbs := hbinding s hsmem
          rw [hsb] at hbs
          obtain ⟨-, -, hskey, hsversion, -⟩ := mem_resolutionsIn hn hp (hreqs ▸ hsmem)
          obtain ⟨os, hos, hcs⟩ := Option.map_eq_some_iff.1 hbs.symm
          obtain ⟨hok, hov⟩ := Prod.mk.inj hcs
          rw [hos] at hskey hsversion
          refine ⟨cs, rfl, ?_⟩
          rw [← hok, ← hov]
          exact hserves r hr s hsmem hropt (hsoft s hs) hname _ _ hskey hsversion
            (picked_spec hn hp hos).2.1
      · push Not at hsame
        rw [hown hsame]
        exact ⟨c, hc, hown'⟩
    refine ⟨hbound, fun r hr hropt c hc => ?_⟩
    obtain ⟨c', hget, haccepts⟩ := hbound r hr hropt
    rw [PluginContext.require_name.1 hc] at hget
    cases hget
    exact haccepts

end

section
open Plain

theorem PluginManifest.kept_of_declared {c : PluginCandidate} {l : List CapabilityRegistration}
    (h : (declaredOptions c).toOption.map (fun os => os.map fun o => (o.key, o.version)) =
      some (l.map fun r => (r.key, r.version))) : c.manifest.Kept l := by
  obtain ⟨os, hos, hl⟩ := ok_of_map (declaredOptions c) _ _ h
  intro key version
  have hmem : (∃ r ∈ l, r.key = key ∧ r.version = version) ↔
      ∃ o ∈ os, o.key = key ∧ o.version = version := by
    have hiff : (key, version) ∈ l.map (fun r => (r.key, r.version)) ↔
        (key, version) ∈ os.map fun o => (o.key, o.version) := by rw [hl]
    simpa only [List.mem_map, Prod.mk.injEq] using hiff
  rw [hmem]
  exact mem_declaredOptions hos

/-- the instance of a candidate that is mounted under its own entry id -/
def mountedInstance (c : PluginCandidate) : PluginInstance where
  instanceId := c.entryId
  entryId := c.entryId
  manifest := c.manifest
  plugin := { manifest := c.manifest, implementation := c.entryId }
  scopeId := c.entryId
  config := Dict.empty
  resolved := Dict.empty
  entryRevision := 1
  state := .active

/-- a harness in which some candidates are mounted and registered what they declare -/
def hosting (l : List PluginCandidate) : Harness where
  plugins :=
    { instances := Dict.ofList (l.map fun c => (c.entryId, mountedInstance c))
      byEntry := Dict.ofList (l.map fun c => (c.entryId, [c.entryId])) }
  capabilities := (l.flatMap fun c => ((declaredOptions c).toOption.getD []).map fun o =>
    { registrationId := c.entryId ++ o.key.str ++ o.version.text, key := o.key,
      version := o.version, providerId := c.entryId, providerName := c.manifest.name,
      scopeId := c.entryId }).foldl Owned.add Owned.empty

def Hosted (l : List PluginCandidate) : Prop :=
  ∀ c ∈ l, c.active = false ∧
    (hosting l).plugins.instance? c.entryId = some (mountedInstance c) ∧
    (declaredOptions c).toOption.map (fun os => os.map fun o => (o.key, o.version)) =
      some ((CapabilityRegistry.ofProvider (hosting l).capabilities c.entryId).map
        fun r => (r.key, r.version))

instance (l : List PluginCandidate) : Decidable (Hosted l) := by
  unfold Hosted
  infer_instance

theorem Hosted.mounted {l : List PluginCandidate} (hl : Hosted l) (pl : PluginPlan) :
    (hosting l).ProvidersMounted l pl where
  active c hc hactive := by
    rw [(hl c hc).1] at hactive
    cases hactive
  mounted r _ p _ c hc hentry := by
    subst hentry
    exact ⟨mountedInstance c, (hl c hc).2.1, PluginManifest.kept_of_declared (hl c hc).2.2⟩

/-- `c` requires any generation of `db`, and has the first one optional as well -/
def narrowed : List PluginCandidate :=
  [plainCandidate "c" [] [("db", ">=1")] [("db", ">=1,<2")],
    plainCandidate "p" [("db", "1.2.0")] [] []]

theorem bindings_accepted_iff_narrowed : ∃ plan pl,
    resolve narrowed Dict.empty none = .ok plan ∧ plan.planFor "c" = some pl ∧
    pl.requirements.map (fun r => (r.requirement.name, r.requirement.optional)) =
      [("db", false), ("db", true)] ∧
    (⟨"plugin-c", "c", (hosting narrowed).resolutionsFor plan "c"⟩ : PluginContext).Served pl := by
  let db : CapabilityKey := ⟨"db", "1", CapabilityKey.named_db, CapabilityKey.generation_one⟩
  obtain ⟨plan, hplan, hf⟩ := ok_of_map (resolve narrowed Dict.empty none)
    (fun plan => (plan.activationOrder, (plan.planFor "c").map fun pl =>
      (pl.requirements.map (fun r => (r.requirement.name, r.requirement.optional)),
        pl.requirements.all fun r => r.providerKey = some db.str ∧ r.providerVersion = some "1.2.0" ∧
          r.requirement.accepts db ⟨"1.2.0"⟩)))
    (["p", "c"], some ([("db", false), ("db", true)], true)) (by decide +kernel)
  obtain ⟨hord, hreq⟩ := Prod.mk.inj hf
  obtain ⟨pl, hpl, hreqs⟩ := Option.map_eq_some_iff.1 hreq
  obtain ⟨hnames, hall⟩ := Prod.mk.inj hreqs
  have hhosted : Hosted narrowed := by decide +kernel
  refine ⟨plan, pl, hplan, hpl, hnames, (bindings_accepted_iff hplan (by rw [hord]; decide) hpl
    (hhosted.mounted pl) rfl).2 fun r hr s hs _ _ _ key version hkey hversion hname => ?_⟩
  have hone : ∀ r ∈ pl.requirements, r.requirement.name = "db" := by
    intro r hr
    have hin := List.mem_map_of_mem (f := fun r : RequirementResolution =>
      (r.requirement.name, r.requirement.optional)) hr
    rw [hnames] at hin
    simp only [List.mem_cons, Prod.mk.injEq, List.not_mem_nil, or_false] at hin
    exact hin.elim And.left And.left
  have hdb : ∀ r ∈ pl.requirements, r.providerKey = some db.str ∧
      r.providerVersion = some "1.2.0" ∧ r.requirement.accepts db ⟨"1.2.0"⟩ = true :=
    fun r hr => of_decide_eq_true (List.all_eq_true.1 hall r hr)
  obtain ⟨hskey, hsversion, -⟩ := hdb s hs
  obtain rfl : version = ⟨"1.2.0"⟩ :=
    congrArg Version.mk (Option.some.inj (hversion.symm.trans hsversion))
  obtain rfl : key = db := CapabilityKey.str_injective (hname.trans (hone s hs))
    (Option.some.inj (hkey.symm.trans hskey))
  exact (hdb r hr).2.2

/-- `c` needs the first generation of `db`, and takes the second where there is one -/
def bothGenerations : List PluginCandidate :=
  [plainCandidate "c" [] [("db", ">=1,<2")] [("db", ">=2,<3")],
    plainCandidate "p1" [("db", "1.2.0")] [] [], plainCandidate "p2" [("db", "2.0.0")] [] []]

/-- Both requirements are satisfied, and what `c` requires is the provider of the second. -/
theorem bound_outside_range : ∃ plan pl, resolve bothGenerations Dict.empty none = .ok plan ∧
    "c" ∈ plan.activationOrder ∧ plan.planFor "c" = some pl ∧
    (hosting bothGenerations).ProvidersMounted bothGenerations pl ∧
    ¬ (⟨"plugin-c", "c", (hosting bothGenerations).resolutionsFor plan "c"⟩ : PluginContext).Served
      pl := by
  obtain ⟨plan, hplan, hf⟩ := ok_of_map (resolve bothGenerations Dict.empty none)
    (fun plan => (plan.activationOrder, (plan.planFor "c").map fun pl =>
      pl.requirements.any fun r => !r.requirement.optional &&
        (((hosting bothGenerations).resolutionsFor plan "c").get? r.requirement.name).any
          fun c => !r.requirement.accepts c.key c.version))
    (["p1", "p2", "c"], some true) (by decide +kernel)
  obtain ⟨hord, hreq⟩ := Prod.mk.inj hf
  obtain ⟨pl, hpl, hany⟩ := Option.map_eq_some_iff.1 hreq
  have hhosted : Hosted bothGenerations := by decide +kernel
  refine ⟨plan, pl, hplan, by rw [hord]; decide, hpl, hhosted.mounted pl, fun hserved => ?_⟩
  obtain ⟨r, hr, hb⟩ := List.any_eq_true.1 hany
  rw [Bool.and_eq_true, Bool.not_eq_true'] at hb
  obtain ⟨c, hget, haccepts⟩ := hserved.bound r hr hb.1
  have hget' : ((hosting bothGenerations).resolutionsFor plan "c").get? r.requirement.name =
    some c := hget
  rw [hget', Option.any_some, haccepts] at hb
  exact absurd hb.2 (by decide)

end

end Chassis
