import Chassis.Capabilities.Plain
import Chassis.Harness.System

/-!
# What a provider preference applies to

`prefer_provider` keeps preferences for entries, for scopes and for everyone in one mapping, under
keys that are put together from the names.

* `Target`            what one preference was declared for;
* `declaredFor`       the preference that was declared last for exactly one target;
* `applicable`        the most specific declaration that concerns a requirement;
* `preferences_apart_iff`   **when no preference reaches another target.**
-/

set_option linter.unusedSectionVars false

namespace Chassis
open Py

/-- what a preference is declared for -/
inductive Target
  | consumer (entryId : String)
  | scope (path : String)
  | everywhere
  deriving DecidableEq

def Target.key (capability : String) : Target → String
  | .consumer entryId => entryId ++ ":" ++ capability
  | .scope path => "scope:" ++ path ++ ":" ++ capability
  | .everywhere => capability

/-- one call of `prefer_provider` -/
structure Preference where
  target : Target
  capability : String
  provider : String
  deriving DecidableEq

def Preference.key (p : Preference) : String := p.target.key p.capability

/-- the provider that was declared last for exactly this target -/
def declaredFor (calls : List Preference) (target : Target) (capability : String) :
    Option String :=
  (calls.reverse.find? fun p => p.target = target ∧ p.capability = capability).map
    Preference.provider

def applicable (calls : List Preference) (consumer capability scope : String) : Option String :=
  (declaredFor calls (.consumer consumer) capability).or
    ((declaredFor calls (.scope scope) capability).or (declaredFor calls .everywhere capability))

namespace Harness
variable [Packaging] [Platform] (h : Harness)

/-- the target that the arguments of `prefer_provider` name -/
def preferenceTarget (consumer scope : Option String) : Except Err Target :=
  match consumer, scope with
  | some c, some _ => .error (ConfigurationError
      "a provider preference cannot be scoped to a consumer and a scope at once"
      [("consumer", c)])
  | some c, none => .ok (.consumer c)
  | none, some s => (h.scopePath (some s)).map .scope
  | none, none => .ok .everywhere

def declare (p : Preference) : Harness :=
  { h with providerPreference := h.providerPreference.set p.key p.provider, dirty := true }

theorem preferProvider_eq (capability provider : String) (consumer scope : Option String) :
    h.preferProvider capability provider consumer scope =
      (h.preferenceTarget consumer scope).map fun t => h.declare ⟨t, capability, provider⟩ := by
  unfold preferProvider preferenceTarget
  cases consumer with
  | some c => cases scope <;> rfl
  | none =>
    cases scope with
    | none => rfl
    | some s =>
      show (h.scopePath (some s) >>= fun path => pure (h.declare ⟨.scope path, capability, provider⟩))
        = ((h.scopePath (some s)).map Target.scope).map _
      cases h.scopePath (some s) <;> rfl

/-- calls of `prefer_provider` that were accepted, one after the other -/
inductive Prefers : Harness → List Preference → Harness → Prop
  | done {h : Harness} : Prefers h [] h
  | call {h h' h'' : Harness} {capability provider : String} {consumer scope : Option String}
      {target : Target} {calls : List Preference} :
      h.preferProvider capability provider consumer scope = .ok h' →
      h.preferenceTarget consumer scope = .ok target → Prefers h' calls h'' →
      Prefers h (⟨target, capability, provider⟩ :: calls) h''

/-- a path that a preference may be declared for -/
def KnowsScope (path : String) : Prop := h.scopePath (some path) = .ok path

/-- a target over the entries in use and the declared scopes -/
def Names (entries : String → Prop) : Target → Prop
  | .consumer entryId => entries entryId
  | .scope path => h.KnowsScope path
  | .everywhere => True

/-- the preference found for every requirement is the most specific one declared for it -/
def PreferencesApart (entries capabilities : String → Prop) : Prop :=
  ∀ calls h', Prefers h calls h' →
    (∀ p ∈ calls, h.Names entries p.target ∧ capabilities p.capability) →
    ∀ consumer capability scope, entries consumer → capabilities capability → h.KnowsScope scope →
      preference h'.effectivePreferences consumer capability scope =
        applicable calls consumer capability scope

/-- two targets over these names never share a key -/
def Distinguishable (entries capabilities : String → Prop) : Prop :=
  ∀ t t' c c', h.Names entries t → h.Names entries t' → capabilities c → capabilities c' →
    t.key c = t'.key c' → t = t' ∧ c = c'

end Harness

/-! ## what a key was set to last -/

theorem get?_declared (calls : List Preference) (d : Dict String String) (key : String) :
    (calls.foldl (fun d p => d.set p.key p.provider) d).get? key =
      ((calls.reverse.find? fun p => p.key = key).map Preference.provider).or (d.get? key) := by
  induction calls generalizing d with
  | nil => rfl
  | cons p calls ih =>
    rw [List.foldl_cons, ih, List.reverse_cons, List.find?_append]
    cases calls.reverse.find? fun p => decide (p.key = key) with
    | some q => rfl
    | none =>
      by_cases hk : p.key = key
      · subst hk
        simp
      · simp [hk, Dict.get?_set_ne _ _ (Ne.symm hk)]

section
variable [Packaging] [Platform] {h : Harness} {entries capabilities : String → Prop}

theorem Harness.Prefers.preferences {h' : Harness} {calls : List Preference}
    (hp : h.Prefers calls h') : h'.configPreferences = h.configPreferences ∧
      h'.providerPreference = calls.foldl (fun d p => d.set p.key p.provider)
        h.providerPreference := by
  induction hp with
  | done => exact ⟨rfl, rfl⟩
  | call hcall htarget _ ih =>
    rw [Harness.preferProvider_eq, htarget] at hcall
    cases hcall
    exact ih

theorem Harness.preferTarget {target : Target} (ht : h.Names entries target)
    (capability provider : String) : ∃ consumer scope,
      h.preferenceTarget consumer scope = .ok target ∧
      h.preferProvider capability provider consumer scope =
        .ok (h.declare ⟨target, capability, provider⟩) := by
  have hcall : ∀ consumer scope, h.preferenceTarget consumer scope = .ok target →
      h.preferProvider capability provider consumer scope =
        .ok (h.declare ⟨target, capability, provider⟩) := by
    intro consumer scope htarget
    rw [Harness.preferProvider_eq, htarget]
    rfl
  cases target with
  | consumer e => exact ⟨some e, none, rfl, hcall _ _ rfl⟩
  | everywhere => exact ⟨none, none, rfl, hcall _ _ rfl⟩
  | scope path =>
    have htarget : h.preferenceTarget none (some path) = .ok (.scope path) := by
      show (h.scopePath (some path)).map Target.scope = _
      rw [show h.scopePath (some path) = .ok path from ht]
      rfl
    exact ⟨none, some path, htarget, hcall _ _ htarget⟩

theorem Harness.Prefers.two {p q : Preference} (hp : h.Names entries p.target)
    (hq : h.Names entries q.target) : ∃ h', h.Prefers [p, q] h' := by
  obtain ⟨c, s, htarget, hcall⟩ := Harness.preferTarget hp p.capability p.provider
  have hq' : (h.declare p).Names entries q.target := by
    cases hqt : q.target <;> rw [hqt] at hq <;> exact hq
  obtain ⟨c', s', htarget', hcall'⟩ := Harness.preferTarget hq' q.capability q.provider
  exact ⟨_, .call hcall htarget (.call hcall' htarget' .done)⟩

theorem Harness.Prefers.found {h' : Harness} {calls : List Preference} (hp : h.Prefers calls h')
    (hconfig : h.configPreferences = Dict.empty) (hnone : h.providerPreference = Dict.empty)
    (key : String) : h'.effectivePreferences.get? key =
      (calls.reverse.find? fun p => p.key = key).map Preference.provider := by
  obtain ⟨hc, hpref⟩ := hp.preferences
  unfold Harness.effectivePreferences
  rw [Dict.get?_update, hc, hconfig, hpref, hnone, get?_declared, Dict.get?_empty, Option.or_none,
    Option.or_none]

theorem Harness.Distinguishable.found (hd : h.Distinguishable entries capabilities)
    {calls : List Preference}
    (hnamed : ∀ p ∈ calls, h.Names entries p.target ∧ capabilities p.capability) {target : Target}
    {capability : String} (ht : h.Names entries target) (hc : capabilities capability) :
    (calls.reverse.find? fun p => p.key = target.key capability).map Preference.provider =
      declaredFor calls target capability := by
  have hcongr : calls.reverse.find? (fun p => decide (p.key = target.key capability)) =
      calls.reverse.find? fun p => decide (p.target = target ∧ p.capability = capability) := by
    rw [← List.head?_filter, ← List.head?_filter]
    refine congrArg List.head? (List.filter_congr fun p hp => ?_)
    obtain ⟨hpt, hpc⟩ := hnamed p (List.mem_reverse.1 hp)
    rw [decide_eq_decide]
    constructor
    · exact fun hk => hd _ _ _ _ hpt ht hpc hc hk
    · rintro ⟨rfl, rfl⟩
      rfl
  unfold declaredFor
  rw [hcongr]

theorem Harness.Distinguishable.apart (hd : h.Distinguishable entries capabilities)
    (hconfig : h.configPreferences = Dict.empty) (hnone : h.providerPreference = Dict.empty) :
    h.PreferencesApart entries capabilities := by
  intro calls h' hp hnamed consumer capability scope hconsumer hcapability hscope
  have hfind : ∀ target, h.Names entries target → h'.effectivePreferences.get?
      (target.key capability) = declaredFor calls target capability := by
    intro target ht
    rw [hp.found hconfig hnone]
    exact hd.found hnamed ht hcapability
  have hconsumer' := hfind (.consumer consumer) hconsumer
  have hscope' := hfind (.scope scope) hscope
  have heveryone := hfind .everywhere trivial
  unfold Target.key at hconsumer' hscope' heveryone
  unfold preference applicable
  rw [hconsumer', hscope', heveryone]
  cases declaredFor calls (.consumer consumer) capability <;>
    cases declaredFor calls (.scope scope) capability <;> rfl

/-! ## one key for two targets -/

theorem found_second {p q : Preference} (hk : p.key = q.key) {key : String} (hkey : p.key = key) :
    ([p, q].reverse.find? fun r => r.key = key).map Preference.provider = some q.provider := by
  simp [← hkey, hk]

theorem declaredFor_first {p q : Preference}
    (hne : ¬ (q.target = p.target ∧ q.capability = p.capability)) :
    declaredFor [p, q] p.target p.capability = some p.provider := by
  simp [declaredFor, hne]

/-- two declarations under one key cannot both be found, so a target keeps its key to itself if
its declaration is the one a requirement would find -/
theorem Harness.PreferencesApart.keeps (ha : h.PreferencesApart entries capabilities)
    {p q : Preference} (hp : h.Names entries p.target) (hq : h.Names entries q.target)
    (hpc : capabilities p.capability) (hqc : capabilities q.capability)
    {consumer scope : String} (hconsumer : entries consumer) (hscope : h.KnowsScope scope)
    (hfound : ∀ h', h.Prefers [p, q] h' →
      preference h'.effectivePreferences consumer p.capability scope = some q.provider)
    (hdeclared : applicable [p, q] consumer p.capability scope = some p.provider) :
    p.provider = q.provider := by
  obtain ⟨h', hrun⟩ := Harness.Prefers.two hp hq
  have hsame := ha _ h' hrun
    (List.forall_mem_cons.2 ⟨⟨hp, hpc⟩, List.forall_mem_singleton.2 ⟨hq, hqc⟩⟩) consumer
    p.capability scope hconsumer hpc hscope
  rw [hfound h' hrun, hdeclared] at hsame
  exact (Option.some.inj hsame).symm

section
variable (ha : h.PreferencesApart entries capabilities)
  (hconfig : h.configPreferences = Dict.empty) (hnone : h.providerPreference = Dict.empty)
include ha hconfig hnone

theorem Harness.PreferencesApart.consumer {path : String} (hpath : h.KnowsScope path) {e c d : String}
    {t : Target} (he : entries e) (ht : h.Names entries t) (hc : capabilities c)
    (hc' : capabilities d) (hk : (Target.consumer e).key c = t.key d) :
    .consumer e = t ∧ c = d := by
  by_contra hne
  have hne' : ¬ (t = .consumer e ∧ d = c) := fun ⟨h₁, h₂⟩ => hne ⟨h₁.symm, h₂.symm⟩
  have hsame := ha.keeps (p := ⟨.consumer e, c, "0"⟩) (q := ⟨t, d, "1"⟩) he ht hc hc' he hpath
    (fun h' hrun => ?_) ?_
  · exact absurd (show "0" = "1" from hsame) (by decide)
  · have hfound : h'.effectivePreferences.get? (e ++ ":" ++ c) = some "1" := by
      rw [hrun.found hconfig hnone]
      exact found_second (p := ⟨.consumer e, c, "0"⟩) (q := ⟨t, d, "1"⟩) hk rfl
    unfold preference
    rw [hfound]
  · unfold applicable
    rw [show declaredFor _ (.consumer e) c = some "0" from
      declaredFor_first (p := ⟨.consumer e, c, "0"⟩) (q := ⟨t, d, "1"⟩) hne']
    rfl

theorem Harness.PreferencesApart.scope {e : String} (he : entries e) {path c c' : String}
    {t : Target} (hpath : h.KnowsScope path) (ht : h.Names entries t)
    (hother : ∀ e', t ≠ .consumer e') (hc : capabilities c) (hc' : capabilities c')
    (hk : (Target.scope path).key c = t.key c') : .scope path = t ∧ c = c' := by
  by_contra hne
  have hne' : ¬ (t = .scope path ∧ c' = c) := fun ⟨h₁, h₂⟩ => hne ⟨h₁.symm, h₂.symm⟩
  have hsame := ha.keeps (p := ⟨.scope path, c, "0"⟩) (q := ⟨t, c', "1"⟩) hpath ht hc hc' he hpath
    (fun h' hrun => ?_) ?_
  · exact absurd (show "0" = "1" from hsame) (by decide)
  · have hfind : ∀ key, h'.effectivePreferences.get? key =
        ([(⟨.scope path, c, "0"⟩ : Preference), ⟨t, c', "1"⟩].reverse.find?
          fun r => r.key = key).map Preference.provider := hrun.found hconfig hnone
    have hsecond := fun key (hkey : Preference.key ⟨.scope path, c, "0"⟩ = key) =>
      found_second (p := ⟨.scope path, c, "0"⟩) (q := ⟨t, c', "1"⟩) hk hkey
    have hscope : h'.effectivePreferences.get? ("scope:" ++ path ++ ":" ++ c) = some "1" := by
      rw [hfind]
      exact hsecond _ rfl
    unfold preference
    rw [hscope]
    cases hconsumer : h'.effectivePreferences.get? (e ++ ":" ++ c) with
    | none => rfl
    | some found =>
      -- whatever is found under the consumer's key was declared under the same one
      rw [hfind] at hconsumer
      by_cases hkey : (Target.scope path).key c = e ++ ":" ++ c
      · rw [hsecond _ hkey] at hconsumer
        exact hconsumer.symm
      · have hkey' : t.key c' ≠ e ++ ":" ++ c := hk ▸ hkey
        simp [Preference.key, hkey, hkey'] at hconsumer
  · have hnoone : declaredFor [(⟨.scope path, c, "0"⟩ : Preference), ⟨t, c', "1"⟩] (.consumer e) c =
        none := by
      simp [declaredFor, hother]
    unfold applicable
    rw [hnoone, show declaredFor _ (.scope path) c = some "0" from
      declaredFor_first (p := ⟨.scope path, c, "0"⟩) (q := ⟨t, c', "1"⟩) hne']
    rfl

theorem Harness.PreferencesApart.distinguishable {e path : String} (he : entries e)
    (hpath : h.KnowsScope path) : h.Distinguishable entries capabilities := by
  intro t t' c c' ht ht' hc hc' hk
  have hconsumer : ∀ e' u, entries e' → h.Names entries u → ∀ c c', capabilities c →
      capabilities c' → (Target.consumer e').key c = u.key c' → .consumer e' = u ∧ c = c' :=
    fun e' u he' hu c c' hc hc' hk => ha.consumer hconfig hnone hpath he' hu hc hc' hk
  have hscope : ∀ s u, h.KnowsScope s → h.Names entries u → (∀ e', u ≠ .consumer e') → ∀ c c',
      capabilities c → capabilities c' → (Target.scope s).key c = u.key c' → .scope s = u ∧ c = c' :=
    fun s u hs hu hno c c' hc hc' hk => ha.scope hconfig hnone he hs hu hno hc hc' hk
  cases t with
  | consumer e' => exact hconsumer e' t' ht ht' c c' hc hc' hk
  | scope s =>
    cases t' with
    | consumer e' =>
      obtain ⟨htarget, hcap⟩ := hconsumer e' _ ht' ht c' c hc' hc hk.symm
      exact ⟨htarget.symm, hcap.symm⟩
    | scope s' => exact hscope s _ ht ht' (fun _ => Target.noConfusion) c c' hc hc' hk
    | everywhere => exact hscope s _ ht ht' (fun _ => Target.noConfusion) c c' hc hc' hk
  | everywhere =>
    cases t' with
    | consumer e' =>
      obtain ⟨htarget, hcap⟩ := hconsumer e' _ ht' ht c' c hc' hc hk.symm
      exact ⟨htarget.symm, hcap.symm⟩
    | scope s' =>
      obtain ⟨htarget, hcap⟩ := hscope s' _ ht' ht (fun _ => Target.noConfusion) c' c hc' hc hk.symm
      exact ⟨htarget.symm, hcap.symm⟩
    | everywhere => exact ⟨rfl, hk⟩

end

/-- **Preferences stay apart exactly where no two targets share a key**, over the entries and the
capabilities in use and the declared scopes. -/
theorem preferences_apart_iff (hconfig : h.configPreferences = Dict.empty)
    (hnone : h.providerPreference = Dict.empty) (he : ∃ e, entries e)
    (hpath : ∃ path, h.KnowsScope path) :
    h.PreferencesApart entries capabilities ↔ h.Distinguishable entries capabilities := by
  obtain ⟨e, he⟩ := he
  obtain ⟨path, hpath⟩ := hpath
  constructor
  · exact fun ha => ha.distinguishable hconfig hnone he hpath
  · exact fun hd => hd.apart hconfig hnone

/-! ## names without colons -/

theorem colon_injective {x y c d : List Char} (hc : ':' ∉ c) (hd : ':' ∉ d)
    (h : x ++ ':' :: c = y ++ ':' :: d) : x = y ∧ c = d := by
  rcases List.append_eq_append_iff.1 h with ⟨as, rfl, hrest⟩ | ⟨as, rfl, hrest⟩
  · cases as with
    | nil => exact ⟨(List.append_nil _).symm, (List.cons.inj hrest).2⟩
    | cons a as =>
      refine absurd ?_ hc
      rw [(List.cons.inj hrest).2]
      exact List.mem_append_right _ List.mem_cons_self
  · cases as with
    | nil => exact ⟨List.append_nil _, (List.cons.inj hrest).2.symm⟩
    | cons a as =>
      refine absurd ?_ hd
      rw [(List.cons.inj hrest).2]
      exact List.mem_append_right _ List.mem_cons_self

theorem keyed_injective {x y c d : String} (hc : ':' ∉ c.toList) (hd : ':' ∉ d.toList)
    (h : x ++ ":" ++ c = y ++ ":" ++ d) : x = y ∧ c = d := by
  have hlist := congrArg String.toList h
  simp only [String.toList_append, List.append_assoc] at hlist
  obtain ⟨hx, hcd⟩ := colon_injective hc hd hlist
  exact ⟨String.toList_inj.1 hx, String.toList_inj.1 hcd⟩

theorem keyed_colon (x c : String) : ':' ∈ (x ++ ":" ++ c).toList := by
  simp [String.toList_append]

/-- Where no capability contains a colon, only an entry that is named like a scope shares a key. -/
theorem distinguishable_plain (hplain : ∀ c, capabilities c → ':' ∉ c.toList) :
    h.Distinguishable entries capabilities ↔ ∀ e path c, entries e → h.KnowsScope path →
      capabilities c → e ≠ "scope:" ++ path := by
  constructor
  · intro hd e path c he hpath hc hname
    have hsame := (hd (.consumer e) (.scope path) c c he hpath hc hc (by rw [hname]; rfl)).1
    cases hsame
  · intro hno t t' c c' ht ht' hc hc' hk
    have hnot : ∀ x c d, capabilities d → x ++ ":" ++ c ≠ d := by
      intro x c d hd hx
      exact hplain d hd (hx ▸ keyed_colon x c)
    cases t with
    | consumer e =>
      cases t' with
      | consumer e' =>
        obtain ⟨rfl, rfl⟩ := keyed_injective (hplain c hc) (hplain c' hc') hk
        exact ⟨rfl, rfl⟩
      | scope path =>
        obtain ⟨hname, -⟩ := keyed_injective (hplain c hc) (hplain c' hc') hk
        exact absurd hname (hno e path c ht ht' hc)
      | everywhere => exact absurd hk (hnot e c c' hc')
    | scope path =>
      cases t' with
      | consumer e' =>
        obtain ⟨hname, -⟩ := keyed_injective (hplain c' hc') (hplain c hc) hk.symm
        exact absurd hname (hno e' path c ht' ht hc)
      | scope path' =>
        obtain ⟨hpath, rfl⟩ := keyed_injective (hplain c hc) (hplain c' hc') hk
        have hlist := congrArg String.toList hpath
        rw [String.toList_append, String.toList_append] at hlist
        rw [String.toList_inj.1 (List.append_cancel_left hlist)]
        exact ⟨rfl, rfl⟩
      | everywhere => exact absurd hk (hnot ("scope:" ++ path) c c' hc')
    | everywhere =>
      cases t' with
      | consumer e' => exact absurd hk.symm (hnot e' c' c hc)
      | scope path => exact absurd hk.symm (hnot ("scope:" ++ path) c' c hc)
      | everywhere => exact ⟨rfl, hk⟩

end

/-! ## a preference for everyone that is found for one entry -/

section
open Plain

def accepted (name : String) : Prop := name ≠ "" ∧ strip name = name

theorem knowsScope_root : ({} : Harness).KnowsScope rootScope := rfl

theorem preferences_apart_agent :
    ({} : Harness).PreferencesApart (· = "agent") (· = "database") ↔
      ({} : Harness).Distinguishable (· = "agent") (· = "database") :=
  preferences_apart_iff rfl rfl ⟨_, rfl⟩ ⟨_, knowsScope_root⟩

/-- the preference for every consumer of `agent:database` -/
def forEveryone : Preference := ⟨.everywhere, "agent:database", "postgres"⟩

/-- It is found for `database` by the entry `agent`, for which nothing was declared. -/
theorem everyone_taken_for_agent : ∃ h', ({} : Harness).Prefers [forEveryone] h' ∧
    preference h'.effectivePreferences "agent" "database" rootScope = some "postgres" ∧
    applicable [forEveryone] "agent" "database" rootScope = none ∧
    ¬ ({} : Harness).PreferencesApart accepted accepted := by
  have hrun : ({} : Harness).Prefers [forEveryone] (({} : Harness).declare forEveryone) :=
    .call (show ({} : Harness).preferProvider "agent:database" "postgres" none none = _ from rfl) rfl
      .done
  have hfound : preference (({} : Harness).declare forEveryone).effectivePreferences "agent"
      "database" rootScope = some "postgres" := by decide +kernel
  have hdeclared : applicable [forEveryone] "agent" "database" rootScope = none := by
    decide +kernel
  refine ⟨_, hrun, hfound, hdeclared, fun ha => ?_⟩
  have hname : ∀ name, accepted name ↔ name ≠ "" ∧ strip name = name := fun _ => Iff.rfl
  have hsame := ha _ _ hrun (List.forall_mem_singleton.2
    ⟨trivial, (hname _).2 (by decide +kernel)⟩) "agent" "database" rootScope
    ((hname _).2 (by decide +kernel)) ((hname _).2 (by decide +kernel)) knowsScope_root
  rw [hfound, hdeclared] at hsame
  cases hsame

end

end Chassis
