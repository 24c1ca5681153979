import Chassis.Plugins.Cycles
import Chassis.Plugins.Resolutions

/-!
# Who stands, told from the candidates

What becomes of a composition, in terms of its candidates, scopes and preferences alone.

* `Demand`             a requirement, with who has it and where; `Answers` who could meet it;
* `Demand.MetBy P`     who does, among those in `P`: the preferred one, or the only one to answer;
* `Lasts n`            who is left after `n` rounds, in each of which everybody leaves who has a
                       demand that nobody left meets;
* `Stands`             who is left after any number of rounds;
* `OnCycle`            who depends on itself, by what is declared;
* `NeverContested`, `CyclesApart`, `SoleDecided`   three conditions on that;
* `Question.choice_iff`, `lasts_iff`, `stands_iff`, `onCycle_iff`   **the resolver computes it.**
-/

set_option linter.unusedSectionVars false

namespace Chassis
open Py Relation

section
variable [Packaging]

/-! ## demands and offers -/

/-- what a candidate has to offer: what it registered or, not being active, what it declares -/
def PluginCandidate.offered (c : PluginCandidate) : List (CapabilityKey × Version) :=
  if c.active then c.registrations.map fun r => (r.key, r.version)
  else c.manifest.providedContracts.filterMap fun nv =>
    match CapabilityKey.fromVersion nv.1 nv.2, parseVersion nv.2 nv.1 with
    | .ok key, .ok version => some (key, version)
    | _, _ => none

/-- a requirement, with who has it, in which scope, and who may not meet it -/
structure Demand where
  consumer : String
  requirement : CapabilityRequirement
  path : String
  exclude : Option String

namespace Demand
variable (q : Demand)

/-- the offers of a candidate that would do -/
def accepted (d : PluginCandidate) : List (CapabilityKey × Version) :=
  d.offered.filter fun o => q.requirement.accepts o.1 o.2

/-- A candidate could meet a demand: it is not excluded, lives in the scope or above, is in every
view on the way, and has an offer that would do. -/
structure Answers (specs : List ScopeSpec) (d : PluginCandidate) : Prop where
  other : some d.entryId ≠ q.exclude
  lineage : OnLineage specs q.path d.scope
  exposed : ∀ s ∈ specs, OnLineage specs q.path s.path →
    ∀ view, s.capabilities = some view → q.requirement.name ∈ view
  accepted : q.accepted d ≠ []

/-- the preference that applies -/
def preferred (prefer : Dict String String) : Option String :=
  preference prefer q.consumer q.requirement.name q.path

variable (candidates : List PluginCandidate) (specs : List ScopeSpec) (prefer : Dict String String)
  (P : String → Prop)

/-- Who meets a demand among those in `P`: the preferred one, or the only one to answer, if it has
one offer that would do. -/
structure MetBy (d : PluginCandidate) : Prop where
  member : P d.entryId
  answers : q.Answers specs d
  decided : q.preferred prefer = some d.entryId ∨ (q.accepted d).length = 1 ∧
    ∀ d' ∈ candidates, P d'.entryId → q.Answers specs d' → d' = d

def Met : Prop := ∃ d ∈ candidates, q.MetBy candidates specs prefer P d

/-- Several offers of those in `P` would do, and none of those who made them is preferred. -/
structure Contested : Prop where
  several : ∃ d ∈ candidates, P d.entryId ∧ q.Answers specs d ∧ (2 ≤ (q.accepted d).length ∨
    ∃ d' ∈ candidates, d' ≠ d ∧ P d'.entryId ∧ q.Answers specs d')
  undecided : ∀ d ∈ candidates, P d.entryId → q.Answers specs d →
    q.preferred prefer ≠ some d.entryId

end Demand

def PluginCandidate.demand (c : PluginCandidate) (r : CapabilityRequirement) : Demand :=
  ⟨c.entryId, r, c.scope, some c.entryId⟩

def ScopeSpec.demand (spec : ScopeSpec) (r : CapabilityRequirement) : Demand :=
  ⟨spec.path, r, spec.path, none⟩

def PluginCandidate.Needs (c : PluginCandidate) (q : Demand) : Prop :=
  ∃ hard, c.manifest.requiredCapabilities = .ok hard ∧ ∃ r ∈ hard, c.demand r = q

def PluginCandidate.Wants (c : PluginCandidate) (q : Demand) : Prop :=
  ∃ soft, c.manifest.optionalCapabilities = .ok soft ∧ ∃ r ∈ soft, c.demand r = q

section
variable (candidates : List PluginCandidate) (specs : List ScopeSpec) (prefer : Dict String String)

/-- whatever is required, by a candidate or by a scope below the root -/
def Demanded (q : Demand) : Prop :=
  (∃ c ∈ candidates, c.Needs q ∨ c.Wants q) ∨
    ∃ spec ∈ specs, OnLineage specs spec.path rootScope ∧ ∃ r ∈ spec.requirements, spec.demand r = q

/-! ## rounds -/

/-- who is left after so many rounds -/
def Lasts : Nat → String → Prop
  | 0, e => ∃ c ∈ candidates, c.entryId = e
  | n + 1, e => Lasts n e ∧ ∀ c ∈ candidates, c.entryId = e →
      ∀ q, c.Needs q → q.Met candidates specs prefer (Lasts n)

/-- who is left for good -/
def Stands (e : String) : Prop := ∀ n, Lasts candidates specs prefer n e

/-- a hard requirement of `c` accepts what `p` declares, and is in a scope that sees it -/
def Depends (p c : String) : Prop :=
  p ≠ c ∧ ∃ consumer ∈ candidates, consumer.entryId = c ∧
    ∃ provider ∈ candidates, provider.entryId = p ∧
    ∃ hard, consumer.manifest.requiredCapabilities = .ok hard ∧ ∃ r ∈ hard,
    ∃ key version, provider.manifest.Contract key version ∧ r.accepts key version = true ∧
      OnLineage specs consumer.scope provider.scope ∧
      ∀ s ∈ specs, OnLineage specs consumer.scope s.path →
        ∀ view, s.capabilities = some view → r.name ∈ view

/-- who depends on itself -/
def OnCycle (e : String) : Prop := TransGen (Depends candidates specs) e e

/-! ## three conditions -/

/-- Outside the cycles, whose hard requirements are all met in the end had none of them contested
in any round. -/
def NeverContested : Prop :=
  ∀ c ∈ candidates, ¬ OnCycle candidates specs c.entryId →
    (∀ q, c.Needs q → q.Met candidates specs prefer (Stands candidates specs prefer)) →
    ∀ q, c.Needs q → ∀ n, ¬ q.Contested candidates specs prefer (Lasts candidates specs prefer n)

/-- Outside the cycles, who is left for good has no hard requirement that a member of a cycle
meets. -/
def CyclesApart : Prop :=
  ∀ c ∈ candidates, Stands candidates specs prefer c.entryId →
    ¬ OnCycle candidates specs c.entryId → ∀ q, c.Needs q → ∀ d ∈ candidates,
      q.MetBy candidates specs prefer (Stands candidates specs prefer) d →
      ¬ OnCycle candidates specs d.entryId

/-- Who is the only one left to answer has one offer that would do, or is preferred. -/
def SoleDecided : Prop :=
  ∀ q, Demanded candidates specs q → ∀ d ∈ candidates, Stands candidates specs prefer d.entryId →
    q.Answers specs d → (∀ d' ∈ candidates, Stands candidates specs prefer d'.entryId →
      q.Answers specs d' → d' = d) →
    (q.accepted d).length = 1 ∨ q.preferred prefer = some d.entryId

end

/-- what somebody answers is met, unless it is contested -/
theorem Demand.contested_iff {q : Demand} {candidates : List PluginCandidate}
    {specs : List ScopeSpec} {prefer : Dict String String} {P : String → Prop} :
    q.Contested candidates specs prefer P ↔ (∃ d ∈ candidates, P d.entryId ∧ q.Answers specs d) ∧
      ¬ q.Met candidates specs prefer P := by
  constructor
  · rintro ⟨⟨d, hd, hP, ha, hmany⟩, hundecided⟩
    refine ⟨⟨d, hd, hP, ha⟩, ?_⟩
    rintro ⟨m, hm, hmP, hma, hprefer | ⟨hone, honly⟩⟩
    · exact hundecided m hm hmP hma hprefer
    · obtain rfl := honly d hd hP ha
      rcases hmany with hmany | ⟨d', hd', hne, hP', ha'⟩
      · omega
      · exact hne (honly d' hd' hP' ha')
  · rintro ⟨⟨d, hd, hP, ha⟩, hunmet⟩
    refine ⟨⟨d, hd, hP, ha, ?_⟩, fun m hm hmP hma hprefer =>
      hunmet ⟨m, hm, hmP, hma, Or.inl hprefer⟩⟩
    by_contra hfew
    push Not at hfew
    obtain ⟨hfew, honly⟩ := hfew
    have hpos := List.length_pos_iff.2 ha.accepted
    refine hunmet ⟨d, hd, hP, ha, Or.inr ⟨by omega, fun d' hd' hP' ha' => ?_⟩⟩
    by_contra hne
    exact honly d' hd' hne hP' ha'

/-- Who has its hard requirements met in the end is left for good, unless one of them was
contested before. -/
theorem stands_iff_uncontested {candidates : List PluginCandidate} {specs : List ScopeSpec}
    {prefer : Dict String String} (hinj : ∀ c ∈ candidates, ∀ c' ∈ candidates,
      c.entryId = c'.entryId → c = c') {c : PluginCandidate} (hc : c ∈ candidates)
    (hmet : ∀ q, c.Needs q → q.Met candidates specs prefer (Stands candidates specs prefer)) :
    Stands candidates specs prefer c.entryId ↔ ∀ q, c.Needs q → ∀ n,
      ¬ q.Contested candidates specs prefer (Lasts candidates specs prefer n) := by
  constructor
  · intro hstands q hq n hcontested
    exact (Demand.contested_iff.1 hcontested).2 ((hstands (n + 1)).2 c hc rfl q hq)
  · intro huncontested n
    induction n with
    | zero => exact ⟨c, hc, rfl⟩
    | succ n ih =>
      refine ⟨ih, fun c' hc' hid q hq => ?_⟩
      obtain rfl := hinj c' hc' c hc hid
      obtain ⟨d, hd, hby⟩ := hmet q hq
      by_contra hunmet
      exact huncontested q hq n
        (Demand.contested_iff.2 ⟨⟨d, hd, hby.member n, hby.answers⟩, hunmet⟩)

/-! ## the options of the resolver -/

theorem mapM_ok_filterMap {α β γ ε : Type} {f : α → Except ε β} {g : β → γ} {h : α → Option γ}
    (hfg : ∀ a b, f a = .ok b → h a = some (g b)) {l : List α} {r : List β}
    (hr : l.mapM f = .ok r) : r.map g = l.filterMap h := by
  have hall := mapM_ok.1 hr
  clear hr
  induction hall with
  | nil => rfl
  | cons hab _ ih => rw [List.map_cons, List.filterMap_cons, hfg _ _ hab, ih]

theorem options_offered {p : Prepared} (hp : p.Parsed) :
    p.options.map (fun o => (o.key, o.version)) = p.candidate.offered := by
  unfold Prepared.options PluginCandidate.offered
  split
  · rw [Prepared.registrationOptions, List.map_map]
    rfl
  · refine mapM_ok_filterMap (fun nv o ho => ?_) hp.declared
    obtain ⟨key, hkey, ho⟩ := bind_ok.1 ho
    obtain ⟨version, hversion, ho⟩ := bind_ok.1 ho
    cases ho
    rw [hkey, hversion]

theorem flatMap_of_unique {α β : Type} {l : List α} (hl : l.Nodup) {a : α} (ha : a ∈ l)
    {f : α → List β} (hf : ∀ b ∈ l, b ≠ a → f b = []) : l.flatMap f = f a := by
  induction l with
  | nil => cases ha
  | cons b l ih =>
    obtain ⟨hb, hl⟩ := List.nodup_cons.1 hl
    rw [List.flatMap_cons]
    by_cases hba : b = a
    · subst hba
      have hnil : l.flatMap f = [] := by
        rw [List.flatMap_eq_nil_iff]
        intro c hc
        exact hf c (List.mem_cons_of_mem _ hc) fun hcb => hb (hcb ▸ hc)
      rw [hnil, List.append_nil]
    · have ha' : a ∈ l := (List.mem_cons.1 ha).resolve_left (Ne.symm hba)
      rw [hf b List.mem_cons_self hba, List.nil_append]
      exact ih hl ha' fun c hc => hf c (List.mem_cons_of_mem _ hc)

section
variable {candidates : List PluginCandidate} {specs : List ScopeSpec} {index : ScopeIndex}
  {entries : List Prepared} {prefer : Dict String String}

theorem Composition.ids_nodup (h : Composition candidates specs index entries) :
    (ids entries).Nodup := h.sorted.imp ne_of_lt

theorem Composition.inj (h : Composition candidates specs index entries) :
    ∀ c ∈ candidates, ∀ c' ∈ candidates, c.entryId = c'.entryId → c = c' := by
  intro c hc c' hc' hid
  obtain ⟨p, hp, rfl⟩ := (h.mem c).1 hc
  obtain ⟨p', hp', rfl⟩ := (h.mem c').1 hc'
  rw [List.inj_on_of_nodup_map h.ids_nodup hp hp' hid]

theorem visibleOptions_of (h : Composition candidates specs index entries) {p : Prepared}
    (hp : p ∈ entries) (path : String) :
    (visibleOptions index entries path).filter (fun o => o.entryId = p.entryId) =
      if p.scope ∈ index.lineage path then
        p.options.filter fun o => index.exposes path o.key.name
      else [] := by
  have hn := h.ids_nodup
  have hother : ∀ p' ∈ entries, p' ≠ p →
      (p'.options.filter fun o => index.exposes path o.key.name).filter
        (fun o => o.entryId = p.entryId) = [] := by
    intro p' hp' hne
    rw [List.filter_eq_nil_iff]
    intro o ho
    rw [options_entryId (h.parsed p' hp') (List.mem_filter.1 ho).1, decide_eq_true_eq]
    exact fun hid => hne (List.inj_on_of_nodup_map hn hp' hp hid)
  have hsame : (p.options.filter fun o => index.exposes path o.key.name).filter
      (fun o => o.entryId = p.entryId) =
        p.options.filter fun o => index.exposes path o.key.name := by
    refine List.filter_eq_self.2 fun o ho => ?_
    exact decide_eq_true (options_entryId (h.parsed p hp) (List.mem_filter.1 ho).1)
  have hscope : ∀ ancestor, ((entries.filter fun p' => p'.scope = ancestor).flatMap fun p' =>
      (p'.options.filter fun o => index.exposes path o.key.name)).filter
        (fun o => o.entryId = p.entryId) =
      if p.scope = ancestor then p.options.filter fun o => index.exposes path o.key.name
      else [] := by
    intro ancestor
    rw [List.filter_flatMap]
    split
    · rename_i hanc
      rw [flatMap_of_unique ((List.Nodup.of_map _ hn).filter _)
        (List.mem_filter.2 ⟨hp, decide_eq_true hanc⟩)
        fun p' hp' hne => hother p' (List.mem_filter.1 hp').1 hne]
      exact hsame
    · rename_i hanc
      rw [List.flatMap_eq_nil_iff]
      intro p' hp'
      obtain ⟨hin, hscope⟩ := List.mem_filter.1 hp'
      refine hother p' hin fun heq => hanc ?_
      rw [← heq]
      exact of_decide_eq_true hscope
  unfold visibleOptions
  rw [List.filter_flatMap]
  simp only [hscope]
  split
  · rename_i hin
    rw [flatMap_of_unique (index.lineage_nodup path) hin fun a _ hne => if_neg (Ne.symm hne)]
    exact if_pos rfl
  · rename_i hout
    rw [List.flatMap_eq_nil_iff]
    intro a ha
    exact if_neg fun hsc : p.scope = a => hout (by rw [hsc]; exact ha)

/-! ## one question -/

def Question.demand (q : Question) : Demand := ⟨q.consumer, q.requirement, q.path, q.exclude⟩

namespace Question
variable {q : Question} {E : List String}

theorem rivals_perm : (q.rivals index entries E).Perm
    ((visibleOptions index entries q.path).filter fun o => o.key.name = q.requirement.name ∧
      o.entryId ∈ E ∧ some o.entryId ≠ q.exclude ∧ q.requirement.accepts o.key o.version) := by
  unfold rivals matchingOptions ScopeView.pool buildView
  simp only [sortedBy_filter, sortedBy_sortedBy, List.filter_filter]
  refine ((sortedBy_perm optionOrder _).filter _).trans (List.Perm.of_eq ?_)
  refine List.filter_congr fun o _ => ?_
  rw [Bool.eq_iff_iff]
  simp only [Bool.and_eq_true, decide_eq_true_eq]
  tauto

theorem exists_rival (h : Composition candidates specs index entries) (hpath : q.path ∈ index.paths)
    {d : PluginCandidate} (hd : d ∈ candidates) :
    (∃ o ∈ q.rivals index entries E, o.entryId = d.entryId) ↔
      d.entryId ∈ E ∧ q.demand.Answers specs d := by
  obtain rfl := h.specs
  constructor
  · rintro ⟨o, ho, hid⟩
    obtain ⟨hvisible, hname, hE, hother, haccepts⟩ := mem_rivals.1 ho
    obtain ⟨p, hp, hscope, ho, hexposes⟩ := mem_visibleOptions hvisible
    have hown : o.entryId = p.entryId := options_entryId (h.parsed p hp) ho
    obtain rfl := h.inj p.candidate ((h.mem _).2 ⟨p, hp, rfl⟩) d hd (hown.symm.trans hid)
    rw [hid] at hE hother
    rw [hname] at hexposes
    have hoffered : (o.key, o.version) ∈ p.candidate.offered := by
      rw [← options_offered (h.parsed p hp)]
      exact List.mem_map_of_mem ho
    exact ⟨hE, hother, (index.mem_lineage hpath).1 hscope, (index.exposes_iff hpath).1 hexposes,
      List.ne_nil_of_mem (List.mem_filter.2 ⟨hoffered, haccepts⟩)⟩
  · rintro ⟨hE, ha⟩
    obtain ⟨p, hp, rfl⟩ := (h.mem d).1 hd
    obtain ⟨⟨key, version⟩, hoffer⟩ := List.exists_mem_of_ne_nil _ ha.accepted
    obtain ⟨hoffered, haccepts⟩ := List.mem_filter.1 hoffer
    rw [← options_offered (h.parsed p hp)] at hoffered
    obtain ⟨o, ho, heq⟩ := List.mem_map.1 hoffered
    obtain ⟨rfl, rfl⟩ := Prod.mk.inj heq
    have hown : o.entryId = p.entryId := options_entryId (h.parsed p hp) ho
    have hname : o.key.name = q.requirement.name := CapabilityRequirement.accepts_name haccepts
    refine ⟨o, mem_rivals.2 ⟨?_, hname, ?_, ?_, haccepts⟩, hown⟩
    · unfold visibleOptions
      refine List.mem_flatMap.2 ⟨p.scope, (index.mem_lineage hpath).2 ha.lineage,
        List.mem_flatMap.2 ⟨p, List.mem_filter.2 ⟨hp, decide_eq_true rfl⟩,
          List.mem_filter.2 ⟨ho, ?_⟩⟩⟩
      rw [hname]
      exact (index.exposes_iff hpath).2 ha.exposed
    · rw [hown]
      exact hE
    · rw [hown]
      exact ha.other

/-- one who answers has as many options among the rivals as offers that would do -/
theorem length_rivals_of (h : Composition candidates specs index entries)
    (hpath : q.path ∈ index.paths) {d : PluginCandidate} (hd : d ∈ candidates)
    (hE : d.entryId ∈ E) (ha : q.demand.Answers specs d) :
    ((q.rivals index entries E).filter fun o => o.entryId = d.entryId).length =
      (q.demand.accepted d).length := by
  obtain rfl := h.specs
  obtain ⟨p, hp, rfl⟩ := (h.mem d).1 hd
  have haccepted : (p.options.filter fun o => q.requirement.accepts o.key o.version).length =
      (q.demand.accepted p.candidate).length := by
    unfold Demand.accepted
    rw [← options_offered (h.parsed p hp), List.filter_map, List.length_map]
    rfl
  rw [(rivals_perm.filter _).length_eq, List.filter_comm]
  have hscope : p.scope ∈ index.lineage q.path := (index.mem_lineage hpath).2 ha.lineage
  have hvisible := visibleOptions_of h hp q.path
  rw [if_pos hscope] at hvisible
  have hexposes := (index.exposes_iff hpath).2 ha.exposed
  rw [show p.candidate.entryId = p.entryId from rfl, hvisible, List.filter_filter, ← haccepted]
  refine congrArg List.length (List.filter_congr fun o ho => ?_)
  have hown : o.entryId = p.entryId := options_entryId (h.parsed p hp) ho
  rw [Bool.eq_iff_iff, Bool.and_eq_true, decide_eq_true_eq, hown]
  constructor
  · exact fun ho => ho.1.2.2.2
  · intro haccepts
    have hname : o.key.name = q.requirement.name := CapabilityRequirement.accepts_name haccepts
    exact ⟨⟨hname, hE, ha.other, haccepts⟩, by rw [hname]; exact hexposes⟩

theorem one_rival (h : Composition candidates specs index entries) (hpath : q.path ∈ index.paths)
    {d : PluginCandidate} (hd : d ∈ candidates) (hE : d.entryId ∈ E)
    (ha : q.demand.Answers specs d) : (q.rivals index entries E).length = 1 ↔
      (q.demand.accepted d).length = 1 ∧
        ∀ d' ∈ candidates, d'.entryId ∈ E → q.demand.Answers specs d' → d' = d := by
  have hcount := length_rivals_of h hpath hd hE ha
  constructor
  · intro hone
    obtain ⟨o, ho⟩ := List.length_eq_one_iff.1 hone
    have howner : ∀ d' ∈ candidates, d'.entryId ∈ E → q.demand.Answers specs d' →
        o.entryId = d'.entryId := by
      intro d' hd' hE' ha'
      obtain ⟨o', ho', hid⟩ := (exists_rival h hpath hd').2 ⟨hE', ha'⟩
      rw [ho, List.mem_singleton] at ho'
      rw [← ho']
      exact hid
    refine ⟨?_, fun d' hd' hE' ha' => h.inj d' hd' d hd ?_⟩
    · have hself : [o].filter (fun o => o.entryId = d.entryId) = [o] := by
        simp [howner d hd hE ha]
      rw [← hcount, ho, hself, List.length_singleton]
    · rw [← howner d' hd' hE' ha', howner d hd hE ha]
  · rintro ⟨hone, honly⟩
    have hall : (q.rivals index entries E).filter (fun o => o.entryId = d.entryId) =
        q.rivals index entries E := by
      refine List.filter_eq_self.2 fun o ho => decide_eq_true ?_
      obtain ⟨p, hp, -, hop, -⟩ := mem_visibleOptions (mem_rivals.1 ho).1
      have hown : o.entryId = p.entryId := options_entryId (h.parsed p hp) hop
      have hp' : p.candidate ∈ candidates := (h.mem _).2 ⟨p, hp, rfl⟩
      obtain ⟨hE', ha'⟩ := (exists_rival h hpath hp').1 ⟨o, ho, hown⟩
      rw [hown, ← honly p.candidate hp' hE' ha']
      rfl
    rw [← hall, hcount, hone]

/-- **What the resolver chooses among some entries meets the demand, and nothing else does.** -/
theorem choice_iff (h : Composition candidates specs index entries)
    (hpath : q.path ∈ index.paths) {d : PluginCandidate} (hd : d ∈ candidates) :
    (∃ o, q.choice index entries prefer E = some o ∧ o.entryId = d.entryId) ↔
      q.demand.MetBy candidates specs prefer (· ∈ E) d := by
  unfold choice
  rw [Selection.Market.choose_owner_iff, exists_rival h hpath hd]
  constructor
  · rintro ⟨⟨hE, ha⟩, hdecided⟩
    exact ⟨hE, ha, hdecided.imp_right (one_rival h hpath hd hE ha).1⟩
  · rintro ⟨hE, ha, hdecided⟩
    exact ⟨⟨hE, ha⟩, hdecided.imp_right (one_rival h hpath hd hE ha).2⟩

theorem rival_candidate (h : Composition candidates specs index entries) {o : ProviderOption}
    (ho : o ∈ q.rivals index entries E) : ∃ d ∈ candidates, d.entryId = o.entryId := by
  obtain ⟨p, hp, -, hop, -⟩ := mem_visibleOptions (mem_rivals.1 ho).1
  exact ⟨p.candidate, (h.mem _).2 ⟨p, hp, rfl⟩, (options_entryId (h.parsed p hp) hop).symm⟩

theorem exists_choice_iff (h : Composition candidates specs index entries)
    (hpath : q.path ∈ index.paths) : (∃ o, q.choice index entries prefer E = some o) ↔
      q.demand.Met candidates specs prefer (· ∈ E) := by
  constructor
  · rintro ⟨o, ho⟩
    obtain ⟨d, hd, hid⟩ := rival_candidate h (choice_rivals ho)
    exact ⟨d, hd, (choice_iff h hpath hd).1 ⟨o, ho, hid.symm⟩⟩
  · rintro ⟨d, hd, hmet⟩
    obtain ⟨o, ho, -⟩ := (choice_iff h hpath hd).2 hmet
    exact ⟨o, ho⟩

end Question

/-! ## rounds -/

theorem mem_questions (h : Composition candidates specs index entries) {q : Question}
    (hq : q ∈ questions index entries) :
    q.path ∈ index.paths ∧ Demanded candidates specs q.demand := by
  obtain rfl := h.specs
  rcases List.mem_append.1 hq with hq | hq
  · obtain ⟨p, hp, hq⟩ := List.mem_flatMap.1 hq
    obtain ⟨r, hr, rfl⟩ := List.mem_map.1 hq
    have hparsed := h.parsed p hp
    refine ⟨h.scope p hp, Or.inl ⟨p.candidate, (h.mem _).2 ⟨p, hp, rfl⟩, ?_⟩⟩
    rcases List.mem_append.1 hr with hr | hr
    · exact Or.inl ⟨_, hparsed.required, r, hr, rfl⟩
    · exact Or.inr ⟨_, hparsed.optional, r, hr, rfl⟩
  · obtain ⟨spec, hspec, hq⟩ := List.mem_flatMap.1 hq
    obtain ⟨r, hr, rfl⟩ := List.mem_map.1 hq
    obtain ⟨hin, hroot⟩ := index.mem_ordered.1 hspec
    exact ⟨List.mem_map_of_mem hin, Or.inr ⟨spec, hin, hroot, r, hr, rfl⟩⟩

theorem exists_question (h : Composition candidates specs index entries) {d : Demand}
    (hd : Demanded candidates specs d) : ∃ q ∈ questions index entries, q.demand = d := by
  obtain rfl := h.specs
  rcases hd with ⟨c, hc, hasked⟩ | ⟨spec, hin, hroot, r, hr, rfl⟩
  · obtain ⟨p, hp, rfl⟩ := (h.mem c).1 hc
    have hparsed := h.parsed p hp
    have hof : ∀ r ∈ p.requirements, ∃ q ∈ questions index entries,
        q.demand = p.candidate.demand r := fun r hr =>
      ⟨_, List.mem_append_left _ (List.mem_flatMap.2 ⟨p, hp, List.mem_map_of_mem hr⟩), rfl⟩
    rcases hasked with ⟨hard, hhard, r, hr, rfl⟩ | ⟨soft, hsoft, r, hr, rfl⟩
    · rw [hparsed.required] at hhard
      cases hhard
      exact hof r (List.mem_append_left _ hr)
    · rw [hparsed.optional] at hsoft
      cases hsoft
      exact hof r (List.mem_append_right _ hr)
  · exact ⟨_, List.mem_append_right _ (List.mem_flatMap.2
      ⟨spec, index.mem_ordered.2 ⟨hin, hroot⟩, List.mem_map_of_mem hr⟩), rfl⟩

/-- what the market picks for a requirement is what is chosen for its question -/
theorem pick_iff (h : Composition candidates specs index entries) {p : Prepared}
    (hp : p ∈ entries) {r : CapabilityRequirement} {E : List String} {d : PluginCandidate}
    (hd : d ∈ candidates) :
    (∃ o, (market index entries prefer).pick E p.entryId r = some o ∧ o.entryId = d.entryId) ↔
      (p.candidate.demand r).MetBy candidates specs prefer (· ∈ E) d := by
  have hpick : (market index entries prefer).pick E p.entryId r =
      Question.choice ⟨p.entryId, .plugin, r, p.scope, some p.entryId, p.providedKeys⟩
        index entries prefer E := by
    unfold Question.choice Question.rivals
    rw [matchingOptions_eq index prefer h.ids_nodup hp r E]
    simp only [Selection.Market.pick, market, byEntry_self h.ids_nodup hp, Option.bind_some]
    rfl
  rw [hpick]
  exact Question.choice_iff h (h.scope p hp) hd

/-- an entry is viable among others if its hard requirements are met by them -/
theorem viable_iff_met (h : Composition candidates specs index entries) {p : Prepared}
    (hp : p ∈ entries) (E : List String) :
    (market index entries prefer).viable E p.entryId = true ↔
      ∀ q, p.candidate.Needs q → q.Met candidates specs prefer (· ∈ E) := by
  have hparsed := h.parsed p hp
  rw [Selection.Market.viable_iff, market_demands h.ids_nodup hp]
  constructor
  · rintro hviable q ⟨hard, hhard, r, hr, rfl⟩
    rw [hparsed.required] at hhard
    cases hhard
    have hrequired := (PluginManifest.requiredCapabilities_hard hparsed.required hr).1
    obtain ⟨o, ho⟩ := hviable r (List.mem_append_left _ hr) (by simp [market, hrequired])
    obtain ⟨hvisible, -⟩ := picked_spec h.ids_nodup hp ho
    obtain ⟨p', hp', -, hop, -⟩ := mem_visibleOptions hvisible
    have hd : p'.candidate ∈ candidates := (h.mem _).2 ⟨p', hp', rfl⟩
    exact ⟨p'.candidate, hd, (pick_iff h hp hd).1 ⟨o, ho, options_entryId (h.parsed p' hp') hop⟩⟩
  · intro hmet r hr hhard
    rcases List.mem_append.1 hr with hr | hr
    · obtain ⟨d, hd, hby⟩ := hmet _ ⟨_, hparsed.required, r, hr, rfl⟩
      obtain ⟨o, ho, -⟩ := (pick_iff h hp hd).2 hby
      exact ⟨o, ho⟩
    · have hsoft := (PluginManifest.optionalCapabilities_soft hparsed.optional hr).1
      simp [market, hsoft] at hhard

/-- **The passes of the resolver are the rounds.** -/
theorem lasts_iff (h : Composition candidates specs index entries) (n : Nat) {e : String} :
    e ∈ Elimination.passes (market index entries prefer).viable n (ids entries) ↔
      Lasts candidates specs prefer n e := by
  induction n generalizing e with
  | zero =>
    refine ⟨fun he => ?_, fun he => ?_⟩
    · obtain ⟨p, hp, rfl⟩ := List.mem_map.1 he
      exact ⟨p.candidate, (h.mem _).2 ⟨p, hp, rfl⟩, rfl⟩
    · obtain ⟨c, hc, rfl⟩ := he
      obtain ⟨p, hp, rfl⟩ := (h.mem c).1 hc
      exact List.mem_map_of_mem hp
  | succ n ih =>
    have hsame : (· ∈ Elimination.passes (market index entries prefer).viable n (ids entries)) =
        Lasts candidates specs prefer n := funext fun e => propext ih
    rw [Elimination.passes_succ, Elimination.mem_pass, ih]
    refine and_congr_right fun hlast => ?_
    obtain ⟨p, hp, rfl⟩ := List.mem_map.1 ((Elimination.passes_sublist n _).subset (ih.2 hlast))
    rw [viable_iff_met h hp, hsame]
    constructor
    · intro hmet c hc hid
      obtain rfl := h.inj c hc p.candidate ((h.mem _).2 ⟨p, hp, rfl⟩) hid
      exact hmet
    · exact fun hmet => hmet p.candidate ((h.mem _).2 ⟨p, hp, rfl⟩) rfl

/-- **The survivors are those who are left for good.** -/
theorem stands_iff (h : Composition candidates specs index entries) {e : String} :
    e ∈ survivors index entries prefer ↔ Stands candidates specs prefer e := by
  constructor
  · intro he n
    exact (lasts_iff h n).1 ((Elimination.eliminate_sublist_passes (le_refl _) n).subset he)
  · intro hstands
    have hpasses : ∃ k, Elimination.eliminate (market index entries prefer).viable
        (ids entries).length (ids entries) =
        Elimination.passes (market index entries prefer).viable k (ids entries) :=
      Elimination.eliminate_eq (ids entries).length (ids entries)
    obtain ⟨k, hk⟩ := hpasses
    unfold survivors Selection.Market.survivors
    rw [hk]
    exact (lasts_iff h k).2 (hstands k)

theorem survivors_eq (h : Composition candidates specs index entries) :
    (· ∈ survivors index entries prefer) = Stands candidates specs prefer :=
  funext fun _ => propext (stands_iff h)

/-! ## cycles -/

theorem prepareAll_prepare {scopes : Option (List ScopeSpec)}
    (h : prepareAll candidates scopes = .ok (index, entries)) :
    ∃ ordered, (∀ c, c ∈ candidates ↔ c ∈ ordered) ∧ prepare ordered = .ok entries := by
  obtain ⟨ordered, hordered, h⟩ := bind_ok.1 h
  obtain ⟨ix, -, h⟩ := bind_ok.1 h
  obtain ⟨u, -, h⟩ := bind_ok.1 h
  obtain ⟨es, hes, h⟩ := bind_ok.1 h
  cases h
  exact ⟨ordered, (orderedCandidates_ok hordered).1, hes⟩

theorem declaredEdge_iff (h : Composition candidates specs index entries)
    {ordered : List PluginCandidate} (hmem : ∀ c, c ∈ candidates ↔ c ∈ ordered) :
    DeclaredEdge index ordered = Depends candidates specs := by
  obtain rfl := h.specs
  funext p c
  unfold DeclaredEdge Depends
  simp only [← hmem]
  refine propext (and_congr_right fun _ => exists_congr fun consumer => and_congr_right
    fun hconsumer => and_congr_right fun _ => exists_congr fun provider => and_congr_right
    fun _ => and_congr_right fun _ => exists_congr fun hard => and_congr_right fun _ =>
    exists_congr fun r => and_congr_right fun _ => exists_congr fun key => exists_congr
    fun version => and_congr_right fun _ => and_congr_right fun _ => ?_)
  obtain ⟨q, hq, rfl⟩ := (h.mem consumer).1 hconsumer
  exact index.canSee_iff (h.scope q hq)

/-- **The members of the reported cycles are those who depend on themselves.** -/
theorem onCycle_iff {scopes : Option (List ScopeSpec)}
    (hprepare : prepareAll candidates scopes = .ok (index, entries)) {e : String} :
    e ∈ (detectCycles index entries).flatten ↔
      OnCycle candidates (scopes.getD [rootSpec]) e := by
  have h := prepareAll_ok hprepare
  obtain ⟨ordered, hmem, hordered⟩ := prepareAll_prepare hprepare
  have hedge := declaredEdge_iff h hmem
  unfold OnCycle
  rw [← hedge, List.mem_flatten]
  constructor
  · rintro ⟨c, hc, he⟩
    obtain ⟨-, hmany, hcomponent⟩ := (mem_detectCycles index hordered).1 hc
    obtain ⟨w, hw, hne⟩ : ∃ w ∈ c, w ≠ e := by
      by_contra hsame
      push Not at hsame
      have hle := List.nodup_iff_count_le_one.1 hcomponent.nodup e
      rw [List.count_eq_length.2 fun w hw => (hsame w hw).symm] at hle
      omega
    obtain ⟨hthere, hback⟩ := (hcomponent.mem_iff e he w).1 hw
    rcases reflTransGen_iff_eq_or_transGen.1 hthere with heq | hthere
    · exact absurd heq hne
    · exact hthere.trans_left hback
  · intro hcycle
    obtain ⟨w, hew, hwe⟩ := TransGen.head'_iff.1 hcycle
    obtain ⟨hne, -, -, -, provider, hprovider, rfl, -⟩ := id hew
    have hnode : provider.entryId ∈ entries.map Prepared.entryId := by
      rw [← (prepare_ok hordered).1] at hprovider
      obtain ⟨p, hp, rfl⟩ := List.mem_map.1 hprovider
      exact List.mem_map_of_mem hp
    have hpartition := declared_partition index hordered
    obtain ⟨d, hd, hin⟩ := List.mem_flatten.1 ((hpartition.mem _).2 hnode)
    have hcomponent := hpartition.components d hd
    have hw : w ∈ d := (hcomponent.mem_iff _ hin w).2 ⟨.single hew, hwe⟩
    refine ⟨sorted d, (mem_detectCycles index hordered).2 ⟨sortedBy_sortedBy id d, ?_,
      hcomponent.perm (sortedBy_perm id d)⟩, mem_sortedBy.2 hin⟩
    rw [sorted, length_sortedBy]
    cases d with
    | nil => exact absurd hin List.not_mem_nil
    | cons x l =>
      cases l with
      | nil => exact absurd ((List.mem_singleton.1 hin).trans (List.mem_singleton.1 hw).symm) hne
      | cons y l =>
        simp only [List.length_cons]
        omega

end

end

end Chassis
