import Chassis.Harness.Identities
import Chassis.Harness.Retention
import Chassis.Harness.Reuse

/-!
# The fate of a node, and what it stands for

* `Identified.Shows`      instances that carry the identities that were decided;
* `materialize_decides`   so do those of a pass;
* `Fate`                  what the impact analysis says of a node, against the dependency trees of
                          its two identities;
* `identity_unfolds`      **identities are dependency trees**, and the analysis tells every node
                          whose tree changed from those whose tree did not.
-/

set_option linter.unusedSectionVars false

namespace Chassis
open Py Coop

/-- every instance carries the identity of its entry -/
def Identified.Shows (c : Identified) (instances : List PluginInstance) : Prop :=
  ∀ i ∈ instances, ∃ identity, c.identities.get? i.entryId = some identity ∧
    i.semanticIdentity = some identity

/-- an instance has one identity -/
def OneIdentity (l l' : List PluginInstance) : Prop :=
  ∀ i ∈ l, ∀ j ∈ l', i.instanceId = j.instanceId → i.semanticIdentity = j.semanticIdentity

/-- both have the entry, with the same inputs of its own -/
def SameNode (c₁ c₂ : Identified) (e : String) : Prop :=
  ∃ i₁ i₂, c₁.identities.get? e = some i₁ ∧ c₂.identities.get? e = some i₂ ∧ SameInputs i₁ i₂

/-- what is said of a node that both compositions have -/
structure Fate (c₁ c₂ : Identified) (before after : NodeObservation) (node : NodeImpact) : Prop where
  reused : node.decision = .reused ↔ before.instanceId = after.instanceId
  unchanged : before.instanceId ≠ after.instanceId →
    (node.decision = .unchanged ↔ Identical c₁ c₂ node.entryId node.entryId)
  rewired : before.instanceId ≠ after.instanceId →
    (node.decision = .rewired ↔ SameNode c₁ c₂ node.entryId ∧
      ¬ Identical c₁ c₂ node.entryId node.entryId)
  reasons : node.decision = .rewired → node.reasons ≠ []
  rebuilt : before.instanceId ≠ after.instanceId →
    (node.decision = .rebuilt ↔ ¬ SameNode c₁ c₂ node.entryId)

/-! ## decisions -/

section
variable {i j : SemanticIdentity}

theorem SemanticIdentity.dependencies_changed :
    .dependencies ∈ i.changedInputs j ↔ i.dependencyFingerprint ≠ j.dependencyFingerprint := by
  simp [changedInputs]

theorem SemanticIdentity.own_changed :
    (i.changedInputs j).any IdentityInput.own = true ↔ ¬ SameInputs i j := by
  have hsame : SameInputs i j ↔ i.implementationFingerprint = j.implementationFingerprint ∧
      i.contractFingerprint = j.contractFingerprint ∧
      i.configFingerprint = j.configFingerprint ∧ i.scopePath = j.scopePath :=
    ⟨fun h => ⟨h.1, h.2, h.3, h.4⟩, fun h => ⟨h.1, h.2.1, h.2.2.1, h.2.2.2⟩⟩
  rw [hsame]
  unfold changedInputs
  by_cases h₁ : i.implementationFingerprint = j.implementationFingerprint
  · by_cases h₂ : i.contractFingerprint = j.contractFingerprint
    · by_cases h₃ : i.configFingerprint = j.configFingerprint
      · by_cases h₄ : i.scopePath = j.scopePath
        · by_cases h₅ : i.dependencyFingerprint = j.dependencyFingerprint <;>
            simp [h₁, h₂, h₃, h₄, h₅, IdentityInput.own]
        · simp [h₁, h₂, h₃, h₄, IdentityInput.own]
      · simp [h₁, h₂, h₃, IdentityInput.own]
    · simp [h₁, h₂, IdentityInput.own]
  · simp [h₁, IdentityInput.own]

theorem reasonsFor_ne_nil {before after : NodeObservation} {inputs : List IdentityInput}
    (h : inputs ≠ []) : (reasonsFor before after inputs).1 ≠ [] := by
  obtain ⟨input, rest, rfl⟩ := List.exists_cons_of_ne_nil h
  have hkeep : ∀ l : List ReuseReason, input.reason ∈ l → l.reverse.dedup.reverse ≠ [] := by
    intro l hl hnil
    have hin : input.reason ∈ l.reverse.dedup.reverse := by
      rw [List.mem_reverse, List.mem_dedup, List.mem_reverse]
      exact hl
    rw [hnil] at hin
    exact absurd hin List.not_mem_nil
  refine hkeep _ ?_
  have hnamed : input.reason ∈ (input :: rest).map IdentityInput.reason := List.mem_cons_self
  have hgrow : ∀ (q : Prop) [Decidable q] (l m : List ReuseReason), input.reason ∈ l →
      input.reason ∈ if q then l ++ m else l := by
    intro q _ l m hl
    split
    · exact List.mem_append_left _ hl
    · exact hl
  exact hgrow _ _ _ (List.mem_append_left _ (List.mem_append_left _ hnamed))

section
variable {before after : NodeObservation}

theorem compareNodes_decision (h₁ : before.identity = some i) (h₂ : after.identity = some j) :
    (compareNodes before after).decision =
      decisionFor (before.instanceId = after.instanceId) (i.semanticallyEqual j)
        (i.changedInputs j) := by
  unfold compareNodes
  rw [h₁, h₂]

theorem compareNodes_reasons (h₁ : before.identity = some i) (h₂ : after.identity = some j)
    (hne : i.semanticallyEqual j = false) :
    (compareNodes before after).reasons = (reasonsFor before after (i.changedInputs j)).1 := by
  unfold compareNodes
  rw [h₁, h₂]
  simp only [hne, Bool.false_eq_true, if_false]

end

end

/-! ## observations -/

theorem observationsFrom_get? {ex : Explanation} {instances : List PluginInstance} {e : String}
    {o : NodeObservation} (h : (observationsFrom ex instances).get? e = some o) :
    ∃ i ∈ instances, i.entryId = e ∧ o.entryId = e ∧ o.instanceId = i.instanceId ∧
      o.identity = i.semanticIdentity := by
  unfold observationsFrom at h
  rw [Dict.get?_ofList_eq, Option.map_eq_some_iff] at h
  obtain ⟨p, hp, rfl⟩ := h
  have hmem := List.mem_reverse.1 (List.mem_of_find?_eq_some hp)
  have hfound := List.find?_some hp
  have hkey : p.1 = e := of_decide_eq_true hfound
  obtain ⟨i, hi, rfl⟩ := List.mem_map.1 hmem
  exact ⟨i, hi, hkey, hkey, rfl, rfl⟩

/-- the node of an entry that both have -/
theorem mem_analyseImpact {old new : Dict String NodeObservation} {includeUnchanged : Bool}
    {node : NodeImpact} : node ∈ analyseImpact old new includeUnchanged ↔
      (includeUnchanged = true ∨ node.decision ≠ .unchanged) ∧
        ∃ e, nodeImpact old new e = some node := by
  have hkeys : ∀ {e}, nodeImpact old new e = some node → e ∈ old.keys ++ new.keys := by
    intro e he
    unfold nodeImpact at he
    rw [List.mem_append]
    rcases hold : old.get? e with _ | before
    · rcases hnew : new.get? e with _ | after
      · rw [hold, hnew] at he
        cases he
      · exact Or.inr (Dict.mem_keys.2 ⟨after, hnew⟩)
    · exact Or.inl (Dict.mem_keys.2 ⟨before, hold⟩)
  have hnodes : node ∈ (sorted (old.keys ++ new.keys).dedup).filterMap (nodeImpact old new) ↔
      ∃ e, nodeImpact old new e = some node := by
    rw [List.mem_filterMap]
    constructor
    · rintro ⟨e, -, he⟩
      exact ⟨e, he⟩
    · rintro ⟨e, he⟩
      exact ⟨e, mem_sortedBy.2 (List.mem_dedup.2 (hkeys he)), he⟩
  unfold analyseImpact
  cases includeUnchanged with
  | true => simpa using hnodes
  | false =>
    simp only [Bool.false_eq_true, if_false, false_or, List.mem_filter, hnodes, decide_eq_true_eq]
    exact And.comm

theorem nodeImpact_entryId {ex₁ ex₂ : Explanation} {l₁ l₂ : List PluginInstance} {e : String}
    {node : NodeImpact}
    (h : nodeImpact (observationsFrom ex₁ l₁) (observationsFrom ex₂ l₂) e = some node) :
    node.entryId = e := by
  unfold nodeImpact at h
  split at h
  · cases h
  · exact Option.some.inj h ▸ rfl
  · exact Option.some.inj h ▸ rfl
  · rename_i hnew
    obtain ⟨-, -, -, hentry, -, -⟩ := observationsFrom_get? hnew
    exact Option.some.inj h ▸ hentry

section
variable [Packaging] [Platform] {c₁ c₂ : Identified}

/-- identities of one entry mean the same iff their trees are identical -/
theorem semanticallyEqual_iff (hinj : HashInjective) (hb₁ : c₁.Built) (hb₂ : c₂.Built) {e : String}
    {i₁ i₂ : SemanticIdentity} (h₁ : c₁.identities.get? e = some i₁)
    (h₂ : c₂.identities.get? e = some i₂) :
    (i₁.semanticallyEqual i₂ = true ↔ Identical c₁ c₂ e e) ∧
      (Identical c₁ c₂ e e ↔ SameInputs i₁ i₂ ∧
        i₁.dependencyFingerprint = i₂.dependencyFingerprint) := by
  have f₁ := hb₁.founded h₁
  have f₂ := hb₂.founded h₂
  have htree : Identical c₁ c₂ e e ↔ SameInputs i₁ i₂ ∧
      i₁.dependencyFingerprint = i₂.dependencyFingerprint := by
    rw [← digest_eq_iff_identical hinj hb₁ hb₂ h₁ h₂]
    exact SemanticIdentity.identityDigest_iff hinj (f₁.kind.trans f₂.kind.symm)
  refine ⟨?_, htree⟩
  rw [htree, f₁.dependencies_iff hinj f₂]
  unfold SemanticIdentity.semanticallyEqual
  rw [decide_eq_true_eq, SemanticIdentity.semanticKey, SemanticIdentity.semanticKey,
    SemanticKey.mk.injEq]
  constructor
  · rintro ⟨-, -, hscope, himpl, hcont, hconf, hbind⟩
    exact ⟨⟨himpl, hcont, hconf, hscope⟩, hbind⟩
  · rintro ⟨⟨himpl, hcont, hconf, hscope⟩, hbind⟩
    exact ⟨f₁.entryId.trans f₂.entryId.symm, f₁.kind.trans f₂.kind.symm, hscope, himpl, hcont, hconf,
      hbind⟩

/-- **What is said of a node** is what became of its dependency tree. -/
theorem compareNodes_fate (hinj : HashInjective) (hb₁ : c₁.Built) (hb₂ : c₂.Built) {e : String}
    {i₁ i₂ : SemanticIdentity} (h₁ : c₁.identities.get? e = some i₁)
    (h₂ : c₂.identities.get? e = some i₂) {before after : NodeObservation}
    (hbefore : before.identity = some i₁) (hafter : after.identity = some i₂)
    (hentry : after.entryId = e) (hone : before.instanceId = after.instanceId → i₁ = i₂) :
    Fate c₁ c₂ before after (compareNodes before after) := by
  obtain ⟨hequal, htree⟩ := semanticallyEqual_iff hinj hb₁ hb₂ h₁ h₂
  have hid : (compareNodes before after).entryId = e := hentry
  have hnode : SameNode c₁ c₂ e ↔ SameInputs i₁ i₂ := by
    constructor
    · rintro ⟨j₁, j₂, hj₁, hj₂, hsame⟩
      obtain rfl := Option.some.inj (h₁.symm.trans hj₁)
      obtain rfl := Option.some.inj (h₂.symm.trans hj₂)
      exact hsame
    · intro hsame
      exact ⟨i₁, i₂, h₁, h₂, hsame⟩
  have hdecision := compareNodes_decision hbefore hafter
  have hdeps := SemanticIdentity.dependencies_changed (i := i₁) (j := i₂)
  have hown := SemanticIdentity.own_changed (i := i₁) (j := i₂)
  have hretained : before.instanceId = after.instanceId → i₁.semanticallyEqual i₂ = true := by
    intro he
    rw [hone he]
    exact decide_eq_true rfl
  cases hs : i₁.semanticallyEqual i₂ with
  | true =>
    have hident := hequal.1 hs
    have hinputs := (htree.1 hident).1
    rw [hs, decisionFor, if_pos rfl] at hdecision
    by_cases hsame : before.instanceId = after.instanceId
    · rw [decide_eq_true hsame, if_pos rfl] at hdecision
      constructor <;> simp [hdecision, hsame]
    · rw [decide_eq_false hsame, if_neg Bool.false_ne_true] at hdecision
      constructor <;> simp [hdecision, hsame, hid, hident, hnode, hinputs]
  | false =>
    have hnew : before.instanceId ≠ after.instanceId := by
      intro he
      rw [hretained he] at hs
      cases hs
    have hnot : ¬ Identical c₁ c₂ e e := by
      intro hident
      rw [hequal.2 hident] at hs
      cases hs
    rw [hs, decisionFor, if_neg Bool.false_ne_true] at hdecision
    by_cases hinputs : SameInputs i₁ i₂
    · have hdep : i₁.dependencyFingerprint ≠ i₂.dependencyFingerprint := fun heq =>
        hnot (htree.2 ⟨hinputs, heq⟩)
      have hchanged := hdeps.2 hdep
      rw [if_pos ⟨hchanged, fun hany => hown.1 hany hinputs⟩] at hdecision
      have hreasons : (compareNodes before after).reasons ≠ [] := by
        rw [compareNodes_reasons hbefore hafter hs]
        exact reasonsFor_ne_nil (List.ne_nil_of_mem hchanged)
      constructor <;> simp [hdecision, hnew, hid, hnot, hnode, hinputs, hreasons]
    · rw [if_neg fun hand => hand.2 (hown.2 hinputs)] at hdecision
      constructor <;> simp [hdecision, hnew, hid, hnot, hnode, hinputs]

/-! ## what a pass decides -/

variable {h : Harness}

theorem named_turning : Turning .alone Harness.Named where
  holds := fun _ => trivial
  interferes := fun hn he _ => he ▸ hn
  learn := fun _ hn => hn
  note := fun _ hn => hn
  update := by
    intro h i f hn e entry hentry
    refine hn e entry ?_
    rw [← hentry]
    exact (congrArg (fun d => Dict.get? d e) (PluginRegistry.entries_update h.plugins _ f)).symm
  adopt := fun _ hn => hn
  forget := fun _ hn => hn
  setup := by
    intro h i answer hn e entry hentry
    refine hn e entry ?_
    rw [← hentry, PluginRegistry.entry?, PluginRegistry.entry?,
      (h.afterSetup_sameDeclared i answer).entries]
  close := fun _ hn => hn
  record := fun _ hn => hn
  reused := fun _ hn => hn

theorem mountEntry_carries (plan : ResolutionPlan) (entry : PluginEntry) (identity : SemanticIdentity)
    (existing : Option PluginInstance) (h : Harness) :
    (mountEntry plan entry identity existing).wp .alone (Prog.ends (fun i _ =>
      i.semanticIdentity = some identity) fun _ => True) h := by
  have hany : ∀ {α : Type} (p : Task α) (s : Harness), p.wp .alone (fun _ _ _ => True) s :=
    fun _ _ => Prog.wp_of_outcome fun _ _ _ _ => trivial
  refine Prog.wp_bind_of (hany _ _) (fun _ _ h₁ _ => ?_) (fun _ _ _ _ => trivial)
  rw [Prog.wp_gets_bind]
  refine Prog.wp_bind_of (hany _ _) (fun _ i h₂ _ => ?_) (fun _ _ _ _ => trivial)
  show (observed _ >>= _ : Task PluginInstance).wp .alone _ _
  exact Prog.wp_bind_of (hany _ _) (fun _ _ _ _ => rfl) (fun _ _ _ _ => trivial)

/-- an instance carries the identity that was decided for the entry -/
def Carries (ids : Dict String SemanticIdentity) (e : String) (i : PluginInstance) : Prop :=
  ∃ identity, ids.get? e = some identity ∧ i.semanticIdentity = some identity

/-- what the turns of a pass have decided, for the entries they did not pass over -/
structure Decided (plan : ResolutionPlan) (done : List String) (p : Progress) : Prop where
  decides : Decides plan done p.identities
  carries : List.Forall₂ (Carries p.identities) done p.ordered

theorem Decided.snoc {plan : ResolutionPlan} {done : List String} {p : Progress}
    (hd : Decided plan done p) {entry : PluginEntry} {identity : SemanticIdentity}
    (hid : h.semanticIdentity entry plan p.identities = .ok identity)
    (hnew : entry.entryId ∉ done) {i : PluginInstance} (hsem : i.semanticIdentity = some identity) :
    Decided plan (done ++ [entry.entryId])
      ⟨p.ordered ++ [i], p.identities.set entry.entryId identity⟩ where
  decides := .snoc h entry _ hd.decides hid
  carries := by
    refine List.rel_append (List.forall₂_iff_get.2 ?_) (.cons ⟨identity, ?_, hsem⟩ .nil)
    · obtain ⟨hlen, hget⟩ := List.forall₂_iff_get.1 hd.carries
      refine ⟨hlen, fun n h₁ h₂ => ?_⟩
      obtain ⟨known, hknown, hi⟩ := hget n h₁ h₂
      refine ⟨known, ?_, hi⟩
      rw [Dict.get?_set, if_neg]
      · exact hknown
      · intro he
        exact hnew (he ▸ List.get_mem done ⟨n, h₁⟩)
    · exact Dict.get?_set_self _ _ _

/-- one turn decides the identity of its entry, or passes it over -/
theorem Decided.turn {plan : ResolutionPlan} {done : List String} {p : Progress}
    (hd : Decided plan done p) (hn : h.Named) {e : String} (hnew : e ∉ done) :
    (materializeEntry plan p e).wp .alone (Prog.ends (fun p' _ =>
      Decided plan done p' ∨ Decided plan (done ++ [e]) p') fun _ => True) h := by
  unfold materializeEntry
  rw [Prog.wp_gets_bind]
  simp only [id_eq]
  cases hent : h.plugins.entry? e with
  | none => exact Or.inl hd
  | some entry =>
    have he : entry.entryId = e := hn e entry hent
    rw [← he] at hnew
    refine Prog.wp_ofExcept_bind (fun identity hid => ?_) fun _ _ => trivial
    have hcarry : ∀ {i : PluginInstance}, i.semanticIdentity = some identity →
        Decided plan (done ++ [e]) ⟨p.ordered ++ [i], p.identities.set e identity⟩ := by
      intro i hi
      have hsnoc := hd.snoc hid hnew hi
      rwa [he] at hsnoc
    cases hr : h.reusable entry identity with
    | some existing =>
      obtain ⟨-, -, -, hsem⟩ := Harness.reusable_eq_some.1 hr
      exact Or.inr (hcarry hsem)
    | none =>
      have hmount : ∀ h₁, (do
          let i ← mountEntry plan entry identity (h.plugins.instance? e)
          return ⟨p.ordered ++ [i], p.identities.set e identity⟩ : Task Progress).wp .alone
          (Prog.ends (fun p' _ => Decided plan done p' ∨ Decided plan (done ++ [e]) p')
            fun _ => True) h₁ := fun h₁ =>
        Prog.wp_bind_of (mountEntry_carries plan entry identity _ h₁)
          (fun _ _ _ hi => Or.inr (hcarry hi)) (fun _ _ _ _ => trivial)
      simp only
      split
      · refine Prog.wp_bind_of (P := fun _ _ _ => True) ?_ (fun _ _ h₁ _ => hmount h₁)
          (fun _ _ _ _ => trivial)
        exact Prog.wp_of_outcome fun _ _ _ _ => trivial
      · exact hmount _

/-- **A pass decides identities in activation order**, and its instances carry them, entry by entry.
An entry that is no longer there is passed over. -/
theorem materialize_decides {plan : ResolutionPlan} (hnodup : plan.activationOrder.Nodup)
    (hn : h.Named) : (materialize plan).wp .alone (Prog.ends (fun instances _ =>
      ∃ done ids, done.Sublist plan.activationOrder ∧ Decides plan done ids ∧
        List.Forall₂ (Carries ids) done instances) fun _ => True) h := by
  let Turned (left : List String) (p : Progress) (h' : Harness) : Prop :=
    h'.Named ∧ ∃ past done, plan.activationOrder = past ++ left ∧ done.Sublist past ∧
      Decided plan done p
  have hstart : Turned plan.activationOrder {} h :=
    ⟨hn, [], [], rfl, .slnil, .nil, .nil⟩
  have hloop : (plan.activationOrder.foldlM (materializeEntry plan) {}).wp .alone
      (Prog.ends (Turned []) fun _ => True) h := by
    refine Prog.wp_foldlM_rest (fun p e left h₁ ht => ?_) hstart
    obtain ⟨hn₁, past, done, horder, hsub, hd⟩ := ht
    have hnew : e ∉ done := by
      intro hin
      rw [horder] at hnodup
      exact List.disjoint_of_nodup_append hnodup (hsub.subset hin) List.mem_cons_self
    have horder' : plan.activationOrder = (past ++ [e]) ++ left := by
      rw [horder, List.append_assoc]
      rfl
    refine Prog.wp_mono (Prog.wp_and (hd.turn hn₁ hnew)
      (materializeEntry_inv named_turning plan p e hn₁)) fun tr r h₂ hr => ?_
    cases r with
    | error e => trivial
    | ok p' =>
      refine ⟨hr.2, past ++ [e], ?_⟩
      rcases hr.1 with hd' | hd'
      · exact ⟨done, horder', hsub.trans (List.sublist_append_left past [e]), hd'⟩
      · exact ⟨done ++ [e], horder', hsub.append_right [e], hd'⟩
  refine Prog.wp_bind_of hloop (fun _ p _ hp => ?_) (fun _ _ _ _ => trivial)
  obtain ⟨-, past, done, horder, hsub, hd⟩ := hp
  rw [List.append_nil] at horder
  exact ⟨done, p.identities, horder ▸ hsub, hd.decides, hd.carries⟩

theorem analyseImpact_fate (hinj : HashInjective) (hb₁ : c₁.Built) (hb₂ : c₂.Built)
    {ex₁ ex₂ : Explanation} {l₁ l₂ : List PluginInstance} (hl₁ : c₁.Shows l₁) (hl₂ : c₂.Shows l₂)
    (hone : OneIdentity l₁ l₂) {e : String} {before after : NodeObservation}
    (hbefore : (observationsFrom ex₁ l₁).get? e = some before)
    (hafter : (observationsFrom ex₂ l₂).get? e = some after) :
    nodeImpact (observationsFrom ex₁ l₁) (observationsFrom ex₂ l₂) e =
        some (compareNodes before after) ∧
      Fate c₁ c₂ before after (compareNodes before after) := by
  obtain ⟨i, hi, hie, -, hiid, hiident⟩ := observationsFrom_get? hbefore
  obtain ⟨j, hj, hje, hae, hjid, hjident⟩ := observationsFrom_get? hafter
  obtain ⟨i₁, h₁, hi₁⟩ := hl₁ i hi
  obtain ⟨i₂, h₂, hi₂⟩ := hl₂ j hj
  rw [hie] at h₁
  rw [hje] at h₂
  constructor
  · unfold nodeImpact
    rw [hbefore, hafter]
  · refine compareNodes_fate hinj hb₁ hb₂ h₁ h₂ (hiident.trans hi₁) (hjident.trans hi₂) hae ?_
    intro hsame
    have hij : i.instanceId = j.instanceId := hiid.symm.trans (hsame.trans hjid)
    have hident := hone i hi j hj hij
    rw [hi₁, hi₂] at hident
    exact Option.some.inj hident

/-- **Identities are dependency trees.**  The digests of two entries are equal iff they unfold to
one tree; of an entry that both compositions have, the impact analysis says what became of its
tree; and what any two generations of a run tell of one instance is one identity. -/
theorem identity_unfolds (hinj : HashInjective) {c₁ c₂ : Identified} (hb₁ : c₁.Built)
    (hb₂ : c₂.Built) :
    (∀ e₁ e₂ i₁ i₂, c₁.identities.get? e₁ = some i₁ → c₂.identities.get? e₂ = some i₂ →
      (i₁.identityDigest = i₂.identityDigest ↔ Identical c₁ c₂ e₁ e₂)) ∧
    (∀ ex₁ ex₂ l₁ l₂, c₁.Shows l₁ → c₂.Shows l₂ → OneIdentity l₁ l₂ → ∀ e before after,
      (observationsFrom ex₁ l₁).get? e = some before →
      (observationsFrom ex₂ l₂).get? e = some after →
      (∃ node ∈ analyseImpact (observationsFrom ex₁ l₁) (observationsFrom ex₂ l₂) true,
        node.entryId = e) ∧
      ∀ includeUnchanged, ∀ node ∈ analyseImpact (observationsFrom ex₁ l₁)
        (observationsFrom ex₂ l₂) includeUnchanged,
        node.entryId = e → Fate c₁ c₂ before after node) ∧
    (∀ h history c, HarnessRun h history c →
      ∀ g ∈ c.state.generations.live ++ c.state.generations.retired,
      ∀ g' ∈ c.state.generations.live ++ c.state.generations.retired,
        OneIdentity g.instances g'.instances) := by
  refine ⟨fun e₁ e₂ i₁ i₂ h₁ h₂ => digest_eq_iff_identical hinj hb₁ hb₂ h₁ h₂, ?_, ?_⟩
  · intro ex₁ ex₂ l₁ l₂ hl₁ hl₂ hone e before after hbefore hafter
    obtain ⟨hnode, hfate⟩ := analyseImpact_fate hinj hb₁ hb₂ hl₁ hl₂ hone hbefore hafter
    have hnamed : (compareNodes before after).entryId = e := by
      obtain ⟨j, -, -, hae, -, -⟩ := observationsFrom_get? hafter
      exact hae
    refine ⟨⟨_, mem_analyseImpact.2 ⟨Or.inl rfl, e, hnode⟩, hnamed⟩, ?_⟩
    intro includeUnchanged node hin he
    obtain ⟨-, e', he'⟩ := mem_analyseImpact.1 hin
    have hsame : e' = e := (nodeImpact_entryId he').symm.trans he
    rw [hsame, hnode] at he'
    exact Option.some.inj he' ▸ hfate
  · intro h history c hrun g hg g' hg' i hi j hj hid
    exact retained_run hrun hg hg' hi hj hid

end

section
open scoped Plain

/-- an entry of `chain` in the root scope -/
def chainEntry (e : String) (config : Dict String Value) : PluginEntry where
  entryId := e
  plugin := plainPlugin e [] [] []
  manifest := (plainPlugin e [] [] []).manifest
  config := config
  revision := 1
  scope := "/"

/-- the identity of an entry of `chain`, built in a new harness -/
def chainIdentity (plan : ResolutionPlan) (e : String) (config : Dict String Value)
    (ids : Dict String SemanticIdentity) : SemanticIdentity :=
  semanticIdentityOf (chainEntry e config).own (plan.requirementsOf e) (fun _ => none)
    (({} : Harness).identityOf ids) ({} : Harness).redactor

theorem chainIdentity_ok (plan : ResolutionPlan) (e : String) {config : Dict String Value}
    (ids : Dict String SemanticIdentity) (hdata : IsData config) :
    ({} : Harness).semanticIdentityWith (chainEntry e config) plan ids (fun _ => none) =
      .ok (chainIdentity plan e config ids) :=
  buildSemanticIdentity_ok.2 ⟨hdata, rfl⟩

/-- the identities of `chain`, where `p` is configured -/
def chained (plan : ResolutionPlan) (config : Dict String Value) : Identified where
  plan := plan
  identities :=
    let ids := Dict.empty.set "p" (chainIdentity plan "p" config Dict.empty)
    ids.set "c" (chainIdentity plan "c" Dict.empty ids)

/-- every requirement of an activated entry is one of `c`, and resolved to `p` -/
def ResolutionPlan.onlyChain (plan : ResolutionPlan) : Bool :=
  plan.activationOrder.all fun e => (plan.requirementsOf e).all fun r =>
    r.providerEntryId.all fun p => p = "p" ∧ e = "c"

theorem ResolutionPlan.acyclic_of_onlyChain {plan : ResolutionPlan} (h : plan.onlyChain = true) :
    plan.Acyclic := by
  have hsel : ∀ {p c}, plan.Selects p c → p = "p" ∧ c = "c" := by
    rintro p c ⟨hc, r, hr, hp⟩
    have hall := List.all_eq_true.1 (List.all_eq_true.1 h c hc) r hr
    rw [hp] at hall
    exact of_decide_eq_true hall
  have hends : ∀ {p c}, Relation.TransGen plan.Selects p c → p = "p" ∧ c = "c" := by
    intro p c hpc
    induction hpc with
    | single hs => exact hsel hs
    | tail _ hs ih => exact ⟨ih.1, (hsel hs).2⟩
  intro e he
  obtain ⟨hp, hc⟩ := hends he
  exact absurd (hp.symm.trans hc) (by decide)

theorem configFingerprint_sized (plan : ResolutionPlan) (ids ids' : Dict String SemanticIdentity) :
    ¬ SameInputs (chainIdentity plan "p" Dict.empty ids)
      (chainIdentity plan "p" (Dict.ofList [("size", .str "big")]) ids') := by
  intro hsame
  have hinj : HashInjective := Set.injOn_id _
  have hcanon := hinj.canonicalize rfl rfl hsame.config
  exact absurd hcanon (by decide +kernel)

/-- an instance of an entry of `chain` -/
def chainInstance (id e : String) (identity : SemanticIdentity) : PluginInstance where
  instanceId := id
  entryId := e
  manifest := (plainPlugin e [] [] []).manifest
  plugin := plainPlugin e [] [] []
  scopeId := id
  config := Dict.empty
  resolved := Dict.empty
  entryRevision := 1
  state := .active
  semanticIdentity := some identity

/-- the instances of a composition of `chain` -/
def chainMounted (plan : ResolutionPlan) (config : Dict String Value) (p c : String) :
    List PluginInstance :=
  let identity := chainIdentity plan "p" config Dict.empty
  [chainInstance p "p" identity,
    chainInstance c "c" (chainIdentity plan "c" Dict.empty (Dict.empty.set "p" identity))]

theorem chained_shows (plan : ResolutionPlan) (config : Dict String Value) (p c : String) :
    (chained plan config).Shows (chainMounted plan config p c) := by
  intro i hi
  rcases List.mem_cons.1 hi with rfl | hi
  · refine ⟨_, ?_, rfl⟩
    exact (Dict.get?_set_ne _ _ (show "p" ≠ "c" by decide)).trans (Dict.get?_set_self _ _ _)
  · obtain rfl := List.mem_singleton.1 hi
    exact ⟨_, Dict.get?_set_self _ _ _, rfl⟩

/-- nothing but identities is explained -/
def plainly : Explanation := ⟨SemanticIdentity.identityDigest, fun _ _ => none, fun _ => none⟩

/-- a plugin, and another one while a run holds the first generation -/
def grown : HarnessCourse :=
  play [.install (plainPlugin "p" [] [] []), .start .reconcile, .resume honest, .acquire,
    .install (plainPlugin "q" [] [] []), .start .reconcile, .resume honest]

theorem identity_unfolds_chain :
    (∃ c₁ c₂ : Identified, ∃ i₁ i₂ l₁ l₂,
      c₁.identities.get? "c" = some i₁ ∧ c₂.identities.get? "c" = some i₂ ∧
      i₁.identityDigest ≠ i₂.identityDigest ∧ ¬ Identical c₁ c₂ "c" "c" ∧
      c₁.Shows l₁ ∧ c₂.Shows l₂ ∧
      ∃ node ∈ analyseImpact (observationsFrom plainly l₁) (observationsFrom plainly l₂) true,
        node.entryId = "c" ∧ node.decision = .rewired ∧ node.reasons ≠ []) ∧
    grown.config.state.generations.live.map RuntimeGeneration.instanceIds =
      [["plugin_0000", "plugin_0002"], ["plugin_0000"]] ∧
    ∀ g ∈ grown.config.state.generations.live, ∀ g' ∈ grown.config.state.generations.live,
      OneIdentity g.instances g'.instances := by
  obtain ⟨plan, hplan, hf⟩ := ok_of_map (resolve chain Dict.empty none)
    (fun plan => (plan.activationOrder, plan.cycles.isEmpty, plan.onlyChain,
      (plan.resolvedOf "c").any fun r => r.provider = some "p"))
    (["p", "c"], true, true, true) (by decide +kernel)
  simp only [Prod.mk.injEq, List.isEmpty_iff, List.any_eq_true, decide_eq_true_eq] at hf
  obtain ⟨horder, hcycles, honly, r, hr, hp⟩ := hf
  have hbuilt : ∀ config, IsData config → (chained plan config).Built := by
    intro config hdata
    refine ⟨⟨chain, Dict.empty, none, hplan⟩, ?_, plan.acyclic_of_onlyChain honly, ["p", "c"], ?_, ?_⟩
    · show plan.raiseForCycles = .ok ()
      unfold ResolutionPlan.raiseForCycles
      rw [hcycles]
      rfl
    · show ["p", "c"] <+: plan.activationOrder
      rw [horder]
    · have hdecides := Decides.snoc _ (chainEntry "p" config) _ .nil
        (chainIdentity_ok plan "p" Dict.empty hdata)
      exact .snoc _ (chainEntry "c" Dict.empty) _ hdecides (chainIdentity_ok plan "c" _ rfl)
  have hinj : HashInjective := Set.injOn_id _
  obtain ⟨htree, hfate, hrun⟩ := identity_unfolds hinj (hbuilt Dict.empty rfl)
    (hbuilt (Dict.ofList [("size", .str "big")]) rfl)
  refine ⟨?_, by decide +kernel, fun g hg g' hg' => ?_⟩
  · have hiff := htree "c" "c" _ _ (Dict.get?_set_self _ _ _) (Dict.get?_set_self _ _ _)
    have hnot : ¬ Identical (chained plan Dict.empty)
        (chained plan (Dict.ofList [("size", .str "big")])) "c" "c" := by
      rintro ⟨-, -, -, -, hproviders⟩
      obtain ⟨h₁, h₂, hinputs, -, -⟩ := hproviders r hr "p" hp
      obtain rfl := Option.some.inj h₁
      obtain rfl := Option.some.inj h₂
      exact configFingerprint_sized plan _ _ hinputs
    have hone : OneIdentity (chainMounted plan Dict.empty "plugin_0000" "plugin_0001")
        (chainMounted plan (Dict.ofList [("size", .str "big")]) "plugin_0002" "plugin_0003") := by
      intro i hi j hj hid
      simp only [chainMounted, chainInstance, List.mem_cons, List.not_mem_nil, or_false] at hi hj
      rcases hi with rfl | rfl <;> rcases hj with rfl | rfl <;> simp at hid
    obtain ⟨⟨node, hin, hnode⟩, hall⟩ := hfate plainly plainly _ _ (chained_shows _ _ _ _)
      (chained_shows _ _ _ _) hone "c" _ _ rfl rfl
    have hthe := hall true node hin hnode
    have hrewired : node.decision = .rewired := by
      refine (hthe.rewired (show "plugin_0001" ≠ "plugin_0003" by decide)).2 ?_
      rw [hnode]
      exact ⟨⟨_, _, Dict.get?_set_self _ _ _, Dict.get?_set_self _ _ _, ⟨rfl, rfl, rfl, rfl⟩⟩, hnot⟩
    exact ⟨_, _, _, _, _, _, Dict.get?_set_self _ _ _, Dict.get?_set_self _ _ _,
      fun h => hnot (hiff.1 h), hnot, chained_shows _ _ _ _, chained_shows _ _ _ _, node, hin, hnode,
      hrewired, hthe.reasons hrewired⟩
  · exact hrun {} grown.history grown.config (play_run _) g (List.mem_append_left _ hg) g'
      (List.mem_append_left _ hg')

end

end Chassis
