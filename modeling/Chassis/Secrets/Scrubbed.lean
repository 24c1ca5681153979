import Chassis.Lib.Passes
import Chassis.Lib.Replacement
import Chassis.Secrets.Redaction
import Mathlib.Data.List.TakeWhile

/-!
# What redaction leaves

Values are replaced one after the other, the longer ones first, in texts that already hold markers.

* `Apparent`               a value that no marker can hide or complete;
* `redactValue_complete`   nothing tracked is left, in no key and in no text of a payload;
* `redactValue_idem`       redacting again changes nothing, where no key comes to look secret;
* `Contested`              two values of one length, and a text where the first to go wins;
* `redact_order`           without them the order in which values are tracked does not show.
-/

set_option linter.unusedSectionVars false

namespace Chassis
open Py

/-- what is tracked after these calls of `add` -/
def Redactor.tracked (adds : List String) : Redactor := adds.foldl Redactor.add []

/-- no occurrence of it can overlap a marker -/
def Apparent (value : String) : Prop := Clear value.toList redactedMarker.toList

instance (value : String) : Decidable (Apparent value) :=
  inferInstanceAs (Decidable (Clear value.toList redactedMarker.toList))

def Holds (text value : String) : Prop := value.toList <:+: text.toList

theorem Apparent.nonempty {value : String} (h : Apparent value) : value ≠ "" := by
  rintro rfl
  exact h.inside (List.nil_infix)

theorem toList_ne_nil {value : String} (h : value ≠ "") : value.toList ≠ [] :=
  fun hnil => h (String.toList_inj.1 hnil)

namespace Redactor

theorem tracked_nonempty {adds : List String} {value : String} (h : value ∈ tracked adds) :
    value ≠ "" := by
  suffices hall : ∀ (adds : List String) (r : Redactor), (∀ v ∈ r, v ≠ "") →
      ∀ v ∈ adds.foldl add r, v ≠ "" from hall adds [] (fun _ hv => nomatch hv) value h
  intro adds
  induction adds with
  | nil => exact fun r hr => hr
  | cons a adds ih =>
    intro r hr
    refine ih (r.add a) fun v hv => ?_
    unfold add at hv
    split at hv
    · exact hr v hv
    · rename_i hnew
      rcases List.mem_append.1 hv with hv | hv
      · exact hr v hv
      · rw [List.mem_singleton] at hv
        subst hv
        exact (not_or.1 hnew).1

theorem tracked_nodup (adds : List String) : (tracked adds).Nodup := by
  suffices hall : ∀ (adds : List String) (r : Redactor), r.Nodup → (adds.foldl add r).Nodup from
    hall adds [] List.nodup_nil
  intro adds
  induction adds with
  | nil => exact fun r hr => hr
  | cons a adds ih =>
    intro r hr
    refine ih (r.add a) ?_
    unfold add
    split
    · exact hr
    · rename_i hnew
      refine List.nodup_append.2 ⟨hr, List.nodup_singleton a, ?_⟩
      rintro v hv v' hv' rfl
      rw [List.mem_singleton] at hv'
      exact (not_or.1 hnew).2 (hv' ▸ hv)

/-! ## texts -/

theorem not_holds_replace {text old value : String} (hold : old ≠ "") (h : Apparent value)
    (ht : ¬ Holds text value) : ¬ Holds (replace text old redactedMarker) value := by
  unfold Holds
  rw [toList_replace]
  exact fun hin => ht (infix_of_replaced (toList_ne_nil hold) h hin)

theorem not_holds_replaced {text value : String} (h : Apparent value) :
    ¬ Holds (replace text value redactedMarker) value := by
  unfold Holds
  rw [toList_replace]
  exact not_infix_replaced (toList_ne_nil h.nonempty) h

theorem not_holds_foldl {l : List String} (hl : ∀ v ∈ l, v ≠ "") {value : String}
    (h : Apparent value) {text : String} (ht : value ∈ l ∨ ¬ Holds text value) :
    ¬ Holds (l.foldl (fun t v => replace t v redactedMarker) text) value := by
  induction l generalizing text with
  | nil => exact ht.resolve_left List.not_mem_nil
  | cons a l ih =>
    refine ih (fun v hv => hl v (List.mem_cons_of_mem a hv)) ?_
    by_cases hin : value ∈ l
    · exact Or.inl hin
    · refine Or.inr ?_
      rcases ht with hmem | ht
      · rcases List.mem_cons.1 hmem with rfl | hmem
        · exact not_holds_replaced h
        · exact absurd hmem hin
      · exact not_holds_replace (hl a List.mem_cons_self) h ht

/-- **Nothing tracked is left** in a text, where all that is tracked is apparent. -/
theorem not_holds_redact {r : Redactor} (hr : ∀ v ∈ r, Apparent v) (text : String) {value : String}
    (hv : value ∈ r) : ¬ Holds (r.redact text) value :=
  not_holds_foldl (fun v hv => (hr v (mem_sortedBy.1 hv)).nonempty) (hr value hv)
    (Or.inl (mem_sortedBy.2 hv))

theorem foldl_absent {l : List String} {text : String}
    (h : ∀ v ∈ l, v ≠ "" ∧ ¬ Holds text v) :
    l.foldl (fun t v => replace t v redactedMarker) text = text := by
  induction l with
  | nil => rfl
  | cons a l ih =>
    obtain ⟨hne, hout⟩ := h a List.mem_cons_self
    have hone : replace text a redactedMarker = text := by
      refine String.toList_inj.1 ?_
      rw [toList_replace]
      exact replaced_eq_self (toList_ne_nil hne) hout
    rw [List.foldl_cons, hone]
    exact ih fun v hv => h v (List.mem_cons_of_mem a hv)

theorem redact_eq_self {r : Redactor} (hr : ∀ v ∈ r, v ≠ "") {text : String}
    (h : ∀ v ∈ r, ¬ Holds text v) : r.redact text = text :=
  foldl_absent fun v hv => ⟨hr v (mem_sortedBy.1 hv), h v (mem_sortedBy.1 hv)⟩

theorem redact_idem {r : Redactor} (hr : ∀ v ∈ r, Apparent v) (text : String) :
    r.redact (r.redact text) = r.redact text :=
  redact_eq_self (fun v hv => (hr v hv).nonempty) fun _ hv => not_holds_redact hr text hv

theorem redact_marker {r : Redactor} (hr : ∀ v ∈ r, Apparent v) :
    r.redact redactedMarker = redactedMarker :=
  redact_eq_self (fun v hv => (hr v hv).nonempty) fun v hv => (hr v hv).inside

end Redactor

/-! ## payloads -/

mutual

/-- the keys and the texts in a payload, however deep -/
def Value.texts : Value → List String
  | .str s => [s]
  | .list l => textsOf l
  | .dict items => textsWithin items
  | _ => []

def textsOf : List Value → List String
  | [] => []
  | v :: l => v.texts ++ textsOf l

def textsWithin : List (String × Value) → List String
  | [] => []
  | (k, v) :: l => k :: (v.texts ++ textsWithin l)

end

theorem mem_textsWithin {text : String} {l : List (String × Value)} :
    text ∈ textsWithin l ↔ ∃ p ∈ l, text = p.1 ∨ text ∈ p.2.texts := by
  induction l with
  | nil =>
    refine iff_of_false List.not_mem_nil ?_
    rintro ⟨p, hp, -⟩
    cases hp
  | cons p l ih =>
    rw [textsWithin, List.mem_cons, List.mem_append, ih, List.exists_mem_cons_iff, or_assoc]

section
variable {r : Redactor} {P : String → Prop}
  (htext : ∀ text, P (r.redact text)) (hmarker : P redactedMarker)
include htext hmarker

mutual

/-- what holds of every redacted text and of the marker holds of all texts of a redacted payload -/
theorem texts_redactValue : (v : Value) → ∀ text ∈ (redactValue r v).texts, P text
  | .none, _, h | .bool _, _, h | .int _, _, h | .float _, _, h | .object _ _, _, h => nomatch h
  | .str s, text, h => by
    rw [redactValue, Value.texts, List.mem_singleton] at h
    rw [h]
    exact htext s
  | .list l, text, h => textsOf_redactValues l text h
  | .dict items, text, h => by
    refine textsWithin_redactFields items [] (fun p hp => nomatch hp) text ?_
    exact h

theorem textsOf_redactValues : (l : List Value) → ∀ text ∈ textsOf (redactValues r l), P text
  | [], _, h => nomatch h
  | v :: l, text, h => by
    rw [redactValues, textsOf, List.mem_append] at h
    rcases h with h | h
    · exact texts_redactValue v text h
    · exact textsOf_redactValues l text h

theorem textsWithin_redactFields : (l done : List (String × Value)) →
    (∀ p ∈ done, P p.1 ∧ ∀ text ∈ p.2.texts, P text) →
    ∀ text ∈ textsWithin (redactFields r done l), P text
  | [], done, hdone, text, h => by
    obtain ⟨p, hp, rfl | htext⟩ := mem_textsWithin.1 h
    · exact (hdone p hp).1
    · exact (hdone p hp).2 text htext
  | (k, v) :: l, done, hdone, text, h => by
    refine textsWithin_redactFields l _ (fun p hp => ?_) text h
    rcases Dict.mem_setItems hp with hp | rfl
    · exact hdone p hp
    · refine ⟨htext k, ?_⟩
      by_cases hk : secretKey k
      · simp only [hk, if_true]
        intro text' h'
        rw [Value.texts, List.mem_singleton] at h'
        rw [h']
        exact hmarker
      · simp only [hk]
        exact texts_redactValue v

end

end

/-- **Redaction is complete**: nothing tracked is left in any key or text of a payload, where all
that is tracked is apparent. -/
theorem redactValue_complete {r : Redactor} (hr : ∀ v ∈ r, Apparent v) (payload : Value) :
    ∀ text ∈ (redactValue r payload).texts, ∀ v ∈ r, ¬ Holds text v :=
  texts_redactValue (P := fun text => ∀ v ∈ r, ¬ Holds text v)
    (fun text _ hv => Redactor.not_holds_redact hr text hv) (fun v hv => (hr v hv).inside) payload

theorem redactValue_complete_overlapping :
    (redactValue ["ab", "bc", "abcd"] (.dict [("xabcdab", .list [.str "abcbc"])])).texts =
        ["x<redacted><redacted>", "<redacted>c<redacted>"] ∧
      ∀ text ∈ (redactValue ["ab", "bc", "abcd"] (.dict [("xabcdab", .list [.str "abcbc"])])).texts,
        ∀ v ∈ ["ab", "bc", "abcd"], ¬ Holds text v :=
  ⟨by decide +kernel, redactValue_complete (by decide +kernel) _⟩

/-! ## redacting again -/

mutual

/-- no key of a payload comes to look secret by being redacted -/
def KeysKeep (r : Redactor) : Value → Prop
  | .list l => KeysKeepAll r l
  | .dict items => KeysKeepWithin r items
  | _ => True

def KeysKeepAll (r : Redactor) : List Value → Prop
  | [] => True
  | v :: l => KeysKeep r v ∧ KeysKeepAll r l

/-- below a key that is secret there is nothing left -/
def KeysKeepWithin (r : Redactor) : List (String × Value) → Prop
  | [] => True
  | (k, v) :: l => (secretKey (r.redact k) = true → secretKey k = true) ∧
      (secretKey k = false → KeysKeep r v) ∧ KeysKeepWithin r l

end

/-- an item that redaction leaves as it is -/
def ItemKept (r : Redactor) (p : String × Value) : Prop :=
  r.redact p.1 = p.1 ∧ (if secretKey p.1 then .str redactedMarker else redactValue r p.2) = p.2

theorem redactFields_kept {r : Redactor} {l done : List (String × Value)}
    (hkeys : ((done ++ l).map Prod.fst).Nodup) (hl : ∀ p ∈ l, ItemKept r p) :
    redactFields r done l = done ++ l := by
  induction l generalizing done with
  | nil => rw [redactFields, List.append_nil]
  | cons p l ih =>
    obtain ⟨hkey, hvalue⟩ := hl p List.mem_cons_self
    have hnew : p.1 ∉ done.map Prod.fst := by
      rw [List.map_append, List.map_cons] at hkeys
      intro hin
      exact (List.nodup_append.1 hkeys).2.2 p.1 hin p.1 List.mem_cons_self rfl
    rw [redactFields, hkey, hvalue, Dict.setItems_new _ hnew,
      ih (by rw [List.append_assoc]; exact hkeys) fun q hq => hl q (List.mem_cons_of_mem p hq),
      List.append_assoc]
    rfl

section
variable {r : Redactor} (hr : ∀ v ∈ r, Apparent v)
include hr

mutual

theorem redactValue_redactValue : (v : Value) → KeysKeep r v →
    redactValue r (redactValue r v) = redactValue r v
  | .none, _ | .bool _, _ | .int _, _ | .float _, _ | .object _ _, _ => rfl
  | .str s, _ => congrArg Value.str (Redactor.redact_idem hr s)
  | .list l, h => congrArg Value.list (redactValues_redactValues l h)
  | .dict items, h => by
    obtain ⟨hkept, hkeys⟩ := redactFields_keeps items [] h (fun p hp => nomatch hp) List.nodup_nil
    show Value.dict (redactFields r [] (redactFields r [] items)) = _
    rw [redactFields_kept hkeys hkept]
    rfl

theorem redactValues_redactValues : (l : List Value) → KeysKeepAll r l →
    redactValues r (redactValues r l) = redactValues r l
  | [], _ => rfl
  | v :: l, h => by
    rw [redactValues, redactValues, redactValue_redactValue v h.1,
      redactValues_redactValues l h.2]

theorem redactFields_keeps : (l done : List (String × Value)) → KeysKeepWithin r l →
    (∀ p ∈ done, ItemKept r p) → (done.map Prod.fst).Nodup →
    (∀ p ∈ redactFields r done l, ItemKept r p) ∧ ((redactFields r done l).map Prod.fst).Nodup
  | [], done, _, hdone, hnodup => ⟨hdone, hnodup⟩
  | (k, v) :: l, done, h, hdone, hnodup => by
    refine redactFields_keeps l _ h.2.2 (fun p hp => ?_) ?_
    · rcases Dict.mem_setItems hp with hp | rfl
      · exact hdone p hp
      · refine ⟨Redactor.redact_idem hr k, ?_⟩
        show (if secretKey (r.redact k) then _ else redactValue r
          (if secretKey k then .str redactedMarker else redactValue r v)) = _
        by_cases hk : secretKey k
        · rw [if_pos hk, redactValue, Redactor.redact_marker hr, ite_self]
        · have hk' : ¬ secretKey (r.redact k) = true := fun hk' => hk (h.1 hk')
          rw [if_neg hk', if_neg hk]
          exact redactValue_redactValue v (h.2.1 (Bool.eq_false_iff.2 hk))
    · rw [Dict.keys_setItems]
      split
      · exact hnodup
      · rename_i hnew
        refine List.nodup_append.2 ⟨hnodup, List.nodup_singleton _, ?_⟩
        rintro key hkey key' hkey' rfl
        rw [List.mem_singleton] at hkey'
        exact hnew (hkey' ▸ hkey)

end

end

/-- **Redacting a payload again changes nothing**, where all that is tracked is apparent and no key
comes to look secret. -/
theorem redactValue_idem {r : Redactor} (hr : ∀ v ∈ r, Apparent v) {payload : Value}
    (hkeys : KeysKeep r payload) :
    redactValue r (redactValue r payload) = redactValue r payload :=
  redactValue_redactValue hr payload hkeys

theorem redactValue_idem_nested :
    redactValue ["ab", "bc"] (redactValue ["ab", "bc"] (.dict [("abc", .list [.str "xbc"])])) =
      redactValue ["ab", "bc"] (.dict [("abc", .list [.str "xbc"])]) :=
  redactValue_idem (by decide +kernel) (by
    refine ⟨?_, fun _ => ⟨trivial, trivial⟩, trivial⟩
    decide +kernel)

theorem redactValue_again : ¬ ∀ (adds : List String) (payload : Value),
    redactValue (Redactor.tracked adds) (redactValue (Redactor.tracked adds) payload) =
      redactValue (Redactor.tracked adds) payload :=
  fun h => absurd (h ["red"] (.str "red")) (by decide +kernel)

/-! ## the order of what is tracked -/

/-- Two tracked values of one length compete: one may be replaced in the marker of the other, or
they overlap in a text that holds no longer value. -/
def Contested (r : Redactor) (u v : String) : Prop :=
  u ≠ v ∧ u.length = v.length ∧ u ≠ redactedMarker ∧ v ≠ redactedMarker ∧
    (¬ Apparent u ∨ ¬ Apparent v ∨ ∃ w, Overlapping u.toList v.toList w ∧
      ∀ x ∈ r, u.length < x.length → Apparent x → ¬ x.toList <:+: w)

theorem replace_comm {r : Redactor} {u v text : String} (hu : u ≠ "") (hv : v ≠ "")
    (hlen : u.length = v.length) (huv : ¬ Contested r u v) (hvu : ¬ Contested r v u)
    (hdone : ∀ x ∈ r, u.length < x.length → Apparent x → ¬ Holds text x) :
    replace (replace text u redactedMarker) v redactedMarker =
      replace (replace text v redactedMarker) u redactedMarker := by
  have hsame : ∀ t, replace t redactedMarker redactedMarker = t := by
    intro t
    refine String.toList_inj.1 ?_
    rw [toList_replace]
    exact replaced_self (by decide) t.toList
  by_cases hne : u = v
  · rw [hne]
  by_cases hmu : u = redactedMarker
  · rw [hmu, hsame, hsame]
  by_cases hmv : v = redactedMarker
  · rw [hmv, hsame, hsame]
  have hclear : Apparent u ∧ Apparent v := by
    by_contra hnot
    rw [not_and_or] at hnot
    exact huv ⟨hne, hlen, hmu, hmv, hnot.imp_right Or.inl⟩
  have hapart : ∀ {a b : String}, a ≠ b → a.length = b.length → a ≠ redactedMarker →
      b ≠ redactedMarker → u.length = a.length → ¬ Contested r a b →
      Apart a.toList b.toList text.toList := by
    intro a b hab hlen' ha hb hua hno w hw hin
    refine hno ⟨hab, hlen', ha, hb, Or.inr (Or.inr ⟨w, hw, fun x hx hlt hax hxw => ?_⟩)⟩
    exact hdone x hx (hua ▸ hlt) hax (hxw.trans hin)
  refine String.toList_inj.1 ?_
  rw [toList_replace, toList_replace, toList_replace, toList_replace]
  exact replaced_comm (toList_ne_nil hu) (toList_ne_nil hv)
    (by rw [String.length_toList, String.length_toList, hlen]) hclear.1 hclear.2
    (hapart hne hlen hmu hmv rfl huv) (hapart (Ne.symm hne) hlen.symm hmv hmu hlen hvu)

mutual

theorem redactConfig_congr {r r' : Redactor} (h : ∀ text, r.redact text = r'.redact text) :
    (v : Value) → redactConfig r v = redactConfig r' v
  | .none | .bool _ | .int _ | .float _ | .object _ _ => rfl
  | .str s => congrArg Value.str (h s)
  | .list l => congrArg Value.list (redactList_congr h l)
  | .dict items => congrArg Value.dict (redactItems_congr h items)

theorem redactList_congr {r r' : Redactor} (h : ∀ text, r.redact text = r'.redact text) :
    (l : List Value) → redactList r l = redactList r' l
  | [] => rfl
  | v :: l => by rw [redactList, redactList, redactConfig_congr h v, redactList_congr h l]

theorem redactItems_congr {r r' : Redactor} (h : ∀ text, r.redact text = r'.redact text) :
    (l : List (String × Value)) → redactItems r l = redactItems r' l
  | [] => rfl
  | (k, v) :: l => by
    rw [redactItems, redactItems, redactConfig_congr h v, redactItems_congr h l]

end

theorem redact_perm {r r' : Redactor} (hr : ∀ v ∈ r, v ≠ "") (hperm : r.Perm r')
    (h : ∀ u ∈ r, ∀ v ∈ r, ¬ Contested r u v) (text : String) : r.redact text = r'.redact text := by
  refine foldl_sortedBy_perm (fun v t => Apparent v → ¬ Holds t v) r ?_ ?_ ?_ (fun _ => Iff.rfl)
    hperm text
  · exact fun v _ t hv => Redactor.not_holds_replaced hv
  · exact fun v _ u hu t ht hv => Redactor.not_holds_replace (hr u hu) hv (ht hv)
  · intro u hu v hv t hkey hdone
    have hlen : u.length = v.length := by omega
    refine replace_comm (hr u hu) (hr v hv) hlen (h u hu v hv) (h v hv u hu) ?_
    intro x hx hlt hax
    exact hdone x hx (by omega) hax

/-! ### where the order shows -/

/-- the first of the values of its length is gone through before the others of that length -/
theorem sortedBy_first (u : String) (l : List String) :
    ∃ longer others, sortedBy (fun v => -(v.length : Int)) (u :: l) = longer ++ u :: others ∧
      ∀ x ∈ longer, u.length < x.length := by
  have hcons : sortedBy (fun v : String => -(v.length : Int)) (u :: l) =
      (sortedBy (fun v : String => -(v.length : Int)) l).orderedInsert
        (fun a b => -(a.length : Int) ≤ -(b.length : Int)) u := rfl
  rw [hcons, List.orderedInsert_eq_take_drop]
  refine ⟨_, _, rfl, fun x hx => ?_⟩
  have hnot := List.mem_takeWhile_imp hx
  rw [decide_eq_true_eq] at hnot
  omega

theorem foldl_marker {l : List String} {a b : List Char} {n : Nat} (ha : a.length < n)
    (hb : b.length < n) (hl : ∀ v ∈ l, Apparent v ∧ n ≤ v.length) :
    l.foldl (fun t v => replace t v redactedMarker)
      (String.ofList (a ++ (redactedMarker.toList ++ b))) =
        String.ofList (a ++ (redactedMarker.toList ++ b)) := by
  refine Redactor.foldl_absent fun v hv => ?_
  obtain ⟨hv, hn⟩ := hl v hv
  rw [← String.length_toList] at hn
  refine ⟨hv.nonempty, fun hin => ?_⟩
  unfold Holds at hin
  rw [String.toList_ofList] at hin
  rcases hv.infix_sides hin with hin | hin
  · have hle := hin.length_le
    omega
  · have hle := hin.length_le
    omega

theorem marker_unbordered : ∀ s ∈ redactedMarker.toList.tails, s ≠ [] →
    s <+: redactedMarker.toList → s = redactedMarker.toList := by decide

/-- what the value that goes first leaves of a text that it occurs in, with less than another value
around it -/
theorem redact_first {r : Redactor} {u : String} {w : List Char}
    (hr : ∀ x ∈ u :: r, Apparent x ∧ u.length ≤ x.length)
    (hw : w.length < u.length + u.length) (hin : u.toList <:+: w)
    (hlonger : ∀ x ∈ r, u.length < x.length → ¬ x.toList <:+: w) :
    ∃ before behind, w = before ++ (u.toList ++ behind) ∧
      Redactor.redact (u :: r) (String.ofList w) =
        String.ofList (before ++ (redactedMarker.toList ++ behind)) := by
  have hu := (hr u List.mem_cons_self).1
  obtain ⟨before, behind, hsplit, hfirst⟩ := replaced_first redactedMarker.toList
    (toList_ne_nil hu.nonempty) hin
  obtain ⟨longer, others, hsorted, hlong⟩ := sortedBy_first u r
  have hmem : ∀ x, x ∈ longer ++ u :: others → x ∈ u :: r := by
    intro x hx
    rw [← hsorted] at hx
    exact mem_sortedBy.1 hx
  have hlen := congrArg List.length hsplit
  rw [List.length_append, List.length_append, String.length_toList] at hlen
  have hrest : replaced u.toList redactedMarker.toList behind = behind := by
    refine replaced_eq_self (toList_ne_nil hu.nonempty) fun hin => ?_
    have hle := hin.length_le
    rw [String.length_toList] at hle
    omega
  refine ⟨before, behind, hsplit, ?_⟩
  have hsame : longer.foldl (fun t v => replace t v redactedMarker) (String.ofList w) =
      String.ofList w := by
    refine Redactor.foldl_absent fun x hx => ?_
    have hxr := hmem x (List.mem_append_left _ hx)
    refine ⟨(hr x hxr).1.nonempty, ?_⟩
    unfold Holds
    rw [String.toList_ofList]
    rcases List.mem_cons.1 hxr with rfl | hxr
    · exact absurd (hlong x hx) (lt_irrefl _)
    · exact hlonger x hxr (hlong x hx)
  have hone : replace (String.ofList w) u redactedMarker =
      String.ofList (before ++ (redactedMarker.toList ++ behind)) := by
    refine String.toList_inj.1 ?_
    rw [toList_replace, String.toList_ofList, String.toList_ofList, hfirst, hrest]
  unfold Redactor.redact
  rw [hsorted, List.foldl_append, hsame, List.foldl_cons, hone]
  refine foldl_marker (n := u.length) (by omega) (by omega) fun x hx => ?_
  exact hr x (hmem x (List.mem_append_right _ (List.mem_cons_of_mem u hx)))

/-- two values that give way at different places leave different texts -/
theorem markers_differ {u k a h h' : List Char} (hu : Clear u redactedMarker.toList)
    (hk : k ≠ []) (hsplit : u ++ h = k ++ a) (hlen : k.length ≤ u.length) :
    redactedMarker.toList ++ h ≠ k ++ (redactedMarker.toList ++ h') := by
  intro heq
  have hku : k <+: u := by
    have hk' : k <+: u ++ h := by
      rw [hsplit]
      exact List.prefix_append k a
    exact List.prefix_of_prefix_length_le hk' (List.prefix_append u h) hlen
  rcases List.prefix_or_prefix_of_prefix (List.prefix_append redactedMarker.toList h)
    (show k <+: redactedMarker.toList ++ h from heq ▸ List.prefix_append k _) with hin | ⟨s, hs⟩
  · exact hu.outside (hin.isInfix.trans hku.isInfix)
  · rw [← hs, List.append_assoc, List.append_cancel_left_eq, hs] at heq
    rcases eq_or_ne s [] with rfl | hne
    · rw [List.append_nil] at hs
      rw [hs] at hku
      exact hu.outside hku.isInfix
    · have hpre : s <+: redactedMarker.toList := by
        have hm : redactedMarker.toList <+: s ++ h := by
          rw [heq]
          exact List.prefix_append _ h'
        refine List.prefix_of_prefix_length_le (List.prefix_append s h) hm ?_
        rw [← hs, List.length_append]
        omega
      have hall := marker_unbordered s ((List.mem_tails _ _).2 ⟨k, hs⟩) hne hpre
      have hlen' := congrArg List.length hs
      rw [hall, List.length_append] at hlen'
      exact hk (List.length_eq_zero_iff.1 (by omega))

/-- **The order shows** where two values compete that are as short as any. -/
theorem order_shows {r : Redactor} {u v : String} (hu : u ∈ r) (hv : v ∈ r)
    (h : Contested r u v) (hr : ∀ x ∈ r, Apparent x ∧ u.length ≤ x.length) :
    ∃ r₁ r₂ text, r₁.Perm r ∧ r₂.Perm r ∧ Redactor.redact r₁ text ≠ Redactor.redact r₂ text := by
  obtain ⟨hne, hlen, -, -, hbad | hbad | ⟨w, hover, hfree⟩⟩ := h
  · exact absurd (hr u hu).1 hbad
  · exact absurd (hr v hv).1 hbad
  obtain ⟨x, y, z, hy, hux, hvy, rfl⟩ := hover
  have hperm₁ := List.perm_cons_erase hu
  have hperm₂ := List.perm_cons_erase hv
  have hpos := List.length_pos_iff.2 hy
  have hlu := congrArg List.length hux
  have hlv := congrArg List.length hvy
  rw [List.length_append, String.length_toList] at hlu hlv
  have hwlen : (x ++ (y ++ z)).length = x.length + (y.length + z.length) := by
    rw [List.length_append, List.length_append]
  have hinu : u.toList <:+: x ++ (y ++ z) := by
    rw [hux, ← List.append_assoc]
    exact (List.prefix_append _ z).isInfix
  have hinv : v.toList <:+: x ++ (y ++ z) := by
    rw [hvy]
    exact (List.suffix_append x _).isInfix
  obtain ⟨g, h, hsplit₁, hred₁⟩ := redact_first (r := r.erase u)
    (fun a ha => hr a (hperm₁.mem_iff.2 ha)) (by omega) hinu
    (fun a ha hlt => hfree a (List.mem_of_mem_erase ha) hlt (hr a (List.mem_of_mem_erase ha)).1)
  obtain ⟨g', h', hsplit₂, hred₂⟩ := redact_first (r := r.erase v)
    (fun a ha => hlen ▸ hr a (hperm₂.mem_iff.2 ha)) (by omega) hinv
    (fun a ha hlt => hfree a (List.mem_of_mem_erase ha) (hlen ▸ hlt)
      (hr a (List.mem_of_mem_erase ha)).1)
  refine ⟨u :: r.erase u, v :: r.erase v, String.ofList (x ++ (y ++ z)), hperm₁.symm, hperm₂.symm,
    ?_⟩
  rw [hred₁, hred₂]
  intro hsame
  have htexts := congrArg String.toList hsame
  rw [String.toList_ofList, String.toList_ofList] at htexts
  have hlen₁ := congrArg List.length hsplit₁
  have hlen₂ := congrArg List.length hsplit₂
  simp only [List.length_append, String.length_toList] at hlen₁ hlen₂
  rw [hsplit₁] at hsplit₂
  rcases List.prefix_or_prefix_of_prefix (List.prefix_append g (u.toList ++ h))
    (hsplit₂ ▸ List.prefix_append g' (v.toList ++ h')) with ⟨k, rfl⟩ | ⟨k, rfl⟩
  · rw [List.append_assoc, List.append_cancel_left_eq] at hsplit₂ htexts
    rcases eq_or_ne k [] with rfl | hk
    · exact hne (String.toList_inj.1 (List.append_inj_left hsplit₂
        (by rw [String.length_toList, String.length_toList, hlen])))
    · rw [List.length_append] at hlen₂
      exact markers_differ (hr u hu).1 hk hsplit₂ (by rw [String.length_toList]; omega) htexts
  · rw [List.append_assoc, List.append_cancel_left_eq] at hsplit₂ htexts
    rcases eq_or_ne k [] with rfl | hk
    · exact hne (String.toList_inj.1 (List.append_inj_left hsplit₂
        (by rw [String.length_toList, String.length_toList, hlen])))
    · rw [List.length_append] at hlen₁
      exact markers_differ (hr v hv).1 hk hsplit₂.symm (by rw [String.length_toList]; omega)
        htexts.symm

/-- **The order in which values are tracked does not show**, nor the one in which they are gone
through, where no two of them compete.  It does show where two compete that are as short as any. -/
theorem redact_order (adds : List String) :
    ((∀ u ∈ Redactor.tracked adds, ∀ v ∈ Redactor.tracked adds,
        ¬ Contested (Redactor.tracked adds) u v) →
      ∀ adds' (r r' : Redactor), (∀ v, v ∈ Redactor.tracked adds ↔ v ∈ Redactor.tracked adds') →
        r.Perm (Redactor.tracked adds) → r'.Perm (Redactor.tracked adds') →
        (∀ text, r.redact text = r'.redact text) ∧
          ∀ config, redactConfig r config = redactConfig r' config) ∧
    ∀ u ∈ Redactor.tracked adds, ∀ v ∈ Redactor.tracked adds,
      Contested (Redactor.tracked adds) u v →
      (∀ x ∈ Redactor.tracked adds, Apparent x ∧ u.length ≤ x.length) →
      ∃ (r r' : Redactor) (text : String), r.Perm (Redactor.tracked adds) ∧
        r'.Perm (Redactor.tracked adds) ∧ r.redact text ≠ r'.redact text := by
  refine ⟨fun h adds' r r' hsame hr hr' => ?_, fun u hu v hv h hall => order_shows hu hv h hall⟩
  have hperm : (Redactor.tracked adds).Perm (Redactor.tracked adds') :=
    (List.perm_ext_iff_of_nodup (Redactor.tracked_nodup adds)
      (Redactor.tracked_nodup adds')).2 hsame
  have hne : ∀ v ∈ Redactor.tracked adds, v ≠ "" := fun v hv => Redactor.tracked_nonempty hv
  have htext : ∀ text, r.redact text = r'.redact text := by
    intro text
    rw [← redact_perm hne hr.symm h text, redact_perm hne (hperm.trans hr'.symm) h text]
  exact ⟨htext, redactConfig_congr htext⟩

theorem redact_order_apart :
    (∀ text, Redactor.redact ["ab", "cd"] text = Redactor.redact ["cd", "ab"] text) ∧
      ∀ config, redactConfig ["ab", "cd"] config = redactConfig ["cd", "ab"] config := by
  refine (redact_order ["ab", "cd"]).1 ?_ ["cd", "ab"] _ _ ?_ (.refl _) (.refl _)
  · have happarent : ∀ u ∈ Redactor.tracked ["ab", "cd"], Apparent u := by decide +kernel
    have hends : ∀ u ∈ Redactor.tracked ["ab", "cd"], ∀ v ∈ Redactor.tracked ["ab", "cd"], u ≠ v →
        ∀ y ∈ v.toList.inits, y ≠ [] → ¬ y <:+ u.toList := by decide +kernel
    rintro u hu v hv ⟨hne, -, -, -, hbad | hbad | ⟨w, hover, -⟩⟩
    · exact hbad (happarent u hu)
    · exact hbad (happarent v hv)
    · exact not_overlapping (hends u hu v hv hne) w hover
  · intro v
    have hsets : Redactor.tracked ["ab", "cd"] = ["ab", "cd"] ∧
        Redactor.tracked ["cd", "ab"] = ["cd", "ab"] := by decide
    rw [hsets.1, hsets.2]
    simp [or_comm]

theorem redact_order_overlapping : ¬ ∀ (adds adds' : List String) (r r' : Redactor),
    (∀ v, v ∈ Redactor.tracked adds ↔ v ∈ Redactor.tracked adds') →
    r.Perm (Redactor.tracked adds) → r'.Perm (Redactor.tracked adds') →
    (∀ text, r.redact text = r'.redact text) ∧
      ∀ config, redactConfig r config = redactConfig r' config := by
  intro h
  have hsets : Redactor.tracked ["ab", "bc"] = ["ab", "bc"] ∧
      Redactor.tracked ["bc", "ab"] = ["bc", "ab"] := by decide
  have htext := (h ["ab", "bc"] ["bc", "ab"] ["ab", "bc"] ["bc", "ab"] (fun v => by
    rw [hsets.1, hsets.2]
    simp [or_comm]) (by rw [hsets.1]) (by rw [hsets.2])).1 "abc"
  exact absurd htext (by decide +kernel)

end Chassis
