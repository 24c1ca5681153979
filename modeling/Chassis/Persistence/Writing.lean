import Chassis.Persistence.Data
import Chassis.Persistence.Json

/-!
# Canonical data and their texts, in either style

* `FloatFormat`      how floats are rounded and written; no comma and no bracket is in the text;
* `Canonical`        what `_canonicalize` makes of data: no tuple and no set is left;
* `Canonical.write`  what `json.dumps` writes of it;
* `write_delimits`   where the text ends can be read off it, and so can the text in every style;
* `sameText_of_dumps`   **what has one text in one style has one text in every style.**
-/

set_option linter.unusedSectionVars false

namespace Chassis

/-- what no number and no constant has in its text -/
def delimiter (c : Char) : Bool :=
  c = ',' || c = ':' || c = ' ' || c = '"' || c = '[' || c = ']' || c = '\x7b' || c = '\x7d'

/-- how floats are rounded to twelve decimals, and how `json.dumps` writes them -/
structure FloatFormat where
  round12 : PyFloat → PyFloat
  text : PyFloat → List Char
  text_ne_nil : ∀ f, text f ≠ []
  text_plain : ∀ f, ∀ c ∈ text f, delimiter c = false

/-- what `_canonicalize` makes of data -/
inductive Canonical
  | scalar (s : Scalar)
  | str (s : String)
  | list (l : List Canonical)
  | dict (items : List (String × Canonical))

namespace Canonical

section
variable {P : Canonical → Prop} (scalar : ∀ s, P (.scalar s)) (str : ∀ s, P (.str s))
  (list : ∀ l, (∀ v ∈ l, P v) → P (.list l))
  (dict : ∀ items, (∀ p ∈ items, P p.2) → P (.dict items))
include scalar str list dict

mutual

theorem inductOn : (v : Canonical) → P v
  | .scalar s => scalar s
  | .str s => str s
  | .list l => list l (inductAll l)
  | .dict items => dict items (inductWithin items)

theorem inductAll : (l : List Canonical) → ∀ v ∈ l, P v
  | [] => fun _ hv => nomatch hv
  | v :: l => List.forall_mem_cons.2 ⟨inductOn v, inductAll l⟩

theorem inductWithin : (l : List (String × Canonical)) → ∀ p ∈ l, P p.2
  | [] => fun _ hp => nomatch hp
  | (_, v) :: l => List.forall_mem_cons.2 ⟨inductOn v, inductWithin l⟩

end
end

end Canonical

variable (F : FloatFormat) (style : JsonStyle)

def Scalar.text : Scalar → List Char
  | .none => "null".toList
  | .bool b => if b then "true".toList else "false".toList
  | .int n => (toString n).toList
  | .float f => F.text f

/-- texts with commas between them -/
def JsonStyle.joined : List (List Char) → List Char
  | [] => []
  | t :: l => t ++ l.flatMap fun t => ',' :: (style.gap ++ t)

namespace Canonical

mutual

/-- `json.dumps`, of data whose mappings are sorted -/
def write : Canonical → List Char
  | .scalar s => s.text F
  | .str s => style.text s
  | .list l => '[' :: (style.joined (writeAll l) ++ [']'])
  | .dict items => '\x7b' :: (style.joined (writeItems items) ++ ['\x7d'])

def writeAll : List Canonical → List (List Char)
  | [] => []
  | v :: l => write v :: writeAll l

def writeItems : List (String × Canonical) → List (List Char)
  | [] => []
  | (k, v) :: l => (style.text k ++ ':' :: (style.gap ++ write v)) :: writeItems l

end

/-- the text of one item of a mapping -/
def writeItem (p : String × Canonical) : List Char :=
  style.text p.1 ++ ':' :: (style.gap ++ p.2.write F style)

theorem writeAll_eq (l : List Canonical) : writeAll F style l = l.map (write F style) := by
  induction l with
  | nil => rfl
  | cons v l ih => rw [writeAll, ih, List.map_cons]

theorem writeItems_eq (l : List (String × Canonical)) :
    writeItems F style l = l.map (writeItem F style) := by
  induction l with
  | nil => rfl
  | cons p l ih =>
    rw [writeItems, ih, List.map_cons]
    rfl

def dumps (v : Canonical) : String := String.ofList (v.write F style)

/-- one text in every style -/
def SameText (v w : Canonical) : Prop := ∀ style, v.write F style = w.write F style

end Canonical

open Canonical

/-! ## where a text ends -/

variable {F style}

/-- no number goes on here, and no constant -/
def Stops (x : List Char) : Prop := ∀ c ∈ x.head?, delimiter c = true

theorem stops_cons {c : Char} (h : delimiter c = true) (x : List Char) : Stops (c :: x) := by
  intro d hd
  cases hd
  exact h

theorem stops_nil : Stops [] := fun _ hc => nomatch hc

theorem plain_delimits {t u x y : List Char} (ht : ∀ c ∈ t, delimiter c = false)
    (hu : ∀ c ∈ u, delimiter c = false) (hx : Stops x) (hy : Stops y) (h : t ++ x = u ++ y) :
    t = u ∧ x = y := by
  have hspan : ∀ {t x : List Char}, (∀ c ∈ t, delimiter c = false) → Stops x →
      (t ++ x).takeWhile (fun c => !delimiter c) = t := by
    intro t x ht hx
    rw [List.takeWhile_append_of_pos fun c hc => by rw [ht c hc]; rfl]
    cases x with
    | nil => simp
    | cons c x =>
      rw [List.takeWhile_cons_of_neg (by rw [hx c rfl]; exact Bool.noConfusion), List.append_nil]
  have hsame : t = u := by
    rw [← hspan ht hx, h, hspan hu hy]
  refine ⟨hsame, ?_⟩
  rw [hsame] at h
  exact List.append_cancel_left h

theorem plain_of_all {l : List Char} (h : l.all (fun c => !delimiter c) = true) :
    ∀ c ∈ l, delimiter c = false := by
  intro c hc
  have hplain : (!delimiter c) = true := List.all_eq_true.1 h c hc
  rwa [Bool.not_eq_true'] at hplain

theorem scalar_plain (s : Scalar) : ∀ c ∈ s.text F, delimiter c = false := by
  intro c hc
  cases s with
  | none => exact plain_of_all (show "null".toList.all (fun c => !delimiter c) = true by decide) c hc
  | bool b =>
    have hconstant : ∀ b : Bool, (if b then "true".toList else "false".toList).all
        (fun c => !delimiter c) = true := by decide
    exact plain_of_all (hconstant b) c hc
  | int n =>
    have hdigit := numberChar_repr (n := n) hc
    by_contra hdelimiter
    rw [Bool.not_eq_false] at hdelimiter
    simp only [delimiter, Bool.or_eq_true, decide_eq_true_eq] at hdelimiter
    rcases hdelimiter with ((((((rfl | rfl) | rfl) | rfl) | rfl) | rfl) | rfl) | rfl <;>
      exact absurd hdigit (by decide)
  | float f => exact F.text_plain f c hc

theorem scalar_ne_nil (s : Scalar) : s.text F ≠ [] := by
  cases s with
  | none => exact (show "null".toList ≠ [] by decide)
  | bool b =>
    have hconstant : ∀ b : Bool, (if b then "true".toList else "false".toList) ≠ [] := by decide
    exact hconstant b
  | int n => exact repr_ne_nil n
  | float f => exact F.text_ne_nil f

/-- how a text begins -/
def Canonical.opening : Canonical → Option Char
  | .scalar _ => none
  | .str _ => some '"'
  | .list _ => some '['
  | .dict _ => some '\x7b'

variable (F style) in
theorem write_opening (v : Canonical) (x : List Char) : ∃ c rest,
    v.write F style ++ x = c :: rest ∧ c ≠ ']' ∧
      (v.opening = some c ∨ v.opening = none ∧ delimiter c = false) := by
  cases v with
  | scalar s =>
    obtain ⟨c, rest, hhead⟩ := List.exists_cons_of_ne_nil (scalar_ne_nil (F := F) s)
    have hc := scalar_plain s c (hhead ▸ List.mem_cons_self)
    refine ⟨c, rest ++ x, ?_, ?_, Or.inr ⟨rfl, hc⟩⟩
    · rw [write, hhead, List.cons_append]
    · rintro rfl
      cases hc
  | str s => exact ⟨'"', _, rfl, by decide, Or.inl rfl⟩
  | list l => exact ⟨'[', _, rfl, by decide, Or.inl rfl⟩
  | dict items => exact ⟨'\x7b', _, rfl, by decide, Or.inl rfl⟩

/-- texts that begin the same way are of one kind -/
theorem opening_of_write {v w : Canonical} {x y : List Char}
    (h : v.write F style ++ x = w.write F style ++ y) : v.opening = w.opening := by
  have hdelimiter : ∀ {v : Canonical} {c : Char}, v.opening = some c → delimiter c = true := by
    intro v c hv
    cases v <;> cases hv <;> decide
  obtain ⟨c, rest, hv, -, hopens⟩ := write_opening F style v x
  obtain ⟨d, rest', hw, -, hopens'⟩ := write_opening F style w y
  rw [h, hw] at hv
  obtain ⟨rfl, -⟩ := List.cons.inj hv
  rcases hopens with hopens | ⟨hopens, hplain⟩ <;> rcases hopens' with hopens' | ⟨hopens', hplain'⟩
  · rw [hopens, hopens']
  · rw [hdelimiter hopens] at hplain'
    cases hplain'
  · rw [hdelimiter hopens'] at hplain
    cases hplain
  · rw [hopens, hopens']

theorem text_delimits {s t : String} {x y : List Char} (h : style.text s ++ x = style.text t ++ y) :
    s = t ∧ x = y := by
  simp only [JsonStyle.text, List.cons_append, List.append_assoc, List.cons.injEq, true_and,
    List.nil_append] at h
  have hread := readText_length style s x
  rw [h, readText_length style t y] at hread
  obtain ⟨hst, hxy⟩ := Prod.mk.inj (Option.some.inj hread)
  exact ⟨String.toList_inj.1 hst.symm, hxy.symm⟩

theorem tail_delimits {α : Type} {f : α → List Char} {T : α → α → Prop} {close : Char}
    (hclose : delimiter close = true) (hcomma : close ≠ ',') {l : List α}
    (hf : ∀ a ∈ l, ∀ b x y, Stops x → Stops y → f a ++ x = f b ++ y → T a b ∧ x = y)
    {l' : List α} {x y : List Char}
    (h : (l.flatMap fun a => ',' :: (style.gap ++ f a)) ++ close :: x =
      (l'.flatMap fun a => ',' :: (style.gap ++ f a)) ++ close :: y) :
    List.Forall₂ T l l' ∧ x = y := by
  have hstops : ∀ (m : List α) (z : List Char),
      Stops ((m.flatMap fun a => ',' :: (style.gap ++ f a)) ++ close :: z) := by
    intro m z
    cases m with
    | nil => exact stops_cons hclose z
    | cons a m =>
      rw [List.flatMap_cons, List.cons_append, List.cons_append]
      exact stops_cons (by decide) _
  induction l generalizing l' with
  | nil =>
    cases l' with
    | nil => exact ⟨.nil, (List.cons.inj h).2⟩
    | cons b l' =>
      rw [List.flatMap_cons, List.cons_append, List.cons_append] at h
      exact absurd (List.cons.inj h).1 hcomma
  | cons a l ih =>
    cases l' with
    | nil =>
      rw [List.flatMap_cons, List.cons_append, List.cons_append] at h
      exact absurd (List.cons.inj h).1.symm hcomma
    | cons b l' =>
      rw [List.flatMap_cons, List.flatMap_cons, List.cons_append, List.cons_append,
        List.cons_append, List.cons_append, List.append_assoc, List.append_assoc,
        List.append_assoc, List.append_assoc] at h
      have hfirst := List.append_cancel_left (List.cons.inj h).2
      obtain ⟨hab, hrest⟩ := hf a List.mem_cons_self b _ _ (hstops l x) (hstops l' y) hfirst
      obtain ⟨hall, hxy⟩ := ih (fun a ha => hf a (List.mem_cons_of_mem _ ha)) hrest
      exact ⟨.cons hab hall, hxy⟩

theorem joined_delimits {α : Type} {f : α → List Char} {T : α → α → Prop} {close : Char}
    (hclose : delimiter close = true) (hcomma : close ≠ ',')
    (hhead : ∀ a x y, f a ++ x ≠ close :: y) {l : List α}
    (hf : ∀ a ∈ l, ∀ b x y, Stops x → Stops y → f a ++ x = f b ++ y → T a b ∧ x = y)
    {l' : List α} {x y : List Char}
    (h : style.joined (l.map f) ++ close :: x = style.joined (l'.map f) ++ close :: y) :
    List.Forall₂ T l l' ∧ x = y := by
  have htail : ∀ (m : List α) (z : List Char), Stops
      (((m.map f).flatMap fun t => ',' :: (style.gap ++ t)) ++ close :: z) := by
    intro m z
    cases m with
    | nil => exact stops_cons hclose z
    | cons a m =>
      rw [List.map_cons, List.flatMap_cons, List.cons_append, List.cons_append]
      exact stops_cons (by decide) _
  cases l with
  | nil =>
    cases l' with
    | nil => exact ⟨.nil, (List.cons.inj h).2⟩
    | cons b l' =>
      rw [List.map_cons, JsonStyle.joined, List.append_assoc] at h
      exact absurd h.symm (hhead b _ _)
  | cons a l =>
    cases l' with
    | nil =>
      rw [List.map_cons, JsonStyle.joined, List.append_assoc] at h
      exact absurd h (hhead a _ _)
    | cons b l' =>
      rw [List.map_cons, List.map_cons, JsonStyle.joined, JsonStyle.joined, List.append_assoc,
        List.append_assoc] at h
      obtain ⟨hab, hrest⟩ := hf a List.mem_cons_self b _ _ (htail l x) (htail l' y) h
      rw [List.flatMap_map, List.flatMap_map] at hrest
      obtain ⟨hall, hxy⟩ := tail_delimits hclose hcomma
        (fun a ha => hf a (List.mem_cons_of_mem _ ha)) hrest
      exact ⟨.cons hab hall, hxy⟩

/-! ## one text in every style -/

theorem sameText_list {l l' : List Canonical} (h : List.Forall₂ (SameText F) l l') :
    SameText F (.list l) (.list l') := by
  intro style
  have hall : l.map (write F style) = l'.map (write F style) := by
    induction h with
    | nil => rfl
    | cons hvw _ ih => rw [List.map_cons, List.map_cons, hvw style, ih]
  rw [write, write, writeAll_eq, writeAll_eq, hall]

theorem sameText_dict {l l' : List (String × Canonical)}
    (h : List.Forall₂ (fun p p' => p.1 = p'.1 ∧ SameText F p.2 p'.2) l l') :
    SameText F (.dict l) (.dict l') := by
  intro style
  have hall : l.map (writeItem F style) = l'.map (writeItem F style) := by
    induction h with
    | nil => rfl
    | cons hpp _ ih =>
      rw [List.map_cons, List.map_cons, writeItem, writeItem, hpp.1, hpp.2 style, ih]
  rw [write, write, writeItems_eq, writeItems_eq, hall]

/-- **Where a text ends can be read off it, and so can the text in every style.** -/
theorem write_delimits (v : Canonical) : ∀ w x y, Stops x → Stops y →
    v.write F style ++ x = w.write F style ++ y → SameText F v w ∧ x = y := by
  induction v using inductOn with
  | scalar s =>
    intro w x y hx hy h
    have hopening := opening_of_write h
    cases w with
    | scalar t =>
      obtain ⟨htext, hxy⟩ := plain_delimits (scalar_plain s) (scalar_plain t) hx hy h
      exact ⟨fun _ => htext, hxy⟩
    | _ => cases hopening
  | str s =>
    intro w x y hx hy h
    have hopening := opening_of_write h
    cases w with
    | str t =>
      obtain ⟨rfl, hxy⟩ := text_delimits h
      exact ⟨fun _ => rfl, hxy⟩
    | _ => cases hopening
  | list l ih =>
    intro w x y hx hy h
    have hopening := opening_of_write h
    cases w with
    | list l' =>
      simp only [write, writeAll_eq, List.cons_append, List.append_assoc, List.cons.injEq, true_and,
        List.nil_append] at h
      obtain ⟨hall, hxy⟩ := joined_delimits (by decide) (by decide) (fun v x y => by
        obtain ⟨c, rest, hv, hc, -⟩ := write_opening F style v x
        rw [hv]
        exact fun heq => hc (List.cons.inj heq).1) ih h
      exact ⟨sameText_list hall, hxy⟩
    | _ => cases hopening
  | dict items ih =>
    intro w x y hx hy h
    have hopening := opening_of_write h
    cases w with
    | dict items' =>
      simp only [write, writeItems_eq, List.cons_append, List.append_assoc, List.cons.injEq,
        true_and, List.nil_append] at h
      obtain ⟨hall, hxy⟩ := joined_delimits (T := fun p p' => p.1 = p'.1 ∧ SameText F p.2 p'.2)
        (by decide) (by decide) (fun p x y heq => absurd (List.cons.inj heq).1 (by decide))
        (fun p hp p' x y hx hy heq => by
          simp only [writeItem, List.append_assoc, List.cons_append] at heq
          obtain ⟨hkey, hrest⟩ := text_delimits heq
          have hvalue := List.append_cancel_left (List.cons.inj hrest).2
          obtain ⟨htext, hxy⟩ := ih p hp p'.2 x y hx hy hvalue
          exact ⟨⟨hkey, htext⟩, hxy⟩) h
      exact ⟨sameText_dict hall, hxy⟩
    | _ => cases hopening

/-- **What has one text in one style has one text in every style.** -/
theorem sameText_of_dumps {v w : Canonical} (h : v.dumps F style = w.dumps F style) :
    SameText F v w := by
  have htext : v.write F style ++ [] = w.write F style ++ [] := by
    rw [List.append_nil, List.append_nil]
    exact String.ofList_injective h
  exact (write_delimits v w [] [] stops_nil stops_nil htext).1

end Chassis
