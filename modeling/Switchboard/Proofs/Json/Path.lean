import Switchboard.Json.Basic
import Switchboard.Proofs.Text.Decimal
import Switchboard.Proofs.Text.Words

/-! Places in a JSON document: what stands at a place, and how a place is written and read as a text
with dots before fields and brackets around the numbers of items. -/
namespace Switchboard.Json

inductive Hop where
  | field (name : Text)
  | item (n : Nat)
  deriving DecidableEq, Repr

abbrev Path := List Hop

def at? : Path → Json → Option Json
  | [], j => some j
  | .field name :: p, .obj fs => (field? name fs).bind (at? p)
  | .item n :: p, .arr js => js[n]?.bind (at? p)
  | _, _ => none

def Hop.text : Hop → Text
  | field name => '.' :: name
  | item n => '[' :: (Text.decimal n ++ [']'])

def Path.dotted : Path → Text
  | .field name :: p => name ++ p.flatMap Hop.text
  | p => p.flatMap Hop.text

def Path.text (p : Path) : Text := if p = [] then "<root>".toList else p.dotted

def Path.ofPart (t : Text) : Path :=
  match Text.cut '[' t with
  | [] => []
  | name :: items => .field name :: items.filterMap fun i => (Text.readDecimal? i.dropLast).map .item

def Path.ofText (t : Text) : Path :=
  if t = "<root>".toList then [] else (Text.cut '.' t).flatMap Path.ofPart

theorem at?_field (name : Text) (p : Path) (fs : List (Text × Json)) :
    at? (.field name :: p) (.obj fs) = (field? name fs).bind (at? p) := rfl

theorem at?_item (n : Nat) (p : Path) (js : List Json) :
    at? (.item n :: p) (.arr js) = js[n]?.bind (at? p) := rfl

theorem at?_append (p q : Path) (j : Json) : at? (p ++ q) j = (at? p j).bind (at? q) := by
  induction p generalizing j with
  | nil => rfl
  | cons h p ih =>
    cases h with
    | field name =>
      cases j with
      | obj fs =>
        rw [List.cons_append, at?_field, at?_field]
        cases field? name fs with
        | none => rfl
        | some k => exact ih k
      | _ => rfl
    | item n =>
      cases j with
      | arr js =>
        rw [List.cons_append, at?_item, at?_item]
        cases js[n]? with
        | none => rfl
        | some k => exact ih k
      | _ => rfl

namespace Path

def IsPlainName (name : Text) : Prop := name ≠ [] ∧ '.' ∉ name ∧ '[' ∉ name ∧ '<' ∉ name

inductive IsPlain : Path → Prop where
  | nil : IsPlain []
  | field {name : Text} {p : Path} : IsPlainName name → (∀ k, .field k ∈ p → IsPlainName k) →
      IsPlain (.field name :: p)

instance (name : Text) : Decidable (IsPlainName name) :=
  inferInstanceAs (Decidable (_ ∧ _ ∧ _ ∧ _))

theorem IsPlain.append_field {p : Path} {name : Text} (hp : p.IsPlain) (hn : IsPlainName name) :
    (p ++ [Hop.field name]).IsPlain := by
  cases hp with
  | nil => exact .field hn (by simp)
  | field hm hp =>
    refine .field hm fun k hk => ?_
    obtain hk | hk := List.mem_append.1 hk
    · exact hp k hk
    · obtain rfl : k = name := by simpa using hk
      exact hn

theorem IsPlain.dotted_eq_nil_iff {p : Path} (hp : p.IsPlain) : p.dotted = [] ↔ p = [] := by
  cases hp with
  | nil => simp [dotted]
  | field hn => simp [dotted, hn.1]

theorem dotted_append_hop {p : Path} (hp : p ≠ []) (h : Hop) :
    (p ++ [h]).dotted = p.dotted ++ h.text := by
  obtain ⟨_ | _, p, rfl⟩ := List.exists_cons_of_ne_nil hp <;> simp [dotted]

theorem ofPart_of_isPlainName {name : Text} (h : IsPlainName name) : ofPart name = [.field name] := by
  rw [ofPart, Text.cut_of_not_mem h.2.2.1]
  rfl

theorem ofPart_append_item (t : Text) (n : Nat) :
    ofPart (t ++ (Hop.item n).text) = ofPart t ++ [.item n] := by
  have hb : '[' ∉ Text.decimal n ++ [']'] := by
    simp [Text.not_mem_decimal (show Text.digit? '[' = none from rfl)]
  rw [ofPart, ofPart, Hop.text, Text.cut_append_cons, Text.cut_of_not_mem hb]
  cases hc : Text.cut '[' t with
  | nil => exact absurd hc (Text.cut_ne_nil _ _)
  | cons name items => simp [List.filterMap_append, Text.readDecimal?_decimal]

/-- Hops are read one after the other: a dot ends the part that was begun, an item belongs to it. -/
theorem ofPart_flatMap_cut (p : Path) (t : Text) (ht : '.' ∉ t)
    (hp : ∀ k, .field k ∈ p → IsPlainName k) :
    (Text.cut '.' (t ++ p.flatMap Hop.text)).flatMap ofPart = ofPart t ++ p := by
  induction p generalizing t with
  | nil => simp [Text.cut_of_not_mem ht]
  | cons h p ih =>
    have hp' : ∀ k, .field k ∈ p → IsPlainName k := fun k hk => hp k (List.mem_cons_of_mem _ hk)
    cases h with
    | field name =>
      have hn := hp name List.mem_cons_self
      rw [List.flatMap_cons, Hop.text, List.cons_append, Text.cut_append_cons, Text.cut_of_not_mem ht,
        List.flatMap_append, ih name hn.2.1 hp', ofPart_of_isPlainName hn]
      simp
    | item n =>
      have hd : '.' ∉ t ++ (Hop.item n).text := by
        simp [Hop.text, ht, Text.not_mem_decimal (show Text.digit? '.' = none from rfl)]
      rw [List.flatMap_cons, ← List.append_assoc, ih _ hd hp', ofPart_append_item, List.append_assoc]
      rfl

theorem ofText_text {p : Path} (hp : p.IsPlain) : ofText p.text = p := by
  cases hp with
  | nil => rfl
  | @field name p hn hp =>
    have hr : name ++ p.flatMap Hop.text ≠ "<root>".toList := by
      obtain ⟨c, r, rfl⟩ := List.exists_cons_of_ne_nil hn.1
      intro he
      obtain rfl : c = '<' := (List.cons.inj he).1
      exact hn.2.2.2 List.mem_cons_self
    rw [text, if_neg (by simp), dotted, ofText, if_neg hr, ofPart_flatMap_cut p name hn.2.1 hp,
      ofPart_of_isPlainName hn]
    rfl

end Path
end Switchboard.Json
