import Switchboard.Proofs.Scenario.Schema

/-! What a field is asked to hold, and the checks that ask it. Each check guards one field: when it
fails, the error names that field, and the field is missing without leave or holds what it may not. -/
namespace Switchboard
open Message (IsToken)

inductive Rule where
  | object
  | list
  | text
  /-- Not empty and without blanks. -/
  | token
  /-- A token without a colon. -/
  | name
  /-- A token with a slash. -/
  | version
  /-- A text on one line. -/
  | line
  | nat (bound : Nat)
  | positive (bound : Nat)
  deriving DecidableEq, Repr

def Rule.Admits : Rule → Json → Prop
  | object, j => ∃ fs, j = .obj fs
  | list, j => ∃ js, j = .arr js
  | text, j => ∃ t, j = .str t
  | token, j => ∃ t, j = .str t ∧ IsToken t
  | name, j => ∃ t, j = .str t ∧ IsToken t ∧ ':' ∉ t
  | version, j => ∃ t, j = .str t ∧ IsToken t ∧ '/' ∈ t
  | line, j => ∃ t, j = .str t ∧ '\r' ∉ t ∧ '\n' ∉ t
  | nat bound, j => ∃ n, j = .nat n ∧ n ≤ bound
  | positive bound, j => ∃ n, j = .nat n ∧ 0 < n ∧ n ≤ bound

theorem Rule.not_admits_null (r : Rule) : ¬r.Admits .null := by
  cases r <;> simp [Admits, Json.nat]

/-- The rule of one field. A field that is not required may be left out, or null. -/
structure FieldRule where
  key : String
  rule : Rule
  required : Bool := true

namespace FieldRule

def IsMet (f : FieldRule) (fs : List (Text × Json)) : Prop :=
  (f.required = false ∧ Lacks fs f.key) ∨ ∃ j, Gives fs f.key j ∧ f.rule.Admits j

def IsBroken (f : FieldRule) (fs : List (Text × Json)) : Prop :=
  (f.required = true ∧ Lacks fs f.key) ∨ ∃ j, Gives fs f.key j ∧ j ≠ .null ∧ ¬f.rule.Admits j

theorem isBroken_iff {f : FieldRule} {fs : List (Text × Json)} : f.IsBroken fs ↔ ¬f.IsMet fs := by
  constructor
  · rintro (⟨hr, hl⟩ | ⟨j, hg, hn, ha⟩) (⟨hr', hl'⟩ | ⟨k, hg', ha'⟩)
    · simp [hr] at hr'
    · refine hg'.not_lacks ?_ hl
      rintro rfl
      exact f.rule.not_admits_null ha'
    · exact hg.not_lacks hn hl'
    · obtain rfl := Option.some.inj (hg.symm.trans hg')
      exact ha ha'
  · intro h
    by_cases hl : Lacks fs f.key
    · left
      refine ⟨?_, hl⟩
      by_contra hr
      exact h (.inl ⟨by simpa using hr, hl⟩)
    · right
      cases hg : Json.field? f.key.toList fs with
      | none => exact absurd (.inl hg) hl
      | some j =>
        refine ⟨j, hg, ?_, fun ha => h (.inr ⟨j, hg, ha⟩)⟩
        rintro rfl
        exact hl (.inr hg)

end FieldRule

theorem bind_eq_error {ε α β : Type} {x : Except ε α} {f : α → Except ε β} {e : ε} :
    x >>= f = .error e ↔ x = .error e ∨ ∃ a, x = .ok a ∧ f a = .error e := by
  cases x <;> simp [bind, Except.bind]

namespace Record
variable {α : Type} {r : Record} {key : String} {e : Error}

def Blames (r : Record) (key : String) (e : Error) : Prop :=
  ∃ reason, e = .invalidField (r.pathOf key.toList) reason

theorem blames_fault {reason : String} (h : r.fault (α := α) key reason = .error e) : r.Blames key e :=
  ⟨_, (Except.error.inj h).symm⟩

/-- A check behind a condition that must not hold. -/
theorem blames_unless {c : Prop} [Decidable c] {reason : String} {x : Except Error α}
    (hx : x = .error e → r.Blames key e) (h : (if c then r.fault key reason else x) = .error e) :
    r.Blames key e := by
  split at h
  next => exact blames_fault h
  next => exact hx h

theorem blames_require (h : r.require key = .error e) : r.Blames key e := by
  unfold require at h
  split at h
  next => cases h
  next => exact blames_fault h

theorem blames_text (h : r.text key = .error e) : r.Blames key e := by
  obtain h | ⟨j, -, h⟩ := bind_eq_error.1 h
  · exact blames_require h
  · split at h
    next => cases h
    next => exact blames_fault h

theorem blames_token (h : r.token key = .error e) : r.Blames key e := by
  obtain h | ⟨t, -, h⟩ := bind_eq_error.1 h
  · exact blames_text h
  · exact blames_unless (blames_unless (by simp)) h

theorem blames_line (h : r.line key = .error e) : r.Blames key e := by
  obtain h | ⟨t, -, h⟩ := bind_eq_error.1 h
  · exact blames_text h
  · exact blames_unless (by simp) h

theorem blames_nat {bound : Nat} (h : r.nat key bound = .error e) : r.Blames key e := by
  obtain h | ⟨j, -, h⟩ := bind_eq_error.1 h
  · exact blames_require h
  · split at h
    next =>
      split at h
      next => cases h
      next => exact ⟨_, (Except.error.inj h).symm⟩
    next => exact blames_fault h
    next => exact blames_fault h

theorem blames_list (h : r.list key = .error e) : r.Blames key e := by
  obtain h | ⟨j, -, h⟩ := bind_eq_error.1 h
  · exact blames_require h
  · split at h
    next => cases h
    next => exact blames_fault h

theorem blames_optional {read : Record → String → Except Error α}
    (hread : read r key = .error e → r.Blames key e) (h : r.optional key read = .error e) :
    r.Blames key e := by
  unfold optional at h
  split at h
  next =>
    cases hr : read r key with
    | error e' =>
      rw [hr] at h
      obtain rfl : e' = e := Except.error.inj h
      exact hread hr
    | ok a =>
      rw [hr] at h
      cases h
  next => cases h

theorem blames_positive {n : Nat} (h : Agent.positive r key n = .error e) : r.Blames key e :=
  blames_unless (by simp) h

/-- The check fails only when the rule of the field is broken, and then its error names the field. -/
def Guards (r : Record) (f : FieldRule) (x : Except Error α) : Prop :=
  ∀ e, x = .error e → f.IsBroken r.fields ∧ r.Blames f.key e

/-- A check guards a field if it passes when the rule is met. -/
theorem guards_of_isMet {f : FieldRule} {x : Except Error α} (hb : ∀ e, x = .error e → r.Blames f.key e)
    (hm : f.IsMet r.fields → ∃ a, x = .ok a) : r.Guards f x := by
  refine fun e h => ⟨FieldRule.isBroken_iff.2 fun hf => ?_, hb e h⟩
  obtain ⟨a, ha⟩ := hm hf
  simp [ha] at h

theorem guards_object (r : Record) (key : String) : r.Guards ⟨key, .object, true⟩ (r.require key) := by
  refine guards_of_isMet (fun _ => blames_require) ?_
  rintro (⟨⟨⟩, -⟩ | ⟨_, hg, fs, rfl⟩)
  exact ⟨.obj fs, require_eq_ok_iff.2 ⟨hg, by simp⟩⟩

theorem guards_text (r : Record) (key : String) : r.Guards ⟨key, .text, true⟩ (r.text key) := by
  refine guards_of_isMet (fun _ => blames_text) ?_
  rintro (⟨⟨⟩, -⟩ | ⟨_, hg, t, rfl⟩)
  exact ⟨t, text_eq_ok_iff.2 hg⟩

theorem guards_token (r : Record) (key : String) : r.Guards ⟨key, .token, true⟩ (r.token key) := by
  refine guards_of_isMet (fun _ => blames_token) ?_
  rintro (⟨⟨⟩, -⟩ | ⟨_, hg, t, rfl, ht⟩)
  exact ⟨t, token_eq_ok_iff.2 ⟨hg, ht⟩⟩

theorem guards_line (r : Record) (key : String) : r.Guards ⟨key, .line, true⟩ (r.line key) := by
  refine guards_of_isMet (fun _ => blames_line) ?_
  rintro (⟨⟨⟩, -⟩ | ⟨_, hg, t, rfl, ht⟩)
  exact ⟨t, line_eq_ok_iff.2 ⟨hg, ht⟩⟩

theorem guards_nat (r : Record) (key : String) {bound : Nat} (hb : bound ≤ maxWord) :
    r.Guards ⟨key, .nat bound, true⟩ (r.nat key bound) := by
  refine guards_of_isMet (fun _ => blames_nat) ?_
  rintro (⟨⟨⟩, -⟩ | ⟨_, hg, n, rfl, hn⟩)
  exact ⟨n, (nat_eq_ok_iff hb).2 ⟨hg, hn⟩⟩

theorem guards_list (r : Record) (key : String) : r.Guards ⟨key, .list, true⟩ (r.list key) := by
  refine guards_of_isMet (fun _ => blames_list) ?_
  rintro (⟨⟨⟩, -⟩ | ⟨_, hg, js, rfl⟩)
  exact ⟨js, list_eq_ok_iff.2 hg⟩

/-- The check of a field that may be left out is the check of the field when it is there. -/
theorem Guards.optional {read : Record → String → Except Error α} {rule : Rule}
    (h : r.Guards ⟨key, rule, true⟩ (read r key)) :
    r.Guards ⟨key, rule, false⟩ (r.optional key read) := by
  intro e he
  refine ⟨?_, blames_optional (fun hr => (h e hr).2) he⟩
  unfold Record.optional at he
  split at he
  next j hj =>
    cases hr : read r key with
    | error e' =>
      obtain ⟨-, hl⟩ | hb := (h e' hr).1
      · simp [get?_eq_none_iff.2 hl] at hj
      · exact .inr hb
    | ok a =>
      rw [hr] at he
      cases he
  next => cases he

theorem guards_name (r : Record) (key reason : String) : r.Guards ⟨key, .name, true⟩
    (r.token key >>= fun t => if ':' ∈ t then r.fault key reason else .ok t) := by
  refine guards_of_isMet (fun e h => ?_) ?_
  · obtain h | ⟨t, -, h⟩ := bind_eq_error.1 h
    · exact blames_token h
    · exact blames_unless (by simp) h
  · rintro (⟨⟨⟩, -⟩ | ⟨_, hg, t, rfl, ht, hc⟩)
    exact ⟨t, bind_eq_ok.2 ⟨t, token_eq_ok_iff.2 ⟨hg, ht⟩, if_neg hc⟩⟩

theorem guards_version (r : Record) (key reason : String) : r.Guards ⟨key, .version, true⟩
    (r.token key >>= fun t => if '/' ∈ t then .ok t else r.fault key reason) := by
  refine guards_of_isMet (fun e h => ?_) ?_
  · obtain h | ⟨t, -, h⟩ := bind_eq_error.1 h
    · exact blames_token h
    · split at h
      next => cases h
      next => exact blames_fault h
  · rintro (⟨⟨⟩, -⟩ | ⟨_, hg, t, rfl, ht, hs⟩)
    exact ⟨t, bind_eq_ok.2 ⟨t, token_eq_ok_iff.2 ⟨hg, ht⟩, if_pos hs⟩⟩

theorem guards_positive (r : Record) (key : String) : r.Guards ⟨key, .positive maxWord, true⟩
    (r.nat key maxWord >>= Agent.positive r key) := by
  refine guards_of_isMet (fun e h => ?_) ?_
  · obtain h | ⟨n, -, h⟩ := bind_eq_error.1 h
    · exact blames_nat h
    · exact blames_positive h
  · rintro (⟨⟨⟩, -⟩ | ⟨_, hg, n, rfl, hpos, hn⟩)
    exact ⟨n, bind_eq_ok.2 ⟨n, (nat_eq_ok_iff (Nat.le_refl _)).2 ⟨hg, hn⟩,
      (Agent.positive_eq_ok_iff r key).2 ⟨rfl, hpos⟩⟩⟩

theorem guards_buffersize (r : Record) : r.Guards ⟨"buffersize", .positive maxWord, false⟩
    (r.optional "buffersize" (fun r k => r.nat k maxWord) >>= fun o =>
      Agent.positive r "buffersize" (o.getD Agent.defaultBuffersize)) := by
  refine guards_of_isMet (fun e h => ?_) fun hm => ?_
  · obtain h | ⟨o, -, h⟩ := bind_eq_error.1 h
    · exact blames_optional blames_nat h
    · exact blames_positive h
  · obtain ⟨n, hn⟩ : ∃ n, Lacks r.fields "buffersize" ∧ n = 1024 ∨
        GivesNat r.fields "buffersize" (Nat.pow 2 64 - 1) n ∧ 0 < n := by
      obtain ⟨-, hl⟩ | ⟨_, hg, n, rfl, hpos, hle⟩ := hm
      · exact ⟨1024, .inl ⟨hl, rfl⟩⟩
      · exact ⟨n, .inr ⟨⟨hg, hle⟩, hpos⟩⟩
    obtain ⟨o, ho⟩ := Agent.buffersize_eq_ok_iff.2 hn
    exact ⟨n, bind_eq_ok.2 ⟨o, ho⟩⟩

end Record
end Switchboard
