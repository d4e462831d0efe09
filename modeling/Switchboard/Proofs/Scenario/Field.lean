import Switchboard.Scenario.Basic

/-! What is known of a field once its check has let it pass, and which fields pass. A check looks at
its own field alone, whatever else the object holds. -/
namespace Switchboard

theorem bind_eq_ok {ε α β : Type} {x : Except ε α} {f : α → Except ε β} {b : β} :
    x >>= f = .ok b ↔ ∃ a, x = .ok a ∧ f a = .ok b := by
  cases x <;> simp [bind, Except.bind]

theorem ok_bind {ε α β : Type} (a : α) (f : α → Except ε β) : Except.ok a >>= f = f a := rfl

theorem pure_eq_ok {ε α : Type} {a b : α} : (pure a : Except ε α) = .ok b ↔ a = b := by
  simp [pure, Except.pure]

def Lacks (fs : List (Text × Json)) (key : String) : Prop :=
  Json.field? key.toList fs = none ∨ Json.field? key.toList fs = some .null

def Gives (fs : List (Text × Json)) (key : String) (j : Json) : Prop :=
  Json.field? key.toList fs = some j

def GivesToken (fs : List (Text × Json)) (key : String) (t : Text) : Prop :=
  Gives fs key (.str t) ∧ Message.IsToken t

def GivesNat (fs : List (Text × Json)) (key : String) (bound n : Nat) : Prop :=
  Gives fs key (.nat n) ∧ n ≤ bound

/-- A field that is given and not null is not missing. -/
theorem Gives.not_lacks {fs : List (Text × Json)} {key : String} {j : Json} (h : Gives fs key j)
    (hj : j ≠ .null) : ¬Lacks fs key := by
  rintro (hn | hn)
  · exact absurd (h.symm.trans hn) (by simp)
  · exact hj (Option.some.inj (h.symm.trans hn))

namespace Record
open Message (IsToken)

variable {r : Record} {key : String} {t : Text} {j : Json} {bound n : Nat}

theorem fault_ne_ok {α : Type} (r : Record) (key reason : String) (a : α) :
    r.fault key reason ≠ .ok a := by
  simp [fault]

theorem ofJson_eq_ok_iff {path : Text} :
    ofJson path j = .ok r ↔ ∃ fs, j = .obj fs ∧ r = ⟨path, fs⟩ := by
  constructor
  · intro h
    cases j with
    | obj fs => exact ⟨fs, rfl, (Except.ok.inj h).symm⟩
    | _ => cases h
  · rintro ⟨fs, rfl, rfl⟩
    rfl

theorem get?_eq_none_iff : r.get? key = none ↔ Lacks r.fields key := by
  unfold get? Lacks
  split <;> simp_all

theorem get?_eq_some_iff : r.get? key = some j ↔ Gives r.fields key j ∧ j ≠ .null := by
  unfold get? Gives
  split
  next h =>
    rw [h]
    simpa using fun hj : Json.null = j => hj.symm
  next h =>
    refine ⟨fun hj => ⟨hj, ?_⟩, fun hj => hj.1⟩
    rintro rfl
    exact h hj

theorem require_eq_ok_iff : r.require key = .ok j ↔ Gives r.fields key j ∧ j ≠ .null := by
  rw [← get?_eq_some_iff, require]
  cases r.get? key <;> simp [fault]

theorem text_eq_ok_iff : r.text key = .ok t ↔ Gives r.fields key (.str t) := by
  refine ⟨fun h => ?_, fun h => bind_eq_ok.2 ⟨_, require_eq_ok_iff.2 ⟨h, by simp⟩, rfl⟩⟩
  obtain ⟨j, hj, h⟩ := bind_eq_ok.1 h
  split at h
  next u =>
    obtain rfl := Except.ok.inj h
    exact (require_eq_ok_iff.1 hj).1
  next => exact absurd h (r.fault_ne_ok _ _ _)

theorem token_eq_ok_iff : r.token key = .ok t ↔ GivesToken r.fields key t := by
  constructor
  · intro h
    obtain ⟨u, hu, h⟩ := bind_eq_ok.1 h
    split at h
    next => exact absurd h (r.fault_ne_ok _ _ _)
    next hne =>
      split at h
      next => exact absurd h (r.fault_ne_ok _ _ _)
      next hb =>
        obtain rfl : u = t := by simpa using h
        exact ⟨text_eq_ok_iff.1 hu, hne, by simpa using hb⟩
  · rintro ⟨ht, hne, hb⟩
    refine bind_eq_ok.2 ⟨t, text_eq_ok_iff.2 ht, ?_⟩
    rw [if_neg hne, if_neg (by simpa using hb)]

theorem isToken_of_token (r : Record) (key : String) (t : Text) (h : r.token key = .ok t) :
    IsToken t :=
  (token_eq_ok_iff.1 h).2

theorem line_eq_ok_iff :
    r.line key = .ok t ↔ Gives r.fields key (.str t) ∧ '\r' ∉ t ∧ '\n' ∉ t := by
  have hany : (t.any fun c => c = '\r' || c = '\n') = false ↔ '\r' ∉ t ∧ '\n' ∉ t := by
    rw [List.any_eq_false]
    constructor
    · intro h
      exact ⟨fun hr => h _ hr (by simp), fun hn => h _ hn (by simp)⟩
    · rintro ⟨hr, hn⟩ c hc h
      obtain rfl | rfl : c = '\r' ∨ c = '\n' := by simpa using h
      · exact hr hc
      · exact hn hc
  rw [← hany]
  constructor
  · intro h
    obtain ⟨u, hu, h⟩ := bind_eq_ok.1 h
    split at h
    next => exact absurd h (r.fault_ne_ok _ _ _)
    next hb =>
      obtain rfl : u = t := by simpa using h
      exact ⟨text_eq_ok_iff.1 hu, by simpa using hb⟩
  · rintro ⟨ht, hb⟩
    refine bind_eq_ok.2 ⟨t, text_eq_ok_iff.2 ht, ?_⟩
    rw [hb]
    rfl

theorem feed_not_mem_of_line (r : Record) (key : String) (t : Text) (h : r.line key = .ok t) :
    '\n' ∉ t :=
  (line_eq_ok_iff.1 h).2.2

/-- No number that a document gives is beyond 64 bits. -/
theorem nat_eq_ok_iff (hb : bound ≤ maxWord) :
    r.nat key bound = .ok n ↔ GivesNat r.fields key bound n := by
  constructor
  · intro h
    obtain ⟨j, hj, h⟩ := bind_eq_ok.1 h
    split at h
    next u =>
      split at h
      next hu =>
        obtain rfl := Except.ok.inj h
        have hn : Json.nat u.toNat = .num (.natural u) := by simp [Json.nat]
        exact ⟨hn ▸ (require_eq_ok_iff.1 hj).1, hu⟩
      next => simp at h
    next => exact absurd h (r.fault_ne_ok _ _ _)
    next => exact absurd h (r.fault_ne_ok _ _ _)
  · rintro ⟨hg, hn⟩
    have hlt : n < UInt64.size := Nat.lt_of_le_of_lt (Nat.le_trans hn hb) (by decide)
    have hto : n.toUInt64.toNat = n := UInt64.toNat_ofNat_of_lt' hlt
    refine bind_eq_ok.2 ⟨.nat n, require_eq_ok_iff.2 ⟨hg, by simp [Json.nat]⟩, ?_⟩
    simp only [Json.nat, hto, if_pos hn]

theorem list_eq_ok_iff {js : List Json} :
    r.list key = .ok js ↔ Gives r.fields key (.arr js) := by
  refine ⟨fun h => ?_, fun h => bind_eq_ok.2 ⟨_, require_eq_ok_iff.2 ⟨h, by simp⟩, rfl⟩⟩
  obtain ⟨j, hj, h⟩ := bind_eq_ok.1 h
  split at h
  next u =>
    obtain rfl := Except.ok.inj h
    exact (require_eq_ok_iff.1 hj).1
  next => exact absurd h (r.fault_ne_ok _ _ _)

/-- A field that may be missing is read as nothing, or as it is read otherwise. -/
theorem optional_eq_ok_iff {α : Type} {read : Record → String → Except Error α} {P : α → Prop}
    (hread : ∀ a, read r key = .ok a ↔ P a) (hP : ∀ a, P a → ¬Lacks r.fields key) {o : Option α} :
    r.optional key read = .ok o ↔ Lacks r.fields key ∧ o = none ∨ ∃ a, P a ∧ o = some a := by
  simp only [← hread] at hP ⊢
  unfold optional
  cases hg : r.get? key with
  | none =>
    have hl := get?_eq_none_iff.1 hg
    constructor
    · intro h
      exact .inl ⟨hl, (Except.ok.inj h).symm⟩
    · rintro (⟨-, rfl⟩ | ⟨a, ha, -⟩)
      · rfl
      · exact absurd hl (hP a ha)
  | some j =>
    have hl : ¬Lacks r.fields key := by simp [← get?_eq_none_iff, hg]
    cases hr : read r key with
    | error e => simp [Except.map, hl]
    | ok a => simp [Except.map, hl, eq_comm]

end Record

end Switchboard
