import Mathlib.Data.List.Induction
import Mathlib.Tactic.IntervalCases
import Switchboard.Message.Codec

/-! Numbers in base ten: what is written reads back, it is a token, and nothing else is read but the
same with zeros or a plus sign in front. -/
namespace Switchboard.Text
open Message (IsToken)

theorem digit?_digit (n : Nat) (h : n < 10) : digit? (digit n) = some n := by
  interval_cases n <;> rfl

theorem isBlank_digit (n : Nat) (h : n < 10) : isBlank (digit n) = false := by
  interval_cases n <;> rfl

theorem mem_decimal (n : Nat) : ∀ c ∈ decimal n, ∃ d < 10, c = digit d := by
  fun_induction decimal n with
  | case1 n h => exact fun c hc => ⟨n, h, by simpa using hc⟩
  | case2 n h ih =>
    intro c hc
    obtain hc | hc := List.mem_append.1 hc
    · exact ih c hc
    · exact ⟨n % 10, Nat.mod_lt _ (by omega), by simpa using hc⟩

/-- What is not a digit is not in a number. -/
theorem not_mem_decimal {c : Char} (hc : digit? c = none) (n : Nat) : c ∉ decimal n := by
  intro h
  obtain ⟨d, hd, rfl⟩ := mem_decimal n c h
  simp [digit?_digit d hd] at hc

theorem isToken_decimal (n : Nat) : IsToken (decimal n) := by
  constructor
  · fun_cases decimal n <;> simp
  · intro c hc
    obtain ⟨d, hd, rfl⟩ := mem_decimal n c hc
    exact isBlank_digit d hd

theorem readDigits_append (value? : Char → Option Nat) (b n : Nat) (s t : Text) :
    readDigits value? b n (s ++ t) = (readDigits value? b n s).bind (readDigits value? b · t) := by
  induction s generalizing n with
  | nil => rfl
  | cons c s ih =>
    rw [List.cons_append, readDigits, readDigits]
    cases value? c with
    | none => rfl
    | some d => exact ih _

theorem readDigits_decimal (n : Nat) : readDigits digit? 10 0 (decimal n) = some n := by
  fun_induction decimal n with
  | case1 n h => simp [readDigits, digit?_digit n h]
  | case2 n h ih =>
    have hd : digit? (digit (n % 10)) = some (n % 10) := digit?_digit _ (Nat.mod_lt _ (by omega))
    rw [readDigits_append, ih]
    simp only [Option.bind_some, readDigits, hd, Option.some.injEq]
    omega

theorem readDecimal?_decimal (n : Nat) : readDecimal? (decimal n) = some n := by
  have h := readDigits_decimal n
  cases hd : decimal n with
  | nil => exact absurd hd (isToken_decimal n).1
  | cons c r => rw [readDecimal?, ← hd, h]; simp

theorem decimal_inj {m n : Nat} : decimal m = decimal n ↔ m = n := by
  refine ⟨fun h => ?_, congrArg decimal⟩
  simpa [readDecimal?_decimal] using congrArg readDecimal? h

theorem readNat?_decimal (bound n : Nat) (h : n ≤ bound) : readNat? bound (decimal n) = some n := by
  have hp : ∀ r, decimal n ≠ '+' :: r := by
    intro r hr
    have h : '+' ∉ decimal n := not_mem_decimal rfl n
    simp [hr] at h
  unfold readNat?
  split
  next r hr => exact absurd hr (hp r)
  next => simp [readDecimal?_decimal, h]

theorem digit?_eq_some_iff {c : Char} {d : Nat} : digit? c = some d ↔ d < 10 ∧ c = digit d := by
  constructor
  · intro h
    obtain ⟨⟨hl, hu⟩, h⟩ := Option.ite_none_right_eq_some.1 h
    have hl : 48 ≤ c.toNat := hl
    have hu : c.toNat ≤ 57 := hu
    obtain rfl := Option.some.inj h
    refine ⟨by omega, ?_⟩
    rw [digit, Nat.add_sub_cancel' hl, Char.ofNat_toNat]
  · rintro ⟨hd, rfl⟩
    exact digit?_digit d hd

theorem decimal_of_lt {n : Nat} (h : n < 10) : decimal n = [digit n] := by
  rw [decimal, if_pos h]

theorem decimal_push {m d : Nat} (hm : m ≠ 0) (hd : d < 10) :
    decimal (m * 10 + d) = decimal m ++ [digit d] := by
  rw [decimal, if_neg (by omega)]
  congr 3 <;> omega

/-- Zeros in front do not count. -/
theorem readDigits_zeros (k : Nat) (t : Text) :
    readDigits digit? 10 0 (List.replicate k '0' ++ t) = readDigits digit? 10 0 t := by
  induction k with
  | zero => rfl
  | succ k ih => exact ih

theorem eq_zeros_decimal {t : Text} {n : Nat} (ht : t ≠ []) (h : readDigits digit? 10 0 t = some n) :
    ∃ k, t = List.replicate k '0' ++ decimal n := by
  induction t using List.reverseRecOn generalizing n with
  | nil => exact absurd rfl ht
  | append_singleton s c ih =>
    rw [readDigits_append] at h
    obtain ⟨m, hs, h⟩ := Option.bind_eq_some_iff.1 h
    obtain ⟨d, hc, rfl⟩ : ∃ d, digit? c = some d ∧ m * 10 + d = n := by
      cases hc : digit? c <;> simp_all [readDigits]
    obtain ⟨hd, rfl⟩ := digit?_eq_some_iff.1 hc
    by_cases hne : s = []
    · subst hne
      obtain rfl : 0 = m := Option.some.inj hs
      exact ⟨0, by simp [decimal_of_lt hd]⟩
    obtain ⟨k, rfl⟩ := ih hne hs
    by_cases hm : m = 0
    · subst hm
      refine ⟨k + 1, ?_⟩
      rw [Nat.zero_mul, Nat.zero_add, decimal_of_lt hd, decimal_of_lt (by decide), List.replicate_succ']
      rfl
    · exact ⟨k, by rw [decimal_push hm hd, List.append_assoc]⟩

theorem readDecimal?_eq_some_iff {t : Text} {n : Nat} :
    readDecimal? t = some n ↔ ∃ k, t = List.replicate k '0' ++ decimal n := by
  constructor
  · intro h
    cases t with
    | nil => simp [readDecimal?] at h
    | cons c r => exact eq_zeros_decimal (by simp) h
  · rintro ⟨k, rfl⟩
    have h := (readDigits_zeros k (decimal n)).trans (readDigits_decimal n)
    cases ht : List.replicate k '0' ++ decimal n with
    | nil => exact absurd (List.append_eq_nil_iff.1 ht).2 (isToken_decimal n).1
    | cons c r => rwa [ht] at h

/-- A number in base ten, perhaps with a plus sign and zeros in front. -/
def IsNumeral (t : Text) (n : Nat) : Prop :=
  ∃ k, t = List.replicate k '0' ++ decimal n ∨ t = '+' :: (List.replicate k '0' ++ decimal n)

theorem readNat?_eq_some_iff {bound n : Nat} {t : Text} :
    readNat? bound t = some n ↔ n ≤ bound ∧ IsNumeral t n := by
  have hp (k : Nat) : '+' ∉ List.replicate k '0' ++ decimal n := by
    simp [not_mem_decimal (c := '+') rfl n]
  unfold readNat? IsNumeral
  split
  next r =>
    have hne (k : Nat) : '+' :: r ≠ List.replicate k '0' ++ decimal n := fun h => hp k (h ▸ by simp)
    simp [Option.filter_eq_some_iff, readDecimal?_eq_some_iff, hne, and_comm]
  next hr =>
    have hne (k : Nat) : t ≠ '+' :: (List.replicate k '0' ++ decimal n) := fun h => hr _ h
    simp [Option.filter_eq_some_iff, readDecimal?_eq_some_iff, hne, and_comm]

end Switchboard.Text

namespace Switchboard.StartLine
open Text (IsNumeral)

theorem code?_decimal (c : UInt16) : code? (Text.decimal c.toNat) = some c := by
  have h : c.toNat ≤ 65535 := Nat.le_of_lt_succ c.toNat_lt
  rw [code?, Text.readNat?_decimal 65535 c.toNat h]
  simp

theorem code?_eq_some_iff {t : Text} {c : UInt16} : code? t = some c ↔ IsNumeral t c.toNat := by
  unfold code?
  constructor
  · intro h
    obtain ⟨n, hn, rfl⟩ := Option.map_eq_some_iff.1 h
    obtain ⟨hle, ht⟩ := Text.readNat?_eq_some_iff.1 hn
    have hn : n.toUInt16.toNat = n := UInt16.toNat_ofNat_of_lt (Nat.lt_succ_of_le hle)
    rwa [hn]
  · intro h
    have hle : c.toNat ≤ 65535 := Nat.le_of_lt_succ c.toNat_lt
    simp [Text.readNat?_eq_some_iff.2 ⟨hle, h⟩]

end Switchboard.StartLine
