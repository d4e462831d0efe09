import Mathlib.Data.List.Forall2
import Switchboard.Text.Basic

/-! Equality of texts up to the case of letters, character by character. Only the letters of ASCII
have a second case, 32 places from the first. -/
namespace Switchboard.Text

def SameLetter (c d : Char) : Prop :=
  c = d ∨ (65 ≤ c.toNat ∧ c.toNat ≤ 90 ∧ d.toNat = c.toNat + 32) ∨
    (65 ≤ d.toNat ∧ d.toNat ≤ 90 ∧ c.toNat = d.toNat + 32)

/-- A large letter goes up 32 places, all else stays. -/
theorem toNat_toLower (c : Char) :
    c.toLower.toNat = if 65 ≤ c.toNat ∧ c.toNat ≤ 90 then c.toNat + 32 else c.toNat := by
  have hA : c.val ≥ 'A'.val ∧ c.val ≤ 'Z'.val ↔ 65 ≤ c.toNat ∧ c.toNat ≤ 90 :=
    and_congr UInt32.le_iff_toNat_le UInt32.le_iff_toNat_le
  unfold Char.toLower
  by_cases h : 65 ≤ c.toNat ∧ c.toNat ≤ 90
  · rw [dif_pos (hA.2 h), if_pos h]
    have hlt : c.toNat + 32 < 2 ^ 32 := by omega
    exact (UInt32.toNat_add c.val 32).trans (Nat.mod_eq_of_lt hlt)
  · rw [dif_neg (mt hA.1 h), if_neg h]

theorem toLower_eq_iff {c d : Char} : c.toLower = d.toLower ↔ SameLetter c d := by
  rw [← Char.toNat_inj, toNat_toLower, toNat_toLower, SameLetter, ← Char.toNat_inj]
  split <;> split <;> omega

theorem lower_eq_iff {s t : Text} : lower s = lower t ↔ List.Forall₂ SameLetter s t := by
  rw [lower, lower]
  induction s generalizing t with
  | nil => cases t <;> simp
  | cons c s ih =>
    cases t with
    | nil => simp
    | cons d t =>
      rw [List.map_cons, List.map_cons, List.cons.injEq, toLower_eq_iff, ih, List.forall₂_cons]

theorem sameLetters_iff {s t : Text} : sameLetters s t ↔ List.Forall₂ SameLetter s t := by
  rw [sameLetters, beq_iff_eq, lower_eq_iff]

end Switchboard.Text
