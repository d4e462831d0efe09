import Switchboard.Text.Utf8

/-! Encoded text decodes to itself: no fault is ever seen in it. -/
namespace Switchboard.Utf8

theorem not_lt_of_toNat {a k : UInt8} {n : Nat} (hk : k.toNat ≤ n) (ha : n ≤ a.toNat) : ¬a < k :=
  UInt8.not_lt.2 (UInt8.le_iff_toNat_le.2 (Nat.le_trans hk ha))

theorem lt_of_toNat {a k : UInt8} (h : a.toNat < k.toNat) : a < k := UInt8.lt_iff_toNat_lt.2 h

/-! How a character is read, by the number of its bytes. -/

theorem decodeFrom_one (i : Nat) {a : UInt8} (r : Bytes) (ha : a.toNat < 0x80) :
    decodeFrom i (a :: r) = (decodeFrom (i + 1) r).map (Char.ofNat a.toNat :: ·) := by
  have h : a < 0x80 := lt_of_toNat ha
  rw [decodeFrom.eq_def]
  simp only [if_pos h]

theorem decodeFrom_two (i : Nat) {a b : UInt8} (r : Bytes) (ha : 0xC2 ≤ a.toNat)
    (ha' : a.toNat < 0xE0) (hb : isTail b) :
    decodeFrom i (a :: b :: r) =
      (decodeFrom (i + 2) r).map (Char.ofNat ((a.toNat - 0xC0) * 64 + low6 b) :: ·) := by
  have h1 : ¬a < 0x80 := not_lt_of_toNat (by decide) ha
  have h2 : ¬a < 0xC2 := not_lt_of_toNat (by decide) ha
  have h3 : a < 0xE0 := lt_of_toNat ha'
  rw [decodeFrom.eq_def]
  simp only [if_neg h1, if_neg h2, if_pos h3, if_pos hb]

theorem decodeFrom_three (i : Nat) {a b c : UInt8} (r : Bytes) (ha : 0xE0 ≤ a.toNat)
    (ha' : a.toNat < 0xF0) (hb : second3 a b) (hc : isTail c) :
    decodeFrom i (a :: b :: c :: r) = (decodeFrom (i + 3) r).map
      (Char.ofNat ((a.toNat - 0xE0) * 4096 + low6 b * 64 + low6 c) :: ·) := by
  have h1 : ¬a < 0x80 := not_lt_of_toNat (by decide) ha
  have h2 : ¬a < 0xC2 := not_lt_of_toNat (by decide) ha
  have h3 : ¬a < 0xE0 := not_lt_of_toNat (by decide) ha
  have h4 : a < 0xF0 := lt_of_toNat ha'
  rw [decodeFrom.eq_def]
  simp only [if_neg h1, if_neg h2, if_neg h3, if_pos h4, if_pos hb, if_pos hc]

theorem decodeFrom_four (i : Nat) {a b c d : UInt8} (r : Bytes) (ha : 0xF0 ≤ a.toNat)
    (ha' : a.toNat < 0xF5) (hb : second4 a b) (hc : isTail c) (hd : isTail d) :
    decodeFrom i (a :: b :: c :: d :: r) = (decodeFrom (i + 4) r).map
      (Char.ofNat ((a.toNat - 0xF0) * 262144 + low6 b * 4096 + low6 c * 64 + low6 d) :: ·) := by
  have h1 : ¬a < 0x80 := not_lt_of_toNat (by decide) ha
  have h2 : ¬a < 0xC2 := not_lt_of_toNat (by decide) ha
  have h3 : ¬a < 0xE0 := not_lt_of_toNat (by decide) ha
  have h4 : ¬a < 0xF0 := not_lt_of_toNat (by decide) ha
  have h5 : a < 0xF5 := lt_of_toNat ha'
  rw [decodeFrom.eq_def]
  simp only [if_neg h1, if_neg h2, if_neg h3, if_neg h4, if_pos h5, if_pos hb, if_pos hc, if_pos hd]

/-! The bytes that are written, as numbers. -/

theorem toNat_toUInt8 {n : Nat} (h : n < 256) : n.toUInt8.toNat = n := Nat.mod_eq_of_lt h

theorem isTail_of_toNat {b : UInt8} (h : 0x80 ≤ b.toNat) (h' : b.toNat ≤ 0xBF) : isTail b := by
  have hl : 0x80 ≤ b := UInt8.le_iff_toNat_le.2 h
  have hr : b ≤ 0xBF := UInt8.le_iff_toNat_le.2 h'
  simp [isTail, hl, hr]

theorem isTail_toUInt8 {n : Nat} (h : n < 64) : isTail (0x80 + n).toUInt8 := by
  have hn : (0x80 + n).toUInt8.toNat = 0x80 + n := toNat_toUInt8 (by omega)
  exact isTail_of_toNat (by omega) (by omega)

theorem low6_toUInt8 {n : Nat} (h : n < 64) : low6 (0x80 + n).toUInt8 = n := by
  have hn : (0x80 + n).toUInt8.toNat = 0x80 + n := toNat_toUInt8 (by omega)
  unfold low6
  omega

/-- A second byte behind a first one that some bytes cannot follow: behind `k` none below `lo`, behind
`j` none above `hi`. -/
theorem second_of_toNat {a b k j lo hi : UInt8} (hb : isTail b)
    (hl : a.toNat = k.toNat → lo.toNat ≤ b.toNat) (hh : a.toNat = j.toNat → b.toNat ≤ hi.toNat) :
    (if a == k then decide (lo ≤ b) && decide (b ≤ 0xBF)
      else if a == j then decide (0x80 ≤ b) && decide (b ≤ hi) else isTail b) = true := by
  have hb' : 0x80 ≤ b ∧ b ≤ 0xBF := by simpa [isTail] using hb
  split
  next h =>
    have := hl (congrArg UInt8.toNat (eq_of_beq h))
    simpa [hb'.2, UInt8.le_iff_toNat_le] using this
  next =>
    split
    next h =>
      have := hh (congrArg UInt8.toNat (eq_of_beq h))
      simpa [hb'.1, UInt8.le_iff_toNat_le] using this
    next => exact hb

/-- Neither a short form nor a surrogate. -/
theorem second3_of_toNat {a b : UInt8} (hb : isTail b) (h0 : a.toNat = 0xE0 → 0xA0 ≤ b.toNat)
    (hd : a.toNat = 0xED → b.toNat ≤ 0x9F) : second3 a b :=
  second_of_toNat hb h0 hd

/-- Neither a short form nor beyond the last character. -/
theorem second4_of_toNat {a b : UInt8} (hb : isTail b) (h0 : a.toNat = 0xF0 → 0x90 ≤ b.toNat)
    (h4 : a.toNat = 0xF4 → b.toNat ≤ 0x8F) : second4 a b :=
  second_of_toNat hb h0 h4

theorem decodeFrom_encodeChar (c : Char) (i : Nat) (r : Bytes) :
    decodeFrom i (encodeChar c ++ r) =
      (decodeFrom (i + (encodeChar c).length) r).map (c :: ·) := by
  have hv : c.toNat < 0xD800 ∨ 0xDFFF < c.toNat ∧ c.toNat < 0x110000 := c.valid
  have hc : Char.ofNat c.toNat = c := Char.ofNat_toNat c
  unfold encodeChar
  dsimp only
  generalize c.toNat = n at hv hc ⊢
  have t0 : n % 64 < 64 := Nat.mod_lt _ (by decide)
  have t1 : n / 64 % 64 < 64 := Nat.mod_lt _ (by decide)
  have t2 : n / 4096 % 64 < 64 := Nat.mod_lt _ (by decide)
  split
  next h =>
    have ha : n.toUInt8.toNat = n := toNat_toUInt8 (by omega)
    rw [List.singleton_append, decodeFrom_one i r (by omega), ha, hc]
    rfl
  next h =>
    split
    next h' =>
      have ha : (0xC0 + n / 64).toUInt8.toNat = 0xC0 + n / 64 := toNat_toUInt8 (by omega)
      have hn : (0xC0 + n / 64 - 0xC0) * 64 + n % 64 = n := by omega
      rw [List.cons_append, List.singleton_append,
        decodeFrom_two i r (by omega) (by omega) (isTail_toUInt8 t0), low6_toUInt8 t0, ha, hn, hc]
      rfl
    next h' =>
      split
      next h'' =>
        have ha : (0xE0 + n / 4096).toUInt8.toNat = 0xE0 + n / 4096 := toNat_toUInt8 (by omega)
        have hb : (0x80 + n / 64 % 64).toUInt8.toNat = 0x80 + n / 64 % 64 := toNat_toUInt8 (by omega)
        have hs := second3_of_toNat (isTail_toUInt8 t1) (a := (0xE0 + n / 4096).toUInt8)
          (by omega) (by omega)
        have hn : (0xE0 + n / 4096 - 0xE0) * 4096 + n / 64 % 64 * 64 + n % 64 = n := by omega
        rw [List.cons_append, List.cons_append, List.singleton_append,
          decodeFrom_three i r (by omega) (by omega) hs (isTail_toUInt8 t0), low6_toUInt8 t0,
          low6_toUInt8 t1, ha, hn, hc]
        rfl
      next h'' =>
        have ha : (0xF0 + n / 262144).toUInt8.toNat = 0xF0 + n / 262144 := toNat_toUInt8 (by omega)
        have hb : (0x80 + n / 4096 % 64).toUInt8.toNat = 0x80 + n / 4096 % 64 :=
          toNat_toUInt8 (by omega)
        have hs := second4_of_toNat (isTail_toUInt8 t2) (a := (0xF0 + n / 262144).toUInt8)
          (by omega) (by omega)
        have hn : (0xF0 + n / 262144 - 0xF0) * 262144 + n / 4096 % 64 * 4096 + n / 64 % 64 * 64 +
            n % 64 = n := by omega
        rw [List.cons_append, List.cons_append, List.cons_append, List.singleton_append,
          decodeFrom_four i r (by omega) (by omega) hs (isTail_toUInt8 t1) (isTail_toUInt8 t0),
          low6_toUInt8 t0, low6_toUInt8 t1, low6_toUInt8 t2, ha, hn, hc]
        rfl

theorem decodeFrom_encode (t : Text) (i : Nat) : decodeFrom i (encode t) = .ok t := by
  induction t generalizing i with
  | nil => rfl
  | cons c t ih =>
    rw [encode, List.flatMap_cons, decodeFrom_encodeChar]
    exact congrArg (Except.map (c :: ·)) (ih _)

theorem decode_encode (t : Text) : decode (encode t) = .ok t := decodeFrom_encode t 0

end Switchboard.Utf8
