/-! Numbers of the format binary64, exactly: `finite neg m e` is m · 2^e with its sign. Rounding
goes to the nearest number with 53 digits in base two, a tie to the even one. -/
namespace Switchboard

inductive Binary64 where
  | finite (negative : Bool) (mantissa : Nat) (exponent : Int)
  | infinite (negative : Bool)
  | nan
  deriving DecidableEq, Repr

namespace Binary64

def divNearest (n d : Nat) : Nat :=
  let q := n / d
  let r := n % d
  if 2 * r < d then q
  else if d < 2 * r then q + 1
  else if q % 2 = 0 then q else q + 1

def scaled (n d : Nat) (e : Int) : Nat × Nat :=
  if 0 ≤ e then (n, d * Nat.pow 2 e.toNat) else (n * Nat.pow 2 (-e).toNat, d)

/-- The exponent of the last of the 53 digits of `n / d`; below -1074 there is none. -/
def lastDigit (n d : Nat) : Int :=
  let guess : Int := (Nat.log2 n : Int) - (Nat.log2 d : Int) - 52
  let (a, b) := scaled n d guess
  max (-1074) (if a / b < Nat.pow 2 52 then guess - 1 else guess)

def ofRatio (negative : Bool) (n d : Nat) : Binary64 :=
  if n = 0 then .finite negative 0 0
  else
    let e := lastDigit n d
    let (a, b) := scaled n d e
    let m := divNearest a b
    if m = Nat.pow 2 53 ∧ 971 ≤ e + 1 then .infinite negative
    else if 971 < e then .infinite negative
    else .finite negative m e

/-- The number nearest to `n · 10^e`. Beyond the exponents tried here every such number is infinite
or zero. -/
def ofDecimal (negative : Bool) (n : Nat) (e : Int) : Binary64 :=
  if n = 0 then .finite negative 0 0
  else
    let top : Int := (Nat.log2 n : Int) / 3 + 1 + e
    if 400 < e then .infinite negative
    else if top < -400 then .finite negative 0 0
    else if 0 ≤ e then ofRatio negative (n * Nat.pow 10 e.toNat) 1
    else ofRatio negative n (Nat.pow 10 (-e).toNat)

def ofNat (n : Nat) : Binary64 := ofRatio false n 1

def ofInt (i : Int) : Binary64 := ofRatio (i < 0) i.natAbs 1

def toNat : Binary64 → Nat
  | .finite _ m e => if 0 ≤ e then m * Nat.pow 2 e.toNat else m / Nat.pow 2 (-e).toNat
  | _ => 0

end Binary64
end Switchboard
