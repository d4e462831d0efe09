import Switchboard.Text.Basic

/-! Natural numbers in base ten (and hexadecimal digits), written and read. `readNat?` takes one
leading plus sign and any number of zeros, and refuses what exceeds the bound. -/
namespace Switchboard.Text

def digit (n : Nat) : Char := Char.ofNat (48 + n)

def decimal (n : Nat) : Text :=
  if n < 10 then [digit n] else decimal (n / 10) ++ [digit (n % 10)]
  termination_by n
  decreasing_by omega

def digit? (c : Char) : Option Nat :=
  if '0' ≤ c ∧ c ≤ '9' then some (c.toNat - 48) else none

def hexDigit? (c : Char) : Option Nat :=
  if '0' ≤ c ∧ c ≤ '9' then some (c.toNat - 48)
  else if 'a' ≤ c ∧ c ≤ 'f' then some (c.toNat - 87)
  else if 'A' ≤ c ∧ c ≤ 'F' then some (c.toNat - 55)
  else none

def readDigits (value? : Char → Option Nat) (b : Nat) : Nat → Text → Option Nat
  | n, [] => some n
  | n, c :: r => match value? c with
    | some d => readDigits value? b (n * b + d) r
    | none => none

def readDecimal? : Text → Option Nat
  | [] => none
  | t => readDigits digit? 10 0 t

def readNat? (bound : Nat) (t : Text) : Option Nat :=
  let n? := match t with
    | '+' :: r => readDecimal? r
    | t => readDecimal? t
  n?.filter (· ≤ bound)

def hexDigit (n : Nat) : Char := if n < 10 then Char.ofNat (48 + n) else Char.ofNat (87 + n)

def hexadecimal (n : Nat) : Text :=
  if n < 16 then [hexDigit n] else hexadecimal (n / 16) ++ [hexDigit (n % 16)]
  termination_by n
  decreasing_by omega

def padded (width n : Nat) : Text :=
  let t := decimal n
  List.replicate (width - t.length) '0' ++ t

end Switchboard.Text
