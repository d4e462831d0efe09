import Switchboard.Number.Binary64
import Switchboard.Text.Decimal

/-! Spans of time in nanoseconds, in two written forms, and read from a number of seconds. -/
namespace Switchboard

abbrev Duration := Nat

namespace Duration

def ofSeconds (s : Nat) : Duration := s * 1000000000
def ofMillis (ms : Nat) : Duration := ms * 1000000

/-- The first whole millisecond that is not before `d`. -/
def tick (d : Duration) : Duration := ofMillis ((d + 999999) / 1000000)

def decimal (d : Duration) : Text :=
  Text.decimal (d / 1000000000) ++ '.' :: Text.padded 9 (d % 1000000000)

def inUnit (n places rest : Nat) (unit : Text) : Text :=
  let digits := ((Text.padded places rest).reverse.dropWhile (· = '0')).reverse
  Text.decimal n ++ (if rest = 0 then [] else '.' :: digits) ++ unit

def short (d : Duration) : Text :=
  if 1000000000 ≤ d then inUnit (d / 1000000000) 9 (d % 1000000000) ['s']
  else if 1000000 ≤ d then inUnit (d / 1000000) 6 (d % 1000000) ['m', 's']
  else if 1000 ≤ d then inUnit (d / 1000) 3 (d % 1000) ['µ', 's']
  else inUnit d 0 0 ['n', 's']

inductive Fault where
  | negative | tooBig
  deriving DecidableEq, Repr

def Fault.message : Fault → Text
  | .negative => "cannot convert float seconds to Duration: value is negative".toList
  | .tooBig => "cannot convert float seconds to Duration: value is either too big or NaN".toList

/-- The nanoseconds nearest to so many seconds, a tie to the even number. The seconds must fit in 64
bits. -/
def ofBinary64 : Binary64 → Except Fault Duration
  | .nan => .error .tooBig
  | .infinite negative => .error (if negative then .negative else .tooBig)
  | .finite negative m e =>
    if negative ∧ m ≠ 0 then .error .negative
    else
      let (a, b) := Binary64.scaled m 1 (-e)
      if Nat.pow 2 64 * b ≤ a then .error .tooBig
      else .ok (Binary64.divNearest (a * 1000000000) b)

end Duration
end Switchboard
