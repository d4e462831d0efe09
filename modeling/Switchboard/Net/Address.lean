import Switchboard.Text.Decimal

/-! IP addresses, written and read. An address of version 6 is written with its longest row of zero
groups left out (the first of several; a single zero stays), and one that stands for an address of
version 4 ends in that. -/
namespace Switchboard

inductive Ip where
  | v4 (bytes : List UInt8)
  | v6 (groups : List UInt16)
  deriving DecidableEq, Repr

namespace Ip

/-- One to three digits, no zero in front of others, at most 255. -/
def byte? (t : Text) : Option UInt8 :=
  if t.length ≤ 3 ∧ (t = ['0'] ∨ t.head? ≠ some '0') then
    ((Text.readDecimal? t).filter (· < 256)).map Nat.toUInt8
  else none

def bytes? (t : Text) : Option (List UInt8) := do
  let bs ← (Text.cut '.' t).mapM byte?
  if bs.length = 4 then some bs else none

def group? (t : Text) : Option UInt16 :=
  if t ≠ [] ∧ t.length ≤ 4 then (Text.readDigits Text.hexDigit? 16 0 t).map Nat.toUInt16 else none

def pairUp : List UInt8 → List UInt16
  | a :: b :: r => (a.toNat * 256 + b.toNat).toUInt16 :: pairUp r
  | _ => []

/-- Groups between colons; the last two may be written as an address of version 4. -/
def groups? (allowV4 : Bool) : List Text → Option (List UInt16)
  | [] => some []
  | [p] =>
    match group? p with
    | some g => some [g]
    | none => if allowV4 then (bytes? p).map pairUp else none
  | p :: ps => do (← group? p) :: (← groups? allowV4 ps)

def part? (allowV4 : Bool) (t : Text) : Option (List UInt16) :=
  if t = [] then some [] else groups? allowV4 (Text.cut ':' t)

def splitGap? : Text → Option (Text × Text)
  | ':' :: ':' :: r => some ([], r)
  | c :: r => (splitGap? r).map fun p => (c :: p.1, p.2)
  | [] => none

def allGroups? (t : Text) : Option (List UInt16) :=
  match splitGap? t with
  | none => do
    let gs ← groups? true (Text.cut ':' t)
    if gs.length = 8 then some gs else none
  | some (a, b) => do
    let front ← part? false a
    let back ← part? true b
    if front.length + back.length < 8 then
      some (front ++ List.replicate (8 - front.length - back.length) 0 ++ back)
    else none

def parse? (t : Text) : Option Ip :=
  match bytes? t with
  | some bs => some (.v4 bs)
  | none => (allGroups? t).map .v6

def zerosAhead (gs : List UInt16) : Nat := (gs.takeWhile (· = 0)).length

def longestZeros : Nat → List UInt16 → Nat × Nat
  | _, [] => (0, 0)
  | i, g :: gs =>
    let later := longestZeros (i + 1) gs
    if later.2 ≤ zerosAhead (g :: gs) then (i, zerosAhead (g :: gs)) else later

def groupsText (gs : List UInt16) : Text :=
  Text.join [':'] (gs.map fun g => Text.hexadecimal g.toNat)

def bytesText (bs : List UInt8) : Text := Text.join ['.'] (bs.map fun b => Text.decimal b.toNat)

def splitBytes (g : UInt16) : List UInt8 := [(g.toNat / 256).toUInt8, (g.toNat % 256).toUInt8]

def text : Ip → Text
  | v4 bs => bytesText bs
  | v6 gs =>
    match gs with
    | [0, 0, 0, 0, 0, 0xffff, a, b] =>
      "::ffff:".toList ++ bytesText (splitBytes a ++ splitBytes b)
    | gs =>
      let (i, n) := longestZeros 0 gs
      if n ≤ 1 then groupsText gs
      else groupsText (gs.take i) ++ ':' :: ':' :: groupsText (gs.drop (i + n))

end Ip

structure Address where
  ip : Ip
  port : UInt16
  deriving DecidableEq, Repr

def Address.text (a : Address) : Text :=
  (match a.ip with
    | .v4 _ => a.ip.text
    | .v6 _ => '[' :: (a.ip.text ++ [']'])) ++ ':' :: Text.decimal a.port.toNat

def Address.parse? (t : Text) : Option Address := do
  let behind := t.reverse.splitAt (t.reverse.takeWhile (· ≠ ':')).length
  let port ← (Text.readDecimal? behind.1.reverse).filter (· < 65536)
  match behind.2 with
  | ':' :: ']' :: r => match r.reverse with
    | '[' :: r => (Ip.allGroups? r).map fun gs => ⟨.v6 gs, port.toUInt16⟩
    | _ => none
  | ':' :: r => (Ip.bytes? r.reverse).map fun bs => ⟨.v4 bs, port.toUInt16⟩
  | _ => none

end Switchboard
