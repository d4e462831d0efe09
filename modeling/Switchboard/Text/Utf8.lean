import Switchboard.Text.Decimal

/-! UTF-8, both ways. `decode` reports the first fault: where it starts, and how many bytes of it
were seen, or that the input ended inside a character. -/
namespace Switchboard.Utf8

def encodeChar (c : Char) : Bytes :=
  let n := c.toNat
  if n < 0x80 then [n.toUInt8]
  else if n < 0x800 then [(0xC0 + n / 64).toUInt8, (0x80 + n % 64).toUInt8]
  else if n < 0x10000 then
    [(0xE0 + n / 4096).toUInt8, (0x80 + n / 64 % 64).toUInt8, (0x80 + n % 64).toUInt8]
  else
    [(0xF0 + n / 262144).toUInt8, (0x80 + n / 4096 % 64).toUInt8, (0x80 + n / 64 % 64).toUInt8,
      (0x80 + n % 64).toUInt8]

def encode (t : Text) : Bytes := t.flatMap encodeChar

structure Fault where
  position : Nat
  /-- The bytes that cannot be continued; none when more might follow. -/
  length : Option Nat
  deriving DecidableEq, Repr

def Fault.message (f : Fault) : Text :=
  match f.length with
  | some n =>
    "invalid utf-8 sequence of ".toList ++ Text.decimal n ++ " bytes from index ".toList ++
      Text.decimal f.position
  | none => "incomplete utf-8 byte sequence from index ".toList ++ Text.decimal f.position

def isTail (b : UInt8) : Bool := 0x80 ≤ b && b ≤ 0xBF

def second3 (a b : UInt8) : Bool :=
  if a == 0xE0 then 0xA0 ≤ b && b ≤ 0xBF
  else if a == 0xED then 0x80 ≤ b && b ≤ 0x9F
  else isTail b

def second4 (a b : UInt8) : Bool :=
  if a == 0xF0 then 0x90 ≤ b && b ≤ 0xBF
  else if a == 0xF4 then 0x80 ≤ b && b ≤ 0x8F
  else isTail b

def low6 (b : UInt8) : Nat := b.toNat - 0x80

def decodeFrom (i : Nat) : Bytes → Except Fault Text
  | [] => .ok []
  | a :: r =>
    let bad (n : Option Nat) : Except Fault Text := .error ⟨i, n⟩
    if a < 0x80 then (decodeFrom (i + 1) r).map (Char.ofNat a.toNat :: ·)
    else if a < 0xC2 then bad (some 1)
    else if a < 0xE0 then
      match r with
      | [] => bad none
      | b :: r =>
        if isTail b then
          (decodeFrom (i + 2) r).map (Char.ofNat ((a.toNat - 0xC0) * 64 + low6 b) :: ·)
        else bad (some 1)
    else if a < 0xF0 then
      match r with
      | [] => bad none
      | b :: r =>
        if second3 a b then
          match r with
          | [] => bad none
          | c :: r =>
            if isTail c then
              (decodeFrom (i + 3) r).map
                (Char.ofNat ((a.toNat - 0xE0) * 4096 + low6 b * 64 + low6 c) :: ·)
            else bad (some 2)
        else bad (some 1)
    else if a < 0xF5 then
      match r with
      | [] => bad none
      | b :: r =>
        if second4 a b then
          match r with
          | [] => bad none
          | c :: r =>
            if isTail c then
              match r with
              | [] => bad none
              | d :: r =>
                if isTail d then
                  (decodeFrom (i + 4) r).map
                    (Char.ofNat ((a.toNat - 0xF0) * 262144 + low6 b * 4096 + low6 c * 64 + low6 d)
                      :: ·)
                else bad (some 3)
            else bad (some 2)
        else bad (some 1)
    else bad (some 1)

def decode (b : Bytes) : Except Fault Text := decodeFrom 0 b

/-- Every fault becomes one replacement character. -/
def decodeLossy (b : Bytes) : Text :=
  go b.length b
where
  go : Nat → Bytes → Text
    | 0, _ => []
    | n + 1, b =>
      match decode b with
      | .ok t => t
      | .error f =>
        let before := match decode (b.take f.position) with
          | .ok t => t
          | .error _ => []
        before ++ '\ufffd' :: match f.length with
          | some k => go n (b.drop (f.position + max 1 k))
          | none => []

end Switchboard.Utf8
