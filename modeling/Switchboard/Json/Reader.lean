import Switchboard.Json.Basic
import Switchboard.Number.Binary64

/-! The reader of JSON text. It follows the grammar and leaves limits to the value: see `isPlain`. -/
namespace Switchboard.Json

def isSpace (c : Char) : Bool := c = ' ' || c = '\n' || c = '\t' || c = '\r'

def skip (t : Text) : Text := t.dropWhile isSpace

/-! Numbers. A significand takes digits while it stays below 2^64; further digits of the whole part
only count, further digits of the fraction are dropped. -/

structure Significand where
  value : Nat := 0
  full : Bool := false
  /-- Digits counted behind the significand, less those of the fraction in it. -/
  shift : Int := 0

def Significand.push (s : Significand) (d : Nat) : Significand :=
  if s.full || Nat.pow 2 64 ≤ s.value * 10 + d then { s with full := true }
  else { s with value := s.value * 10 + d }

def Significand.whole (s : Significand) (d : Nat) : Significand :=
  let s' := s.push d
  if s'.full then { s' with shift := s'.shift + 1 } else s'

def Significand.fraction (s : Significand) (d : Nat) : Significand :=
  let s' := s.push d
  if s'.full then s' else { s' with shift := s'.shift - 1 }

def takeDigits (t : Text) : List Nat × Text :=
  ((t.takeWhile (Text.digit? · |>.isSome)).filterMap Text.digit?,
    t.dropWhile (Text.digit? · |>.isSome))

/-- `n · 10^e` as the product of the two rounded factors stays below the range's end. -/
def inRange (n : Nat) (e : Int) : Bool :=
  n = 0 || e ≤ 0 ||
    (e ≤ 308 && (Binary64.ofNat n).toNat * (Binary64.ofNat (Nat.pow 10 e.toNat)).toNat <
      (Nat.pow 2 54 - 1) * Nat.pow 2 970)

/-- Exponents of more than 31 bits are as good as infinite. -/
def exponentIn (s : Significand) (negative : Bool) (n : Nat) : Bool :=
  if n < Nat.pow 2 31 then inRange s.value (if negative then s.shift - n else s.shift + n)
  else negative || s.value = 0

def number (t : Text) : Option (Json × Text) := do
  let (negative, t₁) := match t with
    | '-' :: r => (true, r)
    | r => (false, r)
  let (ds, t₂) := takeDigits t₁
  let whole ← match ds with
    | [] => none
    | 0 :: _ :: _ => none
    | ds => some (ds.foldl Significand.whole {})
  let (sig, fractional, t₃) ← match t₂ with
    | '.' :: r =>
      match takeDigits r with
      | ([], _) => none
      | (ds, r) => some (ds.foldl Significand.fraction { whole with full := false }, true, r)
    | r => some (whole, false, r)
  let exponent : Option (Option (Bool × Nat) × Text) := match t₃ with
    | c :: r =>
      if c = 'e' || c = 'E' then
        let (down, r) := match r with
          | '-' :: r => (true, r)
          | '+' :: r => (false, r)
          | r => (false, r)
        match takeDigits r with
        | ([], _) => none
        | (ds, r) => some (some (down, ds.foldl (· * 10 + ·) 0), r)
      else some (none, t₃)
    | [] => some (none, [])
  let (e, rest) ← exponent
  let fits := match e with
    | some (down, n) => exponentIn sig down n
    | none => inRange sig.value sig.shift
  let raw := t.take (t.length - rest.length)
  if !fits then some (.unreadable, rest)
  else if negative || fractional || e.isSome || sig.full then some (.num (.other raw), rest)
  else some (.num (.natural sig.value.toUInt64), rest)

/-! Strings. -/

def hex4 : Text → Option (Nat × Text)
  | a :: b :: c :: d :: r =>
    (Text.readDigits Text.hexDigit? 16 0 [a, b, c, d]).map (·, r)
  | _ => none

def plainEscape? (c : Char) : Option Char :=
  match c with
  | '"' => some '"'
  | '\\' => some '\\'
  | '/' => some '/'
  | 'b' => some '\x08'
  | 'f' => some '\x0c'
  | 'n' => some '\n'
  | 'r' => some '\r'
  | 't' => some '\t'
  | _ => none

inductive Unit16 where
  | char (c : Char)
  | code (n : Nat)

def pieces : Nat → Text → Option (List Unit16 × Text)
  | 0, _ => none
  | n + 1, t =>
    match t with
    | [] => none
    | '"' :: r => some ([], r)
    | '\\' :: 'u' :: r => do
      let (u, r) ← hex4 r
      let (us, r) ← pieces n r
      some (.code u :: us, r)
    | '\\' :: c :: r => do
      let c ← plainEscape? c
      let (us, r) ← pieces n r
      some (.char c :: us, r)
    | c :: r =>
      if c.toNat < 0x20 || c = '\\' then none
      else do
        let (us, r) ← pieces n r
        some (.char c :: us, r)

def isHigh (n : Nat) : Bool := 0xD800 ≤ n && n < 0xDC00
def isLow (n : Nat) : Bool := 0xDC00 ≤ n && n < 0xE000

/-- Pairs of escapes are one character; half a pair is none. -/
def joinPieces : List Unit16 → Option Text
  | [] => some []
  | .char c :: r => (joinPieces r).map (c :: ·)
  | .code h :: .code l :: r =>
    if isHigh h && isLow l then
      (joinPieces r).map (Char.ofNat (0x10000 + (h - 0xD800) * 0x400 + (l - 0xDC00)) :: ·)
    else if isHigh h || isLow h then none
    else (joinPieces (.code l :: r)).map (Char.ofNat h :: ·)
  | .code h :: r =>
    if isHigh h || isLow h then none else (joinPieces r).map (Char.ofNat h :: ·)

def stringBody (t : Text) : Option (Option Text × Text) :=
  (pieces (t.length + 1) t).map fun p => (joinPieces p.1, p.2)

def literal (word : Text) (j : Json) (t : Text) : Option (Json × Text) :=
  if word.isPrefixOf t then some (j, t.drop word.length) else none

def ofFields (fs : List (Option Text × Json)) : Json :=
  if fs.all (·.1.isSome) then .obj (fs.map fun f => (f.1.getD [], f.2)) else .unreadable

mutual
def value : Nat → Text → Option (Json × Text)
  | 0, _ => none
  | n + 1, t =>
    match skip t with
    | '"' :: r => (stringBody r).map fun p => ((p.1.map Json.str).getD .unreadable, p.2)
    | '[' :: r =>
      match skip r with
      | ']' :: r => some (.arr [], r)
      | _ => (items n r).map fun p => (.arr p.1, p.2)
    | '{' :: r =>
      match skip r with
      | '}' :: r => some (.obj [], r)
      | _ => (fields n r).map fun p => (ofFields p.1, p.2)
    | 'n' :: r => literal "ull".toList .null r
    | 't' :: r => literal "rue".toList (.bool true) r
    | 'f' :: r => literal "alse".toList (.bool false) r
    | t => number t
def items : Nat → Text → Option (List Json × Text)
  | 0, _ => none
  | n + 1, t => do
    let (x, r) ← value n t
    match skip r with
    | ',' :: r => (items n r).map fun p => (x :: p.1, p.2)
    | ']' :: r => some ([x], r)
    | _ => none
def fields : Nat → Text → Option (List (Option Text × Json) × Text)
  | 0, _ => none
  | n + 1, t =>
    match skip t with
    | '"' :: r => do
      let (k, r) ← stringBody r
      match skip r with
      | ':' :: r => do
        let (x, r) ← value n r
        match skip r with
        | ',' :: r => (fields n r).map fun p => ((k, x) :: p.1, p.2)
        | '}' :: r => some ([(k, x)], r)
        | _ => none
      | _ => none
    | _ => none
end

/-- One value with nothing but blanks around it. Each call takes a character, so the length of the
text is fuel enough. -/
def read? (t : Text) : Option Json :=
  match value (2 * t.length + 2) t with
  | some (j, r) => if skip r = [] then some j else none
  | none => none

end Switchboard.Json
