import Switchboard.Toml.Basic

/-! The scalars of TOML 1.0: strings of four kinds, numbers, truth values, dates and times. Each
reader gives what it read and the rest of the text. -/
namespace Switchboard.Toml

abbrev Reader (α : Type) := Text → Option (α × Text)

def isTab (c : Char) : Bool := c = ' ' || c = '\t'

def skipTabs (t : Text) : Text := t.dropWhile isTab

def newline? : Text → Option Text
  | '\n' :: r => some r
  | '\r' :: '\n' :: r => some r
  | _ => none

def isPlainChar (c : Char) : Bool := c = '\t' || (0x20 ≤ c.toNat && c.toNat ≠ 0x7F)

/-! Strings. -/

def codePoint? (digits : Nat) (t : Text) : Option (Char × Text) := do
  let ds := t.take digits
  if ds.length < digits then none
  else
    let n ← Text.readDigits Text.hexDigit? 16 0 ds
    if n < 0xD800 ∨ (0xDFFF < n ∧ n < 0x110000) then some (Char.ofNat n, t.drop digits) else none

def escape : Reader Char
  | 'b' :: r => some ('\x08', r)
  | 't' :: r => some ('\t', r)
  | 'n' :: r => some ('\n', r)
  | 'f' :: r => some ('\x0c', r)
  | 'r' :: r => some ('\r', r)
  | '"' :: r => some ('"', r)
  | '\\' :: r => some ('\\', r)
  | 'u' :: r => codePoint? 4 r
  | 'U' :: r => codePoint? 8 r
  | _ => none

def basicBody : Nat → Reader Text
  | 0, _ => none
  | n + 1, t =>
    match t with
    | [] => none
    | '"' :: r => some ([], r)
    | '\\' :: r => do
      let (c, r) ← escape r
      (basicBody n r).map fun p => (c :: p.1, p.2)
    | c :: r => if isPlainChar c then (basicBody n r).map fun p => (c :: p.1, p.2) else none

def basicString (t : Text) : Option (Text × Text) := basicBody (t.length + 1) t

def literalString : Reader Text
  | [] => none
  | '\'' :: r => some ([], r)
  | c :: r => if isPlainChar c then (literalString r).map fun p => (c :: p.1, p.2) else none

/-- A row of quotes inside a long string: from three on the last three close it, and at most two of
them belong to the text. -/
def closing? (q : Char) (t : Text) : Option (Text × Text) :=
  let k := (t.takeWhile (· = q)).length
  if k < 3 then none
  else
    let extra := min k 5 - 3
    some (List.replicate extra q, t.drop (extra + 3))

def skipSpace : Text → Text
  | [] => []
  | '\r' :: '\n' :: r => skipSpace r
  | c :: r => if isTab c || c = '\n' then skipSpace r else c :: r

def longBasicBody : Nat → Reader Text
  | 0, _ => none
  | n + 1, t =>
    match t with
    | [] => none
    | '"' :: r =>
      match closing? '"' t with
      | some p => some p
      | none => (longBasicBody n r).map fun p => ('"' :: p.1, p.2)
    | '\\' :: r =>
      match newline? (skipTabs r) with
      | some r => longBasicBody n (skipSpace r)
      | none => do
        let (c, r) ← escape r
        (longBasicBody n r).map fun p => (c :: p.1, p.2)
    | c :: r =>
      match newline? t with
      | some r => (longBasicBody n r).map fun p => ('\n' :: p.1, p.2)
      | none =>
        if isPlainChar c then (longBasicBody n r).map fun p => (c :: p.1, p.2) else none

def longLiteralBody : Nat → Reader Text
  | 0, _ => none
  | n + 1, t =>
    match t with
    | [] => none
    | c :: r =>
      match closing? '\'' t with
      | some p => some p
      | none =>
        match newline? t with
        | some r => (longLiteralBody n r).map fun p => ('\n' :: p.1, p.2)
        | none =>
          if isPlainChar c then (longLiteralBody n r).map fun p => (c :: p.1, p.2) else none

/-- A line end right after the opening quotes does not count. -/
def skipNewline (t : Text) : Text := (newline? t).getD t

def string : Reader Text
  | '"' :: '"' :: '"' :: r => longBasicBody (r.length + 1) (skipNewline r)
  | '"' :: r => basicString r
  | '\'' :: '\'' :: '\'' :: r => longLiteralBody (r.length + 1) (skipNewline r)
  | '\'' :: r => literalString r
  | _ => none

/-! Numbers. Underscores stand between two digits only. -/

def digits (isDigit : Char → Bool) : Reader Text
  | [] => none
  | c :: r =>
    if isDigit c then
      match r with
      | '_' :: r' => (digits isDigit r').map fun p => (c :: p.1, p.2)
      | d :: r' =>
        if isDigit d then (digits isDigit (d :: r')).map fun p => (c :: p.1, p.2)
        else some ([c], r)
      | [] => some ([c], [])
    else none

def isDecimal (c : Char) : Bool := (Text.digit? c).isSome

def wholeDigits : Reader Text
  | '0' :: r => some (['0'], r)
  | t => digits isDecimal t

def sign (t : Text) : Bool × Text :=
  match t with
  | '-' :: r => (true, r)
  | '+' :: r => (false, r)
  | r => (false, r)

def inBase (base : Nat) (isDigit : Char → Bool) (t : Text) : Option (Toml × Text) := do
  let (ds, r) ← digits isDigit t
  let n ← Text.readDigits Text.hexDigit? base 0 ds
  if n < Nat.pow 2 63 then some (.integer n, r) else none

def readInteger : Reader Toml
  | '0' :: 'x' :: r => inBase 16 (Text.hexDigit? · |>.isSome) r
  | '0' :: 'o' :: r => inBase 8 (fun c => '0' ≤ c && c ≤ '7') r
  | '0' :: 'b' :: r => inBase 2 (fun c => c = '0' || c = '1') r
  | t => do
    let (negative, r) := sign t
    let (ds, r) ← wholeDigits r
    let n ← Text.readDecimal? ds
    if negative then if n ≤ Nat.pow 2 63 then some (.integer (-n), r) else none
    else if n < Nat.pow 2 63 then some (.integer n, r) else none

def exponent : Reader Int
  | c :: r =>
    if c = 'e' || c = 'E' then do
      let (negative, r) := sign r
      let (ds, r) ← digits isDecimal r
      let n ← Text.readDecimal? ds
      some (if negative then -n else n, r)
    else none
  | [] => none

def special : Reader Toml := fun t =>
  let (negative, r) := sign t
  match r with
  | 'i' :: 'n' :: 'f' :: r => some (.float (.infinite negative), r)
  | 'n' :: 'a' :: 'n' :: r => some (.float .nan, r)
  | _ => none

/-- A fraction, an exponent or both must follow. What exceeds all numbers upwards is refused. -/
def readFloat : Reader Toml := fun t =>
  let (negative, r) := sign t
  let read : Option (Toml × Text) := do
    let (ds, r) ← wholeDigits r
    let (fs, r, fractional) ← match r with
      | '.' :: r => (digits isDecimal r).map fun p => (p.1, p.2, true)
      | r => some ([], r, false)
    let (e, r) ← match exponent r with
      | some p => some p
      | none => if fractional then some (0, r) else none
    let n ← Text.readDecimal? (ds ++ fs)
    match Binary64.ofDecimal negative n (e - fs.length) with
    | .infinite false => none
    | x => some (.float x, r)
  read.or (special t)

/-! Dates and times. -/

def fixedDigits (k low high : Nat) (t : Text) : Option (Nat × Text) := do
  let ds := t.take k
  if ds.length < k then none
  else
    let n ← Text.readDecimal? ds
    if low ≤ n ∧ n ≤ high then some (n, t.drop k) else none

def mark (c : Char) : Text → Option Text
  | d :: r => if d = c then some r else none
  | [] => none

def isLeap (year : Nat) : Bool := year % 4 = 0 && (year % 100 ≠ 0 || year % 400 = 0)

def monthLength (year month : Nat) : Nat :=
  if month = 2 then if isLeap year then 29 else 28
  else if month = 4 ∨ month = 6 ∨ month = 9 ∨ month = 11 then 30
  else 31

def date (t : Text) : Option Text := do
  let (year, r) ← fixedDigits 4 0 9999 t
  let (month, r) ← fixedDigits 2 1 12 (← mark '-' r)
  let (_, r) ← fixedDigits 2 1 (monthLength year month) (← mark '-' r)
  some r

def time (t : Text) : Option Text := do
  let (_, r) ← fixedDigits 2 0 23 t
  let (_, r) ← fixedDigits 2 0 59 (← mark ':' r)
  let (_, r) ← fixedDigits 2 0 60 (← mark ':' r)
  match r with
  | '.' :: c :: r' => if isDecimal c then some (r'.dropWhile isDecimal) else none
  | '.' :: [] => none
  | r => some r

def offset : Text → Text
  | [] => []
  | c :: r =>
    if c = 'Z' || c = 'z' then r
    else if c = '+' || c = '-' then
      let read : Option Text := do
        let (_, r) ← fixedDigits 2 0 23 r
        let (_, r) ← fixedDigits 2 0 59 (← mark ':' r)
        some r
      read.getD (c :: r)
    else c :: r

def dateTime (t : Text) : Option (Toml × Text) :=
  let rest : Option Text :=
    match date t with
    | some (c :: r) =>
      if c = 'T' || c = 't' || c = ' ' then some (((time r).map offset).getD (c :: r))
      else some (c :: r)
    | some [] => some []
    | none => time t
  rest.map fun r => (.moment (t.take (t.length - r.length)), r)

def scalar (t : Text) : Option (Toml × Text) :=
  match t with
  | [] => none
  | c :: _ =>
    if c = '"' || c = '\'' then (string t).map fun p => (.text p.1, p.2)
    else if "true".toList.isPrefixOf t then some (.bool true, t.drop 4)
    else if "false".toList.isPrefixOf t then some (.bool false, t.drop 5)
    else if c = '+' || c = '-' || isDecimal c then
      (dateTime t).or ((readFloat t).or (readInteger t))
    else special t

end Switchboard.Toml
