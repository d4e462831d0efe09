import Switchboard.Text.Decimal

/-! JSON values and their two printed forms. `unreadable` stands for what the grammar admits and no
value can hold: a string or key with half of a surrogate pair, a number beyond the range of binary64.
It may occur only where nobody looks. -/
namespace Switchboard

inductive Json.Number where
  /-- Written without sign, fraction or exponent, and below 2^64. -/
  | natural (n : UInt64)
  /-- Any other number, as it was written. -/
  | other (text : Text)
  deriving DecidableEq, Repr

inductive Json where
  | null
  | bool (b : Bool)
  | num (n : Json.Number)
  | str (t : Text)
  | arr (items : List Json)
  | obj (fields : List (Text × Json))
  | unreadable

namespace Json

def nat (n : Nat) : Json := num (.natural n.toUInt64)

/-- The last of several fields with one name counts. -/
def field? (name : Text) : List (Text × Json) → Option Json
  | [] => none
  | (k, v) :: r => (field? name r).or (if k = name then some v else none)

mutual
def depth : Json → Nat
  | arr xs => depthList xs + 1
  | obj fs => depthFields fs + 1
  | _ => 0
def depthList : List Json → Nat
  | [] => 0
  | x :: xs => max x.depth (depthList xs)
def depthFields : List (Text × Json) → Nat
  | [] => 0
  | (_, x) :: fs => max x.depth (depthFields fs)
end

mutual
def isReadable : Json → Bool
  | unreadable => false
  | arr xs => readableList xs
  | obj fs => readableFields fs
  | _ => true
def readableList : List Json → Bool
  | [] => true
  | x :: xs => x.isReadable && readableList xs
def readableFields : List (Text × Json) → Bool
  | [] => true
  | (_, x) :: fs => x.isReadable && readableFields fs
end

/-- A value of this depth is one too deep. -/
def depthLimit : Nat := 128

def isPlain (level : Nat) (j : Json) : Bool := j.isReadable && level + j.depth < depthLimit

def escaped (c : Char) : Text :=
  match c with
  | '"' => ['\\', '"']
  | '\\' => ['\\', '\\']
  | '\x08' => ['\\', 'b']
  | '\x0c' => ['\\', 'f']
  | '\n' => ['\\', 'n']
  | '\r' => ['\\', 'r']
  | '\t' => ['\\', 't']
  | c =>
    if c.toNat < 0x20 then
      ['\\', 'u', '0', '0', Text.hexDigit (c.toNat / 16), Text.hexDigit (c.toNat % 16)]
    else [c]

def string (t : Text) : Text := '"' :: (t.flatMap escaped ++ ['"'])

def Number.text : Number → Text
  | .natural n => Text.decimal n.toNat
  | .other t => t

def boolText (b : Bool) : Text := if b then "true".toList else "false".toList

mutual
def compact : Json → Text
  | null | unreadable => "null".toList
  | bool b => boolText b
  | num n => n.text
  | str t => string t
  | arr xs => '[' :: compactList xs
  | obj fs => '{' :: compactFields fs
def compactList : List Json → Text
  | [] => [']']
  | [x] => x.compact ++ [']']
  | x :: xs => x.compact ++ ',' :: compactList xs
def compactFields : List (Text × Json) → Text
  | [] => ['}']
  | [(k, x)] => string k ++ ':' :: (x.compact ++ ['}'])
  | (k, x) :: fs => string k ++ ':' :: (x.compact ++ ',' :: compactFields fs)
end

def newline (level : Nat) : Text := '\n' :: List.replicate (2 * level) ' '

mutual
def pretty (level : Nat) : Json → Text
  | null | unreadable => "null".toList
  | bool b => boolText b
  | num n => n.text
  | str t => string t
  | arr [] => ['[', ']']
  | obj [] => ['{', '}']
  | arr (x :: xs) =>
    '[' :: (newline (level + 1) ++ pretty (level + 1) x ++ prettyList level xs ++
      newline level ++ [']'])
  | obj ((k, x) :: fs) =>
    '{' :: (newline (level + 1) ++ string k ++ ':' :: ' ' :: pretty (level + 1) x ++
      prettyFields level fs ++ newline level ++ ['}'])
def prettyList (level : Nat) : List Json → Text
  | [] => []
  | x :: xs => ',' :: (newline (level + 1) ++ pretty (level + 1) x ++ prettyList level xs)
def prettyFields (level : Nat) : List (Text × Json) → Text
  | [] => []
  | (k, x) :: fs =>
    ',' :: (newline (level + 1) ++ string k ++ ':' :: ' ' :: pretty (level + 1) x ++
      prettyFields level fs)
end

end Json
end Switchboard
