/-! Text as a list of characters, so that every reader is a recursion on its input: blanks, words,
lines, a cut at a character. `lines` and `unlines` are the two halves of every line-wise format
here. -/
namespace Switchboard

abbrev Text := List Char
abbrev Bytes := List UInt8

namespace Text

/-- The characters with the Unicode property White_Space. -/
def isBlank (c : Char) : Bool :=
  let n := c.toNat
  (9 ≤ n && n ≤ 13) || n == 0x20 || n == 0x85 || n == 0xA0 || n == 0x1680 ||
    (0x2000 ≤ n && n ≤ 0x200A) || n == 0x2028 || n == 0x2029 || n == 0x202F || n == 0x205F ||
    n == 0x3000

def trimLeft (t : Text) : Text := t.dropWhile isBlank
def trimRight (t : Text) : Text := (trimLeft t.reverse).reverse
def trim (t : Text) : Text := trimRight (trimLeft t)

def words : Text → List Text
  | [] => []
  | c :: r =>
    if isBlank c then words r
    else match r with
      | [] => [[c]]
      | d :: _ =>
        if isBlank d then [c] :: words r
        else match words r with
          | [] => [[c]]
          | w :: ws => (c :: w) :: ws

/-- Lines end at a line feed, which takes one carriage return before it along. A last line without
a line feed counts, a carriage return alone ends nothing. -/
def lines : Text → List Text
  | [] => []
  | '\n' :: r => [] :: lines r
  | '\r' :: '\n' :: r => [] :: lines r
  | c :: r =>
    match lines r with
    | [] => [[c]]
    | l :: ls => (c :: l) :: ls

def unlines : List Text → Text
  | [] => []
  | [l] => l
  | l :: ls => l ++ '\r' :: '\n' :: unlines ls

def splitAt? (c : Char) : Text → Option (Text × Text)
  | [] => none
  | d :: r => if d = c then some ([], r) else (splitAt? c r).map fun p => (d :: p.1, p.2)

def cut (c : Char) : Text → List Text
  | [] => [[]]
  | d :: r =>
    if d = c then [] :: cut c r
    else match cut c r with
      | [] => [[d]]
      | p :: ps => (d :: p) :: ps

def lower (t : Text) : Text := t.map Char.toLower

def sameLetters (a b : Text) : Bool := lower a == lower b

/-- Every copy of `p` replaced by `r`, from left to right and without overlap. -/
def replace (p r : Text) : Text → Text
  | [] => []
  | c :: t =>
    if p ≠ [] ∧ p.isPrefixOf (c :: t) then r ++ replace p r ((c :: t).drop (max 1 p.length))
    else c :: replace p r t
  termination_by t => t.length
  decreasing_by all_goals simp only [List.length_drop, List.length_cons]; omega

def join (sep : Text) : List Text → Text
  | [] => []
  | [t] => t
  | t :: ts => t ++ sep ++ join sep ts

end Text
end Switchboard
