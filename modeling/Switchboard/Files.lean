import Switchboard.SystemFault
import Switchboard.Text.Utf8

/-! What stands under a path, and why it cannot be read. -/
namespace Switchboard

inductive Entry where
  | absent
  | blocked
  | folder
  | denied
  | file (content : Bytes)
  deriving DecidableEq, Repr

abbrev Files := Text → Entry

namespace Entry

def isFile : Entry → Bool
  | file _ | denied => true
  | _ => false

def isThere : Entry → Bool
  | absent | blocked => false
  | _ => true

def read : Entry → Except Text Bytes
  | file b => .ok b
  | absent => .error (SystemFault.text 2)
  | blocked => .error (SystemFault.text 20)
  | folder => .error (SystemFault.text 21)
  | denied => .error (SystemFault.text 13)

def readText (e : Entry) : Except Text Text := do
  match Utf8.decode (← e.read) with
  | .ok t => .ok t
  | .error _ => .error "stream did not contain valid UTF-8".toList

end Entry

namespace Files

def components (path : Text) : List Text :=
  (Text.cut '/' path).filter fun t => t ≠ [] ∧ t ≠ ['.']

/-- Follows `path` from the folder `here`, whose names stand in reverse. Two dots lead back. -/
def walk (look : List Text → Entry) : List Text → List Text → Entry
  | here, [] => look here
  | here, t :: ts =>
    match look here with
    | .folder => if t = "..".toList then walk look (here.drop 1) ts else walk look (t :: here) ts
    | .file _ | .denied => .blocked
    | e => e

def ofList (start : Text) (files : List (Text × Bytes)) : Files := fun path =>
  let root := (components start).reverse
  let known := files.map fun f => ((components f.1).reverse ++ root, f.2)
  let look (here : List Text) : Entry :=
    match known.find? (·.1 = here) with
    | some f => .file f.2
    | none =>
      if here.isSuffixOf root || known.any fun f => here.isSuffixOf f.1 then .folder else .absent
  if path = [] then .absent
  else
    let from_ := if path.head? = some '/' then [] else root
    let e := walk look from_ (components path)
    if path.getLast? = some '/' ∧ e.isFile then .blocked else e

end Files

def fileName (path : Text) : Text :=
  (path.reverse.takeWhile (· ≠ '/')).reverse

/-- What follows the last dot of a file's name; a dot in front of all else is part of the name. -/
def extension? (path : Text) : Option Text :=
  let name := fileName path
  let after := (name.reverse.takeWhile (· ≠ '.')).reverse
  if after.length + 1 < name.length then some after else none

end Switchboard
