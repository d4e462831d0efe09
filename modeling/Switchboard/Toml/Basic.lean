import Switchboard.Json.Basic
import Switchboard.Number.Binary64

/-! TOML values. Dates and times are kept as they were written, for no field here takes one. -/
namespace Switchboard

inductive Toml where
  | text (t : Text)
  | integer (i : Int)
  | float (x : Binary64)
  | bool (b : Bool)
  | moment (t : Text)
  | list (items : List Toml)
  | table (fields : List (Text × Toml))

namespace Toml

/-- The one field of a date that is looked at as a table. -/
def momentKey : Text := "moment".toList

def integerJson (i : Int) : Json :=
  if 0 ≤ i then .num (.natural i.toNat.toUInt64)
  else .num (.other ('-' :: Text.decimal i.natAbs))

mutual
/-- Numbers that are no numbers become null, dates a table. -/
def toJson : Toml → Json
  | text t => .str t
  | integer i => integerJson i
  | float (.finite ..) => .num (.other "0.0".toList)
  | float _ => .null
  | bool b => .bool b
  | moment t => .obj [(momentKey, .str t)]
  | list xs => .arr (listJson xs)
  | table fs => .obj (fieldsJson fs)
def listJson : List Toml → List Json
  | [] => []
  | x :: xs => x.toJson :: listJson xs
def fieldsJson : List (Text × Toml) → List (Text × Json)
  | [] => []
  | (k, x) :: fs => (k, x.toJson) :: fieldsJson fs
end

end Toml

/-! Documents under construction. A table is implicit while only longer names have mentioned it, and
dotted when such a name stood before an equals sign. -/
namespace Toml

structure Mark where
  implicit : Bool
  dotted : Bool
  deriving DecidableEq, Repr

def Mark.plain : Mark := ⟨false, false⟩

inductive Node where
  | leaf (v : Toml)
  | table (mark : Mark) (fields : List (Text × Node))
  /-- Tables under one name, each from a header in double brackets. -/
  | rows (rows : List (List (Text × Node)))

abbrev Nodes := List (Text × Node)

namespace Node

mutual
def value : Node → Toml
  | leaf v => v
  | table _ fs => .table (fieldValues fs)
  | rows rs => .list (rowValues rs)
def fieldValues : List (Text × Node) → List (Text × Toml)
  | [] => []
  | (k, n) :: fs => (k, n.value) :: fieldValues fs
def rowValues : List (List (Text × Node)) → List Toml
  | [] => []
  | r :: rs => .table (fieldValues r) :: rowValues rs
end

end Node

namespace Nodes

def alter (k : Text) (f : Option Node → Option Node) : Nodes → Option Nodes
  | [] => (f none).map fun n => [(k, n)]
  | (k', n) :: fs =>
    if k' = k then (f (some n)).map fun n => (k, n) :: fs
    else (alter k f fs).map ((k', n) :: ·)

def alterLast (f : Nodes → Option Nodes) : List Nodes → Option (List Nodes)
  | [] => none
  | [r] => (f r).map ([·])
  | r :: rs => (alterLast f rs).map (r :: ·)

/-- Goes down `path` and changes the table there. Tables on the way come into being; values are no
tables, and a dotted name may not enter a table that has a header of its own. -/
def within (dotted : Bool) (path : List Text) (change : Mark → Nodes → Option Nodes) :
    Mark → Nodes → Option Nodes :=
  match path with
  | [] => change
  | k :: ks => fun _ => alter k fun
    | none => (within dotted ks change ⟨true, dotted⟩ []).map (.table ⟨true, dotted⟩)
    | some (.leaf _) => none
    | some (.table m fs) =>
      if dotted && !m.implicit then none else (within dotted ks change m fs).map (.table m)
    | some (.rows rs) => (alterLast (within dotted ks change .plain) rs).map .rows

/-- Adds `path.key = v`. A key with dots ends in a table made by such keys, one without in a table
that is not. -/
def insert (path : List Text) (key : Text) (v : Toml) : Mark → Nodes → Option Nodes :=
  within true path fun mark => fun fs =>
    if mark.dotted = path.isEmpty then none
    else alter key (fun | none => some (.leaf v) | some _ => none) fs

def openTable (path : List Text) (key : Text) : Nodes → Option Nodes :=
  within false path (fun _ => alter key fun
    | none => some (.table .plain [])
    | some (.table m fs) => if m.implicit && !m.dotted then some (.table .plain fs) else none
    | some _ => none) .plain

def openRow (path : List Text) (key : Text) : Nodes → Option Nodes :=
  within false path (fun _ => alter key fun
    | none => some (.rows [[]])
    | some (.rows rs) => some (.rows (rs ++ [[]]))
    | some _ => none) .plain

end Nodes

inductive Line where
  | table (path : List Text) (key : Text)
  | row (path : List Text) (key : Text)
  | entry (path : List Text) (key : Text) (value : Toml)

def build : List Text → List Line → Nodes → Option Nodes
  | _, [], root => some root
  | _, .table path key :: ls, root => do build (path ++ [key]) ls (← root.openTable path key)
  | _, .row path key :: ls, root => do build (path ++ [key]) ls (← root.openRow path key)
  | here, .entry path key v :: ls, root => do
    build here ls (← root.within false here (fun _ => Nodes.insert path key v .plain) .plain)

end Toml
end Switchboard
