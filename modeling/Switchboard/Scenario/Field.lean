import Switchboard.Json.Basic
import Switchboard.Error

/-! Fields of a document, each with the path that errors name. A field that is null is missing. -/
namespace Switchboard

structure Record where
  path : Text
  fields : List (Text × Json)

namespace Record

def ofJson (path : Text) : Json → Except Error Record
  | .obj fs => .ok ⟨path, fs⟩
  | _ =>
    .error (.invalidField (if path = [] then "<root>".toList else path) "must be an object".toList)

def pathOf (r : Record) (key : Text) : Text :=
  if r.path = [] then key else r.path ++ '.' :: key

def fault {α : Type} (r : Record) (key reason : String) : Except Error α :=
  .error (.invalidField (r.pathOf key.toList) reason.toList)

def get? (r : Record) (key : String) : Option Json :=
  match Json.field? key.toList r.fields with
  | some .null => none
  | j => j

def require (r : Record) (key : String) : Except Error Json :=
  match r.get? key with
  | some j => .ok j
  | none => r.fault key "is required"

def text (r : Record) (key : String) : Except Error Text := do
  match ← r.require key with
  | .str t => .ok t
  | _ => r.fault key "must be a string"

def token (r : Record) (key : String) : Except Error Text := do
  let t ← r.text key
  if t = [] then r.fault key "must not be empty"
  else if t.any Text.isBlank then r.fault key "must not contain whitespace"
  else .ok t

def line (r : Record) (key : String) : Except Error Text := do
  let t ← r.text key
  if t.any (fun c => c = '\r' || c = '\n') then r.fault key "must not contain line breaks"
  else .ok t

def nat (r : Record) (key : String) (bound : Nat) : Except Error Nat := do
  match ← r.require key with
  | .num (.natural n) =>
    if n.toNat ≤ bound then .ok n.toNat
    else .error (.invalidField (r.pathOf key.toList)
      ("is out of range: ".toList ++ Text.decimal n.toNat))
  | .num (.other _) => r.fault key "must be a non-negative integer"
  | _ => r.fault key "must be an integer"

def list (r : Record) (key : String) : Except Error (List Json) := do
  match ← r.require key with
  | .arr xs => .ok xs
  | _ => r.fault key "must be a list"

def optional {α : Type} (r : Record) (key : String) (read : Record → String → Except Error α) :
    Except Error (Option α) :=
  match r.get? key with
  | some _ => (read r key).map some
  | none => .ok none

end Record
end Switchboard
