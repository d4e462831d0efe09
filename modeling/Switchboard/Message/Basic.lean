import Switchboard.Error

/-! Messages: a start line, headers in order, a body. Nothing is checked when one is built; which
messages survive the wire is said in `Codec`. -/
namespace Switchboard

inductive Kind where
  | request | response
  deriving DecidableEq, Repr

def Kind.name : Kind → Text
  | .request => "REQUEST".toList
  | .response => "RESPONSE".toList

def Kind.small (k : Kind) : Text := Text.lower k.name

inductive StartLine where
  | request (method uri version : Text)
  | response (version : Text) (code : UInt16) (reason : Text)
  deriving DecidableEq, Repr

namespace StartLine

def kind : StartLine → Kind
  | request .. => .request
  | response .. => .response

def version : StartLine → Text
  | request _ _ v => v
  | response v _ _ => v

def tokens : StartLine → Text × Text × Text
  | request m u v => (m, u, v)
  | response v c r => (v, Text.decimal c.toNat, r)

/-- A status code is written in decimal, perhaps with a plus sign and zeros in front. -/
def code? (t : Text) : Option UInt16 := (Text.readNat? 65535 t).map Nat.toUInt16

/-- A response starts with a version, which has a slash, and its second word is a status code. Any
other three words are a request. -/
def ofTokens (first second third : Text) : StartLine :=
  match code? second with
  | some c => if '/' ∈ first then .response first c third else .request first second third
  | none => .request first second third

end StartLine

structure Header where
  name : Text
  value : Text
  deriving DecidableEq, Repr

namespace Header

def ofLine? (line : Text) : Option Header :=
  (Text.splitAt? ':' line).map fun p => ⟨Text.trim p.1, Text.trim p.2⟩

def line (h : Header) : Text := h.name ++ ':' :: ' ' :: h.value

def isNamed (h : Header) (name : Text) : Bool := Text.sameLetters h.name name

end Header

structure Message where
  start : StartLine
  headers : List Header
  body : Text
  deriving DecidableEq, Repr

namespace Message

def kind (m : Message) : Kind := m.start.kind
def version (m : Message) : Text := m.start.version

def valuesOf (m : Message) (name : Text) : List Text :=
  (m.headers.filter (·.isNamed name)).map (·.value)

def value? (m : Message) (name : Text) : Option Text := (m.valuesOf name).head?

end Message
end Switchboard
