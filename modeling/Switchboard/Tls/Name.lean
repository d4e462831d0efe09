import Switchboard.Net.Address
import Switchboard.Tls.Selector

/-! The name a server is asked for: an address, or a host name of labels joined by dots. -/
namespace Switchboard.Tls

def isLabelChar (c : Char) : Bool := c.isAlphanum || c = '-' || c = '_'

/-- Letters, digits, `-` and `_`, no `-` at either end, at most 63 of them. -/
def IsLabel (l : Text) : Prop :=
  l ≠ [] ∧ l.length ≤ 63 ∧ l.all isLabelChar ∧ l.head? ≠ some '-' ∧ l.getLast? ≠ some '-'

instance (l : Text) : Decidable (IsLabel l) := inferInstanceAs (Decidable (_ ∧ _))

def labelsBackwards (t : Text) : List Text :=
  match (Text.cut '.' t).reverse with
  | [] :: l :: ls => l :: ls
  | ls => ls

/-- At most 253 characters, and the last label is no number. -/
def IsHostName (t : Text) : Prop :=
  t.length ≤ 253 ∧ (∀ l ∈ labelsBackwards t, IsLabel l) ∧
    ((labelsBackwards t).head?.getD []).all (Text.digit? · |>.isSome) = false

instance (t : Text) : Decidable (IsHostName t) := inferInstanceAs (Decidable (_ ∧ _))

inductive Name where
  | ip (address : Ip)
  | host (name : Text)
  deriving DecidableEq, Repr

def Name.parse (t : Text) : Except Error Name :=
  match Ip.parse? t with
  | some a => .ok (.ip a)
  | none =>
    if IsHostName t then .ok (.host t)
    else .error (.config ("invalid TLS server name ".toList ++ t ++ ": invalid dns name".toList))

def Settings.nameFor (s : Settings) (host : Text) : Except Error Name :=
  Name.parse (s.serverName.getD host)

end Switchboard.Tls
