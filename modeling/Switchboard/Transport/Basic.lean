import Switchboard.Error

/-! The two transports, and their names. Only ASCII letters have their small form among the letters
of these names (and of the names in `Tls`), so reading in any letter case needs no more than ASCII. -/
namespace Switchboard

inductive Transport where
  | udp | tcp
  deriving DecidableEq, Repr

namespace Transport

def name : Transport → Text
  | udp => "udp".toList
  | tcp => "tcp".toList

def parse (t : Text) : Except Error Transport :=
  if Text.lower t = "udp".toList then .ok udp
  else if Text.lower t = "tcp".toList then .ok tcp
  else .error (.protocolMismatch ("unknown protocol: ".toList ++ t))

end Transport
end Switchboard
