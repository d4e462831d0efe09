import Switchboard.Error
import Switchboard.Net.Address
import Switchboard.SystemFault
import Switchboard.Tls.Selector
import Switchboard.Transport.Basic

/-! What a network gives to somebody who wants to connect. -/
namespace Switchboard

structure Network where
  dial : Transport → Address → Except Error Unit
  shake : Tls.Version → Address → Except Error Unit

namespace Network

def unreachableError : Error := .io (SystemFault.text 101)

def absent : Network := ⟨fun _ _ => .error unreachableError, fun _ _ => .error unreachableError⟩

end Network

/-- A host is an address, or the own machine by its usual name; no other names are known. -/
def resolve (host : Text) (port : UInt16) : Except Error Address :=
  match Ip.parse? host with
  | some ip => .ok ⟨ip, port⟩
  | none =>
    if host = "localhost".toList then .ok ⟨.v4 [127, 0, 0, 1], port⟩
    else .error (.io
      "failed to lookup address information: Name or service not known".toList)

end Switchboard
