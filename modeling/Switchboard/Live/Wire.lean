import Std.Async.DNS
import Std.Async.TCP
import Std.Async.UDP
import Switchboard.Net.Address
import Switchboard.Session.Machine
import Switchboard.SystemFault

/-! Links of a machine that has a network, and what sessions have asked of them. A link has at most
one receive under way; an answer that nobody waits for any more is let go. -/
namespace Switchboard.Live
open Std.Async Std.Net

def toSocket (a : Address) : SocketAddress :=
  match a.ip with
  | .v4 bs =>
    .v4 ⟨.ofParts (bs.getD 0 0) (bs.getD 1 0) (bs.getD 2 0) (bs.getD 3 0), a.port⟩
  | .v6 gs =>
    .v6 ⟨.ofParts (gs.getD 0 0) (gs.getD 1 0) (gs.getD 2 0) (gs.getD 3 0) (gs.getD 4 0)
      (gs.getD 5 0) (gs.getD 6 0) (gs.getD 7 0), a.port⟩

def ofIp : IPAddr → Ip
  | .v4 a => .v4 a.octets.toList
  | .v6 a => .v6 a.segments.toList

def ofSocket (a : SocketAddress) : Address := ⟨ofIp a.ipAddr, a.port⟩

def faultNumber (e : IO.Error) : Nat :=
  let n := match e with
    | .alreadyExists _ n _ | .otherError n _ | .resourceBusy n _ | .resourceVanished n _
    | .unsupportedOperation n _ | .hardwareFault n _ | .unsatisfiedConstraints n _
    | .illegalOperation n _ | .protocolError n _ | .timeExpired n _ | .interrupted _ n _
    | .noFileOrDirectory _ n _ | .invalidArgument _ n _ | .permissionDenied _ n _
    | .resourceExhausted _ n _ | .inappropriateType _ n _ | .noSuchThing _ n _ => n.toNat
    | _ => 5
  if Nat.pow 2 31 ≤ n then Nat.pow 2 32 - n else n

def fault (e : IO.Error) : Error := .io (SystemFault.text (faultNumber e))

abbrev Pending (α : Type) := Task (Except IO.Error α)

def begin {α : Type} (x : Async α) : IO (Pending α) := do return (← Async.toIO x)

structure Wire where
  send : Bytes → Async Unit
  /-- Without it, somebody else receives for the session. -/
  recv : Option (Nat → Async Bytes)
  close : Async Unit

def pack (b : Bytes) : ByteArray := ⟨b.toArray⟩
def unpack (b : ByteArray) : Bytes := b.data.toList

def Wire.ofStream (s : TCP.Socket.Client) : Wire where
  send data := s.send (pack data)
  recv := some fun size => do
    match ← s.recv? size.toUInt64 with
    | some b => return unpack b
    | none => return []
  close := s.shutdown

def Wire.ofDatagrams (s : UDP.Socket) : Wire where
  send data := s.send (pack data)
  recv := some fun size => do return unpack (← s.recv size.toUInt64).1
  close := pure ()

def Wire.ofPeer (s : UDP.Socket) (peer : Address) : Wire where
  send data := s.send (pack data) (some (toSocket peer))
  recv := none
  close := pure ()

def Wire.ask? (w : Wire) : Session.Wait → Option (Async Session.Reply)
  | .sending data _ => some (do w.send data; return .sent data.length)
  | .receiving size _ => w.recv.map fun recv => do return .received (← recv size)
  | .shutting => some (do w.close; return .closed)
  | _ => none

def isReceiving : Session.Wait → Bool
  | .receiving .. => true
  | _ => false

structure Flight where
  session : Nat
  task : Session.TaskId
  stamp : Nat
  receives : Bool
  pending : Pending Session.Reply

def Flight.move? (f : Flight) (m : Session.Machine) : Option Session.Move :=
  match (m.task? f.task).filter (·.stamp = f.stamp) with
  | some _ => some (.reply f.task (match f.pending.get with
    | .ok r => r
    | .error e => .failed (fault e)))
  | none => none

def launch (wires : Array Wire) (machines : List Session.Machine) (flights : List Flight) :
    IO (List Flight) := do
  let mut flights := flights
  for (m, i) in machines.zipIdx do
    for x in m.tasks do
      let receives := isReceiving x.wait
      let busy := flights.any fun f =>
        f.session = i && (f.stamp = x.stamp || (receives && f.receives))
      if !busy then
        if let some w := wires[i]? then
          if let some a := w.ask? x.wait then
            flights := ⟨i, x.id, x.stamp, receives, ← begin a⟩ :: flights
  return flights

def land (flights : List Flight) : IO (List Flight × List Flight) := do
  let mut landed := []
  let mut rest := []
  for f in flights do
    if ← IO.hasFinished f.pending then landed := f :: landed else rest := f :: rest
  return (landed, rest.reverse)

def now (start : Nat) : IO Duration := do return (← IO.monoNanosNow) - start

def await {α : Type} (limit : Duration) (p : Pending α) : IO (Option (Except IO.Error α)) := do
  let start ← IO.monoNanosNow
  while !(← IO.hasFinished p) do
    if limit ≤ (← IO.monoNanosNow) - start then return none
    IO.sleep 1
  return some p.get

def look (host : Text) (port : UInt16) : IO (Except Error Address) := do
  match Ip.parse? host with
  | some ip => return .ok ⟨ip, port⟩
  | none =>
    try
      let found ← (DNS.getAddrInfo (String.ofList host) (toString port.toNat)).block
      match found[0]? with
      | some a => return .ok ⟨ofIp a, port⟩
      | none => return .error (.config ("cannot resolve address ".toList ++ host ++ ':' ::
          Text.decimal port.toNat))
    catch _ =>
      return .error (.io "failed to lookup address information: Name or service not known".toList)

end Switchboard.Live
