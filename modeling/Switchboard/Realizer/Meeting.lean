import Switchboard.Realizer.Client
import Switchboard.Realizer.Server

/-! A client's run and a server's run on one network, which loses nothing, keeps the order, and hands
over every message whole. Nothing fails, and no wait is given up for taking too long; when anything
happens is open. Messages for the server are on their way until it takes them, also those that go
through the listener of an accept. -/
namespace Switchboard.Realizer
open Session (TaskId Wait Reply)
open Server (ChoreId)

structure Meeting where
  client : ClientRun
  server : ServerRun
  caller : Address
  pending : Bool := false
  /-- Messages on their way to the server, the oldest first. -/
  up : List Bytes := []
  down : List Bytes := []

namespace Meeting

def transport (w : Meeting) : Transport := w.server.server.settings.transport

structure Passage where
  reply : Reply
  rest : List Bytes
  taken : List Bytes

/-- The network takes what is sent and hands over what is there. When nothing is there it says so only
at the end of a stream. -/
def passage? (wait : Wait) (here : List Bytes) (atEnd : Bool) : Option Passage :=
  match wait, here with
  | .sending data _, ds => some ⟨.sent data.length, ds, [data]⟩
  | .receiving size _, d :: ds => some ⟨.received (d.take size), ds, []⟩
  | .receiving .., [] => if atEnd then some ⟨.received [], [], []⟩ else none
  | .shutting, ds => some ⟨.closed, ds, []⟩
  | _, _ => none

/-- A stream ends when the other side closes it; a datagram socket never tells. -/
def endsDown (w : Meeting) : Bool :=
  w.transport = .tcp && (w.server.server.machine? 0).any (·.session.released)

def endsUp (w : Meeting) : Bool :=
  w.transport = .tcp && (w.client.client.sessions[0]?).any (·.session.released)

inductive Move where
  | connect (here : Address)
  | accept (c : ChoreId)
  | deliver (c : ChoreId)
  | answerClient (t : TaskId)
  | answerServer (t : TaskId)
  | receive (t : TaskId)
  | client (v : ClientRun.Move)
  | server (v : ServerRun.Move)
  | pass (d : Duration)

def isOfClient : ClientRun.Move → Bool
  | .advance | .client .proceed | .client .wake => true
  | .client (.session _ v) => v.isInner
  | _ => false

def isOfServer : ServerRun.Move → Bool
  | .advance | .server (.begin _) | .server (.wake _) | .server (.proceed _) => true
  | .server (.session _ v) => v.isInner
  | _ => false

def answerClient (t : TaskId) (w : Meeting) : Option Meeting := do
  let x ← (w.client.client.sessions[0]?).bind (·.task? t)
  let a ← passage? x.wait w.down w.endsDown
  let r ← w.client.step (.client (.session 0 (.reply t a.reply)))
  return { w with client := r, down := a.rest, up := w.up ++ a.taken }

def answerServer (t : TaskId) (w : Meeting) : Option Meeting := do
  let x ← (w.server.server.machine? 0).bind (·.task? t)
  let a ← passage? x.wait w.up w.endsUp
  let r ← w.server.step (.server (.session 0 (.reply t a.reply)))
  return { w with server := r, up := a.rest, down := w.down ++ a.taken }

def step : Move → Meeting → Option Meeting
  | .connect here, w =>
    if w.client.client.settings.transport = w.transport then
      (w.client.step (.client (.opened (.ok here)))).map fun r =>
        { w with client := r, pending := w.transport = .tcp }
    else none
  | .accept c, w =>
    if w.pending then
      (w.server.step (.server (.connected c w.caller))).map fun r =>
        { w with server := r, pending := false }
    else none
  | .deliver c, w => match w.up with
    | [] => none
    | d :: ds =>
      (w.server.step (.server (.datagram c w.caller d))).map fun r => { w with server := r, up := ds }
  | .answerClient t, w => w.answerClient t
  | .answerServer t, w => w.answerServer t
  | .receive t, w =>
    (w.server.step (.server (.receive 0 t))).map fun r => { w with server := r }
  | .client v, w =>
    if isOfClient v then (w.client.step v).map fun r => { w with client := r } else none
  | .server v, w =>
    if isOfServer v then (w.server.step v).map fun r => { w with server := r } else none
  | .pass d, w => do
    let c ← w.client.step (.client (.pass d))
    let s ← w.server.step (.server (.pass d))
    return { w with client := c, server := s }

def steps : List Move → Meeting → Option Meeting
  | [], w => some w
  | v :: vs, w => (w.step v).bind (steps vs)

def Move.isBusy : Move → Bool
  | .pass _ => false
  | _ => true

end Meeting
end Switchboard.Realizer
