import Switchboard.Realizer.Enactment
import Switchboard.Server.Play

/-! A scenario with the role of a server: start, accept the first peer, do the steps with it, stop.
The server goes on serving beside the steps, for over UDP nothing is received otherwise. -/
namespace Switchboard.Realizer

def bindHost : Text := "0.0.0.0".toList

def serverSettings (s : Scenario) (host : Text) : Server.Settings where
  transport := s.agent.transport
  host := host
  port := s.agent.port.toUInt16
  loops := { LoopSettings.server with buffersize := s.agent.buffersize }
  sendLoop := false
  recvLoop := false
  idleTimeout := none

inductive ServerStage where
  | accepting (chore : Server.ChoreId)
  | acting (session : Nat) (task : Session.TaskId) (e : Enactment) (serving : Server.ChoreId)
  | stopping (chore : Server.ChoreId) (r : Except Error Report)
  | ended (r : Except Error Report)

structure ServerRun where
  scenario : Scenario
  server : Server
  stage : ServerStage

namespace ServerRun

def new (s : Scenario) (host : Text) (bound : Except Error Address) : Except Error ServerRun := do
  let server ← Server.new (serverSettings s host)
  match server.start bound with
  | (server, .ok ()) =>
    return ⟨s, server.go (.call .accept), .accepting server.fresh⟩
  | (server, .error e) => return ⟨s, server, .ended (.error e)⟩

def stop (r : ServerRun) (result : Except Error Report) : ServerRun :=
  { r with server := r.server.go (.call .stop), stage := .stopping r.server.fresh result }

def act (r : ServerRun) (session : Nat) (e : Enactment) (serving : Server.ChoreId) : ServerRun :=
  match e.job?, r.server.machine? session with
  | some job, some m =>
    { r with
      server := r.server.go (.session session (.call job))
      stage := .acting session m.fresh e serving }
  | _, _ => { r with server := r.server.go (.cancel serving) }.stop (.ok e.report)

/-- Goes on when the server has done what it was asked. When serving ends, which it does with an
error only, that is the result. -/
def advance (r : ServerRun) : Option ServerRun :=
  match r.stage with
  | .accepting c => (r.server.answer? c).map fun
    | .accepted i _ =>
      { r with server := r.server.go (.spawn .serve) }.act i (.begin r.scenario) r.server.fresh
    | .failed e => r.stop (.error e)
    | _ => r
  | .acting i t e serving => match r.server.outcome? i t with
    | some o => some (match e.absorb o with
      | .ok e => r.act i e serving
      | .error err => { r with server := r.server.go (.cancel serving) }.stop (.error err))
    | none => (r.server.answer? serving).map fun
      | .failed err => { r with server := r.server.go (.session i (.cancel t)) }.stop (.error err)
      | _ => r
  | .stopping c result => (r.server.answer? c).map fun
    | .failed e => { r with stage := .ended (.error e) }
    | _ => { r with stage := .ended result }
  | .ended _ => none

def result? (r : ServerRun) : Option (Except Error Report) :=
  match r.stage with
  | .ended result => some result
  | _ => none

def peer? (r : ServerRun) : Option Address :=
  match r.stage with
  | .acting i .. => (r.server.cells[i]?).map (·.peer)
  | _ => none

inductive Move where
  | server (v : Server.Move)
  | advance

/-- Whether it comes from without. Nobody but the run calls its server or asks a session of it. Peers
come and go as they like, but who stands on a connection has no second one from the same address. -/
def isOpen (partner : Option Address) : Server.Move → Bool
  | .connected _ peer => partner ≠ some peer
  | .session _ (.call _) | .session _ (.cancel _) => false
  | .begin _ | .datagram .. | .acceptFailed .. | .wake _ | .proceed _ | .session .. | .receive ..
  | .pass _ => true
  | _ => false

def step : Move → ServerRun → Option ServerRun
  | .server v, r =>
    if isOpen r.peer? v then (r.server.step v).map fun w => { r with server := w } else none
  | .advance, r => r.advance

def steps : List Move → ServerRun → Option ServerRun
  | [], r => some r
  | v :: vs, r => (r.step v).bind (steps vs)

def play (limit : Duration) : Nat → ServerRun → ServerRun
  | 0, r => r
  | n + 1, r =>
    if r.result?.isSome then r
    else match r.advance with
      | some r => play limit n r
      | none =>
        let r := { r with
          server := r.server.play (fun w => ({ r with server := w }).advance.isSome) limit
            Schedule.turns }
        match r.advance with
        | some r => play limit n r
        | none => r

end ServerRun
end Switchboard.Realizer
