import Switchboard.Client.Play
import Switchboard.Realizer.Enactment

/-! A scenario with the role of a client: connect, do the steps, disconnect. -/
namespace Switchboard.Realizer

def clientSettings (s : Scenario) (ip : Text) (timeout : Nat) : Client.Settings where
  transport := s.agent.transport
  host := ip
  port := s.agent.port.toUInt16
  timeout := .ofSeconds timeout
  loops := { LoopSettings.client with buffersize := s.agent.buffersize }

inductive ClientStage where
  | connecting
  | acting (e : Enactment)
  | leaving (r : Except Error Report)
  | ended (r : Except Error Report)

structure ClientRun where
  scenario : Scenario
  client : Client
  stage : ClientStage

namespace ClientRun

def ask (r : ClientRun) (job : Client.Job) (stage : ClientStage) : ClientRun :=
  { r with client := (r.client.step (.call job)).getD r.client, stage := stage }

def new (s : Scenario) (ip : Text) (timeout : Nat) : Except Error ClientRun := do
  let client ← Client.new (clientSettings s ip timeout)
  return ask ⟨s, client, .connecting⟩ .connect .connecting

def leave (r : ClientRun) (result : Except Error Report) : ClientRun :=
  r.ask .disconnect (.leaving result)

def act (r : ClientRun) (e : Enactment) : ClientRun :=
  match e.job? with
  | some (.send data) => r.ask (.send data) (.acting e)
  | some (.recv size) => r.ask (.recv size) (.acting e)
  | _ => r.leave (.ok e.report)

def advance (r : ClientRun) : Option ClientRun :=
  match r.stage, r.client.result with
  | .connecting, some (.failed e) => some { r with stage := .ended (.error e) }
  | .connecting, some _ => some (r.act (.begin r.scenario))
  | .acting e, some o => some (match e.absorb o with
    | .ok e => r.act e
    | .error err => r.leave (.error err))
  | .leaving _, some (.failed e) => some { r with stage := .ended (.error e) }
  | .leaving result, some _ => some { r with stage := .ended result }
  | _, _ => none

def result? (r : ClientRun) : Option (Except Error Report) :=
  match r.stage with
  | .ended result => some result
  | _ => none

inductive Move where
  | client (v : Client.Move)
  | advance

/-- Whether it comes from without. Nobody but the run calls its client, and the run does not give up. -/
def isOpen : Client.Move → Bool
  | .call _ | .interrupt => false
  | _ => true

def step : Move → ClientRun → Option ClientRun
  | .client v, r =>
    if isOpen v then (r.client.step v).map fun c => { r with client := c } else none
  | .advance, r => r.advance

def steps : List Move → ClientRun → Option ClientRun
  | [], r => some r
  | v :: vs, r => (r.step v).bind (steps vs)

def play (attempt : Option (Except Error Address)) (limit : Duration) : Nat → ClientRun → ClientRun
  | 0, r => r
  | n + 1, r =>
    if r.result?.isSome then r
    else
      let r := { r with client := r.client.play attempt limit Schedule.turns }
      match r.advance with
      | some r => play attempt limit n r
      | none => r

end ClientRun
end Switchboard.Realizer
