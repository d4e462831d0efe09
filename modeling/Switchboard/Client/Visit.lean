import Switchboard.Client.Play

/-! A whole visit of a client to a server. Without loops it connects, sends its message, waits for a
reply and disconnects; with loops it runs them. -/
namespace Switchboard.Client

inductive VisitStage where
  | connecting
  | talking
  | running
  | leaving (o : Session.Outcome)
  | ended (o : Session.Outcome)
  deriving DecidableEq, Repr

structure Visit where
  client : Client
  stage : VisitStage
  deriving DecidableEq, Repr

namespace Visit

def ask (v : Visit) (job : Job) (stage : VisitStage) : Visit :=
  ⟨(v.client.step (.call job)).getD v.client, stage⟩

def new (s : Settings) : Except Error Visit := do
  let client ← Client.new s
  let v : Visit := ⟨client, .connecting⟩
  return if s.enabled.toList.isEmpty then v.ask .connect .connecting else v.ask .run .running

def advance (v : Visit) : Option Visit :=
  match v.stage, v.client.result with
  | .connecting, some (.failed e) | .running, some (.failed e) | .leaving _, some (.failed e) =>
    some { v with stage := .ended (.failed e) }
  | .connecting, some _ => some (v.ask .exchange .talking)
  | .talking, some o | .running, some o => some (v.ask .disconnect (.leaving o))
  | .leaving o, some _ => some { v with stage := .ended o }
  | _, _ => none

def breakOff (v : Visit) : Visit :=
  match v.stage with
  | .running => { v with client := v.client.interrupt }.ask .disconnect (.leaving .done)
  | _ => v

def result? (v : Visit) : Option Session.Outcome :=
  match v.stage with
  | .ended o => some o
  | _ => none

def play (attempt : Option (Except Error Address)) (limit : Duration) : Nat → Visit → Visit
  | 0, v => v
  | n + 1, v =>
    if v.result?.isSome then v
    else
      let v := { v with client := v.client.play attempt limit Schedule.turns }
      match v.advance with
      | some v => play attempt limit n v
      | none => v

end Visit
end Switchboard.Client
