import Switchboard.Scenario.Basic
import Switchboard.Scenario.Report
import Switchboard.Session.Machine

/-! The steps of a scenario on a session, strictly one after the other. What does not match is written
down, what fails ends the run. -/
namespace Switchboard

structure Enactment where
  buffersize : Nat
  /-- Steps still to be done; the first is under way. -/
  rest : List Step
  report : Report := {}
  deriving DecidableEq, Repr

namespace Enactment

def begin (s : Scenario) : Enactment := ⟨s.agent.buffersize, s.steps, {}⟩

def job? (e : Enactment) : Option Session.Job :=
  e.rest.head?.map fun s => match s.action with
    | .send => .send s.template.build.encodeBytes
    | .recv => .recv e.buffersize

def judge (t : Template) (data : Bytes) : List Text × Option Message :=
  match Message.decodeBytes data with
  | .ok m => ((t.mismatches m).map Mismatch.message, some m)
  | .error e => ([e.message], none)

def note (e : Enactment) (s : Step) (rest : List Step) (mismatches : List Text)
    (received : Option Message) : Enactment :=
  let i := e.report.outcomes.length
  let o : Outcome := ⟨i, s.action, s.template.kind, mismatches, received⟩
  { e with rest := rest, report := ⟨e.report.outcomes ++ [o]⟩ }

def absorb (e : Enactment) (o : Session.Outcome) : Except Error Enactment :=
  match e.rest, o with
  | _, .failed err => .error err
  | s :: rest, .received data =>
    let (mismatches, received) := judge s.template data
    .ok (e.note s rest mismatches received)
  | s :: rest, _ => .ok (e.note s rest [] none)
  | [], _ => .ok e

end Enactment
end Switchboard
