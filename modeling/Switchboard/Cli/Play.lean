import Switchboard.Cli.Plan
import Switchboard.Client.Visit
import Switchboard.Realizer.Client
import Switchboard.Realizer.Server

/-! Plans on a network where nobody answers, as far as they come to an end there. -/
namespace Switchboard.Cli

def Output.ofRealized (json : Bool) : Except Error Report → Output
  | .ok r => .ofReport json r
  | .error e => .ofError e

namespace Plan

/-- An hour is longer than anybody waits for the end of a run. -/
def limit : Duration := .ofSeconds 3600

def playVisit (net : Network) (files : Files) (s : Client.Settings) : Option Output :=
  match Client.Visit.new s with
  | .error e => some (.ofError e)
  | .ok v => (v.play (some (Client.openLink net files s)) limit Schedule.turns).result?.map .ofOutcome

def playServe (s : Server.Settings) : Option Output :=
  match Server.new s with
  | .error e => some (.ofError e)
  | .ok w =>
    let w := w.go (.run (resolve s.host s.port) false)
    ((w.play (fun w => (w.answer? 0).isSome) limit Schedule.turns).answer? 0).map fun
    | .failed e => .ofError e
    | _ => {}

def playScenario (net : Network) (files : Files) (s : Scenario) (host : Text) :
    Option (Except Error Report) :=
  match s.agent.role with
  | .client ip timeout => match Realizer.ClientRun.new s ip timeout with
    | .error e => some (.error e)
    | .ok r =>
      (r.play (some (Client.openLink net files r.client.settings)) limit Schedule.turns).result?
  | .server => match Realizer.ServerRun.new s host (resolve host s.agent.port.toUInt16) with
    | .error e => some (.error e)
    | .ok r => (r.play limit Schedule.turns).result?

def play (net : Network) (files : Files) : Plan → Option Output
  | finished o => some o
  | visit s => playVisit net files s
  | serve s => playServe s
  | realize s host json =>
    (playScenario net files s (host.getD Realizer.bindHost)).map (.ofRealized json)

end Plan

def play (net : Network) (w : Surroundings) (words : List Text) : Except Halt (Option Output) :=
  (parse words).map fun p => (plan w p.1 p.2).play net w.files

end Switchboard.Cli
