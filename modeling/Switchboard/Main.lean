import Std.Async.Signal
import Switchboard.Cli.Help
import Switchboard.Cli.Play
import Switchboard.Live.Client
import Switchboard.Live.Server

/-! The program: looks at what its command line names, plans, and carries the plan out. -/
namespace Switchboard.Program
open Live

def readEntry (path : Text) : IO Entry := do
  try
    let content ← IO.FS.readBinFile (String.ofList path)
    return .file (unpack content)
  catch e =>
    return match faultNumber e with
      | 20 => .blocked
      | 21 => .folder
      | 1 | 13 => .denied
      | _ => .absent

def readFiles (paths : List Text) : IO Files := do
  let entries ← paths.mapM fun p => return (p, ← readEntry p)
  return fun path => ((entries.find? (·.1 = path)).map (·.2)).getD .absent

def readEnvironment : IO Config.Environment := do
  let names := ["XDG_CONFIG_HOME", "HOME", "SIPSOCK_PROTOCOL", "SIPSOCK_HOST", "SIPSOCK_PORT",
    "SIPSOCK_TIMEOUT", "SIPSOCK_MAX_TRIALS", "SIPSOCK_BUFFERSIZE", "SIPSOCK_TLS"]
  let values ← names.mapM fun n => return (n.toList, ← IO.getEnv n)
  return fun name => ((values.find? (·.1 = name)).bind (·.2)).map String.toList

def readInput : IO Bytes := do
  return unpack (← (← IO.getStdin).readBinToEnd)

def pathsOf (env : Config.Environment) (g : Cli.Globals) : Cli.Command → List Text
  | .client _ | .server _ =>
    g.config.toList ++ ((Cli.configFolder env).map (· ++ "/sipsock/config.toml".toList)).toList
  | .scenario file | .realize file _ _ => [file]
  | .decode o => o.file.toList

def needsInput : Cli.Command → Bool
  | .decode o => o.file.isNone && (o.input.isNone || o.input = some ['-'])
  | _ => false

def interruption : IO (Pending Int) := do
  let waiter ← Std.Async.Signal.Waiter.mk .sigint false
  return (← waiter.wait)

def visit (s : Client.Settings) : IO Cli.Output := do
  let files ← readFiles ((s.tls.bind (·.caFile)).toList)
  match Client.Visit.new s with
  | .error e => return .ofError e
  | .ok v =>
    let stop ← if s.enabled.toList.isEmpty then pure none else some <$> interruption
    let o ← goOn Caller.visit (·.result?) files (← IO.monoNanosNow) stop #[] [] v
    return .ofOutcome o

def serve (s : Server.Settings) : IO Cli.Output := do
  match Server.new s with
  | .error e => return .ofError e
  | .ok w => match ← bind s with
    | .error e => return .ofError e
    | .ok (here, l) =>
      let stop ← interruption
      let a ← host Host.run (·.answer? 0) l (← IO.monoNanosNow) (some stop) none #[] []
        (w.go (.run (.ok here) false))
      return match a with
        | .failed e => .ofError e
        | _ => {}

def realize (s : Scenario) (bindHost : Option Text) : IO (Except Error Report) := do
  match s.agent.role with
  | .client ip timeout => match Realizer.ClientRun.new s ip timeout with
    | .error e => return .error e
    | .ok r =>
      goOn Caller.run (·.result?) (fun _ => .absent) (← IO.monoNanosNow) none #[] [] r
  | .server =>
    let name := bindHost.getD Realizer.bindHost
    match ← bind (Realizer.serverSettings s name) with
    | .error e => return .error e
    | .ok (here, l) => match Realizer.ServerRun.new s name (.ok here) with
      | .error e => return .error e
      | .ok r => host Host.realize (·.result?) l (← IO.monoNanosNow) none none #[] [] r

def carryOut : Cli.Plan → IO Cli.Output
  | .finished o => pure o
  | .visit s => visit s
  | .serve s => serve s
  | .realize s name json => return .ofRealized json (← realize s name)

def answer (words : List Text) : IO Cli.Output := do
  match Cli.parse words with
  | .error h => return .ofHalt h
  | .ok (g, c) =>
    let env ← readEnvironment
    let files ← readFiles (pathsOf env g c)
    let input ← if needsInput c then readInput else pure []
    carryOut (Cli.plan ⟨files, env, input⟩ g c)

def run (args : List String) : IO UInt32 := do
  let o ← answer (args.map String.toList)
  IO.print (String.ofList o.out)
  IO.eprint (String.ofList o.err)
  (← IO.getStdout).flush
  return o.exit.toUInt32

end Switchboard.Program

def main (args : List String) : IO UInt32 := Switchboard.Program.run args
