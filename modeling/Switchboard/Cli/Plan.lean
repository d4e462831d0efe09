import Switchboard.Cli.Command
import Switchboard.Cli.Output
import Switchboard.Config.Document
import Switchboard.Config.Environment
import Switchboard.Scenario.Document

/-! What a command comes to before anything is sent: the configuration with the options on top, what
can be answered at once, and what has to be done over the network. -/
namespace Switchboard
namespace Config

def withClientOptions (o : Cli.ClientOptions) (c : Config) : Config :=
  let t := c.client
  let k := c.clientLoops
  { c with
    client := { t with
      protocol := o.protocol.getD t.protocol
      host := o.host.getD t.host
      port := o.port.getD t.port
      timeoutSecs := o.timeout.getD t.timeoutSecs
      maxTrials := o.trials.getD t.maxTrials
      tls := o.tls.or t.tls
      caFile := o.caFile.or t.caFile
      enabled :=
        ⟨t.enabled.send || o.loops.send, t.enabled.recv || o.loops.recv,
          t.enabled.sendrecv || o.loops.sendrecv⟩ }
    clientLoops := { k with
      buffersize := o.buffersize.getD k.buffersize
      message := o.message.getD k.message } }

def withServerOptions (o : Cli.ServerOptions) (c : Config) : Config :=
  let t := c.server
  let k := c.serverLoops
  { c with
    server := { t with
      protocol := o.protocol.getD t.protocol
      port := o.port.getD t.port
      host := o.host.getD t.host
      sendLoop := t.sendLoop || o.sendLoop
      recvLoop := t.recvLoop && !o.noRecvLoop
      logSessions := t.logSessions && !o.quiet }
    serverLoops := { k with
      buffersize := o.buffersize.getD k.buffersize
      message := o.message.getD k.message } }

end Config

namespace Cli

structure Surroundings where
  files : Files
  env : Config.Environment
  input : Bytes

def configFolder (env : Config.Environment) : Option Text :=
  match env "XDG_CONFIG_HOME".toList with
  | some ('/' :: r) => some ('/' :: r)
  | _ => ((env "HOME".toList).filter (· ≠ [])).map (· ++ "/.config".toList)

/-- What the file says. One that was asked for must be there, the usual one need not. -/
def fileConfig (w : Surroundings) (path : Option Text) : Except Error Config :=
  match path with
  | some p => Config.ofFile (w.files p)
  | none => match (configFolder w.env).map (w.files <| · ++ "/sipsock/config.toml".toList) with
    | some e => if e.isThere then Config.ofFile e else .ok {}
    | none => .ok {}

def loadConfig (w : Surroundings) (path : Option Text) : Except Error Config := do
  return (← fileConfig w path).withEnvironment w.env

def unescape (t : Text) : Text :=
  Text.replace ['\\', 'n'] ['\n'] (Text.replace ['\\', 'r', '\\', 'n'] ['\r', '\n'] t)

/-- A file comes before a text, and a dash stands for the standard input. -/
def readInput (w : Surroundings) (o : DecodeOptions) : Except Text Text :=
  match o.file, o.input with
  | some path, _ => (w.files path).readText
  | none, none => (Entry.file w.input).readText
  | none, some t => if t = ['-'] then (Entry.file w.input).readText else .ok (unescape t)

def decode (w : Surroundings) (o : DecodeOptions) : Output :=
  match readInput w o with
  | .ok t => .ofMessage o.json (Message.decode t)
  | .error why => .failure why

inductive Plan where
  | finished (o : Output)
  /-- Without a loop, one message is sent and the reply printed. -/
  | visit (s : Client.Settings)
  | serve (s : Server.Settings)
  | realize (s : Scenario) (bindHost : Option Text) (json : Bool)

def Plan.ofExcept : Except Error Plan → Plan
  | .ok p => p
  | .error e => .finished (.ofError e)

def planClient (w : Surroundings) (config : Option Text) (o : ClientOptions) :
    Except Error Client.Settings := do
  (← loadConfig w config).withClientOptions o |>.clientSettings

def planServer (w : Surroundings) (config : Option Text) (o : ServerOptions) :
    Except Error Server.Settings := do
  let s ← (← loadConfig w config).withServerOptions o |>.serverSettings
  return if o.bindAll then { s with host := "0.0.0.0".toList } else s

def plan (w : Surroundings) (g : Globals) : Command → Plan
  | .client o => .ofExcept ((planClient w g.config o).map .visit)
  | .server o => .ofExcept ((planServer w g.config o).map .serve)
  | .scenario file =>
    .ofExcept ((Scenario.ofFile file (w.files file)).map fun s => .finished ⟨0, s.describe, []⟩)
  | .realize file bindHost json =>
    .ofExcept ((Scenario.ofFile file (w.files file)).map (.realize · bindHost json))
  | .decode o => .finished (decode w o)

end Cli
end Switchboard
