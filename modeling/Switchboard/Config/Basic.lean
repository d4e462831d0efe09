import Switchboard.Client.Settings
import Switchboard.Server.Settings

/-! The configuration of both roles, as documents and the environment state it, and the settings it
amounts to. -/
namespace Switchboard

/-- Periods are in seconds. -/
structure LoopTable where
  message : Text
  buffersize : Nat
  sendPeriod : Binary64
  recvPeriod : Binary64
  sendrecvPeriod : Binary64
  deriving DecidableEq, Repr

namespace LoopTable

def client : LoopTable := ⟨"Hello, World!".toList, 1024, .ofNat 10, .ofNat 2, .ofNat 5⟩
def server : LoopTable := ⟨"I am the server".toList, 1024, .ofNat 5, .ofNat 3, .ofNat 5⟩

def period (path : String) (name : String) (x : Binary64) : Except Error Duration :=
  match Duration.ofBinary64 x with
  | .ok d => .ok d
  | .error f => .error (.invalidField (path.toList ++ '.' :: name.toList) f.message)

def settings (path : String) (t : LoopTable) : Except Error LoopSettings := do
  return {
    message := t.message
    buffersize := t.buffersize
    sendPeriod := ← period path "period_send_secs" t.sendPeriod
    recvPeriod := ← period path "period_recv_secs" t.recvPeriod
    sendrecvPeriod := ← period path "period_sendrecv_secs" t.sendrecvPeriod }

end LoopTable

structure ClientTable where
  protocol : Text := "tcp".toList
  host : Text := "127.0.0.1".toList
  port : UInt16 := 5060
  timeoutSecs : Nat := 5
  maxTrials : UInt32 := 10
  retryDelayMs : Nat := 500
  tls : Option Text := none
  caFile : Option Text := none
  serverName : Option Text := none
  enabled : LoopSet := {}
  deriving DecidableEq, Repr

structure ServerTable where
  protocol : Text := "tcp".toList
  host : Text := "127.0.0.1".toList
  port : UInt16 := 5060
  sendLoop : Bool := false
  recvLoop : Bool := true
  /-- Zero stands for no limit. -/
  idleTimeoutSecs : Nat := 60
  logSessions : Bool := true
  deriving DecidableEq, Repr

structure Config where
  client : ClientTable := {}
  server : ServerTable := {}
  clientLoops : LoopTable := .client
  serverLoops : LoopTable := .server
  deriving DecidableEq, Repr

namespace Config

def clientSettings (c : Config) : Except Error Client.Settings := do
  let transport ← Transport.parse c.client.protocol
  let tls ← match c.client.tls with
    | none => pure none
    | some t => do
      let selector ← Tls.Selector.parse t
      pure (some ⟨selector, c.client.caFile, c.client.serverName⟩)
  let loops ← c.clientLoops.settings "loops.client"
  let s : Client.Settings := {
    transport, tls, loops
    host := c.client.host
    port := c.client.port
    timeout := .ofSeconds c.client.timeoutSecs
    maxTrials := c.client.maxTrials
    retryDelay := .ofMillis c.client.retryDelayMs
    enabled := c.client.enabled }
  s.validate
  return s

def serverSettings (c : Config) : Except Error Server.Settings := do
  let transport ← Transport.parse c.server.protocol
  let loops ← c.serverLoops.settings "loops.server"
  let s : Server.Settings := {
    transport, loops
    host := c.server.host
    port := c.server.port
    sendLoop := c.server.sendLoop
    recvLoop := c.server.recvLoop
    idleTimeout :=
      if c.server.idleTimeoutSecs = 0 then none else some (.ofSeconds c.server.idleTimeoutSecs)
    logSessions := c.server.logSessions }
  s.validate
  return s

end Config
end Switchboard
