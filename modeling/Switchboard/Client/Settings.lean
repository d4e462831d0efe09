import Switchboard.Session.Settings
import Switchboard.Tls.Selector
import Switchboard.Transport.Basic

/-! What a client is told before it connects. -/
namespace Switchboard.Client

structure Settings where
  transport : Transport := .tcp
  host : Text := "127.0.0.1".toList
  port : UInt16 := 5060
  timeout : Duration := .ofSeconds 5
  tls : Option Tls.Settings := none
  /-- Attempts to connect; zero counts as one. -/
  maxTrials : UInt32 := 10
  retryDelay : Duration := .ofMillis 500
  loops : LoopSettings := .client
  enabled : LoopSet := {}
  deriving DecidableEq, Repr

namespace Settings

def target (s : Settings) : Text := s.host ++ ':' :: Text.decimal s.port.toNat

def validate (s : Settings) : Except Error Unit :=
  if s.tls.isSome ∧ s.transport = .udp then
    .error (.config "TLS is only supported over TCP".toList)
  else if s.loops.buffersize = 0 then .error (.zero "buffersize")
  else .ok ()

end Settings
end Switchboard.Client
