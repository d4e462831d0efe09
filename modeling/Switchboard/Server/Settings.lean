import Switchboard.Session.Settings
import Switchboard.Transport.Basic

/-! What a server is told before it starts. Its sessions never run the loop that sends and receives
in turn, and over UDP no loop that receives: there the accept loop reads for all of them. -/
namespace Switchboard.Server

structure Settings where
  transport : Transport := .tcp
  host : Text := "127.0.0.1".toList
  port : UInt16 := 5060
  loops : LoopSettings := .server
  sendLoop : Bool := false
  recvLoop : Bool := true
  idleTimeout : Option Duration := some (.ofSeconds 60)
  logSessions : Bool := true
  deriving DecidableEq, Repr

namespace Settings

def withLoop (s : Settings) (k : Loop) (on : Bool) : Settings :=
  match k with
  | .send => { s with sendLoop := on }
  | .recv => { s with recvLoop := on }
  | .sendrecv => s

def enabled (s : Settings) : LoopSet := ⟨s.sendLoop, s.recvLoop && s.transport = .tcp, false⟩

def runsLoops (s : Settings) : Bool := Loop.all.any s.enabled.has

/-- A loop that receives notices by itself that a peer is gone, so only sessions without one are given
up for being idle. -/
def idleLimit (s : Settings) : Option Duration :=
  if s.enabled.recv then none else s.idleTimeout

def listen (s : Settings) : Text := s.host ++ ':' :: Text.decimal s.port.toNat

def validate (s : Settings) : Except Error Unit :=
  if s.loops.buffersize = 0 then .error (.zero "buffersize")
  else if s.idleTimeout = some 0 then .error (.zero "idle_timeout")
  else .ok ()

end Settings
end Switchboard.Server
