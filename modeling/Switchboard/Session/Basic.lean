import Switchboard.Session.Settings
import Switchboard.Text.Utf8

/-! One connection to a peer: its state, its liveness flag, its counts. Every function here is one
step that nothing can interrupt; what waits for the link is in `Machine`. -/
namespace Switchboard

structure Session.Stats where
  messagesSent : UInt64 := 0
  messagesReceived : UInt64 := 0
  bytesSent : UInt64 := 0
  bytesReceived : UInt64 := 0
  deriving DecidableEq, Repr

structure Session where
  settings : LoopSettings
  timeout : Option Duration := none
  state : Session.State := .created
  /-- What loops and watchers look at; it goes down when the session leaves `active`. -/
  alive : Bool := false
  /-- Somebody has begun to close the link. -/
  released : Bool := false
  loops : LoopSet := {}
  stats : Session.Stats := {}
  lastActivity : Duration := 0
  deriving DecidableEq, Repr

namespace Session

def exitToken : Text := "exit".toList

/-- The payload with which a peer asks for the end; blanks around it do not count. -/
def isExitToken (b : Bytes) : Bool :=
  match Utf8.decode b with
  | .ok t => Text.trim t = exitToken
  | .error _ => false

def activate (s : Session) : Except Error Session :=
  if s.state = .created then .ok { s with state := .active, alive := true }
  else .error (.sessionInactive s.state)

def setLoop (s : Session) (k : Loop) (on : Bool) : Session := { s with loops := s.loops.set k on }

def ensureActive (s : Session) : Except Error Unit :=
  if s.state = .active then .ok () else .error (.sessionInactive s.state)

def touch (s : Session) (now : Duration) : Session := { s with lastActivity := now }

def idleFor (s : Session) (now : Duration) : Duration := now - s.lastActivity

/-- From `active` to `closing`; another state stays, but the flag goes down in any. -/
def beginClosing (s : Session) : Session :=
  { s with state := if s.state = .active then .closing else s.state, alive := false }

def sent (s : Session) (now : Duration) (n : Nat) : Session :=
  { s with
    stats.messagesSent := s.stats.messagesSent + 1
    stats.bytesSent := s.stats.bytesSent + n.toUInt64
    lastActivity := now }

def received (s : Session) (now : Duration) (data : Bytes) : Session :=
  { s with
    stats.messagesReceived := s.stats.messagesReceived + 1
    stats.bytesReceived := s.stats.bytesReceived + data.length.toUInt64
    lastActivity := now }

def obeyExit (s : Session) (data : Bytes) : Session :=
  if isExitToken data then s.beginClosing else s

def release (s : Session) : Session := { s with released := true, state := .closing, alive := false }

def finish (s : Session) : Session := { s with state := .closed, alive := false }

end Session
end Switchboard
