import Switchboard.Number.Duration
import Switchboard.Error

/-! The three loops of a session, which of them are on, and what they send and how often. -/
namespace Switchboard

inductive Loop where
  | send | recv | sendrecv
  deriving DecidableEq, Repr

namespace Loop

def all : List Loop := [send, recv, sendrecv]

def name : Loop → Text
  | send => "send".toList
  | recv => "recv".toList
  | sendrecv => "sendrecv".toList

end Loop

structure LoopSet where
  send : Bool := false
  recv : Bool := false
  sendrecv : Bool := false
  deriving DecidableEq, Repr

namespace LoopSet

def has (s : LoopSet) : Loop → Bool
  | .send => s.send
  | .recv => s.recv
  | .sendrecv => s.sendrecv

def set (s : LoopSet) (k : Loop) (on : Bool) : LoopSet :=
  match k with
  | .send => { s with send := on }
  | .recv => { s with recv := on }
  | .sendrecv => { s with sendrecv := on }

def toList (s : LoopSet) : List Loop := Loop.all.filter s.has

end LoopSet

structure LoopSettings where
  message : Text
  buffersize : Nat
  sendPeriod : Duration
  recvPeriod : Duration
  sendrecvPeriod : Duration
  deriving DecidableEq, Repr

namespace LoopSettings

def period (s : LoopSettings) : Loop → Duration
  | .send => s.sendPeriod
  | .recv => s.recvPeriod
  | .sendrecv => s.sendrecvPeriod

def client : LoopSettings where
  message := "Hello, World!".toList
  buffersize := 1024
  sendPeriod := .ofSeconds 10
  recvPeriod := .ofSeconds 2
  sendrecvPeriod := .ofSeconds 5

def server : LoopSettings where
  message := "I am the server".toList
  buffersize := 1024
  sendPeriod := .ofSeconds 5
  recvPeriod := .ofSeconds 3
  sendrecvPeriod := .ofSeconds 5

end LoopSettings

def Error.zero (field : String) : Error :=
  .invalidField field.toList "must be greater than zero".toList

end Switchboard
