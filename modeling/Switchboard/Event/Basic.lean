import Switchboard.Net.Address

/-! What servers, clients and sessions tell their observers, and as whom. -/
namespace Switchboard

inductive Event where
  | willRun
  | didRun
  | willStart
  | didStart (here : Address)
  | willAccept
  | didAccept (peer : Address)
  | willStop
  | didStop
  | willConnect (attempt : UInt32)
  | didConnect (peer : Address)
  | sending (message : Bytes)
  | sendSuccess (message : Bytes)
  | sendFailure (message : Bytes) (error : Text)
  | receiving (buffersize : Nat)
  | recvSuccess (buffersize : Nat) (message : Bytes)
  | recvFailure (buffersize : Nat) (error : Text)
  | closing
  | closeSuccess
  | closeFailure (error : Text)
  deriving DecidableEq, Repr

namespace Event

inductive Kind where
  | willRun | didRun | willStart | didStart | willAccept | didAccept | willStop | didStop
  | willConnect | didConnect | sending | sendSuccess | sendFailure | receiving | recvSuccess
  | recvFailure | closing | closeSuccess | closeFailure
  deriving DecidableEq, Repr

def kind : Event → Kind
  | willRun => .willRun
  | didRun => .didRun
  | willStart => .willStart
  | didStart _ => .didStart
  | willAccept => .willAccept
  | didAccept _ => .didAccept
  | willStop => .willStop
  | didStop => .didStop
  | willConnect _ => .willConnect
  | didConnect _ => .didConnect
  | sending _ => .sending
  | sendSuccess _ => .sendSuccess
  | sendFailure .. => .sendFailure
  | receiving _ => .receiving
  | recvSuccess .. => .recvSuccess
  | recvFailure .. => .recvFailure
  | closing => .closing
  | closeSuccess => .closeSuccess
  | closeFailure _ => .closeFailure

end Event

inductive Subject where
  | server (port : UInt16)
  | session (peer : Address)
  | client (target : Text)
  deriving DecidableEq, Repr

def Subject.text : Subject → Text
  | server port => "server:".toList ++ Text.decimal port.toNat
  | session peer => "session[".toList ++ peer.text ++ [']']
  | client target => "client->".toList ++ target

end Switchboard
