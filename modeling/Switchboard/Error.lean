import Switchboard.Text.Quoted
import Switchboard.Text.Utf8

/-! What can go wrong, by cause. A setup error is one that no retry can cure. -/
namespace Switchboard

namespace Session

/-- A session moves down this list and never back. -/
inductive State where
  | created | active | closing | closed
  deriving DecidableEq, Repr

def State.name : State → Text
  | .created => "Created".toList
  | .active => "Active".toList
  | .closing => "Closing".toList
  | .closed => "Closed".toList

end Session

inductive DecodeFault where
  | notUtf8 (fault : Utf8.Fault)
  /-- The first line that is not blank has not three words; it is empty when all lines are blank. -/
  | intro (line : Text)
  /-- Found by another reader and told in its words. -/
  | other (text : Text)
  deriving DecidableEq, Repr

def DecodeFault.message : DecodeFault → Text
  | .notUtf8 f => "payload is not UTF-8: ".toList ++ f.message
  | .intro line => "invalid sip content, intro line: ".toList ++ Text.quoted line
  | .other text => text

inductive Error where
  | config (text : Text)
  | invalidField (field reason : Text)
  | protocolMismatch (text : Text)
  | connect (attempts : Nat) (reason : Text)
  | tls (text : Text)
  | peerClosed
  | sessionInactive (state : Session.State)
  | decode (fault : DecodeFault)
  | json
  | io (text : Text)
  deriving DecidableEq, Repr

namespace Error

def message : Error → Text
  | config t => "Config error: ".toList ++ t
  | invalidField f r => "Config error: field `".toList ++ f ++ "` ".toList ++ r
  | protocolMismatch t => "Protocol mismatch: ".toList ++ t
  | connect n r =>
    "Connect error after ".toList ++ Text.decimal n ++ " attempt(s): ".toList ++ r
  | tls t => "TLS error: ".toList ++ t
  | peerClosed => "Peer closed the connection".toList
  | sessionInactive s => "Session not active (state: ".toList ++ s.name ++ [')']
  | decode f => "Decode error: ".toList ++ f.message
  | json => "JSON error".toList
  | io t => "IO error: ".toList ++ t

/-- Aborts before any traffic; every other error may pass with time. -/
def isSetup : Error → Bool
  | config _ | invalidField .. | protocolMismatch _ | json => true
  | _ => false

def linkClosed (name : Text) : Error := io (name ++ " link is closed".toList)

end Error
end Switchboard
