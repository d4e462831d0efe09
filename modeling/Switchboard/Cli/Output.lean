import Switchboard.Message.Describe
import Switchboard.Scenario.Report
import Switchboard.Session.Machine

/-! What the program prints, and its exit code: 0 when all went well, 1 when not, 2 when the command
line is wrong. -/
namespace Switchboard.Cli

structure Output where
  exit : Nat := 0
  out : Text := []
  err : Text := []
  deriving DecidableEq, Repr

namespace Output

def failure (why : Text) : Output := ⟨1, [], "Error: ".toList ++ why ++ ['\n']⟩

/-- An error of input or output also tells its cause, as if that were another error. -/
def ofError : Error → Output
  | .io why =>
    failure ((Error.io why).message ++ "\n\nCaused by:\n    ".toList ++ why)
  | e => failure e.message

def ofMessage (json : Bool) : Option Message → Output
  | some m => ⟨0, if json then m.toJson.pretty 0 ++ ['\n'] else m.describe, []⟩
  | none => ⟨1, [], "invalid sip content\n".toList⟩

def ofReport (json : Bool) (r : Report) : Output where
  exit := if r.passed then 0 else 1
  out := (if json then r.toJson.pretty 0 else r.render) ++ ['\n']

def ofOutcome : Session.Outcome → Output
  | .received data => ⟨0, Utf8.decodeLossy data ++ ['\n'], []⟩
  | .failed e => ofError e
  | _ => {}

end Output
end Switchboard.Cli
