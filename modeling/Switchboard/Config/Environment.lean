import Switchboard.Config.Basic

/-! Variables that override a configuration. One that cannot be read is ignored. -/
namespace Switchboard.Config

abbrev Environment := Text → Option Text

def Environment.nat? (env : Environment) (name : String) (bound : Nat) : Option Nat :=
  (env name.toList).bind (Text.readNat? bound)

def override {α : Type} (x : Option α) (change : α → Config → Config) (c : Config) : Config :=
  match x with
  | some a => change a c
  | none => c

def setProtocol (t : Text) (c : Config) : Config :=
  { c with client.protocol := t, server.protocol := t }

def setHost (t : Text) (c : Config) : Config := { c with client.host := t, server.host := t }

def setPort (n : Nat) (c : Config) : Config :=
  { c with client.port := n.toUInt16, server.port := n.toUInt16 }

def setBuffersize (n : Nat) (c : Config) : Config :=
  { c with clientLoops.buffersize := n, serverLoops.buffersize := n }

def withEnvironment (env : Environment) (c : Config) : Config :=
  c |> override (env "SIPSOCK_PROTOCOL".toList) setProtocol
    |> override (env "SIPSOCK_HOST".toList) setHost
    |> override (env.nat? "SIPSOCK_PORT" 65535) setPort
    |> override (env.nat? "SIPSOCK_TIMEOUT" (Nat.pow 2 64 - 1)) (fun n c => { c with client.timeoutSecs := n })
    |> override (env.nat? "SIPSOCK_MAX_TRIALS" (Nat.pow 2 32 - 1))
        (fun n c => { c with client.maxTrials := n.toUInt32 })
    |> override (env.nat? "SIPSOCK_BUFFERSIZE" (Nat.pow 2 64 - 1)) setBuffersize
    |> override (env "SIPSOCK_TLS".toList) (fun t c => { c with client.tls := some t })

end Switchboard.Config
