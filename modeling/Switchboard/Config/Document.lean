import Switchboard.Config.Basic
import Switchboard.Files
import Switchboard.Toml.Reader

/-! Configurations as TOML. A table may leave fields out and have others; a list gives the fields by
their places, as many as it has. Only of the loops all fields must be given, once their table is
there at all. -/
namespace Switchboard.Config

/-- A value as a record: `names` are its fields in order. -/
def fieldsOf (names : List String) : Toml → Option (List (Text × Toml))
  | .table fs => some fs
  | .list xs => some ((names.map String.toList).zip xs)
  | .moment t => some [(Toml.momentKey, .text t)]
  | _ => none

def look (fs : List (Text × Toml)) (name : String) : Option Toml :=
  (fs.find? (·.1 = name.toList)).map (·.2)

def given {α : Type} (fs : List (Text × Toml)) (name : String) (default : α)
    (read : Toml → Option α) : Option α :=
  match look fs name with
  | some v => read v
  | none => some default

def required {α : Type} (fs : List (Text × Toml)) (name : String) (read : Toml → Option α) :
    Option α := (look fs name).bind read

def text : Toml → Option Text
  | .text t => some t
  | _ => none

def bool : Toml → Option Bool
  | .bool b => some b
  | _ => none

def nat (bound : Nat) : Toml → Option Nat
  | .integer i => if 0 ≤ i ∧ i ≤ bound then some i.toNat else none
  | _ => none

def port (v : Toml) : Option UInt16 := (nat 65535 v).map Nat.toUInt16

def number : Toml → Option Binary64
  | .integer i => some (.ofInt i)
  | .float x => some x
  | _ => none

def word : Nat := Nat.pow 2 64 - 1

def loopTable (v : Toml) : Option LoopTable := do
  let fs ← fieldsOf ["message", "buffersize", "period_send_secs", "period_recv_secs",
    "period_sendrecv_secs"] v
  return {
    message := ← required fs "message" text
    buffersize := ← required fs "buffersize" (nat word)
    sendPeriod := ← required fs "period_send_secs" number
    recvPeriod := ← required fs "period_recv_secs" number
    sendrecvPeriod := ← required fs "period_sendrecv_secs" number }

def loopTables (v : Toml) : Option (LoopTable × LoopTable) := do
  let fs ← fieldsOf ["client", "server"] v
  return (← given fs "client" .client loopTable, ← given fs "server" .server loopTable)

def clientTable (v : Toml) : Option ClientTable := do
  let fs ← fieldsOf ["protocol", "host", "port", "timeout_secs", "max_trials", "retry_delay_ms",
    "tls", "ca_file", "server_name", "send_loop", "recv_loop", "sendrecv_loop"] v
  let d : ClientTable := {}
  return {
    protocol := ← given fs "protocol" d.protocol text
    host := ← given fs "host" d.host text
    port := ← given fs "port" d.port port
    timeoutSecs := ← given fs "timeout_secs" d.timeoutSecs (nat word)
    maxTrials := ← given fs "max_trials" d.maxTrials fun v => (nat (Nat.pow 2 32 - 1) v).map Nat.toUInt32
    retryDelayMs := ← given fs "retry_delay_ms" d.retryDelayMs (nat word)
    tls := ← given fs "tls" d.tls (fun v => (text v).map some)
    caFile := ← given fs "ca_file" d.caFile (fun v => (text v).map some)
    serverName := ← given fs "server_name" d.serverName (fun v => (text v).map some)
    enabled :=
      ⟨← given fs "send_loop" false bool, ← given fs "recv_loop" false bool,
        ← given fs "sendrecv_loop" false bool⟩ }

def serverTable (v : Toml) : Option ServerTable := do
  let fs ← fieldsOf ["protocol", "host", "port", "send_loop", "recv_loop", "idle_timeout_secs",
    "log_sessions"] v
  let d : ServerTable := {}
  return {
    protocol := ← given fs "protocol" d.protocol text
    host := ← given fs "host" d.host text
    port := ← given fs "port" d.port port
    sendLoop := ← given fs "send_loop" d.sendLoop bool
    recvLoop := ← given fs "recv_loop" d.recvLoop bool
    idleTimeoutSecs := ← given fs "idle_timeout_secs" d.idleTimeoutSecs (nat word)
    logSessions := ← given fs "log_sessions" d.logSessions bool }

def ofFields (fs : List (Text × Toml)) : Option Config := do
  let client ← given fs "client" {} clientTable
  let server ← given fs "server" {} serverTable
  let loops ← given fs "loops" (LoopTable.client, LoopTable.server) loopTables
  return ⟨client, server, loops.1, loops.2⟩

def ofText (t : Text) : Except Error Config :=
  match (Toml.read? t).bind ofFields with
  | some c => .ok c
  | none => .error (.config "Failed to parse config: ".toList)

def ofFile (e : Entry) : Except Error Config :=
  match e.readText with
  | .error why => .error (.config ("Failed to read config file: ".toList ++ why))
  | .ok t => ofText t

end Switchboard.Config
