import Switchboard.Cli.Options
import Switchboard.Session.Settings

/-! The commands of the program and their options. The options for all commands may stand before or
behind the name of the command; what stands behind counts. -/
namespace Switchboard.Cli

structure Globals where
  config : Option Text := none
  verbose : Bool := false
  deriving DecidableEq, Repr

structure ClientOptions where
  protocol : Option Text := none
  host : Option Text := none
  port : Option UInt16 := none
  timeout : Option Nat := none
  buffersize : Option Nat := none
  trials : Option UInt32 := none
  tls : Option Text := none
  caFile : Option Text := none
  message : Option Text := none
  loops : LoopSet := {}
  deriving DecidableEq, Repr

structure ServerOptions where
  protocol : Option Text := none
  port : Option UInt16 := none
  host : Option Text := none
  bindAll : Bool := false
  buffersize : Option Nat := none
  message : Option Text := none
  sendLoop : Bool := false
  noRecvLoop : Bool := false
  quiet : Bool := false
  deriving DecidableEq, Repr

structure ScenarioOptions where
  file : Option Text := none
  bindHost : Option Text := none
  json : Bool := false
  deriving DecidableEq, Repr

structure DecodeOptions where
  input : Option Text := none
  file : Option Text := none
  json : Bool := false
  deriving DecidableEq, Repr

inductive Command where
  | client (o : ClientOptions)
  | server (o : ServerOptions)
  | scenario (file : Text)
  | realize (file : Text) (bindHost : Option Text) (json : Bool)
  | decode (o : DecodeOptions)
  deriving DecidableEq, Repr

/-! Options by command. -/

def word64 : Text → Option Nat := Text.readNat? (Nat.pow 2 64 - 1)
def word32 (t : Text) : Option UInt32 := (readSmall? (Nat.pow 2 32 - 1) t).map Nat.toUInt32
def word16 (t : Text) : Option UInt16 := (readSmall? (Nat.pow 2 16 - 1) t).map Nat.toUInt16

def helpOption (σ : Type) : Opt σ := ⟨"help", some 'h', .halt .help⟩

def globalOptions : List (Opt Globals) :=
  [⟨"config", some 'c', .value (path fun t g => { g with config := some t })⟩,
    ⟨"verbose", some 'v', .switch fun g => { g with verbose := true }⟩]

def topOptions : List (Opt Globals) :=
  globalOptions ++ [helpOption Globals, ⟨"version", some 'V', .halt .version⟩]

def clientOptions : List (Opt ClientOptions) :=
  [⟨"timeout", some 't', .value (number word64 fun n o => { o with timeout := some n })⟩,
    ⟨"buffersize", some 'b', .value (number word64 fun n o => { o with buffersize := some n })⟩,
    ⟨"trials", none, .value (number word32 fun n o => { o with trials := some n })⟩,
    ⟨"tls", none, .value (anyText fun t o => { o with tls := some t })⟩,
    ⟨"ca-file", none, .value (path fun t o => { o with caFile := some t })⟩,
    ⟨"message", some 'm', .value (anyText fun t o => { o with message := some t })⟩,
    ⟨"send-loop", none, .switch fun o => { o with loops.send := true }⟩,
    ⟨"recv-loop", none, .switch fun o => { o with loops.recv := true }⟩,
    ⟨"sendrecv-loop", none, .switch fun o => { o with loops.sendrecv := true }⟩]

def clientOperands : List (Text → ClientOptions → Option ClientOptions) :=
  [anyText fun t o => { o with protocol := some t }, anyText fun t o => { o with host := some t },
    number word16 fun n o => { o with port := some n }]

def serverOptions : List (Opt ServerOptions) :=
  [⟨"host", none, .value (anyText fun t o => { o with host := some t })⟩,
    ⟨"bind-all", none, .switch fun o => { o with bindAll := true }⟩,
    ⟨"buffersize", some 'b', .value (number word64 fun n o => { o with buffersize := some n })⟩,
    ⟨"message", some 'm', .value (anyText fun t o => { o with message := some t })⟩,
    ⟨"send-loop", none, .switch fun o => { o with sendLoop := true }⟩,
    ⟨"no-recv-loop", none, .switch fun o => { o with noRecvLoop := true }⟩,
    ⟨"quiet", none, .switch fun o => { o with quiet := true }⟩]

def serverOperands : List (Text → ServerOptions → Option ServerOptions) :=
  [anyText fun t o => { o with protocol := some t }, number word16 fun n o => { o with port := some n }]

def fileOperand : List (Text → ScenarioOptions → Option ScenarioOptions) :=
  [path fun t o => { o with file := some t }]

def realizeOptions : List (Opt ScenarioOptions) :=
  [⟨"bind-host", none, .value (anyText fun t o => { o with bindHost := some t })⟩,
    ⟨"json", none, .switch fun o => { o with json := true }⟩]

def decodeOptions : List (Opt DecodeOptions) :=
  [⟨"file", some 'f', .value (path fun t o => { o with file := some t })⟩,
    ⟨"json", none, .switch fun o => { o with json := true }⟩]

def decodeOperands : List (Text → DecodeOptions → Option DecodeOptions) :=
  [anyText fun t o => { o with input := some t }]

/-! Command lines. -/

def arguments {α : Type} (opts : List (Opt α)) (operands : List (Text → α → Option α)) (start : α)
    (ws : List Text) : Except Halt (Globals × α) :=
  let own := opts.map (Opt.lift Prod.snd fun a (p : Globals × α) => (p.1, a))
  let shared := globalOptions.map (Opt.lift Prod.fst fun g (p : Globals × α) => (g, p.2))
  let places := operands.map fun f t (p : Globals × α) => (f t p.2).map fun a => (p.1, a)
  match Scan.read (own ++ shared ++ [helpOption _]) ws ⟨({}, start), [], places⟩ with
  | .done p => .ok p
  | .extra .. => .error .usage
  | .halted h => .error h

def commandNames : List String := ["client", "server", "scenario", "realize", "decode", "help"]

def helpFor : List Text → Halt
  | [] => .help
  | [w] => if commandNames.any (·.toList = w) then .help else .usage
  | _ => .usage

def required (file : Option Text) : Except Halt Text :=
  match file with
  | some f => .ok f
  | none => .error .usage

def command (name : Text) (ws : List Text) : Except Halt (Globals × Command) := do
  if name = "client".toList then
    let (g, o) ← arguments clientOptions clientOperands {} ws
    return (g, .client o)
  else if name = "server".toList then
    let (g, o) ← arguments serverOptions serverOperands {} ws
    return (g, .server o)
  else if name = "scenario".toList then
    let (g, o) ← arguments [] fileOperand {} ws
    return (g, .scenario (← required o.file))
  else if name = "realize".toList then
    let (g, o) ← arguments realizeOptions fileOperand {} ws
    return (g, .realize (← required o.file) o.bindHost o.json)
  else if name = "decode".toList then
    let (g, o) ← arguments decodeOptions decodeOperands {} ws
    return (g, .decode o)
  else if name = "help".toList then .error (helpFor ws)
  else .error .usage

def parse (ws : List Text) : Except Halt (Globals × Command) :=
  match Scan.read topOptions ws ⟨{}, [], []⟩ with
  | .extra name rest g => do
    let (inner, c) ← command name rest
    return (⟨inner.config.or g.config, inner.verbose || g.verbose⟩, c)
  | .done _ => .error .usage
  | .halted h => .error h

end Switchboard.Cli
