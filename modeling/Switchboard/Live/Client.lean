import Switchboard.Client.Visit
import Switchboard.Live.Wire
import Switchboard.Realizer.Client

/-! Clients on a real network. Whoever has a client says how it goes on by itself; attempts to connect
and answers of links come from here. -/
namespace Switchboard.Live
open Std.Async

/-- There is nothing here that makes a link a safe one. -/
def safely (files : Files) (s : Client.Settings) (t : Tls.Settings) : Error :=
  let checked : Except Error Unit := do
    let _ ← t.nameFor s.host
    t.checkRoots files
  match checked with
  | .error e => e
  | .ok () => .tls "no safe links here".toList

def connect (s : Client.Settings) (a : Address) : IO (Except Error Wire) := do
  try
    match s.transport with
    | .udp =>
      let socket ← UDP.Socket.mk
      socket.connect (toSocket a)
      return .ok (Wire.ofDatagrams socket)
    | .tcp =>
      let socket ← TCP.Socket.Client.mk
      match ← await s.timeout (← begin (socket.connect (toSocket a))) with
      | some (.ok ()) =>
        socket.noDelay
        return .ok (Wire.ofStream socket)
      | some (.error e) => return .error (fault e)
      | none => return .error (.io ("connect to ".toList ++ a.text ++ " timed out".toList))
  catch e => return .error (fault e)

def dial (files : Files) (s : Client.Settings) : IO (Except Error (Address × Wire)) := do
  match ← look s.host s.port with
  | .error e => return .error e
  | .ok a =>
    match s.transport, s.tls with
    | .tcp, some t => return .error (safely files s t)
    | _, _ => return (← connect s a).map fun w => (a, w)

structure Caller (σ : Type) where
  client : σ → Client
  put : Client → σ → σ
  play : Duration → σ → σ
  breakOff : σ → σ

def Caller.visit : Caller Client.Visit where
  client v := v.client
  put c v := { v with client := c }
  play limit v := v.play none limit Schedule.turns
  breakOff v := v.breakOff

def Caller.run : Caller Realizer.ClientRun where
  client r := r.client
  put c r := { r with client := c }
  play limit r := r.play none limit Schedule.turns
  breakOff r := r

def isOpening (c : Client) : Bool :=
  match c.stage with
  | some (.opening _) => true
  | _ => false

def hear (c : Client) (f : Flight) : Client :=
  match (c.sessions[f.session]?).bind f.move? with
  | some v => (c.step (.session f.session v)).getD c
  | none => c

partial def goOn {σ α : Type} (k : Caller σ) (done : σ → Option α) (files : Files) (start : Nat)
    (stop : Option (Pending Int)) (wires : Array Wire) (flights : List Flight) (s : σ) : IO α := do
  let s := k.play (← now start) s
  match done s with
  | some a => return a
  | none =>
    let c := k.client s
    if isOpening c then
      let r ← dial files c.settings
      let c := c.passTo (← now start)
      let c := (c.step (.opened (r.map (·.1)))).getD c
      let wires := match r with
        | .ok (_, w) => wires.push w
        | .error _ => wires
      goOn k done files start stop wires flights (k.put c s)
    else
      let stopped ← match stop with
        | some p => IO.hasFinished p
        | none => pure false
      if stopped then goOn k done files start none wires flights (k.breakOff s)
      else
        let (landed, rest) ← land flights
        let c := landed.foldl hear c
        let flights ← launch wires c.sessions rest
        if landed.isEmpty then IO.sleep 1
        goOn k done files start stop wires flights (k.put c s)

end Switchboard.Live
