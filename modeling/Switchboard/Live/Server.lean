import Switchboard.Live.Wire
import Switchboard.Realizer.Server

/-! Servers on a real network. -/
namespace Switchboard.Live
open Std.Async

inductive Listener where
  | streams (s : TCP.Socket.Server)
  | datagrams (s : UDP.Socket)

def bind (s : Server.Settings) : IO (Except Error (Address × Listener)) := do
  match ← look s.host s.port with
  | .error e => return .error e
  | .ok a =>
    try
      match s.transport with
      | .tcp =>
        let socket ← TCP.Socket.Server.mk
        socket.bind (toSocket a)
        socket.listen 1024
        return .ok (ofSocket (← socket.getSockName), .streams socket)
      | .udp =>
        let socket ← UDP.Socket.mk
        socket.bind (toSocket a)
        return .ok (ofSocket (← socket.getSockName), .datagrams socket)
    catch e => return .error (fault e)

inductive Arrival where
  | peer (a : Address) (w : Wire)
  | datagram (a : Address) (w : Wire) (data : Bytes)

def Listener.next (size : Nat) : Listener → Async Arrival
  | streams s => do
    let c ← s.accept
    c.noDelay
    return .peer (ofSocket (← c.getPeerName)) (Wire.ofStream c)
  | datagrams s => do
    let (data, from_) ← s.recv size.toUInt64
    match from_ with
    | some a => return .datagram (ofSocket a) (Wire.ofPeer s (ofSocket a)) (unpack data)
    | none => throw (IO.userError "a datagram from nowhere")

structure Host (σ : Type) where
  server : σ → Server
  put : Server → σ → σ
  play : Duration → σ → σ
  shutDown : Server → Server

def Host.run : Host Server where
  server w := w
  put w _ := w
  play limit w := w.play (fun w => (w.answer? 0).isSome) limit Schedule.turns
  shutDown w := w.go (.shutDown 0)

def Host.realize : Host Realizer.ServerRun where
  server r := r.server
  put w r := { r with server := w }
  play limit r := r.play limit Schedule.turns
  shutDown w := w

structure Hall where
  server : Server
  wires : Array Wire

def Hall.welcome (h : Hall) (c : Server.ChoreId) (r : Except IO.Error Arrival) : Hall :=
  match r with
  | .ok (.peer a w) => ⟨h.server.go (.connected c a), h.wires.push w⟩
  | .ok (.datagram a w data) =>
    let server := h.server.go (.datagram c a data)
    ⟨server, if h.wires.size < server.cells.length then h.wires.push w else h.wires⟩
  | .error e => { h with server := h.server.go (.acceptFailed c (fault e)) }

def answered (w : Server) (f : Flight) : Server :=
  match (w.machine? f.session).bind f.move? with
  | some v => w.go (.session f.session v)
  | none => w

partial def host {σ α : Type} (k : Host σ) (done : σ → Option α) (l : Listener) (start : Nat)
    (stop : Option (Pending Int)) (coming : Option (Pending Arrival)) (wires : Array Wire)
    (flights : List Flight) (s : σ) : IO α := do
  let s := k.play (← now start) s
  match done s with
  | some a => return a
  | none =>
    let stopped ← match stop with
      | some p => IO.hasFinished p
      | none => pure false
    if stopped then
      host k done l start none coming wires flights (k.put (k.shutDown (k.server s)) s)
    else
      let (landed, rest) ← land flights
      let w := landed.foldl answered (k.server s)
      let listening := (w.chores.find? Server.isListening).map (·.id)
      let come ← match coming with
        | some p => IO.hasFinished p
        | none => pure false
      let (h, coming) ← match listening, coming with
        | some c, some p =>
          if come then pure (Hall.welcome ⟨w, wires⟩ c p.get, none) else pure (⟨w, wires⟩, coming)
        | some _, none =>
          pure (⟨w, wires⟩, some (← begin (l.next w.settings.loops.buffersize)))
        | none, _ => pure (⟨w, wires⟩, coming)
      let flights ← launch h.wires (h.server.cells.map (·.machine)) rest
      if landed.isEmpty && !(come && listening.isSome) then IO.sleep 1
      host k done l start stop coming h.wires flights (k.put h.server s)

end Switchboard.Live
