import Switchboard.Server.Settings
import Switchboard.Server.Table
import Switchboard.Session.Machine

/-! A server at work: sessions side by side, the table of those that count, and chores, which accept
peers, look after sessions and close them. As with sessions, what peers, links and the clock do comes
as moves, and their order is open.

A chore that accepts keeps the listener it began with, whatever happens to the server's own. Over UDP
the accept loop is the only reader: it hands each datagram to the session of its sender, which keeps
a limited number for its own receives. -/
namespace Switchboard

namespace Server

/-- Datagrams that wait for a session; further ones are dropped. -/
def inboxCapacity : Nat := 64

structure Cell where
  machine : Session.Machine
  peer : Address
  /-- Datagrams not yet received, the oldest first. -/
  inbox : List Bytes := []
  deriving DecidableEq, Repr

abbrev ChoreId := Nat

inductive Job where
  | accept
  | serve
  | tend (session : Nat)
  | closeSession (peer : Address)
  | stop
  | run
  deriving DecidableEq, Repr

inductive Wait where
  | starting
  | listening (listener : Nat)
  | replacing (session stale : Nat) (task : Session.TaskId)
  | resting (until_ : Duration)
  | tending (task : Session.TaskId)
  | closing (session : Nat) (task : Session.TaskId)
  | draining (session : Nat) (task : Session.TaskId) (rest : List Nat)
  deriving DecidableEq, Repr

structure Chore where
  id : ChoreId
  job : Job
  wait : Wait
  failures : Nat := 0
  /-- The first error, which is what the chore will answer. -/
  fault : Option Error := none
  deriving DecidableEq, Repr

inductive Answer where
  | done
  | accepted (session : Nat) (fresh : Bool)
  | closed (wasThere : Bool)
  | failed (e : Error)
  deriving DecidableEq, Repr

def backoff (failures : Nat) : Duration :=
  min (.ofSeconds 1) (.ofMillis 10 * Nat.pow 2 (min (failures - 1) 16))

end Server

structure Server where
  settings : Server.Settings
  now : Duration := 0
  listener : Option Nat := none
  listeners : Nat := 0
  cells : List Server.Cell := []
  table : Server.Table := {}
  chores : List Server.Chore := []
  fresh : Nat := 0
  /-- Its own events, the latest first. -/
  trace : List (Duration × Event) := []
  finished : List (Server.ChoreId × Server.Answer) := []
  deriving DecidableEq, Repr

namespace Server

def new (s : Settings) : Except Error Server := do
  s.validate
  return { settings := s }

def chore? (w : Server) (c : ChoreId) : Option Chore := w.chores.find? (·.id = c)

def answer? (w : Server) (c : ChoreId) : Option Answer :=
  (w.finished.find? (·.1 = c)).map (·.2)

def machine? (w : Server) (i : Nat) : Option Session.Machine := (w.cells[i]?).map (·.machine)

def isAlive (w : Server) (i : Nat) : Bool := (w.machine? i).any (·.session.alive)

def isFed (w : Server) (i : Nat) : Bool :=
  (w.cells[i]?).any fun c => w.table.holds c.peer i

def emit (e : Event) (w : Server) : Server := { w with trace := (w.now, e) :: w.trace }

def put (i : Nat) (m : Session.Machine) (w : Server) : Server :=
  { w with cells := w.cells.modify i fun c => { c with machine := m } }

def update (x : Chore) (w : Server) : Server :=
  { w with chores := w.chores.map fun y => if y.id = x.id then x else y }

def settle (c : ChoreId) (a : Answer) (w : Server) : Server :=
  { w with chores := w.chores.filter (·.id ≠ c), finished := (c, a) :: w.finished }

def add (job : Job) (w : Server) : Server :=
  { w with chores := w.chores ++ [⟨w.fresh, job, .starting, 0, none⟩], fresh := w.fresh + 1 }

def ask (i : Nat) (job : Session.Job) (w : Server) : Server × Session.TaskId :=
  match w.machine? i with
  | some m => (w.put i (m.call job), m.fresh)
  | none => (w, 0)

def outcome? (w : Server) (i : Nat) (t : Session.TaskId) : Option Session.Outcome :=
  (w.machine? i).bind (·.outcome? t)

/-! Starting. -/

def start (bound : Except Error Address) (w : Server) : Server × Except Error Unit :=
  if w.listener.isSome then (w, .ok ())
  else
    let w := w.emit .willStart
    match bound with
    | .ok here =>
      ({ w with listener := some w.listeners, listeners := w.listeners + 1 }.emit (.didStart here),
        .ok ())
    | .error e => (w, .error e)

/-! Stopping. -/

def stopped (x : Chore) (w : Server) : Server :=
  let answer := x.fault.elim .done Answer.failed
  (if x.job = .run then w.emit .didRun else w).settle x.id answer

def drain (x : Chore) : List Nat → Server → Server
  | [], w => (w.emit .didStop).stopped x
  | i :: rest, w =>
    let (w, t) := w.ask i .close
    w.update { x with wait := .draining i t rest }

def beginStop (x : Chore) (w : Server) : Server :=
  match w.listener with
  | none => w.stopped x
  | some _ =>
    ({ w with listener := none }.emit .willStop) |> fun w =>
      { w with table := {} }.drain x w.table.sessions

/-! Accepting. -/

def isLasting : Job → Bool
  | .serve | .run => true
  | _ => false

/-- An accept fails. Serving ends only without a listener, or when the setup is at fault; any other
error may pass. -/
def acceptFailed (x : Chore) (e : Error) (w : Server) : Server :=
  if !isLasting x.job then w.settle x.id (.failed e)
  else if w.listener.isNone || e.isSetup then
    if x.job = .run then w.beginStop { x with fault := some e } else w.settle x.id (.failed e)
  else
    w.update { x with
      failures := x.failures + 1
      wait := .resting (w.now + backoff (x.failures + 1)) }

def beginAccept (x : Chore) (w : Server) : Server :=
  match w.listener with
  | none => w.acceptFailed x (.linkClosed "server".toList)
  | some l => (w.emit .willAccept).update { x with wait := .listening l }

def accepted (x : Chore) (i : Nat) (fresh : Bool) (w : Server) : Server :=
  let peer := (w.cells[i]?).map (·.peer)
  let w := match fresh, peer with
    | true, some p => w.emit (.didAccept p)
    | _, _ => w
  if isLasting x.job then
    (if fresh then w.add (.tend i) else w).beginAccept { x with failures := 0 }
  else w.settle x.id (.accepted i fresh)

def newCell (peer : Address) (w : Server) : Cell where
  machine := {
    session := {
      settings := w.settings.loops
      state := .active
      alive := true
      loops := w.settings.enabled
      lastActivity := w.now }
    now := w.now }
  peer := peer

def enrol (peer : Address) (w : Server) : Server :=
  { w with
    cells := w.cells ++ [w.newCell peer]
    table := w.table.insert peer w.cells.length }

def connected (x : Chore) (peer : Address) (w : Server) : Server :=
  let i := w.cells.length
  match w.table.get? peer with
  | none => (w.enrol peer).accepted x i true
  | some stale =>
    let (w, t) := (w.enrol peer).ask stale .close
    w.update { x with wait := .replacing i stale t }

def hand (i : Nat) (data : Bytes) (w : Server) : Server :=
  { w with
    cells := w.cells.modify i fun c => { c with
      machine := c.machine.deliver w.settings.loops.buffersize data
      inbox := if c.inbox.length < inboxCapacity then c.inbox ++ [data] else c.inbox } }

/-- A datagram arrives, cut to the size of the buffer. It goes to the session of its sender, if that
is alive, and to a new one if not. -/
def datagram (x : Chore) (peer : Address) (data : Bytes) (w : Server) : Server :=
  let data := data.take w.settings.loops.buffersize
  match (w.table.get? peer).filter w.isAlive with
  | some i => (w.hand i data).accepted x i false
  | none =>
    let i := w.cells.length
    ((w.enrol peer).hand i data).accepted x i true

/-! Chores. -/

def tending (s : Settings) : Session.Job :=
  match s.idleLimit with
  | some limit => .guard s.runsLoops limit
  | none => if s.runsLoops then .runLoops else .linger

def begin (x : Chore) (w : Server) : Server :=
  match x.job with
  | .accept | .serve | .run => w.beginAccept x
  | .stop => w.beginStop x
  | .tend i =>
    let (w, t) := w.ask i (tending w.settings)
    w.update { x with wait := .tending t }
  | .closeSession peer =>
    match w.table.get? peer with
    | none => w.settle x.id (.closed false)
    | some i =>
      let (w, t) := { w with table := w.table.erase peer }.ask i .close
      w.update { x with wait := .closing i t }

def call (job : Job) (w : Server) : Server :=
  (w.add job).begin ⟨w.fresh, job, .starting, 0, none⟩

/-- A run tells that it begins, and starts the server; when that fails, it is over. If the shutdown is
there by then, it may be seen before anybody is accepted. -/
def callRun (bound : Except Error Address) (down : Bool) (w : Server) : Server :=
  let x : Chore := ⟨w.fresh, .run, .starting, 0, none⟩
  match ((w.emit .willRun).add .run).start bound with
  | (w, .ok ()) => if down then w.beginStop x else w.begin x
  | (w, .error e) => w.settle x.id (.failed e)

def proceed (x : Chore) (w : Server) : Option Server :=
  match x.wait with
  | .replacing i stale t => (w.outcome? stale t).map fun _ => w.accepted x i true
  | .tending t => match x.job with
    | .tend i => (w.outcome? i t).map fun _ =>
      match w.cells[i]? with
      | some c => { w with table := w.table.eraseIf c.peer i }.settle x.id .done
      | none => w.settle x.id .done
    | _ => none
  | .closing i t => (w.outcome? i t).map fun
    | .failed e => w.settle x.id (.failed e)
    | _ => w.settle x.id (.closed true)
  | .draining i t rest => (w.outcome? i t).map fun
    | .failed e => w.drain { x with fault := x.fault.or (some e) } rest
    | _ => w.drain x rest
  | _ => none

def Chore.task? (x : Chore) : Option (Nat × Session.TaskId) :=
  match x.wait with
  | .replacing _ stale t => some (stale, t)
  | .tending t => match x.job with
    | .tend i => some (i, t)
    | _ => none
  | .closing i t | .draining i t _ => some (i, t)
  | _ => none

def release (x : Chore) (w : Server) : Server :=
  match x.task? with
  | some (i, t) => match (w.machine? i).bind (·.step (.cancel t)) with
    | some m => w.put i m
    | none => w
  | none => w

def shutDown (x : Chore) (w : Server) : Option Server :=
  match x.job, x.wait with
  | .run, .listening _ | .run, .replacing .. | .run, .resting _ => some ((w.release x).beginStop x)
  | _, _ => none

/-! Sessions behind the server. -/

/-- A receive over UDP is answered from what waits for the session. When nothing does and the server
hands it nothing more, it reads the end. -/
def receive (i : Nat) (t : Session.TaskId) (w : Server) : Option Server := do
  let c ← w.cells[i]?
  let x ← c.machine.task? t
  match x.wait, c.inbox with
  | .receiving size _, d :: rest =>
    let m ← c.machine.step (.reply t (.received (d.take size)))
    return { w with cells := w.cells.set i { c with machine := m, inbox := rest } }
  | .receiving _ _, [] =>
    if w.isFed i then none
    else
      let m ← c.machine.step (.reply t (.received []))
      return w.put i m
  | _, _ => none

def isReceiving (w : Server) (i : Nat) (t : Session.TaskId) : Bool :=
  match (w.machine? i).bind (·.task? t) with
  | some ⟨_, _, _, .receiving .., _⟩ => true
  | _ => false

/-- Whether somebody outside may make this move with a session. The server alone looks after
sessions and hands datagrams over; over UDP receives are answered by `receive`. -/
def isOutside (w : Server) (i : Nat) : Session.Move → Bool
  | .activate | .deliver .. | .pass _ => false
  | .call (.guard ..) | .call .linger => false
  | .cancel t => !w.chores.any fun x => x.task? = some (i, t)
  | .reply t _ => w.settings.transport = .tcp || !w.isReceiving i t
  | _ => true

inductive Move where
  | start (bound : Except Error Address)
  | call (job : Job)
  /-- `down` says that the shutdown is seen before the first accept. -/
  | run (bound : Except Error Address) (down : Bool)
  | spawn (job : Job)
  | begin (c : ChoreId)
  | connected (c : ChoreId) (peer : Address)
  | datagram (c : ChoreId) (peer : Address) (data : Bytes)
  | acceptFailed (c : ChoreId) (e : Error)
  | wake (c : ChoreId)
  | proceed (c : ChoreId)
  | shutDown (c : ChoreId)
  | cancel (c : ChoreId)
  | session (i : Nat) (v : Session.Move)
  | receive (i : Nat) (t : Session.TaskId)
  | remove (peer : Address)
  | removeIf (peer : Address) (i : Nat)
  | pass (d : Duration)

def isListening (x : Chore) : Bool :=
  match x.wait with
  | .listening _ => true
  | _ => false

def isPublic : Job → Bool
  | .tend _ | .run => false
  | _ => true

def step : Move → Server → Option Server
  | .start bound, w => some (w.start bound).1
  | .call job, w => if isPublic job then some (w.call job) else none
  | .run bound down, w => some (w.callRun bound down)
  | .spawn job, w => if isPublic job then some (w.add job) else none
  | .begin c, w => (w.chore? c).bind fun x => if x.wait = .starting then some (w.begin x) else none
  | .connected c peer, w => (w.chore? c).bind fun x =>
    if w.settings.transport = .tcp && isListening x then some (w.connected x peer) else none
  | .datagram c peer data, w => (w.chore? c).bind fun x =>
    if w.settings.transport = .udp && isListening x then some (w.datagram x peer data) else none
  | .acceptFailed c e, w => (w.chore? c).bind fun x =>
    if isListening x then some (w.acceptFailed x e) else none
  | .wake c, w => (w.chore? c).bind fun x => match x.wait with
    | .resting d => if d ≤ w.now then some (w.beginAccept x) else none
    | _ => none
  | .proceed c, w => (w.chore? c).bind w.proceed
  | .shutDown c, w => (w.chore? c).bind w.shutDown
  | .cancel c, w => (w.chore? c).bind fun x =>
    if isPublic x.job || x.job = .run then
      some { w.release x with chores := w.chores.filter (·.id ≠ c) }
    else none
  | .session i v, w =>
    if w.isOutside i v then ((w.machine? i).bind (·.step v)).map fun m => w.put i m else none
  | .receive i t, w => if w.settings.transport = .udp then w.receive i t else none
  | .remove peer, w => some { w with table := w.table.erase peer }
  | .removeIf peer i, w => some { w with table := w.table.eraseIf peer i }
  | .pass d, w => some { w with
      now := w.now + d
      cells := w.cells.map fun c => { c with machine := { c.machine with now := c.machine.now + d } } }

def steps : List Move → Server → Option Server
  | [], w => some w
  | v :: vs, w => (w.step v).bind (steps vs)

end Server
end Switchboard
