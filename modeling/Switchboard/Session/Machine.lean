import Switchboard.Event.Basic
import Switchboard.Session.Basic

/-! A session at work. Any number of tasks run on it at once; each is a job and the place where it
waits. A task goes on by a `Move`: the link answers, time is up, a flag is down. Between two moves
nothing happens, and which move comes next is open, so a list of moves is a run in one of the
possible orders. `step` says which moves are possible and what each does. -/
namespace Switchboard.Session

abbrev TaskId := Nat

inductive Job where
  | send (data : Bytes)
  | recv (buffersize : Nat)
  /-- Sends the message of the loops, then receives once. -/
  | exchange
  | close
  | watch
  | linger
  /-- Runs every loop that is on to its end, then closes. -/
  | runLoops
  | loop (k : Loop)
  /-- Runs the loops or lingers, and closes when nothing has happened for so long. -/
  | guard (loops : Bool) (limit : Duration)
  deriving DecidableEq, Repr

inductive Wait where
  | starting
  | sending (data : Bytes) (deadline : Option Duration)
  | receiving (buffersize : Nat) (deadline : Option Duration)
  | shutting
  | pausing (until_ : Duration)
  | watching
  | joining
  | guarding (child : TaskId) (until_ : Duration)
  deriving DecidableEq, Repr

structure Task where
  id : TaskId
  job : Job
  /-- The task that began it and waits for it; without one, somebody outside did. -/
  parent : Option TaskId
  wait : Wait
  /-- Grows with every wait, so it tells which of two waits began first. -/
  stamp : Nat
  deriving DecidableEq, Repr

inductive Outcome where
  | done
  | sent (n : Nat)
  | received (data : Bytes)
  | failed (e : Error)
  deriving DecidableEq, Repr

inductive Reply where
  | sent (n : Nat)
  | received (data : Bytes)
  | closed
  | failed (e : Error)
  deriving DecidableEq, Repr

inductive Call where
  | send (data : Bytes)
  | recv (buffersize : Nat)
  | close
  deriving DecidableEq, Repr

structure Mark where
  time : Duration
  task : Option TaskId
  event : Event
  deriving DecidableEq, Repr

structure Machine where
  session : Session
  now : Duration := 0
  fresh : Nat := 0
  tasks : List Task := []
  /-- The latest first, as in the next two. -/
  trace : List Mark := []
  calls : List (TaskId × Call) := []
  finished : List (TaskId × Outcome) := []
  deriving DecidableEq, Repr

namespace Machine

def task? (m : Machine) (t : TaskId) : Option Task := m.tasks.find? (·.id = t)

def isRunning (m : Machine) (t : TaskId) : Bool := (m.task? t).isSome

def outcome? (m : Machine) (t : TaskId) : Option Outcome :=
  (m.finished.find? (·.1 = t)).map (·.2)

def emit (t : Option TaskId) (e : Event) (m : Machine) : Machine :=
  { m with trace := ⟨m.now, t, e⟩ :: m.trace }

def modify (f : Session → Session) (m : Machine) : Machine := { m with session := f m.session }

def add (t : TaskId) (job : Job) (parent : Option TaskId) (m : Machine) : Machine :=
  { m with fresh := m.fresh + 1, tasks := m.tasks ++ [⟨t, job, parent, .starting, m.fresh⟩] }

def await (t : TaskId) (w : Wait) (m : Machine) : Machine :=
  { m with
    fresh := m.fresh + 1
    tasks := m.tasks.map fun x => if x.id = t then { x with wait := w, stamp := m.fresh } else x }

def settle (t : TaskId) (o : Outcome) (m : Machine) : Machine :=
  { m with tasks := m.tasks.filter (·.id ≠ t), finished := (t, o) :: m.finished }

def ask (t : TaskId) (c : Call) (m : Machine) : Machine := { m with calls := (t, c) :: m.calls }

def deadline (m : Machine) : Option Duration := m.session.timeout.map (m.now + ·)

/-! How the parts of a job begin. -/

def beginSend (t : TaskId) (data : Bytes) (m : Machine) : Machine :=
  match m.session.ensureActive with
  | .error e => m.settle t (.failed e)
  | .ok () => (m.emit t (.sending data)).ask t (.send data) |>.await t (.sending data m.deadline)

def beginRecv (t : TaskId) (size : Nat) (m : Machine) : Machine :=
  match m.session.ensureActive with
  | .error e => m.settle t (.failed e)
  | .ok () => (m.emit t (.receiving size)).ask t (.recv size) |>.await t (.receiving size m.deadline)

/-- Only the first to close asks the link; all others are done at once. -/
def beginClose (t : TaskId) (m : Machine) : Machine :=
  if m.session.released then m.settle t .done
  else (m.modify release).emit t .closing |>.ask t .close |>.await t .shutting

def payload (m : Machine) : Bytes := Utf8.encode m.session.settings.message

def isOn (m : Machine) (k : Loop) : Bool := m.session.loops.has k && m.session.alive

def turn (t : TaskId) (k : Loop) (m : Machine) : Machine :=
  if m.isOn k then
    match k with
    | .send | .sendrecv => m.beginSend t m.payload
    | .recv => m.beginRecv t m.session.settings.buffersize
  else m.settle t .done

def pause (t : TaskId) (k : Loop) (m : Machine) : Machine :=
  m.await t (.pausing (m.now + m.session.settings.period k))

def lingerOn (t : TaskId) (m : Machine) : Machine :=
  if m.session.alive then m.await t .watching else m.beginClose t

def addLoops (t : TaskId) (m : Machine) : Machine :=
  m.session.loops.toList.foldl (fun m k => m.add m.fresh (.loop k) (some t)) (m.await t .joining)

/-- When a guard looks that sleeps until `d`: at once if that has come, else when the timer rings, as
it does at whole milliseconds. -/
def rings (m : Machine) (d : Duration) : Duration := if d ≤ m.now then m.now else d.tick

def addGuarded (t : TaskId) (loops : Bool) (limit : Duration) (m : Machine) : Machine :=
  (m.add m.fresh (if loops then .runLoops else .linger) (some t)).await t
    (.guarding m.fresh (m.rings (m.session.lastActivity + limit)))

def start (t : TaskId) : Job → Machine → Machine
  | .send data, m => m.beginSend t data
  | .recv size, m => m.beginRecv t size
  | .exchange, m => m.beginSend t m.payload
  | .close, m => m.beginClose t
  | .watch, m => if m.session.alive then m.await t .watching else m.settle t .done
  | .linger, m => m.lingerOn t
  | .loop k, m => m.turn t k
  | .runLoops, m => m.addLoops t
  | .guard loops limit, m => m.addGuarded t loops limit

def call (job : Job) (m : Machine) : Machine :=
  match job with
  | .loop _ => m
  | job => (m.add m.fresh job none).start m.fresh job

/-! Tasks below another go with it. -/

/-- Whether `x` is below `t`. No task is more than two levels below another. -/
def isBelow (m : Machine) (t : TaskId) (x : Task) : Bool :=
  match x.parent with
  | none => false
  | some p => p = t || ((m.task? p).bind (·.parent)) = some t

def clear (t : TaskId) (m : Machine) : Machine :=
  { m with tasks := m.tasks.filter (!m.isBelow t ·) }

def abandon (t : TaskId) (m : Machine) : Machine :=
  { m with tasks := m.tasks.filter fun x => x.id ≠ t && !m.isBelow t x }

/-! How the parts of a job end. -/

def sendFailed (t : TaskId) (data : Bytes) (e : Error) (m : Machine) : Machine :=
  (m.emit t (.sendFailure data e.message)).modify beginClosing |>.settle t (.failed e)

def recvFailed (t : TaskId) (size : Nat) (e : Error) (m : Machine) : Machine :=
  (m.emit t (.recvFailure size e.message)).modify beginClosing |>.settle t (.failed e)

def afterSend (t : TaskId) (n : Nat) : Job → Machine → Machine
  | .exchange, m => m.beginRecv t m.session.settings.buffersize
  | .loop .sendrecv, m => m.beginRecv t m.session.settings.buffersize
  | .loop k, m => m.pause t k
  | _, m => m.settle t (.sent n)

def afterRecv (t : TaskId) (data : Bytes) : Job → Machine → Machine
  | .loop k, m => m.pause t k
  | _, m => m.settle t (.received data)

def sendDone (x : Task) (data : Bytes) (n : Nat) (m : Machine) : Machine :=
  (m.modify (·.sent m.now n)).emit x.id (.sendSuccess data) |>.afterSend x.id n x.job

def recvDone (x : Task) (size : Nat) (data : Bytes) (m : Machine) : Machine :=
  (m.modify (·.received m.now data)).emit x.id (.recvSuccess size data) |>.modify (·.obeyExit data)
    |>.afterRecv x.id data x.job

def closeDone (x : Task) (m : Machine) : Machine :=
  (m.modify finish).emit x.id .closeSuccess |>.settle x.id .done

def closeFailed (x : Task) (e : Error) (m : Machine) : Machine :=
  (m.modify finish).emit x.id (.closeFailure e.message) |>.settle x.id (.failed e)

def timeoutError (limit : Duration) : Error :=
  .io ("no progress within ".toList ++ Duration.short limit)

/-! Moves of a task, each possible only at its place. -/

def reply (x : Task) (r : Reply) (m : Machine) : Option Machine :=
  match x.wait, r with
  | .sending data _, .sent n => some (m.sendDone x data n)
  | .sending data _, .failed e => some (m.sendFailed x.id data e)
  | .receiving size _, .received [] => some (m.recvFailed x.id size .peerClosed)
  | .receiving size _, .received data => some (m.recvDone x size data)
  | .receiving size _, .failed e => some (m.recvFailed x.id size e)
  | .shutting, .closed => some (m.closeDone x)
  | .shutting, .failed e => some (m.closeFailed x e)
  | _, _ => none

def expire (x : Task) (m : Machine) : Option Machine :=
  let e := timeoutError (m.session.timeout.getD 0)
  match x.wait with
  | .sending data (some d) => if d ≤ m.now then some (m.sendFailed x.id data e) else none
  | .receiving size (some d) => if d ≤ m.now then some (m.recvFailed x.id size e) else none
  | _ => none

/-- Behind a pause comes the next turn. A guard closes when nothing has happened for long enough, and
else waits for the rest of that time. -/
def wake (x : Task) (m : Machine) : Option Machine :=
  match x.wait, x.job with
  | .pausing d, .loop k => if d ≤ m.now then some (m.turn x.id k) else none
  | .guarding child d, .guard _ limit =>
    if d ≤ m.now then
      if limit ≤ m.session.idleFor m.now then some ((m.clear x.id).beginClose x.id)
      else some (m.await x.id (.guarding child (m.rings (m.session.lastActivity + limit))))
    else none
  | _, _ => none

/-- A loop is stopped wherever it waits; what it waits for on the link is dropped. -/
def halt (x : Task) (m : Machine) : Option Machine :=
  match x.job with
  | .loop k => if m.isOn k then none else some (m.settle x.id .done)
  | _ => none

def join (x : Task) (m : Machine) : Option Machine :=
  match x.wait with
  | .joining => if m.tasks.any (·.parent = some x.id) then none else some (m.beginClose x.id)
  | .guarding child _ =>
    if m.isRunning child then none else some (m.settle x.id ((m.outcome? child).getD .done))
  | _ => none

def notice (x : Task) (m : Machine) : Option Machine :=
  if x.wait = .watching && !m.session.alive then
    some (if x.job = .linger then m.beginClose x.id else m.settle x.id .done)
  else none

/-- A datagram counts as activity and is told of before anybody receives it. -/
def deliver (size : Nat) (data : Bytes) (m : Machine) : Machine :=
  (m.modify (·.touch m.now)).emit none (.recvSuccess size data) |>.modify (·.obeyExit data)

end Machine

inductive Move where
  | activate
  | setLoop (k : Loop) (on : Bool)
  | call (job : Job)
  | start (t : TaskId)
  | reply (t : TaskId) (r : Reply)
  | expire (t : TaskId)
  | wake (t : TaskId)
  | halt (t : TaskId)
  | join (t : TaskId)
  | notice (t : TaskId)
  | cancel (t : TaskId)
  | deliver (buffersize : Nat) (data : Bytes)
  | pass (d : Duration)
  deriving DecidableEq, Repr

def Move.isInner : Move → Bool
  | .start _ | .wake _ | .halt _ | .join _ | .notice _ => true
  | _ => false

namespace Machine

def step : Move → Machine → Option Machine
  | .activate, m =>
    match m.session.activate with
    | .ok s => some { m with session := s }
    | .error _ => none
  | .setLoop k on, m => some (m.modify (·.setLoop k on))
  | .call job, m => some (m.call job)
  | .start t, m =>
    (m.task? t).bind fun x => if x.wait = .starting then some (m.start t x.job) else none
  | .reply t r, m => (m.task? t).bind (m.reply · r)
  | .expire t, m => (m.task? t).bind m.expire
  | .wake t, m => (m.task? t).bind m.wake
  | .halt t, m => (m.task? t).bind m.halt
  | .join t, m => (m.task? t).bind m.join
  | .notice t, m => (m.task? t).bind m.notice
  | .cancel t, m =>
    (m.task? t).bind fun x => if x.parent = none then some (m.abandon t) else none
  | .deliver size data, m => some (m.deliver size data)
  | .pass d, m => some { m with now := m.now + d }

def steps : List Move → Machine → Option Machine
  | [], m => some m
  | v :: vs, m => (m.step v).bind (steps vs)

def prompt (m : Machine) (x : Task) : Option Move :=
  if x.wait = .starting then some (.start x.id)
  else if (m.halt x).isSome then some (.halt x.id)
  else if (m.join x).isSome then some (.join x.id)
  else if (m.notice x).isSome then some (.notice x.id)
  else none

def alarm (x : Task) : Option (Duration × Move) :=
  match x.wait with
  | .sending _ d | .receiving _ d => d.map (·, .expire x.id)
  | .pausing d | .guarding _ d => some (d, .wake x.id)
  | _ => none

end Machine
end Switchboard.Session
