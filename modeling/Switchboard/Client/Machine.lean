import Switchboard.Client.Settings
import Switchboard.Session.Machine

/-! A client at work. It serves one call after the other. A call that connects tries until a link
opens, the setup is at fault, or there have been enough trials; a session it had before is closed
first. As with sessions, what the link and the clock do comes as moves. -/
namespace Switchboard

namespace Client

inductive Job where
  | connect
  | send (data : Bytes)
  | recv (buffersize : Nat)
  | exchange
  | disconnect
  | run
  deriving DecidableEq, Repr

inductive Sequel where
  | connect (loops : Bool)
  | answer (o : Session.Outcome)
  deriving DecidableEq, Repr

/-- How far the call has come. Sessions are named by their place among all of this client. -/
inductive Stage where
  | leaving (session : Nat) (task : Session.TaskId) (sequel : Sequel)
  | opening (loops : Bool)
  | resting (until_ : Duration) (loops : Bool)
  | working (session : Nat) (task : Session.TaskId)
  | looping (session : Nat) (task : Session.TaskId)
  deriving DecidableEq, Repr

end Client

structure Client where
  settings : Client.Settings
  sessions : List Session.Machine := []
  current : Option Nat := none
  trials : UInt32 := 0
  now : Duration := 0
  stage : Option Client.Stage := none
  /-- Its own events and those of its sessions, the latest first. -/
  trace : List (Duration × Event) := []
  result : Option Session.Outcome := none
  deriving DecidableEq, Repr

namespace Client

def session? (c : Client) : Option Session.Machine := c.current.bind (c.sessions[·]?)

def isConnected (c : Client) : Bool := c.session?.any (·.session.alive)

def emit (e : Event) (c : Client) : Client := { c with trace := (c.now, e) :: c.trace }

def goto (s : Stage) (c : Client) : Client := { c with stage := some s }

def finish (o : Session.Outcome) (c : Client) : Client := { c with stage := none, result := some o }

def put (i : Nat) (m : Session.Machine) (c : Client) : Client :=
  let heard := (c.sessions[i]?).elim 0 (·.trace.length)
  { c with
    sessions := c.sessions.set i m
    trace := (m.trace.take (m.trace.length - heard)).map (fun x => (x.time, x.event)) ++ c.trace }

def ask (i : Nat) (job : Session.Job) (c : Client) : Client × Session.TaskId :=
  match c.sessions[i]? with
  | some m => (c.put i (m.call job), m.fresh)
  | none => (c, 0)

def attempt (loops : Bool) (c : Client) : Client :=
  ({ c with trials := c.trials + 1 }.emit (.willConnect (c.trials + 1))).goto (.opening loops)

def leave (i : Nat) (sequel : Sequel) (c : Client) : Client :=
  let (c, t) := { c with current := none }.ask i .close
  c.goto (.leaving i t sequel)

def beginConnect (loops : Bool) (c : Client) : Client :=
  match c.current with
  | some i => c.leave i (.connect loops)
  | none => { c with trials := 0 }.attempt loops

def work (job : Session.Job) (c : Client) : Client :=
  match c.current with
  | none => c.finish (.failed (.linkClosed "client".toList))
  | some i =>
    let (c, t) := c.ask i job
    c.goto (.working i t)

def begin : Job → Client → Client
  | .connect, c => c.beginConnect false
  | .run, c => c.beginConnect true
  | .send data, c => c.work (.send data)
  | .recv size, c => c.work (.recv size)
  | .exchange, c => c.work .exchange
  | .disconnect, c => match c.current with
    | some i => c.leave i (.answer .done)
    | none => c.finish .done

def newSession (c : Client) : Session.Machine where
  session := {
    settings := c.settings.loops
    timeout := some c.settings.timeout
    state := .active
    alive := true
    loops := c.settings.enabled
    lastActivity := c.now }
  now := c.now

def limit (c : Client) : UInt32 := max 1 c.settings.maxTrials

def opened (r : Except Error Address) (loops : Bool) (c : Client) : Client :=
  match r with
  | .ok peer =>
    let i := c.sessions.length
    let c := { c with sessions := c.sessions ++ [c.newSession], current := some i }.emit
      (.didConnect peer)
    if loops then
      let (c, t) := c.ask i .runLoops
      c.goto (.looping i t)
    else c.finish .done
  | .error e =>
    if e.isSetup then c.finish (.failed e)
    else if c.limit ≤ c.trials then c.finish (.failed (.connect c.trials.toNat e.message))
    else c.goto (.resting (c.now + c.settings.retryDelay) loops)

def outcome? (c : Client) (i : Nat) (t : Session.TaskId) : Option Session.Outcome :=
  (c.sessions[i]?).bind fun m => m.outcome? t

/-- Goes on when what the call waits for on a session is over. A close that fails ends the call. -/
def proceed (c : Client) : Option Client :=
  match c.stage with
  | some (.working i t) => (c.outcome? i t).map c.finish
  | some (.looping i t) => (c.outcome? i t).map fun o => c.leave i (.answer o)
  | some (.leaving i t sequel) => (c.outcome? i t).map fun
    | .failed e => c.finish (.failed e)
    | _ => match sequel with
      | .connect loops => { c with trials := 0 }.attempt loops
      | .answer o => c.finish o
  | _ => none

def interrupt (c : Client) : Client :=
  let drop := fun i t => match (c.sessions[i]?).bind (·.step (.cancel t)) with
    | some m => c.put i m
    | none => c
  let c := match c.stage with
    | some (.leaving i t _) | some (.working i t) | some (.looping i t) => drop i t
    | _ => c
  { c with stage := none, result := none }

def isOutside : Session.Move → Bool
  | .activate | .call _ | .cancel _ | .deliver .. | .pass _ => false
  | _ => true

inductive Move where
  | call (job : Job)
  | opened (r : Except Error Address)
  | wake
  | session (i : Nat) (v : Session.Move)
  | proceed
  | interrupt
  | pass (d : Duration)

def step : Move → Client → Option Client
  | .call job, c => if c.stage.isNone then some ({ c with result := none }.begin job) else none
  | .opened r, c => match c.stage with
    | some (.opening loops) => some (c.opened r loops)
    | _ => none
  | .wake, c => match c.stage with
    | some (.resting d loops) => if d ≤ c.now then some (c.attempt loops) else none
    | _ => none
  | .session i v, c =>
    if isOutside v then ((c.sessions[i]?).bind (·.step v)).map fun m => c.put i m else none
  | .proceed, c => c.proceed
  | .interrupt, c => some c.interrupt
  | .pass d, c =>
    some { c with now := c.now + d, sessions := c.sessions.map fun m => { m with now := m.now + d } }

def steps : List Move → Client → Option Client
  | [], c => some c
  | v :: vs, c => (c.step v).bind (steps vs)

def new (s : Settings) : Except Error Client := do
  s.validate
  return { settings := s }

end Client
end Switchboard
