import Switchboard.Client.Machine
import Switchboard.Net.Reach
import Switchboard.Schedule
import Switchboard.Tls.Name
import Switchboard.Tls.Roots

/-! A client on a network, with nobody answering on a link that is open. Attempts end at once; the
clock stands still while anything can go on. -/
namespace Switchboard.Client

/-- The versions one after the other, each on a connection of its own, until one succeeds. The error
is that of the last. -/
def openSafely (net : Network) (files : Files) (s : Tls.Settings) (a : Address) :
    List Tls.Version → Except Error Unit
  | [] => .error (.tls "no TLS version to try".toList)
  | v :: vs =>
    let attempt : Except Error Unit := do
      s.checkRoots files
      net.dial .tcp a
      net.shake v a
    match attempt, vs with
    | .ok (), _ => .ok ()
    | .error e, [] => .error e
    | .error _, vs => openSafely net files s a vs

def openLink (net : Network) (files : Files) (s : Settings) : Except Error Address := do
  let a ← resolve s.host s.port
  match s.transport, s.tls with
  | .tcp, some t =>
    let _ ← t.nameFor s.host
    openSafely net files t a t.selector.candidates
  | _, _ => net.dial s.transport a
  return a

def passTo (d : Duration) (c : Client) : Client := (c.step (.pass (d - c.now))).getD c

def nextOfCall (attempt : Option (Except Error Address)) (c : Client) : Option (Duration × Move) :=
  match c.stage with
  | some (.opening _) => attempt.map fun r => (c.now, .opened r)
  | some (.resting d _) => some (d, .wake)
  | some _ => if c.proceed.isSome then some (c.now, .proceed) else none
  | none => none

def nextOfTask (c : Client) (i : Nat) (m : Session.Machine) (x : Session.Task) :
    Option (Duration × Move) :=
  match m.prompt x with
  | some v => some (c.now, .session i v)
  | none => (Session.Machine.alarm x).map fun a => (a.1, .session i a.2)

def next (attempt : Option (Except Error Address)) (c : Client) : Option (Duration × Move) :=
  let tasks := c.sessions.zipIdx.flatMap fun p => p.1.tasks.filterMap (c.nextOfTask p.2 p.1)
  Schedule.earliest ((c.nextOfCall attempt).toList ++ tasks)

def play (attempt : Option (Except Error Address)) (limit : Duration) : Nat → Client → Client
  | 0, c => c
  | n + 1, c =>
    if c.stage.isNone then c
    else match c.next attempt with
      | some (due, v) =>
        if due ≤ limit then play attempt limit n (((c.passTo due).step v).getD c) else c.passTo limit
      | none => c.passTo limit

def perform (attempt : Except Error Address) (patience : Duration) (job : Job) (c : Client) :
    Client × Option Session.Outcome :=
  match c.step (.call job) with
  | none => (c, none)
  | some c =>
    let c := c.play (some attempt) (c.now + patience) Schedule.turns
    match c.result with
    | some o => (c, some o)
    | none => (c.interrupt, none)

end Switchboard.Client
