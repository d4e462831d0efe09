import Switchboard.Schedule
import Switchboard.Server.Machine

/-! A server to which nobody comes: chores and sessions go on as soon as they can, and the clock moves
while all of them wait. -/
namespace Switchboard.Server

def nextOfChore (w : Server) (x : Chore) : Option (Duration × Move) :=
  match x.wait with
  | .starting => some (w.now, .begin x.id)
  | .resting d => some (d, .wake x.id)
  | _ => if (w.proceed x).isSome then some (w.now, .proceed x.id) else none

def nextOfTask (w : Server) (i : Nat) (m : Session.Machine) (x : Session.Task) :
    Option (Duration × Move) :=
  match m.prompt x with
  | some v => some (w.now, .session i v)
  | none =>
    if w.settings.transport = .udp && (w.receive i x.id).isSome then some (w.now, .receive i x.id)
    else (Session.Machine.alarm x).map fun a => (a.1, .session i a.2)

def next (w : Server) : Option (Duration × Move) :=
  let tasks := w.cells.zipIdx.flatMap fun p =>
    p.1.machine.tasks.filterMap (w.nextOfTask p.2 p.1.machine)
  Schedule.earliest (w.chores.filterMap w.nextOfChore ++ tasks)

def passTo (d : Duration) (w : Server) : Server := (w.step (.pass (d - w.now))).getD w

def go (v : Move) (w : Server) : Server := (w.step v).getD w

def play (stop : Server → Bool) (limit : Duration) : Nat → Server → Server
  | 0, w => w
  | n + 1, w =>
    if stop w then w
    else match w.next with
      | some (due, v) =>
        if due ≤ limit then play stop limit n ((w.passTo due).go v) else w.passTo limit
      | none => w.passTo limit

def rest (w : Server) : Server := w.play (fun _ => false) w.now Schedule.turns

def awaitAnswer (c : ChoreId) (patience : Duration) (w : Server) : Server × Option Answer :=
  let w := w.play (fun w => (w.answer? c).isSome) (w.now + patience) Schedule.turns
  (w, w.answer? c)

def perform (patience : Duration) (job : Job) (w : Server) : Server × Option Answer :=
  let c := w.fresh
  match (w.go (.call job)).awaitAnswer c patience with
  | (w, some a) => (w, some a)
  | (w, none) => (w.go (.cancel c), none)

def performRun (bound : Except Error Address) (time patience : Duration) (w : Server) :
    Server × Option Answer :=
  let c := w.fresh
  let (w, early) := (w.go (.run bound false)).awaitAnswer c time
  match early with
  | some a => (w, some a)
  | none => (w.go (.shutDown c)).awaitAnswer c patience

end Switchboard.Server
