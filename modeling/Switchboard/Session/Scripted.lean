import Switchboard.Schedule
import Switchboard.Session.Machine

/-! A session over a link that plays a script, in virtual time. Time moves only while all tasks wait.
At one instant the caller and what it has planned go first, then the loops, those that have waited
longest first; a task goes on until it has to wait again. Every step taken is a `Move` of the machine,
so a play is one of its runs. -/
namespace Switchboard.Session

structure Act where
  delay : Duration := 0
  /-- It never answers. -/
  hang : Bool := false
  error : Option Text := none
  /-- How many bytes a send reports; without it, all. -/
  count : Option Nat := none
  /-- What is received, cut to the size asked for. -/
  data : Bytes := []
  deriving DecidableEq, Repr

def Act.reply (a : Act) (c : Call) : Reply :=
  match a.error, c with
  | some e, _ => .failed (.io e)
  | none, .send data => .sent (a.count.getD data.length)
  | none, .recv size => .received (a.data.take size)
  | none, .close => .closed

structure Answer where
  stamp : Nat
  /-- Never, if there is none. -/
  due : Option Duration
  reply : Reply
  deriving DecidableEq, Repr

inductive Errand where
  | setLoop (k : Loop) (on : Bool)
  | close
  deriving DecidableEq, Repr

structure Play where
  machine : Machine
  /-- Acts of the sends still to come, and of the receives. Past the end come acts without anything
  special. -/
  sends : List Act := []
  recvs : List Act := []
  close : Act := {}
  answers : List Answer := []
  agenda : List (Duration × Errand) := []
  /-- The close that an errand waits for. -/
  busy : Option TaskId := none
  deriving DecidableEq, Repr

namespace Play

def act (p : Play) : Call → Act × Play
  | .send _ => (p.sends.headD {}, { p with sends := p.sends.tail })
  | .recv _ => (p.recvs.headD {}, { p with recvs := p.recvs.tail })
  | .close => (p.close, p)

def prepare (p : Play) (t : TaskId) (c : Call) : Play :=
  let (a, p) := p.act c
  match p.machine.task? t with
  | none => p
  | some x =>
    let due := if a.hang then none else some (p.machine.now + a.delay)
    { p with answers := ⟨x.stamp, due, a.reply c⟩ :: p.answers }

def go (p : Play) (v : Move) : Play :=
  match p.machine.step v with
  | none => p
  | some m =>
    let asked := m.calls.take (m.calls.length - p.machine.calls.length)
    asked.foldr (fun c p => p.prepare c.1 c.2) { p with machine := m }

/-- When the task goes on next, and by which move. An answer comes before the deadline of that
instant. -/
def next (p : Play) (x : Task) : Option (Duration × Move) :=
  match p.machine.prompt x with
  | some v => some (p.machine.now, v)
  | none =>
    let answer := p.answers.find? (·.stamp = x.stamp)
    let reply := answer.bind fun a => a.due.map fun d => (d, Move.reply x.id a.reply)
    match reply, Machine.alarm x with
    | some r, some e => some (if r.1 ≤ e.1 then r else e)
    | some r, none => some r
    | none, e => e

structure Item where
  due : Duration
  rank : Nat
  stamp : Nat
  task : Option TaskId
  move : Move
  deriving DecidableEq, Repr

def Item.before (a b : Item) : Bool :=
  a.due < b.due || (a.due = b.due && (a.rank < b.rank || (a.rank = b.rank && a.stamp < b.stamp)))

def earliest : List Item → Option Item
  | [] => none
  | a :: as => match earliest as with
    | none => some a
    | some b => some (if b.before a then b else a)

def item? (p : Play) (x : Task) : Option Item :=
  (p.next x).map fun n => ⟨n.1, if x.parent.isSome then 2 else 1, x.stamp, some x.id, n.2⟩

def errand? (p : Play) : Option Item :=
  if p.busy.any p.machine.isRunning then none
  else p.agenda.head?.map fun e =>
    ⟨max e.1 p.machine.now, 0, 0, none, match e.2 with
      | .setLoop k on => .setLoop k on
      | .close => .call .close⟩

def choose (p : Play) : Option Item :=
  earliest (p.errand?.toList ++ p.machine.tasks.filterMap p.item?)

def follow (t : TaskId) : Nat → Play → Play
  | 0, p => p
  | n + 1, p =>
    match (p.machine.task? t).bind p.next with
    | some (due, v) => if due ≤ p.machine.now then follow t n (p.go v) else p
    | none => p

def passTo (p : Play) (due : Duration) : Play := p.go (.pass (due - p.machine.now))

def take (p : Play) (i : Item) : Play :=
  let p := p.passTo i.due
  match i.task with
  | some t => (p.go i.move).follow t Schedule.turns
  | none =>
    let busy := if i.move = .call .close then some p.machine.fresh else none
    ({ p with agenda := p.agenda.tail, busy }).go i.move

def run (t : TaskId) (limit : Duration) : Nat → Play → Play
  | 0, p => p
  | n + 1, p =>
    if !p.machine.isRunning t then p
    else match p.choose with
      | some i => if i.due ≤ limit then run t limit n (p.take i) else p.passTo limit
      | none => p.passTo limit

def patience : Duration := .ofMillis 3600000

def perform (p : Play) (job : Job) (agenda : List (Duration × Errand)) : Play × Option Outcome :=
  let t := p.machine.fresh
  let limit := p.machine.now + patience
  let p := { p with agenda := agenda.map fun (at_, e) => (p.machine.now + at_, e), busy := none }
  let p := ((p.go (.call job)).follow t Schedule.turns).run t limit Schedule.turns
  let outcome := p.machine.outcome? t
  let p := if outcome.isNone then p.go (.cancel t) else p
  let p := match p.busy with
    | some c => p.go (.cancel c)
    | none => p
  ({ p with agenda := [], busy := none }, outcome)

end Play
end Switchboard.Session
