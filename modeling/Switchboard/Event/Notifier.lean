import Switchboard.Event.Basic

/-! Observers and the notifier that serves them. An observer has at most one handler for each kind of
event. The notifier knows its observers by serial number only: one that is gone is served no more,
and its number is forgotten at the next broadcast. -/
namespace Switchboard

structure Observer where
  serial : Nat
  name : Text
  /-- What is called for a kind, last installed first. -/
  handlers : List (Event.Kind × Text)
  deriving DecidableEq, Repr

def Observer.handler? (o : Observer) (k : Event.Kind) : Option Text :=
  (o.handlers.find? (·.1 = k)).map (·.2)

structure Delivery where
  observer : Text
  handler : Text
  subject : Subject
  event : Event
  deriving DecidableEq, Repr

structure Notifier where
  subject : Subject
  living : List Observer := []
  registered : List Nat := []
  fresh : Nat := 0
  deriving DecidableEq, Repr

namespace Notifier

def named? (n : Notifier) (name : Text) : Option Observer := n.living.find? (·.name = name)

def withSerial? (n : Notifier) (serial : Nat) : Option Observer :=
  n.living.find? (·.serial = serial)

/-- A new observer, in place of an older one of that name. Of several handlers for one kind the last
one stays. -/
def observe (n : Notifier) (name : Text) (handlers : List (Event.Kind × Text)) : Notifier :=
  { n with
    living := n.living.filter (·.name ≠ name) ++ [⟨n.fresh, name, handlers.reverse⟩]
    fresh := n.fresh + 1 }

def drop (n : Notifier) (name : Text) : Notifier × Bool :=
  ({ n with living := n.living.filter (·.name ≠ name) }, (n.named? name).isSome)

def register (n : Notifier) (name : Text) : Notifier :=
  match n.named? name with
  | none => n
  | some o =>
    if o.serial ∈ n.registered then n else { n with registered := n.registered ++ [o.serial] }

def unregister (n : Notifier) (name : Text) : Notifier :=
  match n.named? name with
  | none => n
  | some o => { n with registered := n.registered.filter (· ≠ o.serial) }

def listeners (n : Notifier) : List Observer := n.registered.filterMap n.withSerial?

def deliver (n : Notifier) (e : Event) (o : Observer) : Option Delivery :=
  (o.handler? e.kind).map fun h => ⟨o.name, h, n.subject, e⟩

def notify (n : Notifier) (name : Text) (e : Event) : Option Delivery :=
  (n.named? name).bind (n.deliver e)

def notifyAll (n : Notifier) (e : Event) : Notifier × List Delivery :=
  ({ n with registered := n.registered.filter fun s => (n.withSerial? s).isSome },
    n.listeners.filterMap (n.deliver e))

def count (n : Notifier) : Nat := n.listeners.length

end Notifier
end Switchboard
