import Switchboard.Event.Notifier

/-! A notifier over time: what is asked of it, one thing after the other, and what it answers. -/
namespace Switchboard.Notifier

inductive Act where
  | observe (name : Text) (handlers : List (Event.Kind × Text))
  | drop (name : Text)
  | register (name : Text)
  | unregister (name : Text)
  | notify (name : Text) (e : Event)
  | notifyAll (e : Event)
  deriving DecidableEq, Repr

inductive Answer where
  | silent
  | existed (there : Bool)
  | handled (called : Bool)
  | calls (n : Nat)
  deriving DecidableEq, Repr

structure Reply where
  answer : Answer
  heard : List Delivery
  count : Nat
  deriving DecidableEq, Repr

def handling (n : Notifier) (e : Event) : List Observer :=
  n.listeners.filter fun o => (n.deliver e o).isSome

def act : Act → Notifier → Notifier
  | .observe name handlers, n => n.observe name handlers
  | .drop name, n => (n.drop name).1
  | .register name, n => n.register name
  | .unregister name, n => n.unregister name
  | .notify .., n => n
  | .notifyAll e, n => (n.notifyAll e).1

def answer : Act → Notifier → Answer
  | .observe .., _ | .register _, _ | .unregister _, _ => .silent
  | .drop name, n => .existed (n.drop name).2
  | .notify name e, n => .handled (n.notify name e).isSome
  | .notifyAll e, n => .calls (n.handling e).length

def heard : Act → Notifier → List Delivery
  | .notify name e, n => (n.notify name e).toList
  | .notifyAll e, n => (n.notifyAll e).2
  | _, _ => []

def reply (a : Act) (n : Notifier) : Reply := ⟨n.answer a, n.heard a, (n.act a).count⟩

def behind (h : List Act) (n : Notifier) : Notifier := h.foldl (fun n a => n.act a) n

def replies : List Act → Notifier → List Reply
  | [], _ => []
  | a :: h, n => n.reply a :: replies h (n.act a)

end Switchboard.Notifier
