import Mathlib.Algebra.GroupWithZero.Nat
import Switchboard.Proofs.Session.Closing
import Switchboard.Proofs.Session.Frame
import Switchboard.Proofs.Session.Operations

/-! What a session tells as a whole: no send or receive begins outside of its activity, nothing
that ends the activity is told before one that begins, and its counts are those of what it has
told. -/
namespace Switchboard.Session

def endsActivity : Event → Bool
  | .sendFailure .. | .recvFailure .. | .closing => true
  | .recvSuccess _ data => isExitToken data
  | _ => false

def isSendSuccess : Event → Bool
  | .sendSuccess _ => true
  | _ => false

def isRecvSuccess : Event → Bool
  | .recvSuccess .. => true
  | _ => false

def receivedBytes : Event → Nat
  | .recvSuccess _ data => data.length
  | _ => 0

def Ending (s : Session) : Prop := s.state = .closing ∨ s.state = .closed

structure Tally (s : Session) (trace : List Mark) : Prop where
  ending : ∀ k ∈ trace, endsActivity k.event = true → s.Ending
  order : trace.Pairwise fun k j => endsActivity j.event = true → opens k.event = false
  begun : ∀ k ∈ trace, opens k.event = true → s.state ≠ .created
  sent : s.stats.messagesSent = .ofNat (trace.countP (isSendSuccess ·.event))
  received : s.stats.messagesReceived = .ofNat (trace.countP (isRecvSuccess ·.event))
  bytesReceived : s.stats.bytesReceived = .ofNat (trace.map (receivedBytes ·.event)).sum

namespace Tally
variable {s r : Session} {trace : List Mark}

theorem change (h : Tally s trace) (he : s.Ending → r.Ending)
    (hb : s.state ≠ .created → r.state ≠ .created) (hs : r.stats = s.stats) : Tally r trace where
  ending k hk hx := he (h.ending k hk hx)
  order := h.order
  begun k hk hx := hb (h.begun k hk hx)
  sent := hs ▸ h.sent
  received := hs ▸ h.received
  bytesReceived := hs ▸ h.bytesReceived

theorem tell (h : Tally s trace) (now : Duration) (t : Option TaskId) (e : Event)
    (he : s.Ending ∨ endsActivity e = true → r.Ending)
    (hn : s.state ≠ .created → r.state ≠ .created) (ho : opens e = true → s.state = .active)
    (hs : r.stats.messagesSent =
      s.stats.messagesSent + .ofNat (if isSendSuccess e then 1 else 0))
    (hv : r.stats.messagesReceived =
      s.stats.messagesReceived + .ofNat (if isRecvSuccess e then 1 else 0))
    (hb : r.stats.bytesReceived = s.stats.bytesReceived + .ofNat (receivedBytes e)) :
    Tally r (⟨now, t, e⟩ :: trace) where
  ending k hm hx := by
    obtain rfl | hm := List.mem_cons.1 hm
    · exact he (.inr hx)
    · exact he (.inl (h.ending k hm hx))
  order := by
    refine List.pairwise_cons.2 ⟨fun j hj hx => ?_, h.order⟩
    by_contra hn
    have ha : s.state = .active := ho (by simpa using hn)
    have hd := h.ending j hj hx
    simp [Ending, ha] at hd
  begun k hm hx := by
    obtain rfl | hm := List.mem_cons.1 hm
    · exact hn (by simp [ho hx])
    · exact hn (h.begun k hm hx)
  sent := by rw [hs, h.sent, List.countP_cons, UInt64.ofNat_add]
  received := by rw [hv, h.received, List.countP_cons, UInt64.ofNat_add]
  bytesReceived := by
    rw [hb, h.bytesReceived, List.map_cons, List.sum_cons, UInt64.ofNat_add, UInt64.add_comm]

theorem release (h : Tally s trace) (now : Duration) (t : TaskId) :
    Tally s.release (⟨now, some t, .closing⟩ :: trace) := by
  apply h.tell <;> simp [Session.release, Ending, opens, isSendSuccess, isRecvSuccess, receivedBytes]

theorem begin (h : Tally s trace) (now : Duration) (t : TaskId) {e : Event}
    (ho : opens e = true) (hs : s.state = .active) : Tally s (⟨now, some t, e⟩ :: trace) := by
  cases e with
  | sending | receiving =>
    apply h.tell <;> simp [endsActivity, isSendSuccess, isRecvSuccess, receivedBytes, hs]
  | _ => simp [opens] at ho

end Tally

theorem ending_beginClosing {s : Session} (h : s.state ≠ .created) : s.beginClosing.Ending := by
  cases hs : s.state with
  | created => exact absurd hs h
  | active | closing | closed => simp [Ending, beginClosing, hs]

theorem created_beginClosing {s : Session} (h : s.state ≠ .created) :
    s.beginClosing.state ≠ .created := by
  cases hs : s.state with
  | created => exact absurd hs h
  | active | closing | closed => simp [beginClosing, hs]

namespace Tally
variable {s : Session} {trace : List Mark}

theorem sendDone (h : Tally s trace) (now : Duration) (t : TaskId) (data : Bytes) (n : Nat) :
    Tally (s.sent now n) (⟨now, some t, .sendSuccess data⟩ :: trace) := by
  apply h.tell <;> simp [endsActivity, opens, isSendSuccess, isRecvSuccess, receivedBytes,
    Session.sent, Ending]

theorem recvDone (h : Tally s trace) (hs : s.state ≠ .created) (now : Duration) (t : TaskId)
    (size : Nat) (data : Bytes) :
    Tally ((s.received now data).obeyExit data) (⟨now, some t, .recvSuccess size data⟩ :: trace) := by
  have hr : (s.received now data).state ≠ .created := hs
  unfold obeyExit
  split
  next hx =>
    apply h.tell
    · exact fun _ => ending_beginClosing hr
    · exact fun _ => created_beginClosing hr
    all_goals simp [opens, Session.received, beginClosing, isSendSuccess, isRecvSuccess,
      receivedBytes]
  next hx =>
    apply h.tell <;> simp [endsActivity, hx, opens, isSendSuccess, isRecvSuccess, receivedBytes,
      Session.received, Ending]

theorem fail (h : Tally s trace) (hs : s.state ≠ .created) (now : Duration) (t : TaskId)
    {e : Event} (he : (∃ data error, e = .sendFailure data error) ∨
      ∃ size error, e = .recvFailure size error) :
    Tally s.beginClosing (⟨now, some t, e⟩ :: trace) := by
  obtain ⟨_, _, rfl⟩ | ⟨_, _, rfl⟩ := he
  all_goals
    apply h.tell
    · exact fun _ => ending_beginClosing hs
    · exact fun _ => created_beginClosing hs
    all_goals simp [opens, beginClosing, isSendSuccess, isRecvSuccess, receivedBytes]

theorem finish (h : Tally s trace) (now : Duration) (t : TaskId) {e : Event}
    (he : endsClose e = true) : Tally s.finish (⟨now, some t, e⟩ :: trace) := by
  cases e with
  | closeSuccess | closeFailure =>
    apply h.tell <;> simp [opens, Session.finish, Ending, isSendSuccess, isRecvSuccess,
      receivedBytes]
  | _ => simp [endsClose] at he

end Tally

namespace Machine
variable {m a : Machine} {t : TaskId} {job : Job}

abbrev Tallied (m : Machine) : Prop := Tally m.session m.trace

theorem tallied_leaves (hl : Leaves t job m a) (h : Tallied m) : Tallied a := by
  cases hl with
  | send data hs => exact h.begin _ t rfl hs
  | recv size hs => exact h.begin _ t rfl hs
  | close => exact h.release _ _
  | pause | watch | ends => exact h

theorem tallied_begins (hb : Begins t job m a) (h : Tallied m) : Tallied a := by
  cases hb with
  | leaves hl => exact tallied_leaves hl h
  | fork _ =>
    obtain ⟨hs, ht, -⟩ := addAll_same m.session.loops.toList t (m.await t .joining)
    rw [Tallied, addLoops, hs, ht]
    exact h
  | guard _ => exact h

/-- What waits for the link has begun, and nothing begins before the session is active. -/
theorem ne_created_of_asked {lost : TaskId → Prop} (hb : Booked lost m) (h : Tallied m)
    {x : Task} (hx : x ∈ m.tasks) {e : Event} (hw : x.wait.asked = some e) :
    m.session.state ≠ .created := by
  obtain ⟨s, ho, hs, -⟩ := hb.account x.id
  rw [hs x hx rfl, hw] at ho
  obtain ⟨k, hk, -, hke⟩ := mem_eventsOf.1 ho.mem
  have he := asked_eq_some_begins hw
  cases e with
  | sending | receiving => exact h.begun k hk (by rw [hke]; rfl)
  | closing =>
    have hd := h.ending k hk (by rw [hke]; rfl)
    rintro hc
    simp [Ending, hc] at hd
  | _ => simp [begins] at he

theorem tallied_deed {v : Move} {lost : TaskId → Prop} (hb : Booked lost m) (h : Tallied m)
    (hd : Deed m v a) (hv : ∀ size data, v ≠ .deliver size data) : Tallied a := by
  have hn {x : Task} (hx : x ∈ m.tasks) {e : Event} (hw : x.wait.asked = some e) :
      m.session.state ≠ .created := ne_created_of_asked hb h hx hw
  cases hd with
  | @activate s hs =>
    unfold Session.activate at hs
    split at hs
    next hc =>
      obtain rfl := Except.ok.inj hs
      apply h.change <;> simp [Ending, hc]
    next => simp at hs
  | setLoop => exact h.change id id rfl
  | ignore | pass | cancel | halt | relay | unwatch | look => exact h
  | call hb => exact tallied_begins hb h
  | start _ _ hb => exact tallied_begins hb h
  | sent _ _ hl => exact tallied_leaves hl (h.sendDone _ _ _ _)
  | received hx hw _ hl =>
    exact tallied_leaves hl (h.recvDone (hn hx (by rw [hw]; rfl)) _ _ _ _)
  | sendFailed e hx hw _ => exact h.fail (hn hx (by rw [hw]; rfl)) _ _ (.inl ⟨_, _, rfl⟩)
  | recvFailed e hx hw _ => exact h.fail (hn hx (by rw [hw]; rfl)) _ _ (.inr ⟨_, _, rfl⟩)
  | closed => exact h.finish _ _ rfl
  | closeFailed => exact h.finish _ _ rfl
  | turn _ _ _ hl => exact tallied_leaves hl h
  | evict _ _ _ hl => exact tallied_leaves hl h
  | join _ _ _ hl => exact tallied_leaves hl h
  | notice _ _ _ hl => exact tallied_leaves hl h
  | deliver size data => exact absurd rfl (hv size data)

end Machine
end Switchboard.Session
