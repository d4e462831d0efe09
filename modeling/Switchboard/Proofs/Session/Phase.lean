import Switchboard.Session.Machine

/-! What a move does with the life of a session. Nearly all moves leave it alone; an error or an
exit token ends the activity, the first to close lets the link go, and the link's answer to that one
ends it all. -/
namespace Switchboard.Session

def phase (s : Session) : State × Bool × Bool := (s.state, s.alive, s.released)

namespace Machine
variable {m a b : Machine}

structure Calm (m a : Machine) : Prop where
  phase : a.session.phase = m.session.phase
  shutting : ∀ x ∈ a.tasks, x.wait = .shutting → ∃ y ∈ m.tasks, y.wait = .shutting

theorem Calm.refl (m : Machine) : Calm m m := ⟨rfl, fun x hx hw => ⟨x, hx, hw⟩⟩

theorem Calm.trans (h : Calm m a) (k : Calm a b) : Calm m b := by
  refine ⟨k.phase.trans h.phase, ?_⟩
  intro x hx hw
  obtain ⟨y, hy, hw⟩ := k.shutting x hx hw
  exact h.shutting y hy hw

theorem calm_emit (t : Option TaskId) (e : Event) (m : Machine) : Calm m (m.emit t e) :=
  ⟨rfl, (Calm.refl m).shutting⟩

theorem calm_ask (t : TaskId) (c : Call) (m : Machine) : Calm m (m.ask t c) :=
  ⟨rfl, (Calm.refl m).shutting⟩

theorem calm_modify (f : Session → Session) (m : Machine)
    (hf : (f m.session).phase = m.session.phase) : Calm m (m.modify f) :=
  ⟨hf, (Calm.refl m).shutting⟩

theorem calm_add (t : TaskId) (job : Job) (p : Option TaskId) (m : Machine) :
    Calm m (m.add t job p) := by
  refine ⟨rfl, ?_⟩
  intro x hx hw
  obtain hx | hx := List.mem_append.1 hx
  · exact ⟨x, hx, hw⟩
  · obtain rfl := List.mem_singleton.1 hx
    simp at hw

theorem calm_await (t : TaskId) (w : Wait) (m : Machine) (hs : w ≠ .shutting) :
    Calm m (m.await t w) := by
  refine ⟨rfl, ?_⟩
  intro x hx hw
  obtain ⟨y, hy, rfl⟩ := List.mem_map.1 hx
  split at hw
  next => exact absurd hw hs
  next => exact ⟨y, hy, hw⟩

theorem calm_settle (t : TaskId) (o : Outcome) (m : Machine) : Calm m (m.settle t o) :=
  ⟨rfl, fun x hx hw => ⟨x, (List.mem_filter.1 hx).1, hw⟩⟩

theorem calm_clear (t : TaskId) (m : Machine) : Calm m (m.clear t) :=
  ⟨rfl, fun x hx hw => ⟨x, (List.mem_filter.1 hx).1, hw⟩⟩

theorem calm_abandon (t : TaskId) (m : Machine) : Calm m (m.abandon t) :=
  ⟨rfl, fun x hx hw => ⟨x, (List.mem_filter.1 hx).1, hw⟩⟩

theorem calm_beginSend (t : TaskId) (data : Bytes) (m : Machine) : Calm m (m.beginSend t data) := by
  unfold beginSend
  split
  · exact calm_settle _ _ m
  · exact (calm_emit _ _ m).trans ((calm_ask _ _ _).trans (calm_await _ _ _ (by simp)))

theorem calm_beginRecv (t : TaskId) (size : Nat) (m : Machine) : Calm m (m.beginRecv t size) := by
  unfold beginRecv
  split
  · exact calm_settle _ _ m
  · exact (calm_emit _ _ m).trans ((calm_ask _ _ _).trans (calm_await _ _ _ (by simp)))

theorem calm_turn (t : TaskId) (k : Loop) (m : Machine) : Calm m (m.turn t k) := by
  unfold turn
  split
  · cases k with
    | send | sendrecv => exact calm_beginSend _ _ m
    | recv => exact calm_beginRecv _ _ m
  · exact calm_settle _ _ m

theorem calm_pause (t : TaskId) (k : Loop) (m : Machine) : Calm m (m.pause t k) :=
  calm_await _ _ m (by simp)

theorem calm_addAll (t : TaskId) (ks : List Loop) (m : Machine) :
    Calm m (ks.foldl (fun m k => m.add m.fresh (.loop k) (some t)) m) := by
  induction ks generalizing m with
  | nil => exact Calm.refl m
  | cons k ks ih => exact (calm_add _ _ _ m).trans (ih _)

theorem calm_addLoops (t : TaskId) (m : Machine) : Calm m (m.addLoops t) :=
  (calm_await _ _ m (by simp)).trans (calm_addAll t _ _)

theorem calm_addGuarded (t : TaskId) (loops : Bool) (limit : Duration) (m : Machine) :
    Calm m (m.addGuarded t loops limit) :=
  (calm_add _ _ _ m).trans (calm_await _ _ _ (by simp))

theorem calm_afterSend (t : TaskId) (n : Nat) (job : Job) (m : Machine) :
    Calm m (m.afterSend t n job) := by
  unfold afterSend
  split
  · exact calm_beginRecv _ _ m
  · exact calm_beginRecv _ _ m
  · exact calm_pause _ _ m
  · exact calm_settle _ _ m

theorem calm_afterRecv (t : TaskId) (data : Bytes) (job : Job) (m : Machine) :
    Calm m (m.afterRecv t data job) := by
  unfold afterRecv
  split
  · exact calm_pause _ _ m
  · exact calm_settle _ _ m

theorem calm_sendDone (x : Task) (data : Bytes) (n : Nat) (m : Machine) :
    Calm m (m.sendDone x data n) :=
  (calm_modify _ m rfl).trans ((calm_emit _ _ _).trans (calm_afterSend _ _ _ _))

inductive Advance (m : Machine) : Machine → Prop where
  | calm {a : Machine} : Calm m a → Advance m a
  | activate {s : Session} : m.session.activate = .ok s → Advance m { m with session := s }
  | fade {a b : Machine} : Calm m a → Calm (a.modify beginClosing) b → Advance m b
  | release {a : Machine} : m.session.released = false → a.session.phase = (.closing, false, true) →
      Advance m a
  | finish {x : Task} {a : Machine} : x ∈ m.tasks → x.wait = .shutting → Calm (m.modify finish) a →
      Advance m a

theorem Calm.released (h : Calm m a) : a.session.released = m.session.released :=
  congrArg (·.2.2) h.phase

theorem advance_beginClose (t : TaskId) (h : Calm m a) : Advance m (a.beginClose t) := by
  unfold beginClose
  cases hr : a.session.released with
  | true => exact .calm (h.trans (calm_settle _ _ a))
  | false => exact .release (h.released ▸ hr) rfl

theorem advance_lingerOn (t : TaskId) (h : Calm m a) : Advance m (a.lingerOn t) := by
  unfold lingerOn
  split
  · exact .calm (h.trans (calm_await _ _ a (by simp)))
  · exact advance_beginClose t h

theorem advance_start (t : TaskId) (job : Job) (h : Calm m a) : Advance m (a.start t job) := by
  cases job with
  | send data => exact .calm (h.trans (calm_beginSend _ _ a))
  | recv size => exact .calm (h.trans (calm_beginRecv _ _ a))
  | exchange => exact .calm (h.trans (calm_beginSend _ _ a))
  | close => exact advance_beginClose t h
  | watch =>
    rw [start]
    split
    · exact .calm (h.trans (calm_await _ _ a (by simp)))
    · exact .calm (h.trans (calm_settle _ _ a))
  | linger => exact advance_lingerOn t h
  | runLoops => exact .calm (h.trans (calm_addLoops t a))
  | loop k => exact .calm (h.trans (calm_turn t k a))
  | guard loops limit => exact .calm (h.trans (calm_addGuarded t loops limit a))

theorem advance_call (job : Job) (m : Machine) : Advance m (m.call job) := by
  unfold call
  split
  · exact .calm (Calm.refl m)
  · exact advance_start _ _ (calm_add _ _ _ m)

theorem advance_sendFailed (t : TaskId) (data : Bytes) (e : Error) (m : Machine) :
    Advance m (m.sendFailed t data e) :=
  .fade (calm_emit _ _ m) (calm_settle _ _ _)

theorem advance_recvFailed (t : TaskId) (size : Nat) (e : Error) (m : Machine) :
    Advance m (m.recvFailed t size e) :=
  .fade (calm_emit _ _ m) (calm_settle _ _ _)

/-- Only an exit token among the bytes received touches the life of the session. -/
theorem advance_obeyExit (data : Bytes) (h : Calm m a) (k : Calm (a.modify (·.obeyExit data)) b) :
    Advance m b := by
  unfold modify obeyExit at k
  split at k
  · exact .fade h k
  · exact .calm (h.trans k)

theorem advance_recvDone (x : Task) (size : Nat) (data : Bytes) (m : Machine) :
    Advance m (m.recvDone x size data) :=
  advance_obeyExit data ((calm_modify _ m rfl).trans (calm_emit _ _ _)) (calm_afterRecv _ _ _ _)

theorem advance_deliver (size : Nat) (data : Bytes) (m : Machine) :
    Advance m (m.deliver size data) :=
  advance_obeyExit data ((calm_modify _ m rfl).trans (calm_emit _ _ _)) (Calm.refl _)

theorem advance_closeDone (x : Task) (hx : x ∈ m.tasks) (hw : x.wait = .shutting) :
    Advance m (m.closeDone x) :=
  .finish hx hw ((calm_emit _ _ _).trans (calm_settle _ _ _))

theorem advance_closeFailed (x : Task) (e : Error) (hx : x ∈ m.tasks) (hw : x.wait = .shutting) :
    Advance m (m.closeFailed x e) :=
  .finish hx hw ((calm_emit _ _ _).trans (calm_settle _ _ _))

theorem advance_reply (x : Task) (hx : x ∈ m.tasks) (r : Reply) (h : m.reply x r = some a) :
    Advance m a := by
  unfold reply at h
  split at h
  next data _ n _ =>
    obtain rfl := Option.some.inj h
    exact .calm (calm_sendDone x data n m)
  next data _ e _ =>
    obtain rfl := Option.some.inj h
    exact advance_sendFailed _ data e m
  next size _ _ =>
    obtain rfl := Option.some.inj h
    exact advance_recvFailed _ size _ m
  next size _ data _ _ =>
    obtain rfl := Option.some.inj h
    exact advance_recvDone x size data m
  next size _ e _ =>
    obtain rfl := Option.some.inj h
    exact advance_recvFailed _ size e m
  next hw =>
    obtain rfl := Option.some.inj h
    exact advance_closeDone x hx hw
  next e hw =>
    obtain rfl := Option.some.inj h
    exact advance_closeFailed x e hx hw
  next => simp at h

theorem advance_expire (x : Task) (h : m.expire x = some a) : Advance m a := by
  unfold expire at h
  dsimp only at h
  split at h
  next data d _ =>
    obtain ⟨-, h⟩ := Option.ite_none_right_eq_some.1 h
    obtain rfl := Option.some.inj h
    exact advance_sendFailed _ data _ m
  next size d _ =>
    obtain ⟨-, h⟩ := Option.ite_none_right_eq_some.1 h
    obtain rfl := Option.some.inj h
    exact advance_recvFailed _ size _ m
  next => simp at h

theorem advance_wake (x : Task) (h : m.wake x = some a) : Advance m a := by
  unfold wake at h
  split at h
  next d k _ _ =>
    obtain ⟨-, h⟩ := Option.ite_none_right_eq_some.1 h
    obtain rfl := Option.some.inj h
    exact .calm (calm_turn x.id k m)
  next child d _ limit _ _ =>
    obtain ⟨-, h⟩ := Option.ite_none_right_eq_some.1 h
    split at h
    next =>
      obtain rfl := Option.some.inj h
      exact advance_beginClose x.id (calm_clear x.id m)
    next =>
      obtain rfl := Option.some.inj h
      exact .calm (calm_await _ _ m (by simp))
  next => simp at h

theorem advance_halt (x : Task) (h : m.halt x = some a) : Advance m a := by
  unfold halt at h
  split at h
  next k _ =>
    split at h
    next => simp at h
    next =>
      obtain rfl := Option.some.inj h
      exact .calm (calm_settle _ _ m)
  next => simp at h

theorem advance_join (x : Task) (h : m.join x = some a) : Advance m a := by
  unfold join at h
  split at h
  next =>
    split at h
    next => simp at h
    next =>
      obtain rfl := Option.some.inj h
      exact advance_beginClose x.id (Calm.refl m)
  next child _ _ =>
    split at h
    next => simp at h
    next =>
      obtain rfl := Option.some.inj h
      exact .calm (calm_settle _ _ m)
  next => simp at h

theorem advance_notice (x : Task) (h : m.notice x = some a) : Advance m a := by
  obtain ⟨-, h⟩ := Option.ite_none_right_eq_some.1 h
  obtain rfl := Option.some.inj h
  split
  · exact advance_beginClose x.id (Calm.refl m)
  · exact .calm (calm_settle _ _ m)

theorem mem_tasks_of_task? (t : TaskId) (x : Task) (h : m.task? t = some x) : x ∈ m.tasks :=
  List.mem_of_find?_eq_some h

theorem advance_step (v : Move) (h : m.step v = some a) : Advance m a := by
  cases v with
  | activate =>
    rw [step] at h
    split at h
    next s hs =>
      obtain rfl : { m with session := s } = a := by simpa using h
      exact .activate hs
    next => simp at h
  | setLoop k on =>
    obtain rfl : m.modify (·.setLoop k on) = a := by simpa [step] using h
    exact .calm (calm_modify _ m rfl)
  | call job =>
    obtain rfl : m.call job = a := by simpa [step] using h
    exact advance_call job m
  | start t =>
    obtain ⟨x, hx, h⟩ := Option.bind_eq_some_iff.1 h
    split at h
    next =>
      obtain rfl : m.start t x.job = a := by simpa using h
      exact advance_start t x.job (Calm.refl m)
    next => simp at h
  | reply t r =>
    obtain ⟨x, hx, h⟩ := Option.bind_eq_some_iff.1 h
    exact advance_reply x (mem_tasks_of_task? t x hx) r h
  | expire t =>
    obtain ⟨x, hx, h⟩ := Option.bind_eq_some_iff.1 h
    exact advance_expire x h
  | wake t =>
    obtain ⟨x, hx, h⟩ := Option.bind_eq_some_iff.1 h
    exact advance_wake x h
  | halt t =>
    obtain ⟨x, hx, h⟩ := Option.bind_eq_some_iff.1 h
    exact advance_halt x h
  | join t =>
    obtain ⟨x, hx, h⟩ := Option.bind_eq_some_iff.1 h
    exact advance_join x h
  | notice t =>
    obtain ⟨x, hx, h⟩ := Option.bind_eq_some_iff.1 h
    exact advance_notice x h
  | cancel t =>
    obtain ⟨x, hx, h⟩ := Option.bind_eq_some_iff.1 h
    split at h
    next =>
      obtain rfl : m.abandon t = a := by simpa using h
      exact .calm (calm_abandon t m)
    next => simp at h
  | deliver size data =>
    obtain rfl : m.deliver size data = a := by simpa [step] using h
    exact advance_deliver size data m
  | pass d =>
    obtain rfl : { m with now := m.now + d } = a := by simpa [step] using h
    exact .calm ⟨rfl, (Calm.refl m).shutting⟩

end Machine
end Switchboard.Session
