import Switchboard.Session.Machine

/-! A session that is asked for one operation at a time. Between two of them it has no task, and
during one it has the task of just this one, which ends by what the link gives. Meanwhile nobody lets
the link go: the session stops being active when an operation fails or an exit token comes. -/
namespace Switchboard.Session

def Call.job : Call → Job
  | .send data => .send data
  | .recv size => .recv size
  | .close => .close

inductive Call.WaitsAt : Call → Wait → Prop where
  | send (data : Bytes) (d : Option Duration) : WaitsAt (.send data) (.sending data d)
  | recv (size : Nat) (d : Option Duration) : WaitsAt (.recv size) (.receiving size d)

inductive Call.Gives : Call → Outcome → Prop where
  | sent (data : Bytes) (n : Nat) : Gives (.send data) (.sent n)
  | received (size : Nat) {data : Bytes} : data ≠ [] → Gives (.recv size) (.received data)
  | failed (c : Call) (e : Error) : Gives c (.failed e)

namespace Move

/-- Whether it comes by itself: nobody asks for a job, and nobody gives one up. -/
def isPassive : Move → Bool
  | .activate | .call _ | .cancel _ => false
  | _ => true

/-- Whether it hands over an exit token that no task has asked for. -/
def bringsExit : Move → Bool
  | .deliver _ data => isExitToken data
  | _ => false

end Move

structure Held (s : Session) : Prop where
  unreleased : s.released = false
  open_ : s.state = .active ∨ s.state = .closing

def stateBehind (exit : Bool) (s : State) : State := if exit then .closing else s

namespace Held
variable {s : Session}

theorem state_beginClosing (h : Held s) : s.beginClosing.state = .closing := by
  obtain hs | hs := h.open_ <;> simp [Session.beginClosing, hs]

theorem beginClosing (h : Held s) : Held s.beginClosing :=
  ⟨h.unreleased, .inr h.state_beginClosing⟩

theorem state_obeyExit (h : Held s) (data : Bytes) :
    (s.obeyExit data).state = stateBehind (isExitToken data) s.state := by
  unfold Session.obeyExit stateBehind
  split
  · exact h.state_beginClosing
  · rfl

theorem obeyExit (h : Held s) (data : Bytes) : Held (s.obeyExit data) := by
  unfold Session.obeyExit
  split
  · exact h.beginClosing
  · exact h

end Held

namespace Machine

def asked (m : Machine) : List Call := (m.calls.map (·.2)).reverse

def given (m : Machine) : List Outcome := (m.finished.map (·.2)).reverse

structure Idle (m : Machine) : Prop where
  held : Held m.session
  tasks : m.tasks = []
  spent : ∀ r ∈ m.finished, r.1 < m.fresh

structure Busy (t : TaskId) (c : Call) (m : Machine) : Prop where
  held : Held m.session
  task : ∃ w n, c.WaitsAt w ∧ m.tasks = [⟨t, c.job, none, w, n⟩]
  spent : ∀ r ∈ m.finished, r.1 < t
  lt_fresh : t < m.fresh

structure Lull (m a : Machine) : Prop where
  calls : a.calls = m.calls
  finished : a.finished = m.finished

structure Settled (t : TaskId) (o : Outcome) (m a : Machine) : Prop where
  calls : a.calls = m.calls
  finished : a.finished = (t, o) :: m.finished

variable {m a : Machine} {t : TaskId} {c : Call} {v : Move}

theorem outcome?_settled {o : Outcome} (h : Settled t o m a) : a.outcome? t = some o := by
  simp [outcome?, h.finished]

theorem Busy.outcome?_eq_none (h : Busy t c m) : m.outcome? t = none := by
  rw [outcome?, Option.map_eq_none_iff, List.find?_eq_none]
  intro r hr
  simpa using Nat.ne_of_lt (h.spent r hr)

theorem Busy.task?_eq_some (h : Busy t c m) {u : TaskId} {x : Task} (hx : m.task? u = some x) :
    u = t ∧ ∃ w n, c.WaitsAt w ∧ x = ⟨t, c.job, none, w, n⟩ := by
  obtain ⟨w, n, hw, ht⟩ := h.task
  have hm := List.mem_of_find?_eq_some hx
  have hi := List.find?_some hx
  rw [ht, List.mem_singleton] at hm
  subst hm
  exact ⟨(by simpa using hi : t = u).symm, w, n, hw, rfl⟩

theorem Busy.task?_self (h : Busy t c m) :
    ∃ w n, c.WaitsAt w ∧ m.task? t = some ⟨t, c.job, none, w, n⟩ := by
  obtain ⟨w, n, hw, ht⟩ := h.task
  exact ⟨w, n, hw, by simp [task?, ht]⟩

/-! Asking. -/

structure Asked (t : TaskId) (c : Call) (m a : Machine) : Prop where
  calls : a.calls = (t, c) :: m.calls
  finished : a.finished = m.finished

theorem Idle.call_active (h : Idle m) (hc : c ≠ .close) (hs : m.session.state = .active) :
    Busy m.fresh c (m.call c.job) ∧ Asked m.fresh c m (m.call c.job) ∧
      (m.call c.job).session = m.session := by
  have ht := h.tasks
  have hok : m.session.ensureActive = .ok () := by rw [ensureActive, if_pos hs]
  cases c with
  | close => exact absurd rfl hc
  | send data =>
    simp only [Call.job, Machine.call, start, beginSend, add, hok]
    exact ⟨⟨h.held, ⟨_, m.fresh + 1, .send data m.deadline,
      by simp [await, ask, emit, ht, Call.job, deadline]⟩, h.spent,
      Nat.lt_succ_of_lt (Nat.lt_succ_self _)⟩, ⟨rfl, rfl⟩, rfl⟩
  | recv size =>
    simp only [Call.job, Machine.call, start, beginRecv, add, hok]
    exact ⟨⟨h.held, ⟨_, m.fresh + 1, .recv size m.deadline,
      by simp [await, ask, emit, ht, Call.job, deadline]⟩, h.spent,
      Nat.lt_succ_of_lt (Nat.lt_succ_self _)⟩, ⟨rfl, rfl⟩, rfl⟩

/-- A session that has seen its end refuses at once, and the link hears nothing. -/
theorem Idle.call_closing (h : Idle m) (hc : c ≠ .close) (hs : m.session.state = .closing) :
    Idle (m.call c.job) ∧
      Settled m.fresh (.failed (.sessionInactive .closing)) m (m.call c.job) ∧
      (m.call c.job).session = m.session := by
  have hr : m.session.ensureActive = .error (.sessionInactive .closing) := by
    rw [ensureActive, if_neg (by simp [hs]), hs]
  have hf : ∀ r ∈ (m.fresh, Outcome.failed (.sessionInactive .closing)) :: m.finished,
      r.1 < m.fresh + 1 := by
    intro r hr
    obtain rfl | hr := List.mem_cons.1 hr
    · exact Nat.lt_succ_self _
    · exact Nat.lt_succ_of_lt (h.spent r hr)
  cases c with
  | close => exact absurd rfl hc
  | send data =>
    simp only [Call.job, Machine.call, start, beginSend, add, hr]
    exact ⟨⟨h.held, by simp [settle, h.tasks], hf⟩, ⟨rfl, rfl⟩, rfl⟩
  | recv size =>
    simp only [Call.job, Machine.call, start, beginRecv, add, hr]
    exact ⟨⟨h.held, by simp [settle, h.tasks], hf⟩, ⟨rfl, rfl⟩, rfl⟩

/-! What comes by itself. -/

theorem Idle.step (h : Idle m) (hv : v.isPassive = true) (hs : m.step v = some a) :
    Idle a ∧ Lull m a ∧ a.session.state = stateBehind v.bringsExit m.session.state := by
  have hn (t : TaskId) : m.task? t = none := by simp [task?, h.tasks]
  cases v with
  | activate | call | cancel => simp [Move.isPassive] at hv
  | start | reply | expire | wake | halt | join | notice => simp [Machine.step, hn] at hs
  | setLoop k on =>
    obtain rfl := Option.some.inj hs
    exact ⟨⟨⟨h.held.unreleased, h.held.open_⟩, h.tasks, h.spent⟩, ⟨rfl, rfl⟩, rfl⟩
  | deliver size data =>
    obtain rfl := Option.some.inj hs
    have hh : Held (m.session.touch m.now) := ⟨h.held.unreleased, h.held.open_⟩
    exact ⟨⟨hh.obeyExit data, h.tasks, h.spent⟩, ⟨rfl, rfl⟩, hh.state_obeyExit data⟩
  | pass d =>
    obtain rfl := Option.some.inj hs
    exact ⟨⟨h.held, h.tasks, h.spent⟩, ⟨rfl, rfl⟩, rfl⟩

theorem Busy.settle (h : Busy t c m) {s : Session} (hs : Held s) {l : List Mark} (o : Outcome)
    (ha : a = ({ m with session := s, trace := l } : Machine).settle t o) :
    Idle a ∧ Settled t o m a ∧ a.session = s := by
  subst ha
  obtain ⟨w, n, -, ht⟩ := h.task
  refine ⟨⟨hs, by simp [Machine.settle, ht], fun r hr => ?_⟩, ⟨rfl, rfl⟩, rfl⟩
  obtain rfl | hr := List.mem_cons.1 hr
  · exact h.lt_fresh
  · exact Nat.lt_trans (h.spent r hr) h.lt_fresh

theorem Busy.sent {data : Bytes} (h : Busy t (.send data) m) (n : Nat) :
    ∃ a, m.step (.reply t (.sent n)) = some a ∧ Idle a ∧ Settled t (.sent n) m a ∧
      a.session.state = m.session.state := by
  obtain ⟨w, k, ⟨_, d⟩, hx⟩ := h.task?_self
  refine ⟨_, by rw [Machine.step, hx]; rfl, ?_⟩
  obtain ⟨hi, ho, hr⟩ := h.settle (s := m.session.sent m.now n)
    (l := ⟨m.now, some t, .sendSuccess data⟩ :: m.trace) ⟨h.held.unreleased, h.held.open_⟩ (.sent n) rfl
  exact ⟨hi, ho, congrArg (·.state) hr⟩

theorem Busy.received {size : Nat} (h : Busy t (.recv size) m) {data : Bytes} (hd : data ≠ []) :
    ∃ a, m.step (.reply t (.received data)) = some a ∧ Idle a ∧ Settled t (.received data) m a ∧
      a.session.state = stateBehind (isExitToken data) m.session.state := by
  obtain ⟨w, k, ⟨_, d⟩, hx⟩ := h.task?_self
  have hh : Held (m.session.received m.now data) := ⟨h.held.unreleased, h.held.open_⟩
  obtain ⟨b, r, rfl⟩ := List.exists_cons_of_ne_nil hd
  refine ⟨_, by rw [Machine.step, hx]; rfl, ?_⟩
  obtain ⟨hi, ho, hr⟩ := h.settle (hh.obeyExit (b :: r))
    (l := ⟨m.now, some t, .recvSuccess size (b :: r)⟩ :: m.trace) (.received (b :: r)) rfl
  exact ⟨hi, ho, (congrArg (·.state) hr).trans (hh.state_obeyExit _)⟩

theorem Busy.fail (h : Busy t c m) {l : List Mark} (e : Error)
    (ha : a = ({ m with session := m.session.beginClosing, trace := l } : Machine).settle t
      (.failed e)) : Idle a ∧ Settled t (.failed e) m a := by
  obtain ⟨hi, ho, -⟩ := h.settle h.held.beginClosing (.failed e) ha
  exact ⟨hi, ho⟩

/-- An operation goes on until the link or the clock ends it. -/
theorem Busy.step (h : Busy t c m) (hv : v.isPassive = true) (hs : m.step v = some a) :
    (Busy t c a ∧ Lull m a ∧ a.session.state = stateBehind v.bringsExit m.session.state) ∨
    (Idle a ∧ ∃ o, Settled t o m a ∧ c.Gives o ∧ ∀ data, o = .received data →
      a.session.state = stateBehind (isExitToken data) m.session.state) := by
  have failed {e : Error} {l : List Mark}
      (ha : a = ({ m with session := m.session.beginClosing, trace := l } : Machine).settle t
        (.failed e)) : Idle a ∧ ∃ o, Settled t o m a ∧ c.Gives o ∧ ∀ data, o = .received data →
          a.session.state = stateBehind (isExitToken data) m.session.state := by
    obtain ⟨hi, ho⟩ := h.fail e ha
    exact ⟨hi, _, ho, .failed c e, by simp⟩
  cases v with
  | activate | call | cancel => simp [Move.isPassive] at hv
  | setLoop k on =>
    obtain rfl := Option.some.inj hs
    exact .inl ⟨⟨⟨h.held.unreleased, h.held.open_⟩, h.task, h.spent, h.lt_fresh⟩, ⟨rfl, rfl⟩, rfl⟩
  | deliver size data =>
    obtain rfl := Option.some.inj hs
    have hh : Held (m.session.touch m.now) := ⟨h.held.unreleased, h.held.open_⟩
    exact .inl ⟨⟨hh.obeyExit data, h.task, h.spent, h.lt_fresh⟩, ⟨rfl, rfl⟩, hh.state_obeyExit data⟩
  | pass d =>
    obtain rfl := Option.some.inj hs
    exact .inl ⟨⟨h.held, h.task, h.spent, h.lt_fresh⟩, ⟨rfl, rfl⟩, rfl⟩
  | reply u r =>
    obtain ⟨x, hx, hr⟩ := Option.bind_eq_some_iff.1 hs
    obtain ⟨rfl, w, n, hw, rfl⟩ := h.task?_eq_some hx
    cases hw with
    | send data d =>
      cases r with
      | sent n =>
        obtain ⟨b, hb, hi, ho, -⟩ := h.sent n
        obtain rfl := Option.some.inj (hs.symm.trans hb)
        exact .inr ⟨hi, _, ho, .sent data n, by simp⟩
      | failed e => exact .inr (failed (Option.some.inj hr).symm)
      | received | closed => simp [Machine.reply] at hr
    | recv size d =>
      cases r with
      | received data =>
        by_cases hd : data = []
        · subst hd
          exact .inr (failed (Option.some.inj hr).symm)
        · obtain ⟨b, hb, hi, ho, hb'⟩ := h.received hd
          obtain rfl := Option.some.inj (hs.symm.trans hb)
          refine .inr ⟨hi, _, ho, .received size hd, fun e he => ?_⟩
          obtain rfl := Outcome.received.inj he
          exact hb'
      | failed e => exact .inr (failed (Option.some.inj hr).symm)
      | sent | closed => simp [Machine.reply] at hr
  | expire u =>
    obtain ⟨x, hx, hr⟩ := Option.bind_eq_some_iff.1 hs
    obtain ⟨rfl, w, n, hw, rfl⟩ := h.task?_eq_some hx
    cases hw with
    | send data d | recv size d =>
      cases d with
      | none => simp [Machine.expire] at hr
      | some d =>
        obtain ⟨-, hr⟩ := Option.ite_none_right_eq_some.1 hr
        exact .inr (failed (Option.some.inj hr).symm)
  | start u | wake u | halt u | join u | notice u =>
    obtain ⟨x, hx, hr⟩ := Option.bind_eq_some_iff.1 hs
    obtain ⟨rfl, w, n, hw, rfl⟩ := h.task?_eq_some hx
    cases hw <;> simp [Machine.wake, Machine.halt, Machine.join, Machine.notice, Call.job] at hr

end Machine
end Switchboard.Session
