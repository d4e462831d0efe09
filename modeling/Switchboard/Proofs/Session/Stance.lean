import Switchboard.Proofs.Session.Lifecycle
import Switchboard.Proofs.Session.Single

/-! A session that does one operation after the other and is then closed, while nothing fails. Its one
task waits for the link, or there is none. -/
namespace Switchboard.Session

inductive Stance where
  | ready
  | working (t : TaskId) (c : Call)
  | told (t : TaskId) (o : Outcome)
  | shutting (t : TaskId)
  | shut (t : TaskId)

namespace Stance

def Awaits : Stance → TaskId → Wait → Prop
  | .working t c, u, w => u = t ∧ c.WaitsAt w
  | .shutting t, u, w => u = t ∧ w = .shutting
  | _, _, _ => False

def isClosing : Stance → Bool
  | .shutting _ | .shut _ => true
  | _ => false

end Stance

namespace Machine

structure InUse (m : Machine) : Prop where
  orderly : Orderly m
  active : m.session.state = .active

def Stands (m : Machine) : Stance → Prop
  | .ready => m.Idle ∧ m.InUse
  | .working t c => m.Busy t c ∧ m.InUse
  | .told t o => m.Idle ∧ m.InUse ∧ m.outcome? t = some o
  | .shutting t => (∃ n, m.tasks = [⟨t, .close, none, .shutting, n⟩]) ∧ ∀ r ∈ m.finished, r.1 < t
  | .shut t => m.tasks = [] ∧ m.outcome? t = some .done

variable {m a : Machine} {t u : TaskId} {c : Call} {o : Outcome} {x : Stance} {y : Task} {v : Move}

theorem InUse.step (h : m.InUse) (hs : m.step v = some a) (ha : a.session.state = m.session.state) :
    a.InUse :=
  ⟨h.orderly.advance (advance_step v hs), ha.trans h.active⟩

/-- A session that has just been made. -/
theorem stands_ready (hp : m.session.phase = (.active, true, false)) (ht : m.tasks = [])
    (hf : m.finished = []) : m.Stands .ready := by
  obtain ⟨hs, ha, hr⟩ : m.session.state = .active ∧ m.session.alive = true ∧
      m.session.released = false := by simpa [phase] using hp
  exact ⟨⟨⟨hr, .inl hs⟩, ht, by simp [hf]⟩,
    ⟨by simp [hs, ha], by simp [hs], by simp [hr], by simp [ht]⟩, hs⟩

namespace Stands

/-! Asking and being answered. -/

theorem of_told (h : m.Stands (.told t o)) : m.Stands .ready := ⟨h.1, h.2.1⟩

theorem call (h : m.Stands .ready) (hc : c ≠ .close) :
    (m.call c.job).Stands (.working m.fresh c) := by
  obtain ⟨hi, hu⟩ := h
  obtain ⟨hb, -, he⟩ := hi.call_active hc hu.active
  exact ⟨hb, hu.step (v := .call c.job) rfl (congrArg (·.state) he)⟩

theorem close (h : m.Stands .ready) : (m.call .close).Stands (.shutting m.fresh) := by
  obtain ⟨hi, -⟩ := h
  have hr : ((m.add m.fresh .close none).session).released = false := hi.held.unreleased
  simp only [Machine.call, start, beginClose, hr]
  exact ⟨⟨m.fresh + 1, by simp [await, ask, emit, modify, add, hi.tasks]⟩, hi.spent⟩

theorem sent {data : Bytes} (h : m.Stands (.working t (.send data))) (n : Nat) :
    ∃ a, m.step (.reply t (.sent n)) = some a ∧ a.Stands (.told t (.sent n)) := by
  obtain ⟨hb, hu⟩ := h
  obtain ⟨a, ha, hi, ho, he⟩ := hb.sent n
  exact ⟨a, ha, hi, hu.step ha he, outcome?_settled ho⟩

theorem received {size : Nat} (h : m.Stands (.working t (.recv size))) {data : Bytes}
    (hd : data ≠ []) (hx : isExitToken data = false) :
    ∃ a, m.step (.reply t (.received data)) = some a ∧ a.Stands (.told t (.received data)) := by
  obtain ⟨hb, hu⟩ := h
  obtain ⟨a, ha, hi, ho, he⟩ := hb.received hd
  exact ⟨a, ha, hi, hu.step ha (by rw [he, hx]; rfl), outcome?_settled ho⟩

theorem closed (h : m.Stands (.shutting t)) :
    ∃ a, m.step (.reply t .closed) = some a ∧ a.Stands (.shut t) := by
  obtain ⟨⟨n, ht⟩, -⟩ := h
  have hx : m.task? t = some ⟨t, .close, none, .shutting, n⟩ := by simp [task?, ht]
  refine ⟨_, by rw [Machine.step, hx]; rfl, ?_, ?_⟩
  · simp [closeDone, modify, emit, settle, ht]
  · simp [closeDone, settle, outcome?]

/-! What is under way. -/

theorem mem_tasks (h : m.Stands x) (hy : y ∈ m.tasks) :
    ∃ t c w n, y = ⟨t, Call.job c, none, w, n⟩ ∧ x.Awaits t w := by
  cases x with
  | ready => simp [h.1.tasks] at hy
  | told => simp [h.1.tasks] at hy
  | shut => simp [h.1] at hy
  | working t c =>
    obtain ⟨w, n, hw, ht⟩ := h.1.task
    obtain rfl := List.mem_singleton.1 (ht ▸ hy)
    exact ⟨t, c, w, n, rfl, rfl, hw⟩
  | shutting t =>
    obtain ⟨⟨n, ht⟩, -⟩ := h
    obtain rfl := List.mem_singleton.1 (ht ▸ hy)
    exact ⟨t, .close, _, n, rfl, rfl, rfl⟩

theorem awaits (h : m.Stands x) (hy : m.task? u = some y) : x.Awaits u y.wait := by
  obtain ⟨t, c, w, n, rfl, hw⟩ := h.mem_tasks (List.mem_of_find?_eq_some hy)
  obtain rfl : t = u := by simpa using List.find?_some hy
  exact hw

theorem exists_task (h : m.Stands x) (hx : (∃ c, x = .working t c) ∨ x = .shutting t) :
    ∃ y, m.task? t = some y := by
  obtain ⟨c, rfl⟩ | rfl := hx
  · obtain ⟨w, n, -, ht⟩ := h.1.task?_self
    exact ⟨_, ht⟩
  · obtain ⟨⟨n, ht⟩, -⟩ := h
    exact ⟨⟨t, .close, none, .shutting, n⟩, by simp [task?, ht]⟩

/-- What a session waits for, it waits for on the link. -/
theorem step_inner (h : m.Stands x) (hv : v.isInner = true) : m.step v = none := by
  cases hs : m.step v with
  | none => rfl
  | some a =>
    cases v with
    | start u | wake u | halt u | join u | notice u =>
      obtain ⟨y, hy, hr⟩ := Option.bind_eq_some_iff.1 hs
      obtain ⟨t, c, w, n, rfl, hw⟩ := h.mem_tasks (List.mem_of_find?_eq_some hy)
      cases x with
      | ready | told | shut => exact hw.elim
      | shutting =>
        obtain ⟨-, rfl⟩ := hw
        cases c <;> simp [wake, halt, join, notice, Call.job] at hr
      | working =>
        obtain ⟨-, hw⟩ := hw
        cases hw <;> cases c <;> simp [wake, halt, join, notice, Call.job] at hr
    | _ => simp [Move.isInner] at hv

theorem outcome?_working (h : m.Stands (.working t c)) : m.outcome? t = none :=
  h.1.outcome?_eq_none

theorem outcome?_shutting (h : m.Stands (.shutting t)) : m.outcome? t = none := by
  rw [outcome?, Option.map_eq_none_iff, List.find?_eq_none]
  intro r hr
  simpa using Nat.ne_of_lt (h.2 r hr)

/-- Until it is to be closed, the session is in use. -/
theorem inUse (h : m.Stands x) (hx : x.isClosing = false) :
    m.InUse ∧ m.session.released = false := by
  cases x with
  | ready => exact ⟨h.2, h.1.held.unreleased⟩
  | working => exact ⟨h.2, h.1.held.unreleased⟩
  | told => exact ⟨h.2.1, h.1.held.unreleased⟩
  | shutting | shut => simp [Stance.isClosing] at hx

/-! What changes nothing of it. -/

theorem of_same (h : m.Stands x) (hp : a.session.phase = m.session.phase) (ht : a.tasks = m.tasks)
    (hf : a.finished = m.finished) (hn : a.fresh = m.fresh) : a.Stands x := by
  have hc : Calm m a := ⟨hp, fun y hy hw => ⟨y, ht ▸ hy, hw⟩⟩
  have held (hh : Held m.session) : Held a.session :=
    ⟨hc.released.trans hh.unreleased, hc.state ▸ hh.open_⟩
  have used (hu : m.InUse) : a.InUse := ⟨hu.orderly.of_calm hc, hc.state.trans hu.active⟩
  have idle (hi : m.Idle) : a.Idle := ⟨held hi.held, ht ▸ hi.tasks, hf ▸ hn ▸ hi.spent⟩
  cases x with
  | ready => exact ⟨idle h.1, used h.2⟩
  | working t c =>
    exact ⟨⟨held h.1.held, ht ▸ h.1.task, hf ▸ h.1.spent, hn ▸ h.1.lt_fresh⟩, used h.2⟩
  | told t o => exact ⟨idle h.1, used h.2.1, by rw [outcome?, hf]; exact h.2.2⟩
  | shutting t => exact ⟨ht ▸ h.1, hf ▸ h.2⟩
  | shut t => exact ⟨ht ▸ h.1, by rw [outcome?, hf]; exact h.2⟩

theorem later (h : m.Stands x) (d : Duration) : ({ m with now := m.now + d } : Machine).Stands x :=
  h.of_same rfl rfl rfl rfl

theorem deliver (h : m.Stands x) (size : Nat) {data : Bytes} (hd : isExitToken data = false) :
    (m.deliver size data).Stands x := by
  refine h.of_same ?_ rfl rfl rfl
  simp [Machine.deliver, modify, emit, obeyExit, hd, phase, touch]

end Stands
end Machine
end Switchboard.Session
