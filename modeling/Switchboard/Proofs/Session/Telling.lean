import Switchboard.Proofs.Session.Deed

/-! What moves tell of. The trace only grows. A move adds to it that data have gone out or come in,
which `news?` reads off the move, and then the session is active at that time; and behind that it adds
what it asks the link, or that something has ended. -/
namespace Switchboard.Session

def isFraming : Event → Bool
  | .sending _ | .receiving _ | .closing | .sendFailure .. | .recvFailure .. | .closeSuccess
  | .closeFailure _ => true
  | _ => false

def isNews : Event → Bool
  | .sendSuccess _ | .recvSuccess .. => true
  | _ => false

namespace Machine
variable {m a : Machine} {t : TaskId} {job : Job} {v : Move} {x : Task}

structure Frames (m a : Machine) : Prop where
  trace : ∃ new, a.trace = new ++ m.trace ∧ ∀ k ∈ new, isFraming k.event = true
  lastActivity : a.session.lastActivity = m.session.lastActivity

theorem frames_same (ht : a.trace = m.trace)
    (hs : a.session.lastActivity = m.session.lastActivity) : Frames m a :=
  ⟨⟨[], ht, by simp⟩, hs⟩

theorem frames_one {k : Mark} (ht : a.trace = k :: m.trace) (hk : isFraming k.event = true)
    (hs : a.session.lastActivity = m.session.lastActivity) : Frames m a :=
  ⟨⟨[k], ht, by simpa using hk⟩, hs⟩

theorem Frames.of_same {b : Machine} (h : Frames b a) (ht : b.trace = m.trace)
    (hs : b.session.lastActivity = m.session.lastActivity) : Frames m a :=
  ⟨ht ▸ h.trace, h.lastActivity.trans hs⟩

theorem frames_leaves (h : Leaves t job m a) : Frames m a := by
  cases h with
  | send | recv | close => exact frames_one rfl rfl rfl
  | pause | watch | ends => exact frames_same rfl rfl

theorem frames_begins (h : Begins t job m a) : Frames m a := by
  cases h with
  | leaves h => exact frames_leaves h
  | fork =>
    obtain ⟨hs, ht, -, -⟩ := addAll_same m.session.loops.toList t (m.await t .joining)
    exact frames_same ht (by rw [addLoops, hs]; rfl)
  | guard => exact frames_same rfl rfl

def news? (m : Machine) : Move → Option Mark
  | .reply t r => (m.task? t).bind fun x => match x.wait, r with
    | .sending data _, .sent _ => some ⟨m.now, x.id, .sendSuccess data⟩
    | .receiving size _, .received (b :: data) => some ⟨m.now, x.id, .recvSuccess size (b :: data)⟩
    | _, _ => none
  | .deliver size data => some ⟨m.now, none, .recvSuccess size data⟩
  | _ => none

theorem lastActivity_activate {s r : Session} (h : s.activate = .ok r) :
    r.lastActivity = s.lastActivity := by
  unfold Session.activate at h
  split at h
  · obtain rfl := Except.ok.inj h
    rfl
  · simp at h

def noted (m : Machine) (v : Move) : Machine :=
  match m.news? v with
  | none => m
  | some k => { m with trace := k :: m.trace, session := m.session.touch m.now }

theorem lastActivity_obeyExit (s : Session) (data : Bytes) :
    (s.obeyExit data).lastActivity = s.lastActivity := by
  unfold obeyExit
  split <;> rfl

theorem frames_reply (r : Reply) (hx : m.task? t = some x) (h : m.reply x r = some a) :
    Frames (m.noted (.reply t r)) a := by
  rw [noted, news?, hx, Option.bind_some]
  unfold reply at h
  split at h
  next hw =>
    obtain rfl := Option.some.inj h
    rw [hw]
    exact (frames_leaves (leaves_afterSend _)).of_same rfl rfl
  next hw =>
    obtain rfl := Option.some.inj h
    rw [hw]
    exact frames_one rfl rfl rfl
  next hw =>
    obtain rfl := Option.some.inj h
    rw [hw]
    exact frames_one rfl rfl rfl
  next size _ data hd hw =>
    obtain rfl := Option.some.inj h
    rw [hw]
    cases data with
    | nil => exact absurd rfl hd
    | cons b data =>
      exact (frames_leaves (leaves_afterRecv _)).of_same rfl (lastActivity_obeyExit _ _)
  next hw =>
    obtain rfl := Option.some.inj h
    rw [hw]
    exact frames_one rfl rfl rfl
  next hw =>
    obtain rfl := Option.some.inj h
    rw [hw]
    exact frames_one rfl rfl rfl
  next hw =>
    obtain rfl := Option.some.inj h
    rw [hw]
    exact frames_one rfl rfl rfl
  next => simp at h

theorem frames_step (h : m.step v = some a) : Frames (m.noted v) a := by
  by_cases hr : ∃ t r, v = .reply t r
  · obtain ⟨t, r, rfl⟩ := hr
    obtain ⟨x, hx, h⟩ := Option.bind_eq_some_iff.1 h
    exact frames_reply r hx h
  · simp only [not_exists] at hr
    cases deed_step v h with
    | activate hs => exact frames_same rfl (lastActivity_activate hs)
    | setLoop | ignore | look | halt | relay | unwatch | cancel | pass => exact frames_same rfl rfl
    | deliver => exact frames_same rfl (lastActivity_obeyExit _ _)
    | call h => exact (frames_begins h).of_same rfl rfl
    | start _ _ h => exact frames_begins h
    | sent | received | closed | closeFailed => exact absurd rfl (hr _ _)
    | sendFailed _ _ _ hv =>
      obtain rfl | rfl := hv
      · exact frames_one rfl rfl rfl
      · exact absurd rfl (hr _ _)
    | recvFailed _ _ _ hv =>
      obtain rfl | rfl | rfl := hv
      · exact frames_one rfl rfl rfl
      · exact absurd rfl (hr _ _)
      · exact absurd rfl (hr _ _)
    | turn _ _ _ h | join _ _ _ h | notice _ _ _ h => exact frames_leaves h
    | evict _ _ _ h => exact (frames_leaves h).of_same rfl rfl

/-- The trace grows by what the move has to tell of data, and by nothing else of that kind. -/
theorem trace_step (h : m.step v = some a) :
    ∃ new, a.trace = new ++ ((m.news? v).toList ++ m.trace) ∧
      ∀ k ∈ new, isFraming k.event = true := by
  obtain ⟨new, hn, hf⟩ := (frames_step h).trace
  refine ⟨new, hn.trans ?_, hf⟩
  unfold noted
  cases m.news? v <;> rfl

theorem lastActivity_step (h : m.step v = some a) :
    a.session.lastActivity =
      if (m.news? v).isSome then m.now else m.session.lastActivity := by
  rw [(frames_step h).lastActivity]
  unfold noted
  cases m.news? v <;> rfl

theorem isNews_of_news? {k : Mark} (h : m.news? v = some k) :
    isNews k.event = true ∧ k.time = m.now := by
  unfold news? at h
  split at h
  next =>
    obtain ⟨x, -, h⟩ := Option.bind_eq_some_iff.1 h
    split at h
    · obtain rfl := Option.some.inj h
      exact ⟨rfl, rfl⟩
    · obtain rfl := Option.some.inj h
      exact ⟨rfl, rfl⟩
    · simp at h
  next =>
    obtain rfl := Option.some.inj h
    exact ⟨rfl, rfl⟩
  next => simp at h

theorem not_isNews {e : Event} (h : isFraming e = true) : isNews e = false := by
  cases e <;> first | rfl | simp [isFraming] at h

end Machine
end Switchboard.Session
