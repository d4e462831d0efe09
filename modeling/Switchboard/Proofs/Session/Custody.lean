import Switchboard.Proofs.Session.Ledger
import Switchboard.Proofs.Session.Single
import Switchboard.Proofs.Session.Tending

/-! A session that no task but one can close. Then the link is let go by this task or not at all, and
when the task has ended, a link that has been let go is closed. -/
namespace Switchboard.Session.Machine
variable {m a : Machine} {t : TaskId} {v : Move} {x y : Task} {job : Job}

/-! A task that lets the link go is one that sees the session to its end. -/

theorem session_beginSend (t : TaskId) (data : Bytes) (m : Machine) :
    (m.beginSend t data).session = m.session := by
  unfold beginSend
  split <;> rfl

theorem session_beginRecv (t : TaskId) (size : Nat) (m : Machine) :
    (m.beginRecv t size).session = m.session := by
  unfold beginRecv
  split <;> rfl

theorem session_turn (t : TaskId) (k : Loop) (m : Machine) : (m.turn t k).session = m.session := by
  unfold turn
  split
  · cases k with
    | send | sendrecv => exact session_beginSend _ _ _
    | recv => exact session_beginRecv _ _ _
  · rfl

theorem session_afterSend (t : TaskId) (n : Nat) (job : Job) (m : Machine) :
    (m.afterSend t n job).session = m.session := by
  unfold afterSend
  split
  · exact session_beginRecv _ _ _
  · exact session_beginRecv _ _ _
  · rfl
  · rfl

theorem session_afterRecv (t : TaskId) (data : Bytes) (job : Job) (m : Machine) :
    (m.afterRecv t data job).session = m.session := by
  unfold afterRecv
  split <;> rfl

/-- An answer of the link lets nothing go. -/
theorem released_reply {r : Reply} (h : m.reply x r = some a) :
    a.session.released = m.session.released := by
  unfold reply at h
  split at h
  next data _ _ n _ =>
    obtain rfl := Option.some.inj h
    exact congrArg (·.released) (session_afterSend x.id n x.job _)
  next => exact Option.some.inj h ▸ rfl
  next => exact Option.some.inj h ▸ rfl
  next size _ data _ _ =>
    obtain rfl := Option.some.inj h
    have hs : (m.recvDone x size data).session = (m.session.received m.now data).obeyExit data :=
      session_afterRecv x.id data x.job _
    rw [hs]
    exact released_obeyExit (m.session.received m.now data) data
  next => exact Option.some.inj h ▸ rfl
  next => exact Option.some.inj h ▸ rfl
  next => exact Option.some.inj h ▸ rfl
  next => simp at h

theorem released_expire (h : m.expire x = some a) : a.session.released = m.session.released := by
  unfold expire at h
  dsimp only at h
  split at h
  next =>
    obtain ⟨-, h⟩ := Option.ite_none_right_eq_some.1 h
    exact Option.some.inj h ▸ rfl
  next =>
    obtain ⟨-, h⟩ := Option.ite_none_right_eq_some.1 h
    exact Option.some.inj h ▸ rfl
  next => simp at h

/-- Who lets the link go has a job that sees the session to its end. -/
theorem minding_of_release (hr : Roster m.tasks m.fresh) (hx : x ∈ m.tasks) (h : Own m x a v)
    (hc : v ≠ .cancel x.id) (hm : m.session.released = false) (ha : a.session.released = true) :
    isMinding x.job = true := by
  have same (h : a.session.released = m.session.released) : False := by
    rw [hm, ha] at h
    exact Bool.false_ne_true h.symm
  cases h with
  | cancel => exact absurd rfl hc
  | start _ h =>
    subst h
    cases hj : x.job with
    | close | linger | runLoops | guard => rfl
    | send data =>
      rw [hj] at same
      exact (same (congrArg (·.released) (session_beginSend _ _ _))).elim
    | recv size =>
      rw [hj] at same
      exact (same (congrArg (·.released) (session_beginRecv _ _ _))).elim
    | exchange =>
      rw [hj] at same
      exact (same (congrArg (·.released) (session_beginSend _ _ _))).elim
    | loop k =>
      rw [hj] at same
      exact (same (congrArg (·.released) (session_turn _ _ _))).elim
    | watch =>
      rw [hj] at same
      refine (same ?_).elim
      rw [start]
      split <;> rfl
  | reply r h => exact (same (released_reply h)).elim
  | expire h => exact (same (released_expire h)).elim
  | wake h =>
    unfold wake at h
    split at h
    next hj =>
      obtain ⟨-, h⟩ := Option.ite_none_right_eq_some.1 h
      obtain rfl := Option.some.inj h
      exact (same (congrArg (·.released) (session_turn _ _ _))).elim
    next hj => rw [hj]; rfl
    next => simp at h
  | halt h =>
    unfold halt at h
    split at h
    next =>
      obtain ⟨-, h⟩ := Option.ite_none_left_eq_some.1 h
      exact (same (Option.some.inj h ▸ rfl)).elim
    next => simp at h
  | join h =>
    unfold join at h
    split at h
    next hw =>
      have hs := hr.suits x hx
      rw [hw] at hs
      rw [show x.job = .runLoops from hs]
      rfl
    next =>
      obtain ⟨-, h⟩ := Option.ite_none_left_eq_some.1 h
      exact (same (Option.some.inj h ▸ rfl)).elim
    next => simp at h
  | notice h =>
    obtain ⟨-, h⟩ := Option.ite_none_right_eq_some.1 h
    obtain rfl := Option.some.inj h
    split at same
    next hj => rw [hj]; rfl
    next => exact (same rfl).elim

/-- Likewise one who is asked for a job and lets the link go at once. -/
theorem minding_call (hr : Roster m.tasks m.fresh) (hs : m.step (.call job) = some a)
    (hm : m.session.released = false) (ha : a.session.released = true) : isMinding job = true := by
  obtain rfl : m.call job = a := Option.some.inj hs
  by_cases hl : ∃ k, job = .loop k
  · obtain ⟨k, rfl⟩ := hl
    exact absurd (hm.symm.trans ha) Bool.false_ne_true
  · have hc : m.call job = (m.add m.fresh job none).start m.fresh job := by
      cases job <;> first | rfl | exact absurd ⟨_, rfl⟩ hl
    rw [hc] at ha
    exact minding_of_release (m := m.add m.fresh job none) (x := ⟨m.fresh, job, none, .starting, m.fresh⟩)
      (v := .start m.fresh) (roster_add job hr (by simp)) (List.mem_append_right _ List.mem_cons_self)
      (.start rfl rfl) (by simp) hm ha

/-! Where the tasks behind a move have their jobs from. -/

def Stays (m : Machine) (y : Task) : Prop :=
  ∃ x ∈ m.tasks, x.id = y.id ∧ x.job = y.job ∧ x.parent = y.parent

theorem stays_await (w : Wait) (hy : y ∈ (m.await t w).tasks) : Stays m y := by
  obtain ⟨x, hx, hi, hj, hp, -⟩ := mem_await w hy
  exact ⟨x, hx, hi.symm, hj.symm, hp.symm⟩

theorem stays_filter (q : Task → Bool) (hy : y ∈ m.tasks.filter q) : Stays m y :=
  ⟨y, (List.mem_filter.1 hy).1, rfl, rfl, rfl⟩

theorem stays_begins (hb : Begins t job m a) (hg : ∀ loops limit, job ≠ .guard loops limit)
    (hy : y ∈ a.tasks) : Stays m y ∨ ∃ k, y.job = .loop k := by
  cases hb with
  | leaves hl => exact .inl (task_of_leaves hl hy)
  | guard hj => exact absurd hj (hg _ _)
  | fork =>
    obtain ⟨new, ht, hnj, -⟩ := tasks_addAll m.session.loops.toList t (m.await t .joining)
    rw [addLoops, ht] at hy
    obtain hy | hy := List.mem_append.1 hy
    · exact .inl (stays_await _ hy)
    · have hm : y.job ∈ m.session.loops.toList.map .loop := hnj ▸ List.mem_map_of_mem hy
      obtain ⟨k, -, hk⟩ := List.mem_map.1 hm
      exact .inr ⟨k, hk.symm⟩

/-- Where nobody guards and nobody asks for a job, the new tasks are loops. -/
theorem stays_step (hg : ∀ x ∈ m.tasks, ∀ loops limit, x.job ≠ .guard loops limit)
    (hv : v.isPassive = true) (hs : m.step v = some a) (hy : y ∈ a.tasks) :
    Stays m y ∨ ∃ k, y.job = .loop k := by
  cases deed_step v hs with
  | activate | ignore | call | cancel => simp [Move.isPassive] at hv
  | setLoop | deliver | pass => exact .inl ⟨y, hy, rfl, rfl, rfl⟩
  | start hx _ hb => exact stays_begins hb (hg _ hx) hy
  | sent _ _ hl => exact .inl (task_of_leaves hl hy)
  | received _ _ _ hl => exact .inl (task_of_leaves hl hy)
  | turn _ _ _ hl => exact .inl (task_of_leaves hl hy)
  | join _ _ _ hl => exact .inl (task_of_leaves hl hy)
  | notice _ _ _ hl => exact .inl (task_of_leaves hl hy)
  | evict hx _ hj => exact absurd hj (hg _ hx _ _)
  | look hx _ hj => exact absurd hj (hg _ hx _ _)
  | sendFailed | recvFailed | closed | closeFailed | halt | relay | unwatch =>
    exact .inl (stays_filter _ hy)

/-! What a session has told. -/

abbrev Whole (m : Machine) : Prop := Audited (fun _ => True) m

theorem Whole.step (hm : Whole m) (hv : ∀ size data, v ≠ .deliver size data)
    (hs : m.step v = some a) : Whole a := by
  have ha := hm.steps [v] (by simpa using fun size data => (hv size data).symm)
    (by rw [Machine.steps, hs]; rfl)
  exact ⟨ha.sound, ha.books.mono fun _ _ => trivial, ha.tally⟩

theorem Whole.operations (hm : Whole m) (t : TaskId) : ∃ s, Operations (eventsOf t m.trace) s := by
  obtain ⟨s, hs, -⟩ := hm.books.account t
  exact ⟨s, hs⟩

/-- A session tells of nothing but what it asks of its link. -/
theorem Whole.begins_or_ends (hm : Whole m) {k : Mark} (hk : k ∈ m.trace) :
    begins k.event = true ∨ ∃ e, Ends e k.event := by
  obtain ⟨t, ht, -⟩ := hm.books.known k hk
  obtain ⟨s, hs⟩ := hm.operations t
  exact hs.begins_or_ends (mem_eventsOf.2 ⟨k, hk, ht, rfl⟩)

/-- It tells once of the end of its close, and that when it is `closed`. -/
theorem Whole.countP_endsClose (hm : Whole m) :
    m.trace.countP (endsClose ·.event) = if m.session.state = .closed then 1 else 0 := by
  have hc := hm.sound.closure.closed
  split
  next hs =>
    have hone : m.trace.countP (·.event = .closing) ≤ 1 := by
      rw [hm.sound.closure.closings]
      split <;> simp
    have hle := countP_endsClose_le_one (fun k hk => (hm.books.known k hk).imp fun _ h => h.1)
      hm.operations hone
    exact Nat.le_antisymm hle (List.countP_pos_iff.2 (hc.1 hs))
  next hs => exact List.countP_eq_zero.2 fun k hk he => hs (hc.2 ⟨k, hk, he⟩)

/-! The task in charge. -/

/-- No task but `t` can close the session, and who has let the link go waits for it until the session
is `closed`. -/
structure Charged (t : Option TaskId) (m : Machine) : Prop where
  whole : Whole m
  sole : ∀ x ∈ m.tasks, isMinding x.job = true →
    some x.id = t ∧ x.parent = none ∧ (x.job = .close ∨ x.job = .runLoops)
  shut : m.session.released = true →
    m.session.state = .closed ∨ ∃ x ∈ m.tasks, isMinding x.job = true ∧ x.wait = .shutting

namespace Charged
variable {p : Option TaskId}

theorem not_guard (h : Charged p m) (hx : x ∈ m.tasks) (loops : Bool) (limit : Duration) :
    x.job ≠ .guard loops limit := by
  intro hj
  obtain ⟨-, -, hc⟩ := h.sole x hx (by rw [hj]; rfl)
  simp [hj] at hc

/-- The one that waits for the link still does behind a move, or has its answer. -/
theorem shutting_step (h : Charged p m) (hx : x ∈ m.tasks) (hj : isMinding x.job = true)
    (hw : x.wait = .shutting) (hv : v.isPassive = true) (hs : m.step v = some a) :
    a.session.state = .closed ∨ x ∈ a.tasks := by
  have hm := h.whole.sound
  by_cases hi : v.actor m = x.id
  · cases own_step hm.roster hx hi hs with
    | reply r => exact .inl (closed_of_reply hm.roster hx hw hs)
    | start hst => simp [hw] at hst
    | expire he => simp [expire, hw] at he
    | wake hk => simp [wake, hw] at hk
    | join hn => simp [join, hw] at hn
    | notice hn => simp [notice, hw] at hn
    | cancel => simp [Move.isPassive] at hv
    | halt hh =>
      unfold halt at hh
      split at hh
      next hk => simp [hk, isMinding] at hj
      next => simp at hh
  · obtain ⟨-, hp, -⟩ := h.sole x hx hj
    exact .inr (kept_deed (deed_step v hs) hx (Ne.symm hi) (isBelow_orphan hp _ _))

/-- Whoever moves, the one in charge stays so. -/
theorem step (h : Charged p m) (hv : v.isPassive = true) (hd : ∀ size data, v ≠ .deliver size data)
    (hs : m.step v = some a) : Charged p a where
  whole := h.whole.step hd hs
  sole y hy hj := by
    obtain ⟨x, hx, hi, hxj, hp⟩ | ⟨k, hk⟩ := stays_step (fun x hx => h.not_guard hx) hv hs hy
    · rw [← hi, ← hxj, ← hp]
      exact h.sole x hx (hxj ▸ hj)
    · simp [hk, isMinding] at hj
  shut ha := by
    have hm := h.whole.sound
    cases hr : m.session.released with
    | true =>
      obtain hc | ⟨x, hx, hj, hw⟩ := h.shut hr
      · exact .inl (state_of_closed hm.orderly hs hc)
      · obtain hc | hx := h.shutting_step hx hj hw hv hs
        · exact .inl hc
        · exact .inr ⟨x, hx, hj, hw⟩
    | false =>
      obtain ⟨x, hx | rfl, hi, y, hy, -, hyj, hw⟩ := Machine.shutting_step hm hs hr ha
      · have hc : v ≠ .cancel x.id := fun hc => by simp [hc, Move.isPassive] at hv
        have ho := own_step hm.roster hx hi.symm hs
        exact .inr ⟨y, hy, hyj ▸ minding_of_release hm.roster hx ho hc hr ha, hw⟩
      · simp [Move.isPassive] at hv

/-- The task has ended, and nobody is in charge. -/
theorem ended (h : Charged (some t) m) {o : Outcome} (ho : m.outcome? t = some o) :
    Charged none m := by
  have none_minds : ∀ x ∈ m.tasks, isMinding x.job = true → False := fun x hx hj =>
    h.whole.sound.gone ho x hx (Option.some.inj (h.sole x hx hj).1)
  refine ⟨h.whole, fun x hx hj => (none_minds x hx hj).elim, fun hr => ?_⟩
  obtain hc | ⟨x, hx, hj, -⟩ := h.shut hr
  · exact .inl hc
  · exact (none_minds x hx hj).elim

/-- A new task is in charge of a session that nobody is in charge of. -/
theorem call (h : Charged none m) (hj : isMinding job = true → job = .close ∨ job = .runLoops)
    (hs : m.step (.call job) = some a) : Charged (some m.fresh) a := by
  have hm := h.whole.sound
  have alone : ∀ x ∈ m.tasks, isMinding x.job = false := fun x hx => by
    by_contra hn
    have hp := (h.sole x hx (by simpa using hn)).1
    simp at hp
  have sole : ∀ y ∈ a.tasks, isMinding y.job = true →
      y.id = m.fresh ∧ y.parent = none ∧ y.job = job := by
    intro y hy hyj
    cases deed_step _ hs with
    | sendFailed _ _ _ hv | recvFailed _ _ _ hv => simp at hv
    | ignore k => simp [alone y hy] at hyj
    | call hb =>
      have hg (loops : Bool) (limit : Duration) : job ≠ .guard loops limit := by
        rintro rfl
        simpa using hj rfl
      obtain ⟨x, hx, hi, hxj, hp⟩ | ⟨k, hk⟩ := stays_begins hb hg hy
      · obtain hx | hx := List.mem_append.1 hx
        · simp [← hxj, alone x hx] at hyj
        · obtain rfl := List.mem_singleton.1 hx
          exact ⟨hi.symm, hp.symm, hxj.symm⟩
      · simp [hk, isMinding] at hyj
  refine ⟨h.whole.step (by simp) hs, fun y hy hyj => ?_, fun ha => ?_⟩
  · obtain ⟨hi, hp, rfl⟩ := sole y hy hyj
    exact ⟨congrArg _ hi, hp, hj hyj⟩
  · cases hr : m.session.released with
    | true =>
      obtain hc | ⟨x, hx, hxj, -⟩ := h.shut hr
      · exact .inl (state_of_closed hm.orderly hs hc)
      · simp [alone x hx] at hxj
    | false =>
      obtain ⟨x, hx, hi, y, hy, -, hyj, hw⟩ := Machine.shutting_step hm hs hr ha
      obtain hx | hx := hx
      · exact absurd hi (Nat.ne_of_lt (hm.roster.lt_fresh x hx))
      · obtain rfl := Move.call.inj hx
        exact .inr ⟨y, hy, hyj ▸ minding_call hm.roster hs hr ha, hw⟩

end Charged
end Switchboard.Session.Machine
