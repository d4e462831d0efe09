import Switchboard.Proofs.Session.Timetable

/-! A loop in virtual time goes from stage to stage, each when it is due. -/
namespace Switchboard.Session

namespace Play
variable {q : Play} {v : Move} {a : Machine} {t : TaskId}

theorem go_quiet (hv : q.machine.step v = some a) (hc : a.calls = q.machine.calls) :
    q.go v = { q with machine := a } := by
  simp [go, hv, hc]

theorem go_asking {c : Call} (hv : q.machine.step v = some a)
    (hc : a.calls = (t, c) :: q.machine.calls) :
    q.go v = { q with machine := a }.prepare t c := by
  simp [go, hv, hc]

/-- What is asked of the link changes neither the session nor the agenda. -/
theorem prepare_keeps (q : Play) (t : TaskId) (c : Call) :
    (q.prepare t c).machine = q.machine ∧ (q.prepare t c).agenda = q.agenda := by
  cases c <;> simp only [prepare, act] <;> split <;> exact ⟨rfl, rfl⟩

theorem foldr_prepare_keeps (cs : List (TaskId × Call)) (q : Play) :
    (cs.foldr (fun c q => q.prepare c.1 c.2) q).machine = q.machine ∧
      (cs.foldr (fun c q => q.prepare c.1 c.2) q).agenda = q.agenda := by
  induction cs with
  | nil => exact ⟨rfl, rfl⟩
  | cons c cs ih =>
    obtain ⟨hm, ha⟩ := prepare_keeps (cs.foldr (fun c q => q.prepare c.1 c.2) q) c.1 c.2
    exact ⟨hm.trans ih.1, ha.trans ih.2⟩

theorem machine_go (hv : q.machine.step v = some a) : (q.go v).machine = a := by
  rw [go, hv]
  exact (foldr_prepare_keeps _ _).1

theorem agenda_go (q : Play) (v : Move) : (q.go v).agenda = q.agenda := by
  unfold go
  split
  · rfl
  · exact (foldr_prepare_keeps _ _).2

theorem passTo_eq {d : Duration} (hd : q.machine.now ≤ d) :
    q.passTo d = { q with machine := { q.machine with now := d } } := by
  have hn : q.machine.now + (d - q.machine.now) = d := Nat.add_sub_cancel' hd
  rw [passTo, go_quiet (a := { q.machine with now := d }) (by simp [Machine.step, hn]) rfl]

theorem prepare_eq {x : Task} {c : Call} (hx : q.machine.task? t = some x)
    (ha : (q.act c).1.hang = false) :
    q.prepare t c = { (q.act c).2 with
      answers := ⟨x.stamp, some (q.machine.now + (q.act c).1.delay), (q.act c).1.reply c⟩ ::
        q.answers } := by
  cases c <;> simp_all [prepare, act]

theorem next_alarm {x : Task} (hp : q.machine.prompt x = none)
    (ha : q.answers.find? (·.stamp = x.stamp) = none) : q.next x = Machine.alarm x := by
  simp [next, hp, ha]

theorem next_reply {x : Task} (hp : q.machine.prompt x = none) (hx : Machine.alarm x = none) :
    q.next x = (q.answers.find? (·.stamp = x.stamp)).bind fun a =>
      a.due.map fun d => (d, .reply x.id a.reply) := by
  simp only [next, hp, hx]
  generalize Option.bind _ _ = answer
  cases answer <;> rfl

end Play

theorem Machine.turn_of_isOn {m : Machine} {t : TaskId} {k : Loop} (h : m.isOn k = true) :
    m.turn t k = if k = .recv then m.beginRecv t m.session.settings.buffersize
      else m.beginSend t m.payload := by
  cases k <;> simp [turn, h]

theorem Machine.afterSend_loop {m : Machine} {t : TaskId} {k : Loop} (n : Nat) :
    m.afterSend t n (.loop k) =
      if k = .sendrecv then m.beginRecv t m.session.settings.buffersize else m.pause t k := by
  cases k <;> rfl

/-- The session runs the loop of the timetable alone, and nothing bounds what it does. -/
structure Heeds (p : Timetable) (s : Session) : Prop where
  settings : s.settings = p.settings
  timeout : s.timeout = none
  state : s.state = .active
  alive : s.alive = true
  released : s.released = false
  loops : s.loops.toList = [p.loop]

namespace Heeds
variable {p : Timetable} {s : Session}

theorem has_loop (h : Heeds p s) : s.loops.has p.loop = true := by
  have hm : p.loop ∈ s.loops.toList := by simp [h.loops]
  exact (List.mem_filter.1 hm).2

theorem sent (h : Heeds p s) (now : Duration) (n : Nat) : Heeds p (s.sent now n) :=
  ⟨h.settings, h.timeout, h.state, h.alive, h.released, h.loops⟩

theorem received (h : Heeds p s) (now : Duration) {data : Bytes} (hd : isExitToken data = false) :
    Heeds p ((s.received now data).obeyExit data) := by
  rw [obeyExit, if_neg (by simp [hd])]
  exact ⟨h.settings, h.timeout, h.state, h.alive, h.released, h.loops⟩

end Heeds

def joiner (t : TaskId) : Task := ⟨t, .runLoops, none, .joining, t + 1⟩

def looper (t : TaskId) (k : Loop) (w : Wait) (stamp : Nat) : Task :=
  ⟨t + 2, .loop k, some t, w, stamp⟩

theorem Machine.task?_joiner {m : Machine} {t : TaskId} {ts : List Task}
    (h : m.tasks = joiner t :: ts) : m.task? t = some (joiner t) := by
  simp [task?, h, joiner]

theorem Machine.isRunning_joiner {m : Machine} {t : TaskId} {ts : List Task}
    (h : m.tasks = joiner t :: ts) : m.isRunning t = true := by
  rw [isRunning, task?_joiner h]
  rfl

/-- While the loop is there, the task that waits for it has nothing to do. -/
theorem Play.next_joiner {q : Play} {t : TaskId} {k : Loop} {w : Wait} {σ : Nat}
    (ht : q.machine.tasks = [joiner t, looper t k w σ]) (ha : ∀ x ∈ q.answers, t + 1 < x.stamp) :
    q.next (joiner t) = none := by
  have hp : q.machine.prompt (joiner t) = none := by
    simp [Machine.prompt, Machine.halt, Machine.join, Machine.notice, joiner, ht, looper]
  have ha : q.answers.find? (·.stamp = t + 1) = none := by
    refine List.find?_eq_none.2 fun x hx => ?_
    simpa using Nat.ne_of_gt (ha x hx)
  exact Play.next_alarm hp ha

namespace Stage
variable (p : Timetable)

def wait (start : Duration) : Stage → Wait
  | ready 0 => .starting
  | ready (i + 1) => .pausing (start + p.onset (i + 1))
  | sending _ => .sending p.message none
  | receiving _ => .receiving p.settings.buffersize none

def reply : Stage → Option Reply
  | ready _ => none
  | sending i => some ((p.sends.getD i {}).reply (.send p.message))
  | receiving i => some ((p.recvs.getD i {}).reply (.recv p.settings.buffersize))

def move (t : TaskId) : Stage → Move
  | ready 0 => .start t
  | ready (_ + 1) => .wake t
  | sending i => .reply t ((p.sends.getD i {}).reply (.send p.message))
  | receiving i => .reply t ((p.recvs.getD i {}).reply (.recv p.settings.buffersize))

def sent (k : Loop) : Stage → Nat
  | ready i => if k = .recv then 0 else i
  | sending i => i + 1
  | receiving i => if k = .recv then 0 else i + 1

def received (k : Loop) : Stage → Nat
  | ready i | sending i => if k = .send then 0 else i
  | receiving i => i + 1

end Stage

/-- In the middle of a move of the loop, `a` is what has become of the session so far. -/
structure Poised (m : Machine) (p : Timetable) (T : Duration) (told : List (Duration × Event))
    (q : Play) (a : Machine) : Prop where
  heeds : Heeds p a.session
  tasks : ∃ w σ, a.tasks = [joiner m.fresh, looper m.fresh p.loop w σ]
  fresh : m.fresh + 2 < a.fresh
  start : m.now ≤ a.now
  trace : a.trace = (told.map (Timetable.mark m.now (m.fresh + 2))).reverse ++ m.trace
  calls : a.calls = q.machine.calls
  answers : ∀ x ∈ q.answers, m.fresh + 1 < x.stamp ∧ x.stamp < a.fresh
  agenda : q.agenda = [(m.now + T, .setLoop p.loop false)]
  busy : q.busy = none

structure Beat (m : Machine) (p : Timetable) (T : Duration) (st : Stage) (σ : Nat) (q : Play) :
    Prop where
  fits : st.IsOf p.loop
  poised : Poised m p T (st.told p) q q.machine
  tasks : q.machine.tasks = [joiner m.fresh, looper m.fresh p.loop (st.wait p m.now) σ]
  stamp : m.fresh + 1 < σ ∧ σ < q.machine.fresh
  answer : q.answers.find? (·.stamp = σ) =
    (st.reply p).map fun r => ⟨σ, some (m.now + st.due p), r⟩
  clock : q.machine.now ≤ m.now + st.due p
  sends : q.sends = p.sends.drop (st.sent p.loop)
  recvs : q.recvs = p.recvs.drop (st.received p.loop)

namespace Poised
variable {m a : Machine} {p : Timetable} {T : Duration} {told : List (Duration × Event)} {q : Play}
  {v : Move} {i : Nat}

theorem emit (h : Poised m p T told q a) {d : Duration} (hd : a.now = m.now + d) (e : Event) :
    Poised m p T (told ++ [(d, e)]) q (a.emit (some (m.fresh + 2)) e) where
  heeds := h.heeds
  tasks := h.tasks
  fresh := h.fresh
  start := h.start
  trace := by simp [Machine.emit, h.trace, Timetable.mark, hd]
  calls := h.calls
  answers := h.answers
  agenda := h.agenda
  busy := h.busy

theorem modify (h : Poised m p T told q a) {f : Session → Session} (hf : Heeds p (f a.session)) :
    Poised m p T told q (a.modify f) :=
  { h with heeds := hf }

theorem tasks_await (h : Poised m p T told q a) (w : Wait) :
    (a.await (m.fresh + 2) w).tasks = [joiner m.fresh, looper m.fresh p.loop w a.fresh] := by
  obtain ⟨_, _, hw⟩ := h.tasks
  simp [Machine.await, hw, joiner, looper]

/-- The move is over when the loop waits again, perhaps for an answer of the link. -/
theorem await (h : Poised m p T told q a) (w : Wait) (cs : List (TaskId × Call)) (ss rs : List Act)
    (new : List Answer) (hn : ∀ x ∈ new, x.stamp = a.fresh) :
    Poised m p T told
      { q with
        machine := Machine.await (m.fresh + 2) w { a with calls := cs }
        sends := ss
        recvs := rs
        answers := new ++ q.answers }
      (Machine.await (m.fresh + 2) w { a with calls := cs }) where
  heeds := h.heeds
  tasks := ⟨w, a.fresh, h.tasks_await w⟩
  fresh := Nat.lt_succ_of_lt h.fresh
  start := h.start
  trace := h.trace
  calls := rfl
  answers x hx := by
    have hf : m.fresh + 1 < a.fresh := Nat.lt_of_succ_lt h.fresh
    obtain hx | hx := List.mem_append.1 hx
    · rw [hn x hx]
      exact ⟨hf, Nat.lt_succ_self _⟩
    · exact ⟨(h.answers x hx).1, Nat.lt_succ_of_lt (h.answers x hx).2⟩
  agenda := h.agenda
  busy := h.busy

theorem no_answer (h : Poised m p T told q a) : q.answers.find? (·.stamp = a.fresh) = none := by
  refine List.find?_eq_none.2 fun x hx => ?_
  simpa using Nat.ne_of_lt (h.answers x hx).2

theorem pause (h : Poised m p T told q a)
    (hv : q.machine.step v = some (a.pause (m.fresh + 2) p.loop))
    (ht : told = (Stage.ready (i + 1)).told p)
    (hn : a.now = m.now + (p.onset i + p.lag i))
    (hs : q.sends = p.sends.drop ((Stage.ready (i + 1)).sent p.loop))
    (hr : q.recvs = p.recvs.drop ((Stage.ready (i + 1)).received p.loop)) :
    Beat m p T (.ready (i + 1)) a.fresh (q.go v) ∧ (q.go v).machine.now = a.now := by
  subst ht
  have hd : a.now + a.session.settings.period p.loop = m.now + p.onset (i + 1) := by
    rw [hn, h.heeds.settings, p.onset_succ, Nat.add_assoc]
  rw [Machine.pause, hd] at hv
  have hb := h.await (.pausing (m.now + p.onset (i + 1))) a.calls q.sends q.recvs [] (by simp)
  rw [Play.go_quiet hv h.calls]
  exact ⟨⟨trivial, hb, h.tasks_await _, ⟨Nat.lt_of_succ_lt h.fresh, Nat.lt_succ_self _⟩,
    h.no_answer, hd ▸ Nat.le_add_right _ _, hs, hr⟩, rfl⟩

/-- The loop waits for an answer that is on its way. -/
theorem ask (st : Stage) {c : Call} (x : Act) (ss rs : List Act)
    (h : Poised m p T (st.told p) q a) (hf : st.IsOf p.loop)
    (hv : q.machine.step v =
      some ((a.ask (m.fresh + 2) c).await (m.fresh + 2) (st.wait p m.now)))
    (hx : ∀ b, ({ q with machine := b } : Play).act c =
      (x, { q with machine := b, sends := ss, recvs := rs }))
    (hh : x.hang = false) (hr : st.reply p = some (x.reply c))
    (hd : a.now + x.delay = m.now + st.due p)
    (hs : ss = p.sends.drop (st.sent p.loop)) (hs' : rs = p.recvs.drop (st.received p.loop)) :
    Beat m p T st a.fresh (q.go v) ∧ (q.go v).machine.now = a.now := by
  have hb := h.await (st.wait p m.now) ((m.fresh + 2, c) :: a.calls) ss rs
    [⟨a.fresh, some (a.now + x.delay), x.reply c⟩] (by simp)
  have ht : ((a.ask (m.fresh + 2) c).await (m.fresh + 2) (st.wait p m.now)).task? (m.fresh + 2) =
      some (looper m.fresh p.loop (st.wait p m.now) a.fresh) := by
    have ht := h.tasks_await (st.wait p m.now)
    rw [Machine.task?]
    show List.find? _ (a.await (m.fresh + 2) (st.wait p m.now)).tasks = _
    rw [ht]
    simp [joiner, looper]
  have hc : ((a.ask (m.fresh + 2) c).await (m.fresh + 2) (st.wait p m.now)).calls =
      (m.fresh + 2, c) :: q.machine.calls := by rw [← h.calls]; rfl
  have hg : q.go v = { q with
      machine := (a.ask (m.fresh + 2) c).await (m.fresh + 2) (st.wait p m.now)
      sends := ss
      recvs := rs
      answers := ⟨a.fresh, some (a.now + x.delay), x.reply c⟩ :: q.answers } := by
    rw [Play.go_asking hv hc, Play.prepare_eq ht (by rw [hx]; exact hh), hx]
    rfl
  rw [hg]
  have hσ : m.fresh + 1 < a.fresh ∧ a.fresh < a.fresh + 1 :=
    ⟨Nat.lt_of_succ_lt h.fresh, Nat.lt_succ_self _⟩
  refine ⟨⟨hf, hb, h.tasks_await _, hσ, ?_, ?_, hs, hs'⟩, rfl⟩
  · rw [hr, ← hd]
    simp
  · rw [← hd]
    exact Nat.le_add_right _ _

theorem beginSend (h : Poised m p T told q a)
    (hv : q.machine.step v = some (a.beginSend (m.fresh + 2) p.message)) (hk : p.loop ≠ .recv)
    (ha : (p.sends.getD i {}).Succeeds) (hn : a.now = m.now + p.onset i)
    (ht : told ++ [(p.onset i, .sending p.message)] = (Stage.sending i).told p)
    (hs : q.sends = p.sends.drop i)
    (hr : q.recvs = p.recvs.drop ((Stage.sending i).received p.loop)) :
    Beat m p T (.sending i) a.fresh (q.go v) ∧ (q.go v).machine.now = a.now := by
  have hb : a.beginSend (m.fresh + 2) p.message =
      ((a.emit (some (m.fresh + 2)) (.sending p.message)).ask (m.fresh + 2)
        (.send p.message)).await (m.fresh + 2) (.sending p.message none) := by
    simp [Machine.beginSend, ensureActive, h.heeds.state, Machine.deadline, h.heeds.timeout]
  have hp := h.emit hn (.sending p.message)
  rw [ht] at hp
  rw [hb] at hv
  have hd : a.now + p.sendLag i = m.now + (Stage.sending i).due p := by
    rw [hn, Nat.add_assoc, Stage.due]
  -- The goal is of `a`, this of `a` when it has told the event, at the same time and stamp.
  have hbeat := hp.ask (.sending i) (p.sends.getD i {}) (p.sends.drop (i + 1)) q.recvs hk hv
    (fun b => by simp [Play.act, hs]) ha.1 rfl hd rfl hr
  exact hbeat

theorem beginRecv {d : Duration} (h : Poised m p T told q a)
    (hv : q.machine.step v = some (a.beginRecv (m.fresh + 2) p.settings.buffersize))
    (hk : p.loop ≠ .send) (ha : (p.recvs.getD i {}).Succeeds) (hn : a.now = m.now + d)
    (hd : d + p.recvLag i = p.onset i + p.lag i)
    (ht : told ++ [(d, .receiving p.settings.buffersize)] = (Stage.receiving i).told p)
    (hs : q.sends = p.sends.drop ((Stage.receiving i).sent p.loop))
    (hr : q.recvs = p.recvs.drop i) :
    Beat m p T (.receiving i) a.fresh (q.go v) ∧ (q.go v).machine.now = a.now := by
  have hb : a.beginRecv (m.fresh + 2) p.settings.buffersize =
      ((a.emit (some (m.fresh + 2)) (.receiving p.settings.buffersize)).ask (m.fresh + 2)
        (.recv p.settings.buffersize)).await (m.fresh + 2)
          (.receiving p.settings.buffersize none) := by
    simp [Machine.beginRecv, ensureActive, h.heeds.state, Machine.deadline, h.heeds.timeout]
  have hp := h.emit hn (.receiving p.settings.buffersize)
  rw [ht] at hp
  rw [hb] at hv
  have hd : a.now + p.recvLag i = m.now + (Stage.receiving i).due p := by
    rw [hn, Nat.add_assoc, hd, Stage.due]
  have hbeat := hp.ask (.receiving i) (p.recvs.getD i {}) q.sends (p.recvs.drop (i + 1)) hk hv
    (fun b => by simp [Play.act, hr]) ha.1 rfl hd hs rfl
  exact hbeat

end Poised

namespace Beat
variable {m : Machine} {p : Timetable} {T : Duration} {st : Stage} {σ : Nat} {q : Play}

theorem isOn (h : Beat m p T st σ q) : q.machine.isOn p.loop = true := by
  simp [Machine.isOn, h.poised.heeds.has_loop, h.poised.heeds.alive]

/-- Behind its first start the loop waits for the link or the clock. -/
theorem prompt_looper (h : Beat m p T st σ q) (hs : st ≠ .ready 0) :
    q.machine.prompt (looper m.fresh p.loop (st.wait p m.now) σ) = none := by
  have hon := h.isOn
  rcases st with (_ | i) | i | i
  · exact absurd rfl hs
  all_goals
    simp [Machine.prompt, Machine.halt, Machine.join, Machine.notice, looper, Stage.wait, hon]

/-- The loop goes on when its stage is over. -/
theorem next_looper (h : Beat m p T st σ q) :
    q.next (looper m.fresh p.loop (st.wait p m.now) σ) =
      some (m.now + st.due p, st.move p (m.fresh + 2)) := by
  have ha := h.answer
  rcases st with (_ | i) | i | i
  · have hn : q.machine.now = m.now + (Stage.ready 0).due p :=
      Nat.le_antisymm h.clock (by simpa [Stage.due, Timetable.onset] using h.poised.start)
    simp [Play.next, Machine.prompt, looper, Stage.wait, Stage.move, hn]
  · exact Play.next_alarm (h.prompt_looper (by simp)) ha
  · rw [Play.next_reply (h.prompt_looper (by simp)) rfl, looper, ha]
    rfl
  · rw [Play.next_reply (h.prompt_looper (by simp)) rfl, looper, ha]
    rfl

theorem passTo (h : Beat m p T st σ q) :
    Beat m p T st σ (q.passTo (m.now + st.due p)) ∧
      (q.passTo (m.now + st.due p)).machine.now = m.now + st.due p := by
  rw [Play.passTo_eq h.clock]
  refine ⟨{ h with poised := ?_, clock := Nat.le_refl _ }, rfl⟩
  exact { h.poised with start := Nat.le_add_right _ _ }

theorem task?_looper (h : Beat m p T st σ q) :
    q.machine.task? (m.fresh + 2) = some (looper m.fresh p.loop (st.wait p m.now) σ) := by
  simp [Machine.task?, h.tasks, joiner, looper]

theorem payload (h : Beat m p T st σ q) : q.machine.payload = p.message := by
  rw [Machine.payload, h.poised.heeds.settings, Timetable.message]

theorem step_ready {i : Nat} (h : Beat m p T (.ready i) σ q)
    (hn : q.machine.now = m.now + p.onset i) :
    q.machine.step ((Stage.ready i).move p (m.fresh + 2)) =
      some (if p.loop = .recv then
        q.machine.beginRecv (m.fresh + 2) p.settings.buffersize
      else q.machine.beginSend (m.fresh + 2) p.message) := by
  have ht := h.task?_looper
  have hs : q.machine.step ((Stage.ready i).move p (m.fresh + 2)) =
      some (q.machine.turn (m.fresh + 2) p.loop) := by
    cases i <;>
      simp_all [Stage.move, Machine.step, Stage.wait, looper, Machine.start, Machine.wake]
  rw [hs, Machine.turn_of_isOn h.isOn, h.payload, h.poised.heeds.settings]

theorem step_sending {i : Nat} (h : Beat m p T (.sending i) σ q)
    (ha : (p.sends.getD i {}).Succeeds) :
    ∃ n, q.machine.step ((Stage.sending i).move p (m.fresh + 2)) =
      some (Machine.afterSend (m.fresh + 2) n (.loop p.loop)
        ((q.machine.modify (·.sent q.machine.now n)).emit (some (m.fresh + 2))
          (.sendSuccess p.message))) := by
  have ht := h.task?_looper
  obtain ⟨_, he⟩ := ha
  refine ⟨(p.sends.getD i {}).count.getD p.message.length, ?_⟩
  simp_all [Stage.move, Machine.step, Stage.wait, looper, Machine.reply, Act.reply,
    Machine.sendDone]

theorem step_receiving {i : Nat} (h : Beat m p T (.receiving i) σ q)
    (ha : (p.recvs.getD i {}).Brings p.settings.buffersize) :
    q.machine.step ((Stage.receiving i).move p (m.fresh + 2)) =
      some (Machine.pause (m.fresh + 2) p.loop
        ((q.machine.modify fun s => (s.received q.machine.now (p.gift i)).obeyExit (p.gift i)).emit
          (some (m.fresh + 2)) (.recvSuccess p.settings.buffersize (p.gift i)))) := by
  have ht := h.task?_looper
  obtain ⟨⟨_, he⟩, hne, hx⟩ := ha
  obtain ⟨b, bs, hb⟩ := List.exists_cons_of_ne_nil hne
  simp_all [Stage.move, Machine.step, Stage.wait, looper, Machine.reply, Act.reply,
    Machine.recvDone, Machine.afterRecv, Timetable.gift, Machine.modify, Machine.emit]

theorem advance_ready {i : Nat} (h : Beat m p T (.ready i) σ q)
    (hn : q.machine.now = m.now + p.onset i) (hs : p.Succeeds i) :
    Beat m p T ((Stage.ready i).next p.loop) q.machine.fresh
        (q.go ((Stage.ready i).move p (m.fresh + 2))) ∧
      (q.go ((Stage.ready i).move p (m.fresh + 2))).machine.now = q.machine.now := by
  have hv := h.step_ready hn
  have ht := Stage.told_next h.fits
  by_cases hk : p.loop = .recv
  · rw [if_pos hk] at hv
    simp only [Stage.next, Stage.tells, if_pos hk] at ht ⊢
    refine h.poised.beginRecv hv (by simp [hk]) (hs.2 (by simp [hk])).1 hn ?_ ht.symm ?_ ?_
    · simp [Timetable.lag, hk]
    · simp [h.sends, Stage.sent, hk]
    · simp [h.recvs, Stage.received, hk]
  · rw [if_neg hk] at hv
    simp only [Stage.next, Stage.tells, if_neg hk] at ht ⊢
    refine h.poised.beginSend hv hk (hs.1 hk) hn ht.symm ?_ ?_
    · simp [h.sends, Stage.sent, hk]
    · simp [h.recvs, Stage.received]

theorem advance_sending {i : Nat} (h : Beat m p T (.sending i) σ q)
    (hn : q.machine.now = m.now + (p.onset i + p.sendLag i)) (hs : p.Succeeds i) :
    Beat m p T ((Stage.sending i).next p.loop) q.machine.fresh
        (q.go ((Stage.sending i).move p (m.fresh + 2))) ∧
      (q.go ((Stage.sending i).move p (m.fresh + 2))).machine.now = q.machine.now := by
  obtain ⟨n, hv⟩ := h.step_sending (hs.1 h.fits)
  have ht := Stage.told_next h.fits
  have hp := (h.poised.modify (f := (·.sent q.machine.now n)) (h.poised.heeds.sent _ _)).emit hn
    (.sendSuccess p.message)
  rw [Machine.afterSend_loop] at hv
  by_cases hk : p.loop = .sendrecv
  · rw [if_pos hk] at hv
    simp only [Stage.next, Stage.tells, if_pos hk] at ht ⊢
    have hset : ((q.machine.modify (·.sent q.machine.now n)).emit (some (m.fresh + 2))
        (.sendSuccess p.message)).session.settings = p.settings := h.poised.heeds.settings
    rw [hset] at hv
    refine hp.beginRecv hv (by simp [hk]) (hs.2 (by simp [hk])).1 hn ?_ ?_ ?_ ?_
    · simp [Timetable.lag, hk, Nat.add_assoc]
    · rw [ht]
      simp [Stage.due]
    · simp [h.sends, Stage.sent, hk]
    · simp [h.recvs, Stage.received, hk]
  · rw [if_neg hk] at hv
    simp only [Stage.next, Stage.tells, if_neg hk] at ht ⊢
    have hsend : p.loop = .send := by
      have hf : p.loop ≠ .recv := h.fits
      cases hp : p.loop <;> simp_all
    refine hp.pause hv ht.symm ?_ ?_ ?_
    · rw [Timetable.lag, hsend]
      exact hn
    · simp [h.sends, Stage.sent, hsend]
    · simp [h.recvs, Stage.received, hsend]

theorem advance_receiving {i : Nat} (h : Beat m p T (.receiving i) σ q)
    (hn : q.machine.now = m.now + (p.onset i + p.lag i)) (hs : p.Succeeds i) :
    Beat m p T (.ready (i + 1)) q.machine.fresh
        (q.go ((Stage.receiving i).move p (m.fresh + 2))) ∧
      (q.go ((Stage.receiving i).move p (m.fresh + 2))).machine.now = q.machine.now := by
  have hb := hs.2 h.fits
  have hf := h.poised.heeds.received q.machine.now hb.2.2
  have hp := (h.poised.modify
    (f := fun s => (s.received q.machine.now (p.gift i)).obeyExit (p.gift i)) hf).emit hn
    (.recvSuccess p.settings.buffersize (p.gift i))
  exact hp.pause (h.step_receiving hb) (Stage.told_next h.fits).symm hn h.sends
    (by simpa [Stage.received, show p.loop ≠ .send from h.fits] using h.recvs)

/-- A stage is followed by the next, and that at once. -/
theorem advance (h : Beat m p T st σ q) (hn : q.machine.now = m.now + st.due p)
    (hs : p.Succeeds st.round) :
    Beat m p T (st.next p.loop) q.machine.fresh (q.go (st.move p (m.fresh + 2))) ∧
      (q.go (st.move p (m.fresh + 2))).machine.now = q.machine.now := by
  cases st with
  | ready i => exact h.advance_ready hn hs
  | sending i => exact h.advance_sending hn hs
  | receiving i => exact h.advance_receiving hn hs

end Beat

end Switchboard.Session
