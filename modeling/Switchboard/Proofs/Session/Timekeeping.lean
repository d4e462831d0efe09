import Switchboard.Proofs.Session.Rhythm

/-! A loop keeps to its timetable until its flag goes down, and the session closes then. -/
namespace Switchboard.Session

/-- The loop has kept to its timetable, and it is not yet time to stop it. -/
structure Keeps (m : Machine) (p : Timetable) (T : Duration) (n : Nat) (st : Stage) (σ : Nat)
    (q : Play) : Prop where
  beat : Beat m p T st σ q
  early : q.machine.now < m.now + T
  told : ∀ e ∈ st.told p, e.1 < T
  rank : st.rank ≤ 3 * n

namespace Keeps
variable {m : Machine} {p : Timetable} {T limit : Duration} {n fuel : Nat} {st : Stage} {σ : Nat}
  {q : Play}

theorem advance (h : Keeps m p T n st σ q) (hT : T ≤ p.onset n)
    (hs : ∀ i, p.onset i < T → p.Succeeds i) (hd : st.due p < T)
    (hn : q.machine.now = m.now + st.due p) :
    Keeps m p T n (st.next p.loop) q.machine.fresh (q.go (st.move p (m.fresh + 2))) := by
  obtain ⟨hb, hnow⟩ := h.beat.advance hn (hs _ (Nat.lt_of_le_of_lt Stage.onset_le_due hd))
  refine ⟨hb, by rw [hnow]; exact h.early, fun e he => ?_,
    Stage.rank_next_le p.loop (Nat.lt_of_lt_of_le hd hT)⟩
  rw [Stage.told_next h.beat.fits] at he
  obtain he | he := List.mem_append.1 he
  · exact h.told e he
  · obtain ⟨_, _, rfl⟩ := List.mem_map.1 he
    exact hd

/-- At one instant the loop may go through several stages. -/
theorem follow (h : Keeps m p T n st σ q) (hT : T ≤ p.onset n)
    (hs : ∀ i, p.onset i < T → p.Succeeds i) (k : Nat) :
    ∃ st' σ', st.rank ≤ st'.rank ∧ Keeps m p T n st' σ' (q.follow (m.fresh + 2) k) := by
  induction k generalizing st σ q with
  | zero => exact ⟨st, σ, Nat.le_refl _, h⟩
  | succ k ih =>
    rw [Play.follow, h.beat.task?_looper, Option.bind_some, h.beat.next_looper]
    dsimp only
    split
    next hd =>
      have hn : q.machine.now = m.now + st.due p := Nat.le_antisymm h.beat.clock hd
      have hlt : st.due p < T := Nat.lt_of_add_lt_add_left (hn ▸ h.early)
      obtain ⟨st', σ', hr, hk⟩ := ih (h.advance hT hs hlt hn)
      exact ⟨st', σ', (Nat.le_of_lt (st.rank_lt_next p.loop)).trans hr, hk⟩
    next => exact ⟨st, σ, Nat.le_refl _, h⟩

theorem choose (h : Keeps m p T n st σ q) :
    q.choose = some (if st.due p < T
      then ⟨m.now + st.due p, 2, σ, some (m.fresh + 2), st.move p (m.fresh + 2)⟩
      else ⟨m.now + T, 0, 0, none, .setLoop p.loop false⟩) := by
  have he : q.errand? = some ⟨m.now + T, 0, 0, none, .setLoop p.loop false⟩ := by
    simp [Play.errand?, h.beat.poised.busy, h.beat.poised.agenda,
      Nat.max_eq_left (Nat.le_of_lt h.early)]
  have hj : q.item? (joiner m.fresh) = none := by
    rw [Play.item?, Play.next_joiner h.beat.tasks fun x hx => (h.beat.poised.answers x hx).1]
    rfl
  have hl : q.item? (looper m.fresh p.loop (st.wait p m.now) σ) =
      some ⟨m.now + st.due p, 2, σ, some (m.fresh + 2), st.move p (m.fresh + 2)⟩ := by
    rw [Play.item?, h.beat.next_looper]
    rfl
  rw [Play.choose, he, h.beat.tasks]
  simp [hj, hl, Play.earliest, Play.Item.before]

end Keeps

/-! The flag is down. The loop sees it at once, and the task that waits for the loop then closes the
link. -/

structure Dropped (t : TaskId) (k : Loop) (q : Play) : Prop where
  tasks : ∃ w σ, w ≠ .starting ∧ q.machine.tasks = [joiner t, looper t k w σ]
  off : q.machine.isOn k = false
  released : q.machine.session.released = false
  answers : ∀ x ∈ q.answers, t + 1 < x.stamp
  agenda : q.agenda = []

structure Alone (t : TaskId) (q : Play) : Prop where
  tasks : q.machine.tasks = [joiner t]
  released : q.machine.session.released = false
  agenda : q.agenda = []

def isCloseEnd : Event → Bool
  | .closeSuccess | .closeFailure _ => true
  | _ => false

inductive Parting (t : TaskId) (l : List Mark) (q : Play) : Prop where
  | shutting (s : Nat) : q.agenda = [] → q.machine.tasks = [⟨t, .runLoops, none, .shutting, s⟩] →
      q.machine.trace = l → Parting t l q
  | parted (k : Mark) : q.machine.tasks = [] → isCloseEnd k.event = true →
      q.machine.trace = k :: l → Parting t l q

namespace Play
variable {q : Play} {t : TaskId} {k : Loop} {limit : Duration} {n : Nat}

/-- Who waits does not go on. -/
theorem follow_eq (h : (q.machine.task? t).bind q.next = none) (n : Nat) : q.follow t n = q := by
  cases n with
  | zero => rfl
  | succ n => rw [follow, h]

theorem errand?_of_nil (h : q.agenda = []) : q.errand? = none := by
  simp [errand?, h]

theorem run_of_choose {i : Item} (hr : q.machine.isRunning t = true) (hi : q.choose = some i)
    (hd : i.due ≤ limit) : q.run t limit (n + 1) = (q.take i).run t limit n := by
  simp [run, hr, hi, hd]

end Play

namespace Dropped
variable {q : Play} {t : TaskId} {k : Loop} {limit : Duration} {n : Nat}

theorem choose (h : Dropped t k q) :
    ∃ σ, q.choose = some ⟨q.machine.now, 2, σ, some (t + 2), .halt (t + 2)⟩ := by
  obtain ⟨w, σ, hw, ht⟩ := h.tasks
  have hj : q.item? (joiner t) = none := by
    rw [Play.item?, Play.next_joiner ht h.answers]
    rfl
  have hl : q.item? (looper t k w σ) =
      some ⟨q.machine.now, 2, σ, some (t + 2), .halt (t + 2)⟩ := by
    simp [Play.item?, Play.next, Machine.prompt, looper, hw, Machine.halt, h.off]
  refine ⟨σ, ?_⟩
  rw [Play.choose, Play.errand?_of_nil h.agenda, ht]
  simp [hj, hl, Play.earliest]

theorem run (h : Dropped t k q) (hl : q.machine.now ≤ limit) :
    ∃ q', Alone t q' ∧ q'.machine.now = q.machine.now ∧ q'.machine.trace = q.machine.trace ∧
      q.run t limit (n + 1) = q'.run t limit n := by
  obtain ⟨w, σ, hw, ht⟩ := h.tasks
  obtain ⟨σ', hc⟩ := h.choose
  have hs : q.machine.step (.halt (t + 2)) = some (q.machine.settle (t + 2) .done) := by
    simp [Machine.step, Machine.task?, ht, joiner, looper, Machine.halt, h.off]
  have ht' : (q.machine.settle (t + 2) .done).tasks = [joiner t] := by
    simp [Machine.settle, ht, joiner, looper]
  refine ⟨{ q with machine := q.machine.settle (t + 2) .done }, ⟨ht', h.released, h.agenda⟩, rfl,
    rfl, ?_⟩
  rw [Play.run_of_choose (Machine.isRunning_joiner ht) hc hl, Play.take]
  simp only [Play.passTo_eq (Nat.le_refl q.machine.now)]
  rw [Play.go_quiet hs rfl, Play.follow_eq]
  simp [Machine.task?, ht', joiner]

end Dropped

namespace Parting
variable {q : Play} {t : TaskId} {limit : Duration} {l : List Mark}

theorem passTo (h : Parting t l q) (d : Duration) : Parting t l (q.passTo d) := by
  have hs : q.machine.step (.pass (d - q.machine.now)) =
      some { q.machine with now := q.machine.now + (d - q.machine.now) } := rfl
  rw [Play.passTo, Play.go_quiet hs rfl]
  cases h with
  | shutting s ha ht htr => exact .shutting s ha ht htr
  | parted k ht hk htr => exact .parted k ht hk htr

theorem reply (h : Parting t l q) (r : Reply) : Parting t l (q.go (.reply t r)) := by
  cases h with
  | shutting s ha ht htr =>
    have hx : q.machine.step (.reply t r) =
        q.machine.reply ⟨t, .runLoops, none, .shutting, s⟩ r := by
      simp [Machine.step, Machine.task?, ht]
    have hover (e : Event) (o : Outcome) (he : isCloseEnd e = true)
        (hs : q.machine.step (.reply t r) =
          some (((q.machine.modify finish).emit (some t) e).settle t o)) :
        Parting t l (q.go (.reply t r)) := by
      rw [Play.go_quiet hs rfl]
      refine .parted ⟨q.machine.now, some t, e⟩ ?_ he ?_
      · simp [Machine.settle, Machine.emit, Machine.modify, ht]
      · simp [Machine.settle, Machine.emit, Machine.modify, htr]
    cases r with
    | closed => exact hover .closeSuccess .done rfl hx
    | failed e => exact hover (.closeFailure e.message) (.failed e) rfl hx
    | sent | received =>
      rw [Play.go, hx]
      exact .shutting s ha ht htr
  | parted k ht hk htr =>
    have hs : q.machine.step (.reply t r) = none := by simp [Machine.step, Machine.task?, ht]
    rw [Play.go, hs]
    exact .parted k ht hk htr

/-- Nothing but the link has the task go on. -/
theorem next (h : Parting t l q) {x : Task} (hx : x ∈ q.machine.tasks) {d : Duration} {v : Move}
    (hv : q.next x = some (d, v)) : x.id = t ∧ ∃ r, v = .reply t r := by
  cases h with
  | shutting s ha ht htr =>
    obtain rfl : x = ⟨t, .runLoops, none, .shutting, s⟩ := by simpa [ht] using hx
    refine ⟨rfl, ?_⟩
    have hp : q.machine.prompt ⟨t, .runLoops, none, .shutting, s⟩ = none := by
      simp [Machine.prompt, Machine.halt, Machine.join, Machine.notice]
    rw [Play.next_reply hp rfl] at hv
    obtain ⟨a, -, hv⟩ := Option.bind_eq_some_iff.1 hv
    obtain ⟨_, -, hv⟩ := Option.map_eq_some_iff.1 hv
    exact ⟨a.reply, (congrArg Prod.snd hv).symm⟩
  | parted k ht hk htr => simp [ht] at hx

theorem follow (h : Parting t l q) (n : Nat) : Parting t l (q.follow t n) := by
  induction n generalizing q with
  | zero => exact h
  | succ n ih =>
    rw [Play.follow]
    split
    next d v hn =>
      obtain ⟨x, hx, hn⟩ := Option.bind_eq_some_iff.1 hn
      obtain ⟨-, r, rfl⟩ := h.next (List.mem_of_find?_eq_some hx) hn
      split
      · exact ih (h.reply r)
      · exact h
    next => exact h

theorem choose (h : Parting t l q) (hr : q.machine.isRunning t = true) {i : Play.Item}
    (hi : q.choose = some i) : i.task = some t ∧ ∃ r, i.move = .reply t r := by
  cases h with
  | shutting s ha ht htr =>
    have hx : q.item? ⟨t, .runLoops, none, .shutting, s⟩ = some i := by
      rw [Play.choose, Play.errand?_of_nil ha, ht] at hi
      cases hx : q.item? ⟨t, .runLoops, none, .shutting, s⟩ <;> simp_all [Play.earliest]
    obtain ⟨⟨d, v⟩, hn, rfl⟩ := Option.map_eq_some_iff.1 hx
    exact ⟨rfl, ((Parting.shutting s ha ht htr).next (by simp [ht]) hn).2⟩
  | parted k ht hk htr => simp [Machine.isRunning, Machine.task?, ht] at hr

theorem run (h : Parting t l q) (n : Nat) : Parting t l (q.run t limit n) := by
  induction n generalizing q with
  | zero => exact h
  | succ n ih =>
    rw [Play.run]
    split
    · exact h
    next hr =>
    split
    next i hi =>
      obtain ⟨ht, r, hv⟩ := h.choose (by simpa using hr) hi
      split
      · rw [Play.take, ht, hv]
        exact ih (((h.passTo i.due).reply r).follow _)
      · exact h.passTo limit
    next => exact h.passTo limit

end Parting

namespace Alone
variable {q : Play} {t : TaskId} {limit : Duration} {n : Nat}

theorem run (h : Alone t q) (hl : q.machine.now ≤ limit) :
    ∃ q', Parting t (⟨q.machine.now, some t, .closing⟩ :: q.machine.trace) q' ∧
      q.run t limit (n + 1) = q'.run t limit n := by
  have hj : q.machine.join (joiner t) = some (q.machine.beginClose t) := by
    simp [Machine.join, joiner, h.tasks]
  have ht := Machine.task?_joiner h.tasks
  have hb : q.machine.beginClose t = (((q.machine.modify release).emit (some t) .closing).ask t
      .close).await t .shutting := by
    simp [Machine.beginClose, h.released]
  have hs : q.machine.step (.join t) = some (q.machine.beginClose t) := by
    rw [Machine.step, ht, Option.bind_some, hj]
  have hx : q.item? (joiner t) = some ⟨q.machine.now, 1, t + 1, some t, .join t⟩ := by
    have hp : q.machine.prompt (joiner t) = some (.join t) := by
      rw [Machine.prompt, if_neg (by simp [joiner]), if_neg (by simp [Machine.halt, joiner]),
        if_pos (by rw [hj]; rfl)]
      rfl
    rw [Play.item?, Play.next, hp]
    rfl
  have hc : q.choose = some ⟨q.machine.now, 1, t + 1, some t, .join t⟩ := by
    rw [Play.choose, Play.errand?_of_nil h.agenda, h.tasks]
    simp [hx, Play.earliest]
  refine ⟨(q.go (.join t)).follow t Schedule.turns, ?_, ?_⟩
  · refine Parting.follow (.shutting q.machine.fresh ((q.agenda_go _).trans h.agenda) ?_ ?_) _
    · rw [Play.machine_go hs, hb]
      simp [Machine.await, Machine.ask, Machine.emit, Machine.modify, h.tasks, joiner]
    · rw [Play.machine_go hs, hb]
      rfl
  · rw [Play.run_of_choose (Machine.isRunning_joiner h.tasks) hc hl, Play.take]
    simp only [Play.passTo_eq (Nat.le_refl q.machine.now)]

end Alone

namespace Keeps
variable {m : Machine} {p : Timetable} {T limit : Duration} {n fuel : Nat} {st : Stage} {σ : Nat}
  {q : Play}

/-- What is left of the play when the flag goes down. -/
theorem take_errand (h : Keeps m p T n st σ q) :
    q.take ⟨m.now + T, 0, 0, none, .setLoop p.loop false⟩ = { q with
      machine := Machine.modify (·.setLoop p.loop false) { q.machine with now := m.now + T }
      agenda := [] } := by
  have hg : ({ q with machine := { q.machine with now := m.now + T }, agenda := [] } : Play).go
      (.setLoop p.loop false) = { q with
        machine := Machine.modify (·.setLoop p.loop false) { q.machine with now := m.now + T }
        agenda := [] } := Play.go_quiet rfl rfl
  simp only [Play.take, Play.passTo_eq (Nat.le_of_lt h.early), h.beat.poised.agenda]
  rw [← hg]
  simp [h.beat.poised.busy]

theorem dropped (h : Keeps m p T n st σ q) (hd : T ≤ st.due p) :
    Dropped m.fresh p.loop (q.take ⟨m.now + T, 0, 0, none, .setLoop p.loop false⟩) := by
  rw [h.take_errand]
  refine ⟨⟨st.wait p m.now, σ, ?_, h.beat.tasks⟩, ?_, h.beat.poised.heeds.released,
    fun x hx => (h.beat.poised.answers x hx).1, rfl⟩
  · have hs : m.now < m.now + T := Nat.lt_of_le_of_lt h.beat.poised.start h.early
    rcases st with (_ | i) | i | i
    · exact absurd hd (Nat.not_le.2 (Nat.lt_of_add_lt_add_left hs))
    all_goals simp [Stage.wait]
  · cases hk : p.loop <;> simp [Machine.isOn, Machine.modify, setLoop, LoopSet.has, LoopSet.set]

/-- When the flag goes down, all is told that was due before, and the session closes. -/
theorem run (h : Keeps m p T n st σ q) (hT : T ≤ p.onset n)
    (hs : ∀ i, p.onset i < T → p.Succeeds i) (hl : m.now + T ≤ limit)
    (hf : 3 * n + 3 ≤ fuel + st.rank) :
    Parting m.fresh (⟨m.now + T, some m.fresh, .closing⟩ ::
        ((((p.rounds n).filter (·.1 < T)).map (Timetable.mark m.now (m.fresh + 2))).reverse ++
          m.trace))
      (q.run m.fresh limit fuel) := by
  induction fuel generalizing st σ q with
  | zero =>
    have hr := h.rank
    omega
  | succ fuel ih =>
    have hr := Machine.isRunning_joiner h.beat.tasks
    have hc := h.choose
    by_cases hd : st.due p < T
    · rw [if_pos hd] at hc
      have hdl : m.now + st.due p ≤ limit :=
        (Nat.add_le_add_left (Nat.le_of_lt hd) _).trans hl
      rw [Play.run_of_choose hr hc hdl]
      obtain ⟨hb, hn⟩ := h.beat.passTo
      have hk : Keeps m p T n st σ (q.passTo (m.now + st.due p)) :=
        ⟨hb, by rw [hn]; exact Nat.add_lt_add_left hd _, h.told, h.rank⟩
      obtain ⟨st', σ', hle, hk'⟩ := (hk.advance hT hs hd hn).follow hT hs Schedule.turns
      have hlt := st.rank_lt_next p.loop
      exact ih hk' (by omega)
    · have hTd : T ≤ st.due p := Nat.le_of_not_lt hd
      rw [if_neg hd] at hc
      rw [Play.run_of_choose hr hc hl]
      obtain ⟨k, rfl⟩ : ∃ k, fuel = k + 2 := by
        have hr := h.rank
        exact ⟨fuel - 2, by omega⟩
      have hnow : (q.take ⟨m.now + T, 0, 0, none, .setLoop p.loop false⟩).machine.now =
          m.now + T := by
        rw [h.take_errand]
        rfl
      obtain ⟨q₁, ha, hn₁, ht₁, hr₁⟩ := (h.dropped hTd).run (n := k + 1) (hnow.le.trans hl)
      obtain ⟨q₂, he, hr₂⟩ := ha.run (n := k) ((hn₁.trans hnow).le.trans hl)
      rw [hr₁, hr₂]
      have ht : q₁.machine.trace =
          (((p.rounds n).filter (·.1 < T)).map (Timetable.mark m.now (m.fresh + 2))).reverse ++
            m.trace := by
        rw [ht₁, h.take_errand, Stage.filter_rounds h.beat.fits h.rank h.told hTd]
        exact h.beat.poised.trace
      rw [hn₁, hnow, ht] at he
      exact he.run k

end Keeps

namespace Play
variable {m : Machine} {p : Timetable} {close : Act} {T limit : Duration} {n fuel : Nat}

def running (m : Machine) (p : Timetable) (close : Act) (T : Duration) : Play where
  machine := m
  sends := p.sends
  recvs := p.recvs
  close := close
  agenda := [(m.now + T, .setLoop p.loop false)]

end Play
end Switchboard.Session
