import Switchboard.Proofs.Server.Errands

/-! Runs in which links close without waiting: when a session waits for its link to close, the answer
is the next move. Behind each move of such a run, whoever has been let go is closed, or the link is
about to answer. -/
namespace Switchboard.Server

def closesPending (w : Server) : Bool := w.cells.any fun c => c.machine.tasks.any (·.wait = .shutting)

def answersClose (w : Server) : Move → Bool
  | .session i (.reply t _) => ((w.machine? i).bind (·.task? t)).any (·.wait = .shutting)
  | _ => false

/-- Whether links close without waiting in this run. -/
def isBrisk : List Move → Server → Bool
  | [], _ => true
  | v :: vs, w => (!w.closesPending || w.answersClose v) && ((w.step v).map (isBrisk vs)).getD true

def Brisk (w : Server) : Prop := ∀ i m, w.machine? i = some m → m.Brisk

structure Shut (w : Server) : Prop where
  sound : ∀ i m, w.machine? i = some m → m.Sound
  closed : ∀ i m, w.machine? i = some m → m.session.released = true → m.session.state = .closed

variable {w a : Server} {x : Chore} {v : Move} {i : Nat} {p : Address}

theorem Brisk.same (h : Brisk w) (hc : a.cells = w.cells) : Brisk a := by
  simpa only [Brisk, machine?, hc] using h

theorem mem_of_machine? {m : Session.Machine} (h : w.machine? i = some m) :
    ∃ c ∈ w.cells, c.machine = m := by
  obtain ⟨c, hc, rfl⟩ := Option.map_eq_some_iff.1 h
  exact ⟨c, List.mem_of_getElem? hc, rfl⟩

theorem Brisk.shut (h : Brisk w) (hs : ∀ i m, w.machine? i = some m → m.Sound)
    (hp : w.closesPending = false) : Shut w where
  sound := hs
  closed i m hm hr := by
    obtain hc | ⟨y, hy, hw⟩ := h i m hm hr
    · exact hc
    · obtain ⟨c, hc, rfl⟩ := mem_of_machine? hm
      simp only [closesPending, List.any_eq_false, List.any_eq_true, decide_eq_true_eq] at hp
      exact absurd ⟨y, hy, hw⟩ (hp c hc)

namespace Shut

theorem brisk (h : Shut w) : Brisk w := fun i m hm hr => .inl (h.closed i m hm hr)

theorem same (h : Shut w) (hc : a.cells = w.cells) : Shut a := by
  constructor
  · simpa only [machine?, hc] using h.sound
  · simpa only [machine?, hc] using h.closed

/-- A session that moves waits for its link, if it is let go by that. -/
theorem modify (h : Shut w) {c : Cell} (hc : w.cells[i]? = some c) (f : Cell → Cell)
    {u : Session.Move} (hs : c.machine.step u = some (f c).machine) :
    Brisk { w with cells := w.cells.modify i f } := by
  intro j m hm
  by_cases hj : j = i
  · subst hj
    have hcm := machine?_of_cell hc
    have hf : (f c).machine = m := by simpa [machine?, hc] using hm
    exact hf ▸ Session.Machine.brisk_step (h.sound j _ hcm) hs (h.closed j _ hcm)
  · have hm : w.machine? j = some m := by simpa [machine?, Ne.symm hj] using hm
    exact h.brisk j m hm

theorem put (h : Shut w) {m n : Session.Machine} (hm : w.machine? i = some m)
    {u : Session.Move} (hs : m.step u = some n) : Brisk (w.put i n) := by
  obtain ⟨c, hc, rfl⟩ := Option.map_eq_some_iff.1 hm
  exact h.modify hc _ hs

theorem ask (h : Shut w) (i : Nat) (job : Session.Job) : Brisk (w.ask i job).1 := by
  unfold Server.ask
  split
  next m hm => exact h.put hm (u := .call job) rfl
  next => exact h.brisk

theorem drain (h : Shut w) (x : Chore) (l : List Nat) : Brisk (w.drain x l) := by
  cases l with
  | nil => exact h.brisk.same (stopped_same x (w.emit .didStop)).1
  | cons i rest => exact (h.ask i .close).same rfl

theorem beginStop (h : Shut w) (x : Chore) : Brisk (w.beginStop x) := by
  unfold Server.beginStop
  split
  · exact h.brisk.same (stopped_same x w).1
  · have hk : Shut { { w with listener := none }.emit .willStop with table := {} } := h.same rfl
    exact hk.drain x _

theorem acceptFailed (h : Shut w) (x : Chore) (e : Error) : Brisk (w.acceptFailed x e) := by
  unfold Server.acceptFailed
  split
  · exact h.brisk.same rfl
  · split
    · split
      · exact h.beginStop _
      · exact h.brisk.same rfl
    · exact h.brisk.same rfl

theorem enrol (h : Shut w) (p : Address) : Shut (w.enrol p) where
  sound i m hm := by
    rw [machine?_enrol] at hm
    split at hm
    · obtain rfl := Option.some.inj hm
      exact (sound_newCell p w).1
    · exact h.sound i m hm
  closed i m hm hr := by
    rw [machine?_enrol] at hm
    split at hm
    · obtain rfl := Option.some.inj hm
      simp [newCell] at hr
    · exact h.closed i m hm hr

theorem connected (h : Shut w) (x : Chore) (p : Address) : Brisk (w.connected x p) := by
  unfold Server.connected
  dsimp only
  split
  · exact (h.enrol p).brisk.same (accepted_same _ _ _ _).1
  · exact ((h.enrol p).ask _ _).same rfl

theorem hand (h : Shut w) (i : Nat) (data : Bytes) : Brisk (w.hand i data) := by
  obtain hc | ⟨c, f, hc, hf, -, hs⟩ := hand_cases i data w
  · exact h.brisk.same hc
  · rw [hf]
    exact h.modify hc f hs

theorem datagram (h : Shut w) (x : Chore) (p : Address) (data : Bytes) :
    Brisk (w.datagram x p data) := by
  have hr : Shut (w.ready p) := by
    unfold ready
    split
    · exact h.enrol p
    · exact h
  exact (hr.hand _ _).same (datagram_same x p data w).1

theorem begin (h : Shut w) (x : Chore) : Brisk (w.begin x) := by
  unfold Server.begin
  split
  · exact h.brisk.same (beginAccept_same x w).1
  · exact h.brisk.same (beginAccept_same x w).1
  · exact h.brisk.same (beginAccept_same x w).1
  · exact h.beginStop x
  · exact (h.ask _ _).same rfl
  next p _ =>
    split
    · exact h.brisk.same rfl
    · have hk : Shut { w with table := w.table.erase p } := h.same rfl
      exact (hk.ask _ _).same rfl

theorem start (h : Shut w) (bound : Except Error Address) : Shut (w.start bound).1 := by
  unfold Server.start
  split
  · exact h
  · cases bound <;> exact h.same rfl

theorem callRun (h : Shut w) (bound : Except Error Address) (down : Bool) :
    Brisk (w.callRun bound down) := by
  have hk : Shut ((w.emit .willRun).add .run) := h.same rfl
  have hs := hk.start bound
  unfold Server.callRun
  dsimp only
  split
  next hb =>
    rw [hb] at hs
    split
    · exact hs.beginStop _
    · exact hs.begin _
  next hb =>
    rw [hb] at hs
    exact hs.brisk.same rfl

/-- Who gives up waiting changes nothing about the session. -/
theorem release (h : Shut w) (x : Chore) : Shut (w.release x) := by
  unfold Server.release
  split
  next i t _ =>
    split
    next n hn =>
      obtain ⟨m, hm, hs⟩ := Option.bind_eq_some_iff.1 hn
      have hsame : n.session = m.session := by
        obtain ⟨y, -, hy⟩ := Option.bind_eq_some_iff.1 hs
        obtain ⟨-, hy⟩ := Option.ite_none_right_eq_some.1 hy
        obtain rfl := Option.some.inj hy
        rfl
      have hput (j : Nat) (o : Session.Machine) (ho : (w.put i n).machine? j = some o) :
          (j = i ∧ o = n) ∨ w.machine? j = some o := by
        by_cases hj : j = i
        · subst hj
          obtain ⟨c, hc, -⟩ := Option.map_eq_some_iff.1 hm
          left
          simpa [machine?, Server.put, hc, eq_comm] using ho
        · right
          simpa [machine?, Server.put, Ne.symm hj] using ho
      constructor
      · intro j o ho
        obtain ⟨rfl, rfl⟩ | ho := hput j o ho
        · exact (h.sound j m hm).step hs
        · exact h.sound j o ho
      · intro j o ho
        obtain ⟨rfl, rfl⟩ | ho := hput j o ho
        · rw [hsame]
          exact h.closed j m hm
        · exact h.closed j o ho
    next => exact h
  next => exact h

theorem step (h : Shut w) (hs : w.step v = some a) : Brisk a := by
  cases turn_step hs with
  | start bound => exact (h.start bound).brisk
  | @call job =>
    have hk : Shut (w.add job) := h.same rfl
    exact hk.begin _
  | run bound down => exact h.callRun bound down
  | begin => exact h.begin _
  | connected p => exact h.connected _ p
  | datagram p data => exact h.datagram _ p data
  | acceptFailed e => exact h.acceptFailed _ e
  | @wake x => exact h.brisk.same (beginAccept_same x w).1
  | replaced => exact h.brisk.same (accepted_same _ _ _ _).1
  | drained => exact h.drain _ _
  | @shutDown x => exact (h.release x).beginStop x
  | @cancel x => exact (h.release x).brisk.same rfl
  | session _ hm hn => exact h.put hm hn
  | receive rest _ hc hn => exact h.modify hc _ hn
  | spawn | tended | closed | remove | removeIf => exact h.brisk.same rfl
  | pass d =>
    intro i m hm
    rw [machine?_later] at hm
    obtain ⟨n, hn, rfl⟩ := Option.map_eq_some_iff.1 hm
    exact h.brisk i n hn

end Shut

theorem Brisk.answer (h : Brisk w) (hw : Errands [] w) (hv : w.answersClose v = true)
    (hs : w.step v = some a) : Brisk a := by
  unfold answersClose at hv
  split at hv
  next i t r =>
    obtain ⟨y, hy, hyw⟩ := (Option.any_eq_true _ _).1 hv
    obtain ⟨m, hm, hy⟩ := Option.bind_eq_some_iff.1 hy
    cases turn_step hs with
    | @session _ _ m' n _ hm' hn =>
      obtain rfl := Option.some.inj (hm.symm.trans hm')
      have hmem := Session.Machine.mem_tasks_of_task? t y hy
      obtain rfl : y.id = t := by simpa using List.find?_some hy
      have hc := Session.Machine.closed_of_reply (hw.sound i m hm).1.roster hmem
        (by simpa using hyw) hn
      intro j o ho
      by_cases hj : j = i
      · subst hj
        obtain ⟨c, hcell, -⟩ := Option.map_eq_some_iff.1 hm
        obtain rfl : n = o := by simpa [machine?, put, hcell] using ho
        exact fun _ => .inl hc
      · exact h j o (by simpa [machine?, put, Ne.symm hj] using ho)
  next => simp at hv

theorem Brisk.step (h : Brisk w) (hw : Errands [] w)
    (hv : (!w.closesPending || w.answersClose v) = true) (hs : w.step v = some a) : Brisk a := by
  cases hp : w.closesPending with
  | false => exact (h.shut (fun i m hm => (hw.sound i m hm).1) hp).step hs
  | true => exact h.answer hw (by simpa [hp] using hv) hs

theorem Brisk.steps (h : Brisk w) (hw : Errands [] w) (vs : List Move)
    (hb : isBrisk vs w = true) (hs : w.steps vs = some a) : Brisk a := by
  induction vs generalizing w with
  | nil =>
    obtain rfl := Option.some.inj hs
    exact h
  | cons v vs ih =>
    obtain ⟨b, hv, hs⟩ := Option.bind_eq_some_iff.1 hs
    rw [isBrisk, hv, Option.map_some, Option.getD_some, Bool.and_eq_true] at hb
    exact ih (h.step hw hb.1 hv) (hw.step hv) hb.2 hs

/-- Where links close without waiting and none is about to, whoever has been let go is closed. -/
theorem closed_of_brisk (s : Settings) (vs : List Move)
    (hb : isBrisk vs { settings := s } = true)
    (hs : ({ settings := s } : Server).steps vs = some w) (hp : w.closesPending = false) : Shut w := by
  have hk : Brisk ({ settings := s } : Server) := by simp [Brisk, machine?]
  have hw := (errands_empty s).steps vs hs
  exact (hk.steps (errands_empty s) vs hb hs).shut (fun i m hm => (hw.sound i m hm).1) hp

end Switchboard.Server
