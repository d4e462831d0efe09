import Switchboard.Proofs.Server.Behind

/-! What a move of a server does, said once for all that is proved about runs. A move belongs to one
chore, to one session, or to the server alone, and a chore that waits for a session's task goes on
when that has an outcome. -/
namespace Switchboard.Server

def withoutOwn (w : Server) (i : Nat) : Table :=
  (w.cells[i]?).elim w.table fun c => w.table.eraseIf c.peer i

/-- What goes off the table with a session are entries that were there. -/
theorem withoutOwn_sublist (w : Server) (i : Nat) :
    (w.withoutOwn i).entries.Sublist w.table.entries := by
  unfold withoutOwn
  cases w.cells[i]? with
  | none => exact List.Sublist.refl _
  | some c => exact sublist_eraseIf _ _ _

def Cell.later (d : Duration) (c : Cell) : Cell :=
  { c with machine := { c.machine with now := c.machine.now + d } }

def later (d : Duration) (w : Server) : Server :=
  { w with now := w.now + d, cells := w.cells.map (Cell.later d) }

theorem machine?_later (d : Duration) (w : Server) (i : Nat) :
    (w.later d).machine? i = (w.machine? i).map fun m => { m with now := m.now + d } := by
  simp [machine?, later, Cell.later, Function.comp_def]

inductive Turn (w : Server) : Move → Server → Prop where
  | start (bound : Except Error Address) : Turn w (.start bound) (w.start bound).1
  | call {job : Job} : isPublic job = true → Turn w (.call job) (w.call job)
  | run (bound : Except Error Address) (down : Bool) :
      Turn w (.run bound down) (w.callRun bound down)
  | spawn {job : Job} : isPublic job = true → Turn w (.spawn job) (w.add job)
  | begin {x : Chore} : x ∈ w.chores → x.wait = .starting → Turn w (.begin x.id) (w.begin x)
  | connected {x : Chore} {l : Nat} (p : Address) : x ∈ w.chores → x.wait = .listening l →
      w.settings.transport = .tcp → Turn w (.connected x.id p) (w.connected x p)
  | datagram {x : Chore} {l : Nat} (p : Address) (data : Bytes) : x ∈ w.chores →
      x.wait = .listening l → w.settings.transport = .udp →
      Turn w (.datagram x.id p data) (w.datagram x p data)
  | acceptFailed {x : Chore} {l : Nat} (e : Error) : x ∈ w.chores → x.wait = .listening l →
      Turn w (.acceptFailed x.id e) (w.acceptFailed x e)
  | wake {x : Chore} {d : Duration} : x ∈ w.chores → x.wait = .resting d → d ≤ w.now →
      Turn w (.wake x.id) (w.beginAccept x)
  | replaced {x : Chore} {i stale : Nat} {t : Session.TaskId} {o : Session.Outcome} :
      x ∈ w.chores → x.wait = .replacing i stale t → w.outcome? stale t = some o →
      Turn w (.proceed x.id) (w.accepted x i true)
  | tended {x : Chore} {i : Nat} {t : Session.TaskId} {o : Session.Outcome} : x ∈ w.chores →
      x.job = .tend i → x.wait = .tending t → w.outcome? i t = some o →
      Turn w (.proceed x.id) ({ w with table := w.withoutOwn i }.settle x.id .done)
  | closed {x : Chore} {i : Nat} {t : Session.TaskId} {o : Session.Outcome} {r : Answer} :
      x ∈ w.chores → x.wait = .closing i t → w.outcome? i t = some o →
      r = .closed true ∨ (∃ e, r = .failed e) → Turn w (.proceed x.id) (w.settle x.id r)
  | drained {x : Chore} {i : Nat} {t : Session.TaskId} {rest : List Nat} {o : Session.Outcome}
      (fault : Option Error) : x ∈ w.chores → x.wait = .draining i t rest →
      w.outcome? i t = some o → Turn w (.proceed x.id) (w.drain { x with fault } rest)
  | shutDown {x : Chore} : x ∈ w.chores → x.job = .run →
      (∃ l, x.wait = .listening l) ∨ (∃ i stale t, x.wait = .replacing i stale t) ∨
        (∃ d, x.wait = .resting d) →
      Turn w (.shutDown x.id) ((w.release x).beginStop x)
  | cancel {x : Chore} : x ∈ w.chores → isPublic x.job = true ∨ x.job = .run →
      Turn w (.cancel x.id) { w.release x with chores := w.chores.filter (·.id ≠ x.id) }
  | session {i : Nat} {v : Session.Move} {m n : Session.Machine} : w.isOutside i v = true →
      w.machine? i = some m → m.step v = some n → Turn w (.session i v) (w.put i n)
  | receive {i : Nat} {t : Session.TaskId} {c : Cell} {n : Session.Machine} {data : Bytes}
      (rest : List Bytes) : w.settings.transport = .udp → w.cells[i]? = some c →
      c.machine.step (.reply t (.received data)) = some n →
      Turn w (.receive i t)
        { w with cells := w.cells.modify i fun _ => { c with machine := n, inbox := rest } }
  | remove (p : Address) : Turn w (.remove p) { w with table := w.table.erase p }
  | removeIf (p : Address) (i : Nat) :
      Turn w (.removeIf p i) { w with table := w.table.eraseIf p i }
  | pass (d : Duration) : Turn w (.pass d) (w.later d)

variable {w a : Server} {x : Chore} {c : ChoreId} {v : Move}

theorem of_chore? (h : w.chore? c = some x) : x ∈ w.chores ∧ x.id = c :=
  ⟨List.mem_of_find?_eq_some h, by simpa using List.find?_some h⟩

theorem wait_of_isListening (h : isListening x = true) : ∃ l, x.wait = .listening l := by
  unfold isListening at h
  split at h
  next l hl => exact ⟨l, hl⟩
  next => simp at h

theorem turn_proceed (hx : x ∈ w.chores) (h : w.proceed x = some a) :
    Turn w (.proceed x.id) a := by
  unfold proceed at h
  split at h
  next hw =>
    obtain ⟨o, ho, rfl⟩ := Option.map_eq_some_iff.1 h
    exact .replaced hx hw ho
  next t hw =>
    split at h
    next i hj =>
      obtain ⟨o, ho, rfl⟩ := Option.map_eq_some_iff.1 h
      have ht := Turn.tended hx hj hw ho
      unfold withoutOwn at ht
      cases hc : w.cells[i]? with
      | none => simpa only [hc, Option.elim_none] using ht
      | some c => simpa only [hc, Option.elim_some] using ht
    next => simp at h
  next hw =>
    obtain ⟨o, ho, rfl⟩ := Option.map_eq_some_iff.1 h
    split
    next e => exact .closed hx hw ho (.inr ⟨e, rfl⟩)
    next => exact .closed hx hw ho (.inl rfl)
  next hw =>
    obtain ⟨o, ho, rfl⟩ := Option.map_eq_some_iff.1 h
    split
    next => exact .drained _ hx hw ho
    next => exact .drained x.fault hx hw ho
  next => simp at h

theorem turn_shutDown (hx : x ∈ w.chores) (h : w.shutDown x = some a) :
    Turn w (.shutDown x.id) a := by
  unfold shutDown at h
  split at h
  next l hj hw =>
    obtain rfl := Option.some.inj h
    exact .shutDown hx hj (.inl ⟨l, hw⟩)
  next i stale t hj hw =>
    obtain rfl := Option.some.inj h
    exact .shutDown hx hj (.inr (.inl ⟨i, stale, t, hw⟩))
  next d hj hw =>
    obtain rfl := Option.some.inj h
    exact .shutDown hx hj (.inr (.inr ⟨d, hw⟩))
  next => simp at h

theorem put_eq_modify {i : Nat} {b : Cell} (h : w.cells[i]? = some b) (m : Session.Machine) :
    w.put i m = { w with cells := w.cells.modify i fun _ => { b with machine := m } } := by
  rw [put, ← List.set_eq_modify, List.modify_eq_set_getElem?, h]
  rfl

theorem turn_receive {i : Nat} {t : Session.TaskId} (hu : w.settings.transport = .udp)
    (h : w.receive i t = some a) : Turn w (.receive i t) a := by
  obtain ⟨c, hc, h⟩ := Option.bind_eq_some_iff.1 h
  obtain ⟨y, -, h⟩ := Option.bind_eq_some_iff.1 h
  split at h
  next rest _ _ =>
    obtain ⟨n, hn, h⟩ := Option.bind_eq_some_iff.1 h
    obtain rfl := Option.some.inj h
    rw [List.set_eq_modify]
    exact .receive rest hu hc hn
  next =>
    split at h
    next => simp at h
    next =>
      obtain ⟨n, hn, h⟩ := Option.bind_eq_some_iff.1 h
      obtain rfl := Option.some.inj h
      rw [put_eq_modify hc]
      exact .receive c.inbox hu hc hn
  next => simp at h

/-- Every move is one of these turns. -/
theorem turn_step (h : w.step v = some a) : Turn w v a := by
  cases v with
  | start bound =>
    obtain rfl := Option.some.inj h
    exact .start bound
  | call job =>
    obtain ⟨hj, h⟩ := Option.ite_none_right_eq_some.1 h
    obtain rfl := Option.some.inj h
    exact .call hj
  | run bound down =>
    obtain rfl := Option.some.inj h
    exact .run bound down
  | spawn job =>
    obtain ⟨hj, h⟩ := Option.ite_none_right_eq_some.1 h
    obtain rfl := Option.some.inj h
    exact .spawn hj
  | begin c =>
    obtain ⟨x, hf, hs⟩ := Option.bind_eq_some_iff.1 h
    obtain ⟨hx, rfl⟩ := of_chore? hf
    obtain ⟨hw, hs⟩ := Option.ite_none_right_eq_some.1 hs
    obtain rfl := Option.some.inj hs
    exact .begin hx hw
  | connected c p =>
    obtain ⟨x, hf, hs⟩ := Option.bind_eq_some_iff.1 h
    obtain ⟨hx, rfl⟩ := of_chore? hf
    obtain ⟨hw, hs⟩ := Option.ite_none_right_eq_some.1 hs
    simp only [Bool.and_eq_true, decide_eq_true_eq] at hw
    obtain rfl := Option.some.inj hs
    obtain ⟨l, hl⟩ := wait_of_isListening hw.2
    exact .connected p hx hl hw.1
  | datagram c p data =>
    obtain ⟨x, hf, hs⟩ := Option.bind_eq_some_iff.1 h
    obtain ⟨hx, rfl⟩ := of_chore? hf
    obtain ⟨hw, hs⟩ := Option.ite_none_right_eq_some.1 hs
    simp only [Bool.and_eq_true, decide_eq_true_eq] at hw
    obtain rfl := Option.some.inj hs
    obtain ⟨l, hl⟩ := wait_of_isListening hw.2
    exact .datagram p data hx hl hw.1
  | acceptFailed c e =>
    obtain ⟨x, hf, hs⟩ := Option.bind_eq_some_iff.1 h
    obtain ⟨hx, rfl⟩ := of_chore? hf
    obtain ⟨hw, hs⟩ := Option.ite_none_right_eq_some.1 hs
    obtain rfl := Option.some.inj hs
    obtain ⟨l, hl⟩ := wait_of_isListening hw
    exact .acceptFailed e hx hl
  | wake c =>
    obtain ⟨x, hf, hs⟩ := Option.bind_eq_some_iff.1 h
    obtain ⟨hx, rfl⟩ := of_chore? hf
    split at hs
    next d hw =>
      obtain ⟨hd, hs⟩ := Option.ite_none_right_eq_some.1 hs
      obtain rfl := Option.some.inj hs
      exact .wake hx hw hd
    next => simp at hs
  | proceed c =>
    obtain ⟨x, hf, hs⟩ := Option.bind_eq_some_iff.1 h
    obtain ⟨hx, rfl⟩ := of_chore? hf
    exact turn_proceed hx hs
  | shutDown c =>
    obtain ⟨x, hf, hs⟩ := Option.bind_eq_some_iff.1 h
    obtain ⟨hx, rfl⟩ := of_chore? hf
    exact turn_shutDown hx hs
  | cancel c =>
    obtain ⟨x, hf, hs⟩ := Option.bind_eq_some_iff.1 h
    obtain ⟨hx, rfl⟩ := of_chore? hf
    obtain ⟨hj, hs⟩ := Option.ite_none_right_eq_some.1 hs
    obtain rfl := Option.some.inj hs
    exact .cancel hx (by simpa using hj)
  | session i v =>
    obtain ⟨ho, h⟩ := Option.ite_none_right_eq_some.1 h
    obtain ⟨n, hn, rfl⟩ := Option.map_eq_some_iff.1 h
    obtain ⟨m, hm, hs⟩ := Option.bind_eq_some_iff.1 hn
    exact .session ho hm hs
  | receive i t =>
    obtain ⟨hu, h⟩ := Option.ite_none_right_eq_some.1 h
    exact turn_receive hu h
  | remove p =>
    obtain rfl := Option.some.inj h
    exact .remove p
  | removeIf p i =>
    obtain rfl := Option.some.inj h
    exact .removeIf p i
  | pass d =>
    obtain rfl := Option.some.inj h
    exact .pass d

/-- Behind an accept, who serves goes on to the next and has a new session looked after, and anybody
else is done. The peer may have been told of before that. -/
theorem accepted_told (x : Chore) (i : Nat) (fresh : Bool) (w : Server) :
    ∃ t, w.accepted x i fresh = (if isLasting x.job then
        (if fresh then { w with trace := t ++ w.trace }.add (.tend i)
          else { w with trace := t ++ w.trace }).beginAccept { x with failures := 0 }
        else { w with trace := t ++ w.trace }.settle x.id (.accepted i fresh)) ∧
      (t = [] ∨ ∃ p, t = [(w.now, .didAccept p)]) := by
  unfold accepted
  cases fresh with
  | false => exact ⟨[], rfl, .inl rfl⟩
  | true =>
    cases (w.cells[i]?).map (·.peer) with
    | none => exact ⟨[], rfl, .inl rfl⟩
    | some p => exact ⟨[(w.now, .didAccept p)], rfl, .inr ⟨p, rfl⟩⟩

/-! Asking a session, and no longer waiting for one, is a matter of the sessions. -/

theorem ask_eq (i : Nat) (job : Session.Job) (w : Server) :
    ∃ cs, (w.ask i job).1 = { w with cells := cs } ∧ cs.length = w.cells.length := by
  unfold ask
  split
  · exact ⟨_, rfl, List.length_modify ..⟩
  · exact ⟨_, rfl, rfl⟩

theorem release_eq (x : Chore) (w : Server) :
    ∃ cs, w.release x = { w with cells := cs } ∧ cs.length = w.cells.length := by
  unfold release
  split
  · split
    · exact ⟨_, rfl, List.length_modify ..⟩
    · exact ⟨_, rfl, rfl⟩
  · exact ⟨_, rfl, rfl⟩

/-- A datagram is a move of the session that it is handed to, if that is there. -/
theorem hand_cases (i : Nat) (data : Bytes) (w : Server) :
    (w.hand i data).cells = w.cells ∨
      ∃ b f, w.cells[i]? = some b ∧ w.hand i data = { w with cells := w.cells.modify i f } ∧
        (f b).peer = b.peer ∧
        b.machine.step (.deliver w.settings.loops.buffersize data) = some (f b).machine := by
  cases h : w.cells[i]? with
  | none =>
    left
    rw [hand, List.modify_eq_set_getElem?, h]
    rfl
  | some b => exact .inr ⟨b, _, rfl, rfl, rfl, rfl⟩

/-- What every move of a run preserves holds behind it. -/
theorem steps_induction {P : Server → Prop} (vs : List Move)
    (hP : ∀ v ∈ vs, ∀ {b d : Server}, P b → b.step v = some d → P d) (h : P w)
    (hs : w.steps vs = some a) : P a := by
  induction vs generalizing w with
  | nil =>
    obtain rfl := Option.some.inj hs
    exact h
  | cons v vs ih =>
    obtain ⟨b, hb, hs⟩ := Option.bind_eq_some_iff.1 hs
    exact ih (fun u hu => hP u (List.mem_cons_of_mem _ hu)) (hP v List.mem_cons_self h hb) hs

theorem steps_append (vs us : List Move) (w : Server) :
    w.steps (vs ++ us) = (w.steps vs).bind (·.steps us) := by
  induction vs generalizing w with
  | nil => rfl
  | cons v vs ih =>
    rw [List.cons_append, steps, steps, Option.bind_assoc]
    exact congrArg _ (funext ih)

end Switchboard.Server
