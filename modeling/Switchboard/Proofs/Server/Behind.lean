import Mathlib.Data.List.Basic
import Switchboard.Proofs.Session.Deed
import Switchboard.Server.Machine

/-! What goes on behind the accepts of a server. But for a new peer, a move of the server lets its
sessions go on by moves of their own, takes entries off the table and adds none, and accepts
nobody. -/
namespace Switchboard.Server

def isDidAccept : Event → Bool
  | .didAccept _ => true
  | _ => false

def Chore.isReplacing (x : Chore) : Bool :=
  match x.wait with
  | .replacing .. => true
  | _ => false

structure Quiet (w a : Server) : Prop where
  settings : a.settings = w.settings
  peers : a.cells.map (·.peer) = w.cells.map (·.peer)
  machines : ∀ i m, a.machine? i = some m → ∃ n us, w.machine? i = some n ∧ n.steps us = some m
  table : a.table.entries.Sublist w.table.entries
  told : ∃ new, a.trace = new ++ w.trace ∧ ∀ e ∈ new, isDidAccept e.2 = false
  replacing : ∀ x ∈ a.chores, x.isReplacing = true → ∃ y ∈ w.chores, y.isReplacing = true

variable {w a b : Server} {x : Chore}

theorem Quiet.refl (w : Server) : Quiet w w where
  settings := rfl
  peers := rfl
  machines i m hm := ⟨m, [], hm, rfl⟩
  table := List.Sublist.refl _
  told := ⟨[], rfl, by simp⟩
  replacing x hx hr := ⟨x, hx, hr⟩

theorem Quiet.trans (h : Quiet w a) (k : Quiet a b) : Quiet w b where
  settings := k.settings.trans h.settings
  peers := k.peers.trans h.peers
  machines i m hm := by
    obtain ⟨n, us, hn, hs⟩ := k.machines i m hm
    obtain ⟨o, ws, ho, hw⟩ := h.machines i n hn
    exact ⟨o, ws ++ us, ho, by rw [Session.Machine.steps_append, hw, Option.bind_some, hs]⟩
  table := k.table.trans h.table
  told := by
    obtain ⟨l, hl, hln⟩ := h.told
    obtain ⟨r, hr, hrn⟩ := k.told
    refine ⟨r ++ l, by rw [hr, hl, List.append_assoc], fun e he => ?_⟩
    obtain he | he := List.mem_append.1 he
    · exact hrn e he
    · exact hln e he
  replacing y hy hr := by
    obtain ⟨z, hz, hr⟩ := k.replacing y hy hr
    exact h.replacing z hz hr

theorem Quiet.length (h : Quiet w a) : a.cells.length = w.cells.length := by
  simpa using congrArg List.length h.peers

theorem quiet_emit (e : Event) (w : Server) (he : isDidAccept e = false) : Quiet w (w.emit e) :=
  { Quiet.refl w with told := ⟨[(w.now, e)], rfl, by simpa using he⟩ }

theorem quiet_chores (w : Server) {l : List Chore} {fresh : Nat} {r : List (ChoreId × Answer)}
    (hl : ∀ x ∈ l, x.isReplacing = true → ∃ y ∈ w.chores, y.isReplacing = true) :
    Quiet w { w with chores := l, fresh, finished := r } :=
  { Quiet.refl w with replacing := hl }

theorem quiet_update (x : Chore) (w : Server) (hx : x.isReplacing = false) :
    Quiet w (w.update x) := by
  refine quiet_chores w fun y hy hr => ?_
  obtain ⟨z, hz, rfl⟩ := List.mem_map.1 hy
  split at hr
  · simp [hx] at hr
  · exact ⟨z, hz, hr⟩

theorem quiet_settle (c : ChoreId) (o : Answer) (w : Server) : Quiet w (w.settle c o) :=
  quiet_chores w fun y hy hr => ⟨y, (List.mem_filter.1 hy).1, hr⟩

theorem quiet_add (job : Job) (w : Server) : Quiet w (w.add job) := by
  refine quiet_chores w fun y hy hr => ?_
  obtain hy | hy := List.mem_append.1 hy
  · exact ⟨y, hy, hr⟩
  · obtain rfl := List.mem_singleton.1 hy
    simp [Chore.isReplacing] at hr

theorem quiet_table (w : Server) {t : Table} (ht : t.entries.Sublist w.table.entries) :
    Quiet w { w with table := t } :=
  { Quiet.refl w with table := ht }

theorem quiet_modify (i : Nat) (f : Cell → Cell) (w : Server)
    (hf : ∀ c, w.cells[i]? = some c →
      (f c).peer = c.peer ∧ ∃ us, c.machine.steps us = some (f c).machine) :
    Quiet w { w with cells := w.cells.modify i f } := by
  refine { Quiet.refl w with peers := ?_, machines := fun j m hm => ?_ }
  · refine List.ext_getElem? fun j => ?_
    simp only [List.getElem?_map, List.getElem?_modify]
    split
    next hij =>
      subst hij
      cases hc : w.cells[i]? with
      | none => rfl
      | some c => simp [(hf c hc).1]
    next => simp
  · simp only [machine?, List.getElem?_modify] at hm ⊢
    split at hm
    next hij =>
      subst hij
      cases hc : w.cells[i]? with
      | none => simp [hc] at hm
      | some c =>
        obtain ⟨us, hus⟩ := (hf c hc).2
        obtain rfl : (f c).machine = m := by simpa [hc] using hm
        exact ⟨c.machine, us, rfl, hus⟩
    next =>
      refine ⟨m, [], ?_, rfl⟩
      simpa using hm

theorem quiet_put {i : Nat} {m n : Session.Machine} (us : List Session.Move)
    (hn : w.machine? i = some n) (hs : n.steps us = some m) : Quiet w (w.put i m) := by
  refine quiet_modify i _ w fun c hc => ⟨rfl, us, ?_⟩
  obtain rfl : c.machine = n := by simpa [machine?, hc] using hn
  exact hs

theorem quiet_ask (i : Nat) (job : Session.Job) (w : Server) : Quiet w (w.ask i job).1 := by
  unfold ask
  split
  next m hm => exact quiet_put [.call job] hm rfl
  next => exact Quiet.refl w

theorem quiet_start (bound : Except Error Address) (w : Server) : Quiet w (w.start bound).1 := by
  unfold start
  split
  · exact Quiet.refl w
  · cases bound with
    | ok here =>
      have h : Quiet w { w.emit .willStart with
          listener := some w.listeners, listeners := w.listeners + 1 } :=
        { quiet_emit .willStart w rfl with }
      exact h.trans (quiet_emit _ _ rfl)
    | error e => exact quiet_emit _ w rfl

theorem quiet_stopped (x : Chore) (w : Server) : Quiet w (w.stopped x) := by
  unfold stopped
  dsimp only
  split
  · exact (quiet_emit _ w rfl).trans (quiet_settle _ _ _)
  · exact quiet_settle _ _ w

theorem quiet_drain (x : Chore) (l : List Nat) (w : Server) : Quiet w (w.drain x l) := by
  cases l with
  | nil => exact (quiet_emit _ w rfl).trans (quiet_stopped x _)
  | cons i rest => exact (quiet_ask i .close w).trans (quiet_update _ _ rfl)

theorem quiet_beginStop (x : Chore) (w : Server) : Quiet w (w.beginStop x) := by
  unfold beginStop
  split
  · exact quiet_stopped x w
  · have h : Quiet w { { w with listener := none }.emit .willStop with table := {} } :=
      { quiet_emit .willStop w rfl with table := List.nil_sublist _ }
    exact h.trans (quiet_drain x _ _)

theorem quiet_acceptFailed (x : Chore) (e : Error) (w : Server) : Quiet w (w.acceptFailed x e) := by
  unfold acceptFailed
  split
  · exact quiet_settle _ _ w
  · split
    · split
      · exact quiet_beginStop _ w
      · exact quiet_settle _ _ w
    · exact quiet_update _ w rfl

theorem quiet_beginAccept (x : Chore) (w : Server) : Quiet w (w.beginAccept x) := by
  unfold beginAccept
  split
  · exact quiet_acceptFailed x _ w
  · exact (quiet_emit _ w rfl).trans (quiet_update _ _ rfl)

/-- But for the event, an accept is quiet when the session stands on the table. -/
theorem quiet_accepted (x : Chore) (i : Nat) (w : Server) :
    Quiet w (w.accepted x i false) ∧
      ∀ p, (w.cells[i]?).map (·.peer) = some p →
        Quiet (w.emit (.didAccept p)) (w.accepted x i true) := by
  refine ⟨?_, fun p hp => ?_⟩
  · unfold accepted
    dsimp only
    split
    · exact quiet_beginAccept _ w
    · exact quiet_settle _ _ w
  · unfold accepted
    simp only [hp]
    split
    · exact (quiet_add _ _).trans (quiet_beginAccept _ _)
    · exact quiet_settle _ _ _

theorem quiet_release (x : Chore) (w : Server) : Quiet w (w.release x) := by
  unfold release
  split
  next i t _ =>
    split
    next m hm =>
      obtain ⟨n, hn, hs⟩ := Option.bind_eq_some_iff.1 hm
      refine quiet_put [.cancel t] hn ?_
      rw [Session.Machine.steps, hs]
      rfl
    next => exact Quiet.refl w
  next => exact Quiet.refl w

theorem quiet_begin (x : Chore) (w : Server) : Quiet w (w.begin x) := by
  unfold begin
  split
  · exact quiet_beginAccept x w
  · exact quiet_beginAccept x w
  · exact quiet_beginAccept x w
  · exact quiet_beginStop x w
  · exact (quiet_ask _ _ w).trans (quiet_update _ _ rfl)
  · split
    · exact quiet_settle _ _ w
    · exact (quiet_table w List.filter_sublist).trans
        ((quiet_ask _ _ _).trans (quiet_update _ _ rfl))

theorem quiet_callRun (bound : Except Error Address) (down : Bool) (w : Server) :
    Quiet w (w.callRun bound down) := by
  unfold callRun
  have h : Quiet w (((w.emit .willRun).add .run).start bound).1 :=
    (quiet_emit _ w rfl).trans ((quiet_add _ _).trans (quiet_start bound _))
  dsimp only
  split
  next hs =>
    rw [hs] at h
    split
    · exact h.trans (quiet_beginStop _ _)
    · exact h.trans (quiet_begin _ _)
  next hs =>
    rw [hs] at h
    exact h.trans (quiet_settle _ _ _)

theorem sublist_eraseIf (t : Table) (peer : Address) (i : Nat) :
    (t.eraseIf peer i).entries.Sublist t.entries := by
  unfold Table.eraseIf
  split
  · exact List.filter_sublist
  · exact List.Sublist.refl _

theorem quiet_proceed (hx : x.isReplacing = false) (h : w.proceed x = some a) : Quiet w a := by
  unfold proceed at h
  split at h
  next hw => simp [Chore.isReplacing, hw] at hx
  next =>
    split at h
    next =>
      obtain ⟨o, -, rfl⟩ := Option.map_eq_some_iff.1 h
      split
      · exact (quiet_table w (sublist_eraseIf _ _ _)).trans (quiet_settle _ _ _)
      · exact quiet_settle _ _ w
    next => simp at h
  next =>
    obtain ⟨o, -, rfl⟩ := Option.map_eq_some_iff.1 h
    split <;> exact quiet_settle _ _ w
  next =>
    obtain ⟨o, -, rfl⟩ := Option.map_eq_some_iff.1 h
    split <;> exact quiet_drain _ _ w
  next => simp at h

theorem machine?_of_cell {i : Nat} {c : Cell} (h : w.cells[i]? = some c) :
    w.machine? i = some c.machine := by
  rw [machine?, h, Option.map_some]

theorem quiet_receive {i : Nat} {t : Session.TaskId} (h : w.receive i t = some a) : Quiet w a := by
  obtain ⟨c, hc, h⟩ := Option.bind_eq_some_iff.1 h
  obtain ⟨y, -, h⟩ := Option.bind_eq_some_iff.1 h
  have hn := machine?_of_cell hc
  split at h
  next size _ d rest _ _ =>
    obtain ⟨m, hm, h⟩ := Option.bind_eq_some_iff.1 h
    obtain rfl := Option.some.inj h
    rw [List.set_eq_modify]
    refine quiet_modify i _ w fun e he => ?_
    obtain rfl : c = e := Option.some.inj (hc.symm.trans he)
    refine ⟨rfl, [.reply t (.received (d.take size))], ?_⟩
    rw [Session.Machine.steps, hm]
    rfl
  next =>
    split at h
    next => simp at h
    next =>
      obtain ⟨m, hm, h⟩ := Option.bind_eq_some_iff.1 h
      obtain rfl := Option.some.inj h
      refine quiet_put [.reply t (.received [])] hn ?_
      rw [Session.Machine.steps, hm]
      rfl
  next => simp at h

theorem not_replacing {c : ChoreId} (hr : ∀ x ∈ w.chores, x.isReplacing = false)
    (hx : w.chore? c = some x) : x.isReplacing = false :=
  hr x (List.mem_of_find?_eq_some hx)

theorem quiet_step {v : Move} (hu : w.settings.transport = .udp)
    (hr : ∀ x ∈ w.chores, x.isReplacing = false) (hv : ∀ c p data, v ≠ .datagram c p data)
    (h : w.step v = some a) : Quiet w a := by
  cases v with
  | datagram c p data => exact absurd rfl (hv c p data)
  | start bound =>
    obtain rfl := Option.some.inj h
    exact quiet_start bound w
  | call job =>
    obtain ⟨-, h⟩ := Option.ite_none_right_eq_some.1 h
    obtain rfl := Option.some.inj h
    exact (quiet_add job w).trans (quiet_begin _ _)
  | run bound down =>
    obtain rfl := Option.some.inj h
    exact quiet_callRun bound down w
  | spawn job =>
    obtain ⟨-, h⟩ := Option.ite_none_right_eq_some.1 h
    obtain rfl := Option.some.inj h
    exact quiet_add job w
  | begin c =>
    obtain ⟨x, -, h⟩ := Option.bind_eq_some_iff.1 h
    obtain ⟨-, h⟩ := Option.ite_none_right_eq_some.1 h
    obtain rfl := Option.some.inj h
    exact quiet_begin x w
  | connected c peer =>
    obtain ⟨x, -, h⟩ := Option.bind_eq_some_iff.1 h
    obtain ⟨ht, -⟩ := Option.ite_none_right_eq_some.1 h
    simp [hu] at ht
  | acceptFailed c e =>
    obtain ⟨x, -, h⟩ := Option.bind_eq_some_iff.1 h
    obtain ⟨-, h⟩ := Option.ite_none_right_eq_some.1 h
    obtain rfl := Option.some.inj h
    exact quiet_acceptFailed x e w
  | wake c =>
    obtain ⟨x, -, h⟩ := Option.bind_eq_some_iff.1 h
    split at h
    next =>
      obtain ⟨-, h⟩ := Option.ite_none_right_eq_some.1 h
      obtain rfl := Option.some.inj h
      exact quiet_beginAccept x w
    next => simp at h
  | proceed c =>
    obtain ⟨x, hx, h⟩ := Option.bind_eq_some_iff.1 h
    exact quiet_proceed (not_replacing hr hx) h
  | shutDown c =>
    obtain ⟨x, -, h⟩ := Option.bind_eq_some_iff.1 h
    unfold shutDown at h
    have hq : Quiet w ((w.release x).beginStop x) :=
      (quiet_release x w).trans (quiet_beginStop x _)
    split at h
    · exact Option.some.inj h ▸ hq
    · exact Option.some.inj h ▸ hq
    · exact Option.some.inj h ▸ hq
    · simp at h
  | cancel c =>
    obtain ⟨x, -, h⟩ := Option.bind_eq_some_iff.1 h
    obtain ⟨-, h⟩ := Option.ite_none_right_eq_some.1 h
    obtain rfl := Option.some.inj h
    exact { quiet_release x w with
      replacing := fun y hy hr => ⟨y, (List.mem_filter.1 hy).1, hr⟩ }
  | session i v =>
    obtain ⟨-, h⟩ := Option.ite_none_right_eq_some.1 h
    obtain ⟨m, hm, rfl⟩ := Option.map_eq_some_iff.1 h
    obtain ⟨n, hn, hs⟩ := Option.bind_eq_some_iff.1 hm
    refine quiet_put [v] hn ?_
    rw [Session.Machine.steps, hs]
    rfl
  | receive i t =>
    obtain ⟨-, h⟩ := Option.ite_none_right_eq_some.1 h
    exact quiet_receive h
  | remove peer =>
    obtain rfl := Option.some.inj h
    exact quiet_table w List.filter_sublist
  | removeIf peer i =>
    obtain rfl := Option.some.inj h
    exact quiet_table w (sublist_eraseIf _ _ _)
  | pass d =>
    obtain rfl := Option.some.inj h
    refine { Quiet.refl w with peers := ?_, machines := fun i m hm => ?_ }
    · simp [Function.comp_def]
    · rw [machine?, List.getElem?_map, Option.map_map] at hm
      obtain ⟨c, hc, rfl⟩ := Option.map_eq_some_iff.1 hm
      exact ⟨c.machine, [.pass d], machine?_of_cell hc, rfl⟩

end Switchboard.Server
