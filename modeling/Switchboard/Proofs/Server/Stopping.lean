import Switchboard.Proofs.Server.Brisk
import Switchboard.Proofs.Server.Care
import Switchboard.Proofs.Server.Cells
import Switchboard.Proofs.Server.LateAdmission

/-! What a stop leaves behind. It takes the whole table, and closes the sessions on it one after the
other, whatever their links answer. Those that were off the table by then had been let go before, all
but the strays. -/
namespace Switchboard.Server

structure Emptied (n : Nat) (w : Server) : Prop where
  made : n ≤ w.cells.length
  entries : ∀ e ∈ w.table.entries, n ≤ e.2

variable {w a : Server} {x : Chore} {v : Move} {n : Nat}

theorem Emptied.step (h : Emptied n w) (hs : w.step v = some a) : Emptied n a := by
  have hsh := shape_step hs
  refine ⟨Nat.le_trans h.made (hsh.length ▸ Nat.le_add_right _ _), fun e he => ?_⟩
  obtain he | ⟨p, -, rfl⟩ := hsh.entries e he
  · exact h.entries e he
  · exact h.made

theorem Emptied.steps (h : Emptied n w) (vs : List Move) (hs : w.steps vs = some a) : Emptied n a :=
  steps_induction vs (fun _ _ _ _ hb hd => hb.step hd) h hs

theorem emptied_beginStop (x : Chore) (h : w.listener.isSome = true) :
    Emptied w.cells.length (w.beginStop x) := by
  obtain ⟨l, hl⟩ := Option.isSome_iff_exists.1 h
  unfold beginStop
  rw [hl]
  have hq := quiet_drain x w.table.sessions
    { { w with listener := none }.emit .willStop with table := {} }
  refine ⟨Nat.le_of_eq hq.length.symm, fun e he => ?_⟩
  simpa using hq.table.subset he

/-- A stop of a server that has been started takes the whole table. -/
theorem emptied_step (hr : Rolled w) (hl : w.listener.isSome = true)
    (hv : beginsStopping w v = true) (hs : w.step v = some a) : Emptied w.cells.length a := by
  cases turn_step hs with
  | @call job =>
    obtain rfl : job = .stop := by cases job <;> simp_all [beginsStopping]
    exact emptied_beginStop (w := w.add .stop) _ hl
  | @begin x hx =>
    have hj : x.job = .stop := by
      simpa [beginsStopping, hr.chore?_eq_some_iff.2 ⟨hx, rfl⟩] using hv
    rw [begin, hj]
    exact emptied_beginStop x hl
  | @shutDown x =>
    obtain ⟨cs, hrel, hlen⟩ := release_eq x w
    rw [hrel]
    have hk := emptied_beginStop (w := { w with cells := cs }) x hl
    exact ⟨hlen ▸ hk.made, hlen ▸ hk.entries⟩
  | _ => simp [beginsStopping] at hv

/-- From the moment somebody stops a server that has been started, there is no listener until it is
started again, and of the sessions made before none is on the table. Each of them has been let go
once and will be closed, unless it is a stray, or a stop has still to close it; it is closed when its
link has answered, be it with an error. -/
theorem stop_closes_sessions (s : Settings) (w₀ : Server) (h : new s = .ok w₀) (us : List Move)
    (w : Server) (hw : w₀.steps us = some w) (hl : w.listener.isSome = true) (v : Move)
    (hv : beginsStopping w v = true) (vs : List Move) (a : Server)
    (ha : w.steps (v :: vs) = some a) :
    ((∀ u ∈ vs, opensListener u = false) → a.listener = none) ∧
    (∀ e ∈ a.table.entries, w.cells.length ≤ e.2) ∧
    ∀ i < w.cells.length, i ∉ w₀.strays (us ++ v :: vs) → (∀ x ∈ a.chores, i ∉ x.rest) →
      ∃ m, a.machine? i = some m ∧ m.session.released = true ∧
        m.calls.countP (·.2 = .close) = 1 ∧
        (m.session.state = .closing ∨ m.session.state = .closed) ∧
        (m.session.state = .closed ↔ ∃ k ∈ m.trace, Session.endsClose k.event = true) ∧
        (isBrisk (us ++ v :: vs) w₀ = true → a.closesPending = false →
          m.session.state = .closed) := by
  obtain rfl := new_eq h
  have hrun : ({ settings := s } : Server).steps (us ++ v :: vs) = some a := by
    rw [steps_append, hw, Option.bind_some, ha]
  obtain ⟨b, hb, hvs⟩ := Option.bind_eq_some_iff.1 ha
  have hr := (rolled_empty s).steps us hw
  have he := (emptied_step hr hl hv hb).steps vs hvs
  refine ⟨fun hu => ?_, he.entries, fun i hi hstray hrest => ?_⟩
  · exact (waning_steps (listener_step hr hv hb) (hr.step hb) vs hu hvs).listener
  · have hlt := Nat.lt_of_lt_of_le hi he.made
    obtain ⟨m, hm⟩ := machine?_of_lt hlt
    have hsnd := (((errands_empty s).steps _ hrun).sound i m hm).1
    have hrel : m.session.released = true := by
      obtain hk | ht | ⟨x, hx, -, hxi⟩ | hs := (cared_steps s _ hrun).cared i hlt
      · rwa [isReleased_of_machine? hm] at hk
      · obtain ⟨e, hmem, rfl⟩ := List.mem_map.1 ht
        exact absurd (he.entries e hmem) (Nat.not_le.2 hi)
      · exact absurd hxi (hrest x hx)
      · exact absurd hs hstray
    refine ⟨m, hm, hrel, ?_, hsnd.orderly.over_of_released hrel, hsnd.closure.closed, ?_⟩
    · rw [hsnd.closure.closes, if_pos hrel]
    · exact fun hbrisk hp => (closed_of_brisk s _ hbrisk hrun hp).closed i m hm hrel

def leaveTaking : List Move :=
  [.start (.ok ⟨.v4 [127, 0, 0, 1], 5060⟩), .call .accept, .datagram 0 alice farewell,
    .call .accept, .datagram 1 alice greeting, .call .stop, .session 1 (.reply 0 .closed), .proceed 2]

/-- The stop has returned, and nobody has closed the session of the first visit. -/
theorem first_visit_left_open :
    ∃ w₀ a m, new hall = .ok w₀ ∧ w₀.steps leaveTaking = some a ∧ isBrisk leaveTaking w₀ = true ∧
      a.closesPending = false ∧ a.answer? 0 = some (.accepted 0 true) ∧ a.answer? 2 = some .done ∧
      a.listener = none ∧ a.table.entries = [] ∧ a.chores = [] ∧ a.machine? 0 = some m ∧
      m.session.state = .closing ∧ m.session.released = false := by
  have hb : isBrisk leaveTaking { settings := hall } = true := by
    decide
  have h : (({ settings := hall } : Server).steps leaveTaking).map (fun a =>
      (a.answer? 0, a.answer? 2, a.listener, a.table.entries)) =
      some (some (.accepted 0 true), some .done, none, []) := by
    decide
  have hc : (({ settings := hall } : Server).steps leaveTaking).map (fun a =>
      (a.closesPending, a.chores)) = some (false, []) := by
    decide
  have hm : (({ settings := hall } : Server).steps leaveTaking).bind (fun a =>
      (a.machine? 0).map fun m => (m.session.state, m.session.released)) =
      some (.closing, false) := by
    decide
  obtain ⟨a, ha, h⟩ := Option.map_eq_some_iff.1 h
  rw [ha, Option.map_some] at hc
  rw [ha, Option.bind_some] at hm
  obtain ⟨m, hm, hs⟩ := Option.map_eq_some_iff.1 hm
  simp only [Prod.mk.injEq, Option.some.injEq] at h hc hs
  obtain ⟨h1, h2, h3, h4⟩ := h
  exact ⟨_, a, m, rfl, ha, hb, hc.1, h1, h2, h3, h4, hc.2, hm, hs.1, hs.2⟩

/-- Two peers are there, and one of them has taken leave. The stop closes both, though a link fails
to close. -/
theorem stop_closes_sessions_guests :
    ∃ w₀ w a m n, new hall = .ok w₀ ∧
      w₀.steps [.start (.ok ⟨.v4 [127, 0, 0, 1], 5060⟩), .call .accept, .datagram 0 alice greeting,
        .call .accept, .datagram 1 bob farewell] = some w ∧
      w.listener.isSome = true ∧ w.beginsStopping (.call .stop) = true ∧
      w.steps [.call .stop, .session 0 (.reply 0 (.failed .peerClosed)), .proceed 2,
        .session 1 (.reply 0 .closed), .proceed 2] = some a ∧
      a.answer? 2 = some (.failed .peerClosed) ∧ a.listener = none ∧
      a.machine? 0 = some m ∧ m.session.state = .closed ∧
      a.machine? 1 = some n ∧ n.session.state = .closed := by
  have h : (({ settings := hall } : Server).steps [.start (.ok ⟨.v4 [127, 0, 0, 1], 5060⟩),
      .call .accept, .datagram 0 alice greeting, .call .accept, .datagram 1 bob farewell]).bind
      (fun w => (w.steps [.call .stop, .session 0 (.reply 0 (.failed .peerClosed)), .proceed 2,
        .session 1 (.reply 0 .closed), .proceed 2]).map fun a =>
          (w.listener.isSome, w.cells.length, a.answer? 2, a.closesPending, a.chores)) =
      some (true, 2, some (.failed .peerClosed), false, []) := by
    decide
  obtain ⟨w, hw, h⟩ := Option.bind_eq_some_iff.1 h
  obtain ⟨a, ha, h⟩ := Option.map_eq_some_iff.1 h
  simp only [Prod.mk.injEq] at h
  obtain ⟨hl, hlen, hans, hp, hnone⟩ := h
  obtain ⟨hlist, -, hall⟩ := stop_closes_sessions hall _ rfl _ w hw hl (.call .stop) rfl _ a ha
  obtain ⟨m, hm, -, -, -, -, hmc⟩ := hall 0 (by omega) (by decide) (by simp [hnone])
  obtain ⟨n, hn, -, -, -, -, hnc⟩ := hall 1 (by omega) (by decide) (by simp [hnone])
  exact ⟨_, w, a, m, n, rfl, hw, hl, rfl, ha, hans, hlist (by simp [opensListener]), hm,
    hmc (by decide) hp, hn, hnc (by decide) hp⟩

end Switchboard.Server
