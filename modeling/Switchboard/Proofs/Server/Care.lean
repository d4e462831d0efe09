import Switchboard.Proofs.Server.Errands

/-! What becomes of a session that goes off the table. Somebody lets its link go at once, or a stop has
it on the list of those that it will close. Else it is a stray: a new session took its place over UDP
when it was no longer alive and nobody had closed it, somebody took it off the table by hand, or the
stop that had it on its list was given up. -/
namespace Switchboard.Server

namespace Table
variable {t : Table} {p q : Address} {i j : Nat}

def Keyed (t : Table) : Prop := (t.entries.map (·.1)).Nodup

theorem Keyed.get? (h : t.Keyed) {e : Address × Nat} (he : e ∈ t.entries) :
    t.get? e.1 = some e.2 := by
  obtain ⟨d, hd⟩ : ∃ d, t.entries.find? (·.1 = e.1) = some d := by
    rw [← Option.isSome_iff_exists, List.find?_isSome]
    exact ⟨e, he, by simp⟩
  have hi : d.1 = e.1 := by simpa using List.find?_some hd
  rw [Table.get?, hd, List.inj_on_of_nodup_map h (List.mem_of_find?_eq_some hd) he hi,
    Option.map_some]

theorem Keyed.sublist {u : Table} (h : t.Keyed) (hu : u.entries.Sublist t.entries) : u.Keyed :=
  List.Nodup.sublist (hu.map _) h

theorem Keyed.erase (h : t.Keyed) (p : Address) : (t.erase p).Keyed :=
  h.sublist List.filter_sublist

theorem Keyed.insert (h : t.Keyed) (p : Address) (i : Nat) : (t.insert p i).Keyed := by
  have hn : p ∉ (t.erase p).entries.map (·.1) := by simp [Table.erase]
  rw [Keyed, Table.insert, List.map_append]
  exact List.nodup_append.2 ⟨h.erase p, List.nodup_singleton _, by
    rintro q hq _ hr rfl
    obtain rfl := List.mem_singleton.1 hr
    exact hn hq⟩

theorem mem_sessions_of_get? (h : t.get? p = some i) : i ∈ t.sessions :=
  List.mem_map_of_mem (mem_of_get? h)

/-- Only the session of that peer goes off the table. -/
theorem mem_sessions_erase (h : t.Keyed) (hi : i ∈ t.sessions) (p : Address) :
    i ∈ (t.erase p).sessions ∨ t.get? p = some i := by
  obtain ⟨e, he, rfl⟩ := List.mem_map.1 hi
  by_cases hp : e.1 = p
  · exact .inr (hp ▸ h.get? he)
  · exact .inl (List.mem_map_of_mem (List.mem_filter.2 ⟨he, by simpa using hp⟩))

theorem mem_sessions_insert (h : t.Keyed) (hi : i ∈ t.sessions) (p : Address) (j : Nat) :
    i ∈ (t.insert p j).sessions ∨ t.get? p = some i := by
  obtain hm | hg := mem_sessions_erase h hi p
  · refine .inl ?_
    rw [sessions, insert, List.map_append]
    exact List.mem_append_left _ hm
  · exact .inr hg

theorem mem_sessions_eraseIf (h : t.Keyed) (hi : i ∈ t.sessions) (p : Address) (j : Nat) :
    i ∈ (t.eraseIf p j).sessions ∨ i = j := by
  unfold eraseIf
  split
  next hj =>
    obtain hm | hg := mem_sessions_erase h hi p
    · exact .inl hm
    · have hj : t.get? p = some j := by simpa [holds] using hj
      exact .inr (Option.some.inj (hg.symm.trans hj))
  next => exact .inl hi

end Table

/-- A session that stands under its peer alone goes off the table for good. -/
theorem not_mem_withoutOwn {w : Server} {i : Nat} (hk : w.table.Keyed)
    (hp : ∀ e ∈ w.table.entries, ∃ c, w.cells[e.2]? = some c ∧ c.peer = e.1) :
    i ∉ (w.withoutOwn i).sessions := by
  intro hi
  obtain ⟨e, he, rfl⟩ := List.mem_map.1 hi
  have hew := (withoutOwn_sublist w e.2).subset he
  obtain ⟨c, hc, hcp⟩ := hp e hew
  have hg : w.table.get? c.peer = some e.2 := hcp ▸ hk.get? hew
  rw [withoutOwn, hc, Option.elim_some, Table.eraseIf, if_pos (by simpa [Table.holds] using hg)] at he
  simpa [hcp] using (List.mem_filter.1 he).2

def isReleased (w : Server) (i : Nat) : Bool := (w.machine? i).any (·.session.released)

def Chore.rest (x : Chore) : List Nat :=
  match x.wait with
  | .draining _ _ rest => rest
  | _ => []

/-- The sessions that nobody closes when a move takes them away. -/
def strays? (w : Server) : Move → List Nat
  | .datagram _ p _ =>
    if (w.pick p).2 then (w.table.get? p).toList.filter (!w.isReleased ·) else []
  | .remove p => (w.table.get? p).toList
  | .removeIf p i => if w.table.holds p i then [i] else []
  | .cancel c => (w.chore? c).elim [] Chore.rest
  | _ => []

def strays : List Move → Server → List Nat
  | [], _ => []
  | v :: vs, w => ((w.step v).map fun a => w.strays? v ++ strays vs a).getD []

/-- Where the sessions are: let go, on the table, on the list of a chore that is not in `out`, or in
`s`. -/
structure Cared (out : List ChoreId) (s : List Nat) (w : Server) : Prop where
  keyed : w.table.Keyed
  present : ∀ c ∈ out, ∃ x ∈ w.chores, x.id = c
  cared : ∀ i < w.cells.length, w.isReleased i = true ∨ i ∈ w.table.sessions ∨
    (∃ x ∈ w.chores, x.id ∉ out ∧ i ∈ x.rest) ∨ i ∈ s

variable {w a : Server} {x y : Chore} {v : Move} {out : List ChoreId} {s r : List Nat} {i : Nat}
  {t : Session.TaskId} {p : Address}

theorem isReleased_of_machine? {m : Session.Machine} (h : w.machine? i = some m) :
    w.isReleased i = m.session.released := by
  rw [isReleased, h, Option.any_some]

/-- What has been let go stays so. -/
theorem isReleased_steps {m n : Session.Machine} (hm : w.machine? i = some m)
    (hn : a.machine? i = some n) (us : List Session.Move) (hs : m.steps us = some n)
    (h : w.isReleased i = true) : a.isReleased i = true := by
  rw [isReleased_of_machine? hm] at h
  rw [isReleased_of_machine? hn]
  exact Session.Machine.steps_induction (P := fun m => m.session.released = true)
    (fun hb hs => Session.Machine.released_advance (Session.Machine.advance_step _ hs) hb) h us hs

theorem isReleased_modify {c : Cell} (hc : w.cells[i]? = some c) (f : Cell → Cell)
    {u : Session.Move} (hs : c.machine.step u = some (f c).machine) {j : Nat}
    (h : w.isReleased j = true) :
    ({ w with cells := w.cells.modify i f } : Server).isReleased j = true := by
  by_cases hj : j = i
  · subst hj
    have hr : c.machine.session.released = true := by simpa [isReleased, machine?, hc] using h
    have ha := Session.Machine.released_advance (Session.Machine.advance_step u hs) hr
    simpa [isReleased, machine?, hc] using ha
  · simpa [isReleased, machine?, Ne.symm hj] using h

theorem lt_of_isReleased (h : w.isReleased i = true) : i < w.cells.length := by
  obtain ⟨m, hm, -⟩ := (Option.any_eq_true _ _).1 h
  exact lt_of_machine? hm

theorem isReleased_enrol (h : i < w.cells.length) : (w.enrol p).isReleased i = w.isReleased i := by
  rw [isReleased, machine?_enrol, if_neg (Nat.ne_of_lt h), isReleased]

theorem isReleased_later (d : Duration) (w : Server) (i : Nat) :
    (w.later d).isReleased i = w.isReleased i := by
  rw [isReleased, machine?_later, Option.any_map, isReleased]

theorem isReleased_ask_close (h : i < w.cells.length) :
    (w.ask i .close).1.isReleased i = true := by
  obtain ⟨m, hm⟩ := machine?_of_lt h
  obtain ⟨c, hc, -⟩ := Option.map_eq_some_iff.1 hm
  unfold ask
  rw [hm]
  simpa [isReleased, machine?, put, hc] using Session.Machine.released_call_close m

/-- What a chore has waited for on a session is over only when the session has been let go. -/
theorem Errands.isReleased (he : Errands [] w) (hx : x ∈ w.chores) (ht : x.task? = some (i, t))
    {o : Session.Outcome} (ho : w.outcome? i t = some o) : w.isReleased i = true := by
  obtain ⟨m, hm, hmd⟩ := he.minds x hx (by simp) i t ht
  rw [isReleased_of_machine? hm]
  exact hmd.released (he.sound i m hm).1 (by simpa [outcome?, hm] using ho)

namespace Cared

theorem same (h : Cared out s w) (hc : a.cells = w.cells) (hx : a.chores = w.chores)
    (ht : a.table = w.table) : Cared out s a where
  keyed := ht ▸ h.keyed
  present := hx ▸ h.present
  cared := by
    rw [hc, hx, ht]
    simpa only [isReleased, machine?, hc] using h.cared

theorem mono (h : Cared out s w) (hs : ∀ i ∈ s, w.isReleased i = true ∨ i ∈ r) :
    Cared out r w :=
  { h with
    cared := fun i hi => by
      obtain hr | ht | hx | hm := h.cared i hi
      · exact .inl hr
      · exact .inr (.inl ht)
      · exact .inr (.inr (.inl hx))
      · obtain hr | hm := hs i hm
        · exact .inl hr
        · exact .inr (.inr (.inr hm)) }

/-- A chore takes what is on its list into its hands. -/
theorem takes (h : Cared [] s w) (hr : Rolled w) (hx : x ∈ w.chores) :
    Cared [x.id] (x.rest ++ s) w where
  keyed := h.keyed
  present c hc := ⟨x, hx, (List.mem_singleton.1 hc).symm⟩
  cared i hi := by
    obtain hl | ht | ⟨y, hy, -, hm⟩ | hm := h.cared i hi
    · exact .inl hl
    · exact .inr (.inl ht)
    · by_cases he : y.id = x.id
      · obtain rfl := hr.eq_of_id hy hx he
        exact .inr (.inr (.inr (List.mem_append_left _ hm)))
      · exact .inr (.inr (.inl ⟨y, hy, by simpa using he, hm⟩))
    · exact .inr (.inr (.inr (List.mem_append_right _ hm)))

theorem settle (h : Cared [x.id] s w) (o : Answer) : Cared [] s (w.settle x.id o) where
  keyed := h.keyed
  present := by simp
  cared i hi := by
    obtain hl | ht | ⟨y, hy, hn, hm⟩ | hm := h.cared i hi
    · exact .inl hl
    · exact .inr (.inl ht)
    · exact .inr (.inr (.inl ⟨y, mem_settle_of_ne hy (by simpa using hn), by simp, hm⟩))
    · exact .inr (.inr (.inr hm))

theorem update (h : Cared [x.id] (x.rest ++ s) w) : Cared [] s (w.update x) where
  keyed := h.keyed
  present := by simp
  cared i hi := by
    obtain hl | ht | ⟨y, hy, hn, hm⟩ | hm := h.cared i hi
    · exact .inl hl
    · exact .inr (.inl ht)
    · exact .inr (.inr (.inl ⟨y, mem_update_of_ne hy (by simpa using hn), by simp, hm⟩))
    · obtain hm | hm := List.mem_append.1 hm
      · obtain ⟨z, hz, hzi⟩ := h.present x.id (by simp)
        exact .inr (.inr (.inl ⟨x, mem_update_self hz hzi, by simp, hm⟩))
      · exact .inr (.inr (.inr hm))

theorem add (h : Cared out s w) (job : Job) : Cared out s (w.add job) where
  keyed := h.keyed
  present c hc := by
    obtain ⟨y, hy, hi⟩ := h.present c hc
    exact ⟨y, List.mem_append_left _ hy, hi⟩
  cared i hi := by
    obtain hl | ht | ⟨y, hy, hn, hm⟩ | hm := h.cared i hi
    · exact .inl hl
    · exact .inr (.inl ht)
    · exact .inr (.inr (.inl ⟨y, List.mem_append_left _ hy, hn, hm⟩))
    · exact .inr (.inr (.inr hm))

theorem table (h : Cared out s w) {t : Table} (hk : t.Keyed)
    (ht : ∀ i ∈ w.table.sessions, i ∈ t.sessions ∨ i ∈ r) :
    Cared out (r ++ s) { w with table := t } where
  keyed := hk
  present := h.present
  cared i hi := by
    obtain hl | hm | hx | hm := h.cared i hi
    · exact .inl hl
    · obtain hm | hm := ht i hm
      · exact .inr (.inl hm)
      · exact .inr (.inr (.inr (List.mem_append_left _ hm)))
    · exact .inr (.inr (.inl hx))
    · exact .inr (.inr (.inr (List.mem_append_right _ hm)))

theorem cells (h : Cared out s w) {cs : List Cell} (hl : cs.length = w.cells.length)
    (hr : ∀ i, w.isReleased i = true → ({ w with cells := cs } : Server).isReleased i = true) :
    Cared out s { w with cells := cs } where
  keyed := h.keyed
  present := h.present
  cared i hi := by
    obtain hm | ht | hx | hm := h.cared i (hl ▸ hi)
    · exact .inl (hr i hm)
    · exact .inr (.inl ht)
    · exact .inr (.inr (.inl hx))
    · exact .inr (.inr (.inr hm))

theorem modify (h : Cared out s w) {c : Cell} (hc : w.cells[i]? = some c) (f : Cell → Cell)
    {u : Session.Move} (hs : c.machine.step u = some (f c).machine) :
    Cared out s { w with cells := w.cells.modify i f } :=
  h.cells (List.length_modify ..) fun _ => isReleased_modify hc f hs

theorem put (h : Cared out s w) {m n : Session.Machine} (hm : w.machine? i = some m)
    {u : Session.Move} (hs : m.step u = some n) : Cared out s (w.put i n) := by
  obtain ⟨c, hc, rfl⟩ := Option.map_eq_some_iff.1 hm
  exact h.modify hc _ hs

theorem ask (h : Cared out s w) (i : Nat) (job : Session.Job) :
    Cared out s (w.ask i job).1 := by
  unfold Server.ask
  split
  next m hm => exact h.put hm (u := .call job) rfl
  next => exact h

/-- Who is asked to close is let go at once. -/
theorem close (h : Cared out (i :: s) w) : Cared out s (w.ask i .close).1 := by
  obtain ⟨cs, hask, hlen⟩ := ask_eq i .close w
  refine { h.ask i .close with cared := fun j hj => ?_ }
  obtain hr | ht | hx | hm := (h.ask i .close).cared j hj
  · exact .inl hr
  · exact .inr (.inl ht)
  · exact .inr (.inr (.inl hx))
  · obtain rfl | hm := List.mem_cons.1 hm
    · rw [hask, hlen] at hj
      exact .inl (isReleased_ask_close hj)
    · exact .inr (.inr (.inr hm))

/-! What a chore does that has its list in its hands. -/

theorem emit (h : Cared out s w) (e : Event) : Cared out s (w.emit e) := h.same rfl rfl rfl

theorem update_free (h : Cared [x.id] s w) (hx : x.rest = []) : Cared [] s (w.update x) := by
  refine Cared.update ?_
  rw [hx]
  exact h

theorem start (h : Cared out s w) (bound : Except Error Address) : Cared out s (w.start bound).1 := by
  unfold Server.start
  split
  · exact h
  · cases bound <;> exact h.same rfl rfl rfl

theorem stopped (h : Cared [x.id] s w) : Cared [] s (w.stopped x) := by
  unfold Server.stopped
  dsimp only
  split
  · exact (h.emit .didRun).settle _
  · exact h.settle _

theorem drain (l : List Nat) (h : Cared [x.id] (l ++ s) w) : Cared [] s (w.drain x l) := by
  cases l with
  | nil => exact (h.emit .didStop).stopped
  | cons i rest => exact Cared.update (x := { x with wait := .draining i _ rest }) h.close

/-- A stop takes the whole table into its hands. -/
theorem beginStop (h : Cared [x.id] s w) : Cared [] s (w.beginStop x) := by
  unfold Server.beginStop
  split
  · exact h.stopped
  · have hw : Cared [x.id] s ({ w with listener := none }.emit .willStop) := h.same rfl rfl rfl
    exact drain _ (hw.table (t := {}) (by simp [Table.Keyed]) fun i hi => .inr hi)

theorem acceptFailed (h : Cared [x.id] s w) (e : Error) : Cared [] s (w.acceptFailed x e) := by
  unfold Server.acceptFailed
  split
  · exact h.settle _
  · split
    · split
      · exact Cared.beginStop (x := { x with fault := some e }) h
      · exact h.settle _
    · exact Cared.update_free (x := { x with failures := x.failures + 1, wait := .resting _ }) h rfl

theorem beginAccept (h : Cared [x.id] s w) : Cared [] s (w.beginAccept x) := by
  unfold Server.beginAccept
  split
  · exact h.acceptFailed _
  next l _ =>
    exact Cared.update_free (x := { x with wait := .listening l }) (h.emit .willAccept) rfl

theorem accepted (h : Cared [x.id] s w) (i : Nat) (fresh : Bool) :
    Cared [] s (w.accepted x i fresh) := by
  obtain ⟨t, ht, -⟩ := accepted_told x i fresh w
  have hk : Cared [x.id] s { w with trace := t ++ w.trace } := h.same rfl rfl rfl
  rw [ht]
  split
  · split
    · exact Cared.beginAccept (x := { x with failures := 0 }) (hk.add _)
    · exact Cared.beginAccept (x := { x with failures := 0 }) hk
  · exact hk.settle _

/-- A new session takes the place of the one that stood for its peer. -/
theorem enrol (h : Cared out s w) (p : Address) :
    Cared out ((w.table.get? p).toList ++ s) (w.enrol p) where
  keyed := h.keyed.insert p _
  present := h.present
  cared i hi := by
    by_cases he : i = w.cells.length
    · exact .inr (.inl (he ▸ Table.mem_sessions_of_get? (Table.get?_insert_self _ p _)))
    · have hlt : i < w.cells.length := by
        have hl : i < w.cells.length + 1 := by simpa [Server.enrol] using hi
        omega
      rw [isReleased_enrol hlt]
      obtain hr | ht | hx | hs := h.cared i hlt
      · exact .inl hr
      · obtain ht | hg := Table.mem_sessions_insert h.keyed ht p w.cells.length
        · exact .inr (.inl ht)
        · exact .inr (.inr (.inr (List.mem_append_left _ (by simp [hg]))))
      · exact .inr (.inr (.inl hx))
      · exact .inr (.inr (.inr (List.mem_append_right _ hs)))

theorem connected (h : Cared [x.id] s w) (p : Address) : Cared [] s (w.connected x p) := by
  have he := h.enrol p
  unfold Server.connected
  dsimp only
  split
  next hg =>
    rw [hg] at he
    exact he.accepted _ true
  next stale hg =>
    rw [hg] at he
    exact Cared.update_free (x := { x with wait := .replacing _ stale _ }) he.close rfl

theorem hand (h : Cared out s w) (i : Nat) (data : Bytes) : Cared out s (w.hand i data) := by
  obtain hc | ⟨c, f, hc, hf, -, hs⟩ := hand_cases i data w
  · exact h.same hc rfl rfl
  · rw [hf]
    exact h.modify hc f hs

/-- Over UDP nobody closes the session that a new one replaces. -/
theorem datagram (h : Cared [x.id] s w) (p : Address) (data : Bytes) :
    Cared [] (w.strays? (.datagram x.id p data) ++ s) (w.datagram x p data) := by
  rw [datagram_eq]
  refine Cared.accepted (Cared.hand ?_ _ _) _ _
  rw [strays?, ready]
  split
  next =>
    refine (h.enrol p).mono fun i hi => ?_
    obtain hi | hi := List.mem_append.1 hi
    · cases hr : w.isReleased i with
      | true => exact .inl (by rwa [isReleased_enrol (lt_of_isReleased hr)])
      | false => exact .inr (List.mem_append_left _ (List.mem_filter.2 ⟨hi, by simp [hr]⟩))
    · exact .inr (List.mem_append_right _ hi)
  next => exact h

theorem begin (h : Cared [x.id] s w) : Cared [] s (w.begin x) := by
  unfold Server.begin
  split
  · exact h.beginAccept
  · exact h.beginAccept
  · exact h.beginAccept
  · exact h.beginStop
  · exact Cared.update_free (x := { x with wait := .tending _ }) (h.ask _ _) rfl
  next p _ =>
    split
    · exact h.settle _
    next i hi =>
      have ht : Cared [x.id] ([i] ++ s) { w with table := w.table.erase p } :=
        h.table (h.keyed.erase p) fun j hj => by
          obtain hj | hg := Table.mem_sessions_erase h.keyed hj p
          · exact .inl hj
          · exact .inr (by simpa using (Option.some.inj (hi.symm.trans hg)).symm)
      exact Cared.update_free (x := { x with wait := .closing i _ }) ht.close rfl

/-- A chore that has just been asked for has nothing on its list. -/
theorem anew (h : Cared [] s w) (hr : Rolled w) (job : Job) :
    Cared [w.fresh] s (w.add job) :=
  (h.add job).takes (x := ⟨w.fresh, job, .starting, 0, none⟩) (hr.add job)
    (List.mem_append_right _ List.mem_cons_self)

theorem callRun (h : Cared [] s w) (hr : Rolled w) (bound : Except Error Address) (down : Bool) :
    Cared [] s (w.callRun bound down) := by
  have he : Rolled (w.emit .willRun) := hr.same rfl rfl
  have hs := ((h.emit .willRun).anew he .run).start bound
  unfold Server.callRun
  dsimp only
  split
  next hb =>
    rw [hb] at hs
    split
    · exact Cared.beginStop (x := ⟨w.fresh, .run, .starting, 0, none⟩) hs
    · exact Cared.begin (x := ⟨w.fresh, .run, .starting, 0, none⟩) hs
  next hb =>
    rw [hb] at hs
    exact Cared.settle (x := ⟨w.fresh, .run, .starting, 0, none⟩) hs _

theorem release (h : Cared out s w) (x : Chore) : Cared out s (w.release x) := by
  unfold Server.release
  split
  · split
    next n hn =>
      obtain ⟨m, hm, hs⟩ := Option.bind_eq_some_iff.1 hn
      exact h.put hm hs
    next => exact h
  · exact h

theorem filter (h : Cared [x.id] s w) :
    Cared [] s { w with chores := w.chores.filter (·.id ≠ x.id) } :=
  { h.settle .done with }

/-- Who waits for something else than a session to close has nothing on its list. -/
theorem empty_handed (h : Cared [] s w) (hr : Rolled w) (hx : x ∈ w.chores) (hn : x.rest = []) :
    Cared [x.id] s w := by
  have ht := h.takes hr hx
  rwa [hn] at ht

theorem tended (h : Cared [x.id] s w) (he : Errands [] w) (hx : x ∈ w.chores)
    (ht : x.task? = some (i, t)) {o : Session.Outcome} (ho : w.outcome? i t = some o) :
    Cared [x.id] s { w with table := w.withoutOwn i } := by
  have hk : Cared [x.id] ([i] ++ s) { w with table := w.withoutOwn i } := by
    refine h.table ?_ fun j hj => ?_
    · exact h.keyed.sublist (withoutOwn_sublist w i)
    · unfold withoutOwn
      cases w.cells[i]? with
      | none => exact .inl hj
      | some c =>
        obtain hj | rfl := Table.mem_sessions_eraseIf h.keyed hj c.peer i
        · exact .inl hj
        · exact .inr List.mem_cons_self
  refine hk.mono fun j hj => ?_
  obtain rfl | hj := List.mem_cons.1 hj
  · exact .inl (he.isReleased hx ht ho)
  · exact .inr hj

theorem pass (h : Cared out s w) (d : Duration) : Cared out s (w.later d) where
  keyed := h.keyed
  present := h.present
  cared i hi := by
    rw [isReleased_later]
    exact h.cared i (by simpa [later] using hi)

/-- What a move takes away has been let go, or is on the list of a stop, or is a stray. -/
theorem step (h : Cared [] s w) (he : Errands [] w) (hs : w.step v = some a) :
    Cared [] (w.strays? v ++ s) a := by
  have hr := he.rolled
  cases turn_step hs with
  | start bound => exact h.start bound
  | @call job => exact Cared.begin (x := ⟨w.fresh, job, .starting, 0, none⟩) (h.anew hr job)
  | run bound down => exact h.callRun hr bound down
  | spawn => exact h.add _
  | begin hx hw => exact (h.empty_handed hr hx (by simp [Chore.rest, hw])).begin
  | connected p hx hw => exact (h.empty_handed hr hx (by simp [Chore.rest, hw])).connected p
  | datagram p data hx hw => exact (h.empty_handed hr hx (by simp [Chore.rest, hw])).datagram p data
  | acceptFailed e hx hw => exact (h.empty_handed hr hx (by simp [Chore.rest, hw])).acceptFailed e
  | wake hx hw => exact (h.empty_handed hr hx (by simp [Chore.rest, hw])).beginAccept
  | @replaced x i stale t o hx hw =>
    exact (h.empty_handed hr hx (by simp [Chore.rest, hw])).accepted i true
  | @tended x i t o hx hj hw ho =>
    have hn := h.empty_handed hr hx (by simp [Chore.rest, hw])
    exact (hn.tended he hx (by simp [Chore.task?, hj, hw]) ho).settle _
  | closed hx hw => exact (h.empty_handed hr hx (by simp [Chore.rest, hw])).settle _
  | @drained x i t rest o fault hx hw =>
    have ht := h.takes hr hx
    rw [show x.rest = rest by simp [Chore.rest, hw]] at ht
    exact Cared.drain (x := { x with fault }) rest ht
  | @shutDown x hx hj hw =>
    have hn : x.rest = [] := by
      obtain ⟨l, hw⟩ | ⟨i, stale, t, hw⟩ | ⟨d, hw⟩ := hw <;> simp [Chore.rest, hw]
    exact ((h.empty_handed hr hx hn).release x).beginStop
  | @cancel x hx =>
    have hk := (h.takes hr hx).release x
    have hst : w.strays? (.cancel x.id) = x.rest := by
      rw [strays?, hr.chore?_eq_some_iff.2 ⟨hx, rfl⟩, Option.elim_some]
    obtain ⟨cs, hrel, -⟩ := release_eq x w
    rw [hrel] at hk ⊢
    rw [hst]
    exact hk.filter
  | session ho hm hn => exact h.put hm hn
  | receive rest _ hc hn => exact h.modify hc _ hn
  | remove p =>
    refine h.table (h.keyed.erase p) fun j hj => ?_
    obtain hj | hg := Table.mem_sessions_erase h.keyed hj p
    · exact .inl hj
    · exact .inr (by simp [strays?, hg])
  | removeIf p i =>
    refine h.table (h.keyed.sublist (sublist_eraseIf _ _ _)) fun j hj => ?_
    by_cases hi : w.table.holds p i = true
    · obtain hj | rfl := Table.mem_sessions_eraseIf h.keyed hj p i
      · exact .inl hj
      · exact .inr (by simp [strays?, hi])
    · rw [Table.eraseIf, if_neg hi]
      exact .inl hj
  | pass d => exact h.pass d

theorem steps (h : Cared [] s w) (he : Errands [] w) (vs : List Move) (hs : w.steps vs = some a) :
    Cared [] (w.strays vs ++ s) a := by
  induction vs generalizing w s with
  | nil =>
    obtain rfl := Option.some.inj hs
    exact h
  | cons v vs ih =>
    obtain ⟨b, hb, hs⟩ := Option.bind_eq_some_iff.1 hs
    refine (ih (h.step he hb) (he.step hb) hs).mono fun i hi => .inr ?_
    rw [strays, hb, Option.map_some, Option.getD_some]
    simp only [List.mem_append] at hi ⊢
    tauto

end Cared

theorem cared_empty (s : Settings) : Cared [] [] { settings := s } where
  keyed := by simp [Table.Keyed]
  present := by simp
  cared := by simp

/-- Of all that a run of a server has made, what has not been let go is on the table, or on the list
of a stop, or a stray. -/
theorem cared_steps (s : Settings) (vs : List Move) (hs : ({ settings := s } : Server).steps vs = some w) :
    Cared [] (strays vs { settings := s }) w := by
  have h := (cared_empty s).steps (errands_empty s) vs hs
  rwa [List.append_nil] at h

end Switchboard.Server
