import Switchboard.Proofs.Server.Chores
import Switchboard.Proofs.Server.Reuse

/-! Who is still admitted when the server has been stopped. A stop takes the listener away from those
who come, but not from those who wait: each of them may still admit one peer, and then goes no
further. So a server admits nobody behind a stop only where nobody waited. -/
namespace Switchboard.Server

def isAccepted : Answer → Bool
  | .accepted .. => true
  | _ => false

def Chore.isAdmitting (x : Chore) : Bool := isListening x || x.isReplacing

def opensListener : Move → Bool
  | .start _ | .run .. => true
  | _ => false

def beginsStopping (w : Server) : Move → Bool
  | .call .stop | .shutDown _ => true
  | .begin c => (w.chore? c).any (·.job = .stop)
  | _ => false

def waiting (w : Server) : Nat := w.chores.countP isListening

def admitting (w : Server) : Nat := w.chores.countP Chore.isAdmitting

def toldOf (w : Server) : Nat := w.trace.countP (isDidAccept ·.2)

def given (w : Server) : Nat := w.finished.countP (isAccepted ·.2)

structure Waning (w a : Server) : Prop where
  listener : a.listener = none
  grown : w.cells.length ≤ a.cells.length
  cells : a.cells.length + a.waiting ≤ w.cells.length + w.waiting
  told : a.toldOf + a.admitting ≤ w.toldOf + w.admitting
  given : a.given + a.admitting ≤ w.given + w.admitting
  entries : ∀ e ∈ a.table.entries, e ∈ w.table.entries ∨
    w.cells.length ≤ e.2 ∧ e.2 < a.cells.length

variable {w a b : Server} {x : Chore} {v : Move}

theorem Waning.refl (h : w.listener = none) : Waning w w :=
  ⟨h, Nat.le_refl _, Nat.le_refl _, Nat.le_refl _, Nat.le_refl _, fun _ => .inl⟩

theorem Waning.trans (h : Waning w a) (k : Waning a b) : Waning w b where
  listener := k.listener
  grown := Nat.le_trans h.grown k.grown
  cells := Nat.le_trans k.cells h.cells
  told := Nat.le_trans k.told h.told
  given := Nat.le_trans k.given h.given
  entries e he := by
    obtain he | he := k.entries e he
    · obtain he | ⟨hle, hlt⟩ := h.entries e he
      · exact .inl he
      · exact .inr ⟨hle, Nat.lt_of_lt_of_le hlt k.grown⟩
    · exact .inr ⟨Nat.le_trans h.grown he.1, he.2⟩

/-! The pieces of a move that admit nobody. -/

theorem waning_emit {e : Event} (h : w.listener = none) (he : isDidAccept e = false) :
    Waning w (w.emit e) :=
  { Waning.refl h with told := by simp [toldOf, emit, he, admitting] }

theorem waning_chores {l : List Chore} {f : Nat} {r : List (ChoreId × Answer)}
    (h : w.listener = none) (hl : l.countP isListening ≤ w.waiting)
    (ha : l.countP Chore.isAdmitting ≤ w.admitting)
    (hr : r.countP (isAccepted ·.2) = w.given) :
    Waning w { w with chores := l, fresh := f, finished := r } :=
  { Waning.refl h with
    cells := Nat.add_le_add_left hl _
    told := Nat.add_le_add_left ha _
    given := Nat.add_le_add (Nat.le_of_eq hr) ha }

theorem countP_update {p : Chore → Bool} (hx : p x = false) :
    (w.update x).chores.countP p ≤ w.chores.countP p := by
  rw [update, List.countP_map]
  refine List.countP_mono_left fun y _ hy => ?_
  rw [Function.comp_apply] at hy
  split at hy
  · simp [hx] at hy
  · exact hy

theorem isListening_of_not_isAdmitting (hx : x.isAdmitting = false) : isListening x = false :=
  (Bool.or_eq_false_iff.1 hx).1

theorem waning_update (h : w.listener = none) (hx : x.isAdmitting = false) :
    Waning w (w.update x) :=
  waning_chores h (countP_update (isListening_of_not_isAdmitting hx)) (countP_update hx) rfl

theorem waning_settle {o : Answer} (h : w.listener = none) (c : ChoreId)
    (ho : isAccepted o = false) : Waning w (w.settle c o) :=
  waning_chores h List.filter_sublist.countP_le List.filter_sublist.countP_le
    (List.countP_cons_of_neg (by simp [ho]))

theorem waning_add (h : w.listener = none) (job : Job) : Waning w (w.add job) :=
  waning_chores h (by simp [waiting, isListening])
    (by simp [admitting, Chore.isAdmitting, isListening, Chore.isReplacing]) rfl

theorem waning_table {t : Table} (h : w.listener = none) (ht : t.entries ⊆ w.table.entries) :
    Waning w { w with table := t } :=
  { Waning.refl h with entries := fun _ he => .inl (ht he) }

theorem waning_cells {cs : List Cell} (h : w.listener = none) (hc : cs.length = w.cells.length) :
    Waning w { w with cells := cs } :=
  { Waning.refl h with
    grown := Nat.le_of_eq hc.symm
    cells := Nat.le_of_eq (congrArg (· + w.waiting) hc)
    entries := fun _ => .inl }

theorem waning_put (h : w.listener = none) (i : Nat) (m : Session.Machine) :
    Waning w (w.put i m) :=
  waning_cells h (List.length_modify _ _ _)

theorem waning_ask (h : w.listener = none) (i : Nat) (job : Session.Job) :
    Waning w (w.ask i job).1 := by
  obtain ⟨cs, hask, hlen⟩ := ask_eq i job w
  rw [hask]
  exact waning_cells h hlen

theorem waning_stopped (h : w.listener = none) (x : Chore) : Waning w (w.stopped x) := by
  have ho : isAccepted (x.fault.elim .done Answer.failed) = false := by
    cases x.fault <;> rfl
  unfold stopped
  dsimp only
  split
  · have he := waning_emit (e := .didRun) h rfl
    exact he.trans (waning_settle he.listener _ ho)
  · exact waning_settle h _ ho

theorem waning_drain (h : w.listener = none) (x : Chore) (l : List Nat) :
    Waning w (w.drain x l) := by
  cases l with
  | nil =>
    have he := waning_emit (e := .didStop) h rfl
    exact he.trans (waning_stopped he.listener x)
  | cons i rest =>
    have hk := waning_ask h i .close
    exact hk.trans (waning_update hk.listener rfl)

theorem waning_beginStop (h : w.listener = none) (x : Chore) : Waning w (w.beginStop x) := by
  unfold beginStop
  rw [h]
  exact waning_stopped h x

theorem waning_acceptFailed (h : w.listener = none) (x : Chore) (e : Error) :
    Waning w (w.acceptFailed x e) := by
  unfold acceptFailed
  split
  · exact waning_settle h _ rfl
  · split
    · split
      · exact waning_beginStop h _
      · exact waning_settle h _ rfl
    · exact waning_update h rfl

theorem waning_beginAccept (h : w.listener = none) (x : Chore) : Waning w (w.beginAccept x) := by
  unfold beginAccept
  rw [h]
  exact waning_acceptFailed h x _

theorem waning_begin (h : w.listener = none) (x : Chore) : Waning w (w.begin x) := by
  unfold begin
  split
  · exact waning_beginAccept h x
  · exact waning_beginAccept h x
  · exact waning_beginAccept h x
  · exact waning_beginStop h x
  next i _ =>
    have hk := waning_ask h i (tending w.settings)
    exact hk.trans (waning_update hk.listener rfl)
  next p _ =>
    split
    · exact waning_settle h _ rfl
    next i _ =>
      have ht : Waning w { w with table := w.table.erase p } :=
        waning_table h List.filter_sublist.subset
      have hk := waning_ask ht.listener i .close
      exact ht.trans (hk.trans (waning_update hk.listener rfl))

theorem waning_release (h : w.listener = none) (x : Chore) : Waning w (w.release x) := by
  obtain ⟨cs, hrel, hlen⟩ := release_eq x w
  rw [hrel]
  exact waning_cells h hlen

/-! The pieces that do: whoever admits a peer waits no longer. -/

theorem countP_dismiss {p : Chore → Bool} {l : List Chore} (hx : x ∈ l) (hp : p x = true) :
    (l.filter (·.id ≠ x.id)).countP p + 1 ≤ l.countP p := by
  have hc := List.countP_eq_countP_filter_add l p fun y => decide (y.id ≠ x.id)
  have hpos : 0 < (l.filter fun y => !decide (y.id ≠ x.id)).countP p :=
    List.countP_pos_iff.2 ⟨x, List.mem_filter.2 ⟨hx, by simp⟩, hp⟩
  omega

/-- Who comes back without a listener ends. -/
theorem beginAccept_off (h : w.listener = none) (x : Chore) :
    ∃ new o, w.beginAccept x = { w with trace := new ++ w.trace }.settle x.id o ∧
      new.countP (isDidAccept ·.2) = 0 := by
  have hk : w.beginAccept x = if x.job = .run
      then (w.emit .didRun).settle x.id (.failed (.linkClosed "server".toList))
      else w.settle x.id (.failed (.linkClosed "server".toList)) := by
    unfold beginAccept acceptFailed beginStop stopped
    simp only [h, Option.isNone_none, Bool.true_or, if_true]
    cases x.job <;> simp [isLasting]
  rw [hk]
  split
  · exact ⟨[(w.now, .didRun)], _, rfl, rfl⟩
  · exact ⟨[], _, rfl, rfl⟩

/-- Who has a session to give, or to have looked after, without a listener ends with it. -/
theorem accepted_off (h : w.listener = none) (x : Chore) (i : Nat) (fresh : Bool) :
    ∃ new cs f o, w.accepted x i fresh =
        { w with
          trace := new ++ w.trace, chores := w.chores ++ cs, fresh := f }.settle x.id o ∧
      new.countP (isDidAccept ·.2) ≤ 1 ∧ ∀ y ∈ cs, y.wait = .starting := by
  obtain ⟨t, ht, htold⟩ := accepted_told x i fresh w
  have hc : t.countP (isDidAccept ·.2) ≤ 1 := by
    obtain rfl | ⟨p, rfl⟩ := htold
    · exact Nat.zero_le _
    · exact Nat.le_refl _
  have late (u : List (Duration × Event)) (hu : u.countP (isDidAccept ·.2) = 0) :
      (u ++ t).countP (isDidAccept ·.2) ≤ 1 := by
    rw [List.countP_append, hu, Nat.zero_add]
    exact hc
  rw [ht]
  split
  · split
    · obtain ⟨u, o, ha, hu⟩ := beginAccept_off
        (w := { w with trace := t ++ w.trace }.add (.tend i)) h { x with failures := 0 }
      refine ⟨u ++ t, [⟨w.fresh, .tend i, .starting, 0, none⟩], w.fresh + 1, o, ?_, late u hu,
        by simp⟩
      rw [ha, List.append_assoc]
      rfl
    · obtain ⟨u, o, ha, hu⟩ := beginAccept_off
        (w := { w with trace := t ++ w.trace }) h { x with failures := 0 }
      refine ⟨u ++ t, [], w.fresh, o, ?_, late u hu, by simp⟩
      rw [ha, List.append_assoc, List.append_nil]
  · exact ⟨t, [], w.fresh, _, by rw [List.append_nil], hc, by simp⟩

/-- A chore that has got a session, behind `w` and with the session in place at `b`. -/
theorem waning_accepted (h : b.listener = none) (hx : x ∈ w.chores) (ha : x.isAdmitting = true)
    (hb : b.chores = w.chores ∧ b.trace = w.trace ∧ b.finished = w.finished)
    (hg : w.cells.length ≤ b.cells.length)
    (hc : b.cells.length ≤ w.cells.length + if isListening x then 1 else 0)
    (he : ∀ e ∈ b.table.entries, e ∈ w.table.entries ∨
      w.cells.length ≤ e.2 ∧ e.2 < b.cells.length) (i : Nat) (fresh : Bool) : Waning w (b.accepted x i fresh) := by
  obtain ⟨hbc, hbt, hbf⟩ := hb
  obtain ⟨new, cs, f, o, hacc, hnew, hcs⟩ := accepted_off h x i fresh
  have count {p : Chore → Bool} (hp : ∀ y ∈ cs, p y = false) :
      ((w.chores ++ cs).filter (·.id ≠ x.id)).countP p =
        (w.chores.filter (·.id ≠ x.id)).countP p := by
    have h0 : (cs.filter (·.id ≠ x.id)).countP p = 0 :=
      List.countP_eq_zero.2 fun y hy => by simp [hp y (List.mem_filter.1 hy).1]
    rw [List.filter_append, List.countP_append, h0, Nat.add_zero]
  have hl : ∀ y ∈ cs, isListening y = false := fun y hy => by simp [isListening, hcs y hy]
  have hr : ∀ y ∈ cs, y.isAdmitting = false := fun y hy => by
    simp [Chore.isAdmitting, hl y hy, Chore.isReplacing, hcs y hy]
  have hwait : (b.accepted x i fresh).waiting = (w.chores.filter (·.id ≠ x.id)).countP isListening := by
    rw [hacc, waiting, ← count hl, ← hbc]
    rfl
  have hadm : (b.accepted x i fresh).admitting + 1 ≤ w.admitting := by
    have hd := countP_dismiss hx ha
    rw [← count hr] at hd
    rw [hacc, admitting, admitting]
    simpa only [settle, hbc] using hd
  obtain ⟨hcells, htable⟩ := accepted_same x i fresh b
  refine ⟨by rw [hacc]; exact h, by rw [hcells]; exact hg, ?_, ?_, ?_,
    by rw [htable, hcells]; exact he⟩
  · rw [hcells, hwait]
    split at hc
    next hx' =>
      have hd := countP_dismiss hx hx'
      exact Nat.le_trans (Nat.add_le_add_right hc _) (by unfold waiting; omega)
    next => exact Nat.add_le_add hc List.filter_sublist.countP_le
  · have ht : (b.accepted x i fresh).toldOf ≤ w.toldOf + 1 := by
      rw [hacc, toldOf, toldOf, ← hbt]
      simp only [settle, List.countP_append]
      omega
    omega
  · have ht : (b.accepted x i fresh).given ≤ w.given + 1 := by
      rw [hacc, given, given, ← hbf]
      simp only [settle, List.countP_cons]
      split <;> omega
    omega

theorem mem_enrol {p : Address} {e : Address × Nat} (h : e ∈ (w.enrol p).table.entries) :
    e ∈ w.table.entries ∨ w.cells.length ≤ e.2 ∧ e.2 < (w.enrol p).cells.length := by
  obtain h | rfl := Table.mem_insert h
  · exact .inl h
  · exact .inr ⟨Nat.le_refl _, by simp [enrol]⟩

theorem length_enrol (p : Address) (w : Server) :
    (w.enrol p).cells.length = w.cells.length + 1 := by
  simp [enrol]

/-- A chore whose peer has another session goes on to close that one. -/
theorem waning_replacing {i stale : Nat} {t : Session.TaskId} (h : b.listener = none)
    (hr : Rolled w) (hx : x ∈ w.chores) (hl : isListening x = true)
    (hb : b.chores = w.chores ∧ b.trace = w.trace ∧ b.finished = w.finished)
    (hc : b.cells.length = w.cells.length + 1)
    (he : ∀ e ∈ b.table.entries, e ∈ w.table.entries ∨
      w.cells.length ≤ e.2 ∧ e.2 < b.cells.length) :
    Waning w (b.update { x with wait := .replacing i stale t }) := by
  obtain ⟨hbc, hbt, hbf⟩ := hb
  have hwait : (b.update { x with wait := .replacing i stale t }).waiting + 1 ≤ w.waiting := by
    refine Nat.le_trans (Nat.add_le_add_right ?_ 1) (countP_dismiss hx hl)
    rw [waiting, update, List.countP_map, List.countP_filter, hbc]
    refine List.countP_mono_left fun y _ hy => ?_
    rw [Function.comp_apply] at hy
    split at hy
    · simp [isListening] at hy
    next hi => simp [hy, hi]
  have hadm : (b.update { x with wait := .replacing i stale t }).admitting ≤ w.admitting := by
    rw [admitting, update, List.countP_map, hbc]
    refine List.countP_mono_left fun y hy hp => ?_
    rw [Function.comp_apply] at hp
    split at hp
    next hi =>
      obtain rfl := hr.eq_of_id hy hx hi
      simp [Chore.isAdmitting, hl]
    next => exact hp
  refine ⟨h, hc ▸ Nat.le_succ _, ?_, ?_, ?_, he⟩
  · have hlen : (b.update { x with wait := .replacing i stale t }).cells.length =
        w.cells.length + 1 := hc
    omega
  · exact Nat.add_le_add (Nat.le_of_eq (congrArg (List.countP _) hbt)) hadm
  · exact Nat.add_le_add (Nat.le_of_eq (congrArg (List.countP _) hbf)) hadm

theorem isAdmitting_of_isListening (hl : isListening x = true) : x.isAdmitting = true := by
  simp [Chore.isAdmitting, hl]

theorem waning_connected (h : w.listener = none) (hr : Rolled w) (hx : x ∈ w.chores)
    (hl : isListening x = true) (p : Address) : Waning w (w.connected x p) := by
  unfold connected
  dsimp only
  split
  · refine waning_accepted (b := w.enrol p) h hx (isAdmitting_of_isListening hl) ⟨rfl, rfl, rfl⟩
      ?_ ?_ (fun e => mem_enrol) _ _
    · rw [length_enrol]
      exact Nat.le_succ _
    · rw [length_enrol, if_pos hl]
  next stale _ =>
    obtain ⟨cs, hask, hlen⟩ := ask_eq stale .close (w.enrol p)
    rw [hask]
    exact waning_replacing h hr hx hl ⟨rfl, rfl, rfl⟩ (hlen.trans (length_enrol p w))
      fun e he => hlen ▸ mem_enrol he

theorem ready_same (w : Server) (p : Address) : (w.ready p).listener = w.listener ∧
    (w.ready p).chores = w.chores ∧ (w.ready p).trace = w.trace ∧
    (w.ready p).finished = w.finished := by
  unfold ready
  split <;> exact ⟨rfl, rfl, rfl, rfl⟩

theorem waning_datagram (h : w.listener = none) (hx : x ∈ w.chores) (hl : isListening x = true)
    (p : Address) (data : Bytes) : Waning w (w.datagram x p data) := by
  obtain ⟨hlis, hsame⟩ := ready_same w p
  have hlen : w.cells.length ≤ (w.ready p).cells.length ∧
      (w.ready p).cells.length ≤ w.cells.length + 1 := by
    unfold ready
    split
    · rw [length_enrol]
      exact ⟨Nat.le_succ _, Nat.le_refl _⟩
    · exact ⟨Nat.le_refl _, Nat.le_succ _⟩
  have hent : ∀ e ∈ (w.ready p).table.entries, e ∈ w.table.entries ∨
      w.cells.length ≤ e.2 ∧ e.2 < (w.ready p).cells.length := by
    intro e he
    unfold ready at he ⊢
    split at he
    next hf =>
      rw [if_pos hf]
      exact mem_enrol he
    · exact .inl he
  have hmod (i : Nat) (d : Bytes) :
      ((w.ready p).hand i d).cells.length = (w.ready p).cells.length := List.length_modify ..
  rw [datagram_eq]
  refine waning_accepted (b := (w.ready p).hand (w.pick p).1 _) (hlis.trans h) hx
    (isAdmitting_of_isListening hl) hsame ?_ ?_ (fun e he => hmod _ _ ▸ hent e he) _ _
  · rw [hmod]
    exact hlen.1
  · rw [hmod, if_pos hl]
    exact hlen.2

theorem waning_step (h : w.listener = none) (hr : Rolled w) (hv : opensListener v = false)
    (hs : w.step v = some a) : Waning w a := by
  cases turn_step hs with
  | start | run => simp [opensListener] at hv
  | @call job =>
    have hk := waning_add h job
    exact hk.trans (waning_begin hk.listener _)
  | spawn => exact waning_add h _
  | begin => exact waning_begin h _
  | connected p hx hl => exact waning_connected h hr hx (by rw [isListening, hl]) p
  | datagram p data hx hl => exact waning_datagram h hx (by rw [isListening, hl]) p data
  | acceptFailed e => exact waning_acceptFailed h _ e
  | wake => exact waning_beginAccept h _
  | @replaced x i stale t o hx hw =>
    have ha : x.isAdmitting = true := by simp [Chore.isAdmitting, Chore.isReplacing, hw]
    exact waning_accepted h hx ha ⟨rfl, rfl, rfl⟩ (Nat.le_refl _) (Nat.le_add_right _ _)
      (fun _ => .inl) i true
  | @tended x i =>
    have ht : Waning w { w with table := w.withoutOwn i } :=
      waning_table h (withoutOwn_sublist w i).subset
    exact ht.trans (waning_settle ht.listener _ rfl)
  | @closed x i t o r _ _ _ hr =>
    refine waning_settle h x.id ?_
    obtain rfl | ⟨e, rfl⟩ := hr <;> rfl
  | drained => exact waning_drain h _ _
  | @shutDown x =>
    have hk := waning_release h x
    exact hk.trans (waning_beginStop hk.listener x)
  | @cancel x =>
    have hk := waning_release h x
    obtain ⟨cs, hrel, -⟩ := release_eq x w
    rw [hrel] at hk ⊢
    exact hk.trans (waning_chores hk.listener List.filter_sublist.countP_le
      List.filter_sublist.countP_le rfl)
  | session => exact waning_put h _ _
  | receive => exact waning_cells h (List.length_modify ..)
  | remove => exact waning_table h List.filter_sublist.subset
  | removeIf => exact waning_table h (sublist_eraseIf _ _ _).subset
  | pass d =>
    have hk : Waning w { w with cells := w.cells.map (Cell.later d) } :=
      waning_cells h (List.length_map _)
    exact { hk with }

theorem waning_steps (h : w.listener = none) (hr : Rolled w) (vs : List Move)
    (hv : ∀ v ∈ vs, opensListener v = false) (hs : w.steps vs = some a) : Waning w a := by
  have hk : Waning w a ∧ Rolled a := by
    refine steps_induction vs (P := fun b => Waning w b ∧ Rolled b) (fun v hm b d hb hd => ?_)
      ⟨.refl h, hr⟩ hs
    exact ⟨hb.1.trans (waning_step hb.1.listener hb.2 (hv v hm) hd), hb.2.step hd⟩
  exact hk.1

theorem listener_stopped (x : Chore) (w : Server) : (w.stopped x).listener = w.listener := by
  unfold stopped
  dsimp only
  split <;> rfl

theorem listener_drain (x : Chore) (l : List Nat) (w : Server) :
    (w.drain x l).listener = w.listener := by
  cases l with
  | nil => exact listener_stopped x _
  | cons i rest =>
    obtain ⟨cs, hask, -⟩ := ask_eq i .close w
    simp only [drain, hask, update]

theorem listener_beginStop (x : Chore) (w : Server) : (w.beginStop x).listener = none := by
  unfold beginStop
  split
  next h => rw [listener_stopped, h]
  next => exact listener_drain x _ _

theorem listener_step (hr : Rolled w) (hv : beginsStopping w v = true) (hs : w.step v = some a) :
    a.listener = none := by
  cases turn_step hs with
  | @call job =>
    obtain rfl : job = .stop := by cases job <;> simp_all [beginsStopping]
    exact listener_beginStop _ _
  | @begin x hx =>
    have hj : x.job = .stop := by
      simpa [beginsStopping, hr.chore?_eq_some_iff.2 ⟨hx, rfl⟩] using hv
    rw [begin, hj]
    exact listener_beginStop _ _
  | shutDown => exact listener_beginStop _ _
  | _ => simp [beginsStopping] at hv

/-- Nobody who comes when there is no listener gets a session. -/
theorem accept_refused (h : w.listener = none) :
    (w.call .accept).answer? w.fresh = some (.failed (.linkClosed "server".toList)) := by
  have hc : w.call .accept =
      (w.add .accept).settle w.fresh (.failed (.linkClosed "server".toList)) := by
    unfold call
    rw [begin_eq _ rfl, beginAccept]
    have hl : (w.add .accept).listener = none := h
    rw [hl]
    exact acceptFailed_eq _ _ rfl
  rw [hc]
  simp [answer?, settle]

/-- From the moment a stop begins, and so when it has returned, until somebody starts the server
again, there is no listener. Those who waited on it at some point `d` of that time, and they alone,
may still admit a peer each, and tell of it, and give a session; where nobody waited, no session
comes on the table and no peer is told of or given. An accept that comes in that time fails. -/
theorem stop_ends_admission (s : Settings) (w₀ : Server) (h : new s = .ok w₀) (us : List Move)
    (w : Server) (hw : w₀.steps us = some w) (v : Move) (hv : beginsStopping w v = true)
    (b : Server) (hb : w.step v = some b) (vs : List Move)
    (hvs : ∀ v ∈ vs, opensListener v = false) (d : Server) (hd : b.steps vs = some d)
    (rs : List Move) (hrs : ∀ v ∈ rs, opensListener v = false) (a : Server)
    (ha : d.steps rs = some a) :
    Waning d a ∧
    ((∀ x ∈ d.chores, x.isAdmitting = false) → a.cells.length = d.cells.length ∧
      a.table.entries ⊆ d.table.entries ∧ a.toldOf ≤ d.toldOf ∧ a.given ≤ d.given) ∧
    (a.call .accept).answer? a.fresh = some (.failed (.linkClosed "server".toList)) := by
  obtain rfl := new_eq h
  have hr := (rolled_empty s).steps us hw
  have hrb := hr.step hb
  have hkd := waning_steps (listener_step hr hv hb) hrb vs hvs hd
  have hk := waning_steps hkd.listener (hrb.steps vs hd) rs hrs ha
  refine ⟨hk, fun hn => ?_, accept_refused hk.listener⟩
  have hwait : d.waiting = 0 :=
    List.countP_eq_zero.2 fun x hx => by simp [isListening_of_not_isAdmitting (hn x hx)]
  have hadm : d.admitting = 0 := List.countP_eq_zero.2 fun x hx => by simp [hn x hx]
  have hlen : a.cells.length = d.cells.length := by
    have hg := hk.grown
    have hc := hk.cells
    omega
  refine ⟨hlen, fun e he => ?_, ?_, ?_⟩
  · obtain he | ⟨hle, hlt⟩ := hk.entries e he
    · exact he
    · exact absurd (hlen ▸ hlt) (Nat.not_lt.2 hle)
  · have ht := hk.told
    omega
  · have hg := hk.given
    omega

def lateGuest : List Move :=
  [.start (.ok ⟨.v4 [127, 0, 0, 1], 5060⟩), .call .accept, .call .stop]

/-- The stop has returned, and the peer that comes then is told of, given and put on the table. -/
theorem late_guest_admitted :
    ∃ w₀ w a, new hall = .ok w₀ ∧ w₀.steps lateGuest = some w ∧ w.answer? 1 = some .done ∧
      w.listener = none ∧ w.table.entries = [] ∧ w.toldOf = 0 ∧ w.given = 0 ∧
      w.step (.datagram 0 alice greeting) = some a ∧ a.table.entries = [(alice, 0)] ∧
      a.toldOf = 1 ∧ a.answer? 0 = some (.accepted 0 true) := by
  have h : (({ settings := hall } : Server).steps lateGuest).map (fun w =>
      (w.answer? 1, w.listener, w.table.entries, w.toldOf, w.given)) =
      some (some .done, none, [], 0, 0) := by
    decide
  have hl : ((({ settings := hall } : Server).steps lateGuest).bind
      (step (.datagram 0 alice greeting))).map (fun a =>
        (a.table.entries, a.toldOf, a.answer? 0)) =
      some ([(alice, 0)], 1, some (.accepted 0 true)) := by
    decide
  obtain ⟨w, hw, h⟩ := Option.map_eq_some_iff.1 h
  rw [hw, Option.bind_some] at hl
  obtain ⟨a, ha, hl⟩ := Option.map_eq_some_iff.1 hl
  simp only [Prod.mk.injEq] at h hl
  obtain ⟨h1, h2, h3, h4, h5⟩ := h
  obtain ⟨h6, h7, h8⟩ := hl
  exact ⟨_, w, a, rfl, hw, h1, h2, h3, h4, h5, ha, h6, h7, h8⟩

/-- Two accepts wait when the server is stopped. Both admit the one peer that comes, the second with
the session of the first, and the third accept fails. -/
theorem stop_ends_admission_lateGuest :
    ∃ w₀ w b a, new hall = .ok w₀ ∧
      w₀.steps [.start (.ok ⟨.v4 [127, 0, 0, 1], 5060⟩), .call .accept, .call .accept] = some w ∧
      w.beginsStopping (.call .stop) = true ∧ w.step (.call .stop) = some b ∧
      b.waiting = 2 ∧
      b.steps [.datagram 0 alice greeting, .datagram 1 alice greeting] = some a ∧
      a.waiting = 0 ∧ Waning b a ∧
      (a.call .accept).answer? a.fresh = some (.failed (.linkClosed "server".toList)) := by
  have h : ((({ settings := hall } : Server).steps
      [.start (.ok ⟨.v4 [127, 0, 0, 1], 5060⟩), .call .accept, .call .accept]).bind fun w =>
        (w.step (.call .stop)).bind fun b =>
          (b.steps [.datagram 0 alice greeting, .datagram 1 alice greeting]).map fun a =>
            (b.waiting, a.waiting)) = some (2, 0) := by
    decide
  obtain ⟨w, hw, h⟩ := Option.bind_eq_some_iff.1 h
  obtain ⟨b, hb, h⟩ := Option.bind_eq_some_iff.1 h
  obtain ⟨a, ha, h⟩ := Option.map_eq_some_iff.1 h
  obtain ⟨hbw, haw⟩ := Prod.mk.inj h
  obtain ⟨hk, -, hf⟩ := stop_ends_admission hall _ rfl _ w hw (.call .stop) rfl b hb [] (by simp) b
    rfl _ (by simp [opensListener]) a ha
  exact ⟨_, w, b, a, rfl, hw, rfl, hb, hbw, ha, haw, hk, hf⟩

end Switchboard.Server
