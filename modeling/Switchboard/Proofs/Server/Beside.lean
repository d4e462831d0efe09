import Switchboard.Proofs.Server.Care
import Switchboard.Proofs.Server.LateAdmission

/-! What goes on while one chore runs the server, and nobody else starts it, accepts or stops it.
The other chores look after sessions or close them. They leave the run alone: what the server has
told, its listener, and what the run waits for. -/
namespace Switchboard.Server

def told (w : Server) : List Event := (w.trace.map (·.2)).reverse

/-- Whether the move goes on beside a run: sessions go on and are closed, but nobody else starts the
server, accepts or stops it. The run itself may be dropped. -/
def isBesideRun : Move → Bool
  | .call (.closeSession _) | .spawn (.closeSession _) => true
  | .start _ | .call _ | .run .. | .spawn _ => false
  | _ => true

def Chore.isMinor (x : Chore) : Bool :=
  match x.job, x.wait with
  | .tend _, .starting | .tend _, .tending _ => true
  | .closeSession _, .starting | .closeSession _, .closing .. => true
  | _, _ => false

def Chore.isRunning (x : Chore) : Bool :=
  match x.job, x.wait with
  | .run, .listening _ | .run, .replacing .. | .run, .resting _ | .run, .draining .. => true
  | _, _ => false

def welcome? (w : Server) : Move → Option (Address × Nat)
  | .connected _ p => if (w.table.get? p).isNone then some (p, w.cells.length) else none
  | .datagram _ p _ => if (w.pick p).2 then some (p, w.cells.length) else none
  | .proceed c => (w.chore? c).bind fun x => match x.wait with
    | .replacing i _ _ => (w.cells[i]?).map fun b => (b.peer, i)
    | _ => none
  | _ => none

def welcomes : List Move → Server → List (Address × Nat)
  | [], _ => []
  | v :: vs, w => ((w.step v).map fun a => (w.welcome? v).toList ++ welcomes vs a).getD []

structure Aside (c : ChoreId) (w a : Server) : Prop where
  quiet : Quiet w a
  trace : a.trace = w.trace
  listener : a.listener = w.listener
  answer : a.answer? c = w.answer? c
  fresh : w.fresh ≤ a.fresh
  run : ∀ x, x.id = c → (x ∈ a.chores ↔ x ∈ w.chores)
  minor : ∀ x ∈ a.chores, x ∈ w.chores ∨ x.isMinor = true

variable {w a b : Server} {x : Chore} {c : ChoreId} {v : Move} {i : Nat}

namespace Aside

theorem trans (h : Aside c w a) (k : Aside c a b) : Aside c w b where
  quiet := h.quiet.trans k.quiet
  trace := k.trace.trans h.trace
  listener := k.listener.trans h.listener
  answer := k.answer.trans h.answer
  fresh := h.fresh.trans k.fresh
  run x hx := (k.run x hx).trans (h.run x hx)
  minor x hx := (k.minor x hx).elim (h.minor x) .inr

/-- What happens to sessions and the table alone is no matter of the run. -/
theorem of_quiet (hq : Quiet w a) (hx : a.chores = w.chores) (ht : a.trace = w.trace)
    (hl : a.listener = w.listener) (hf : a.fresh = w.fresh) (ha : a.finished = w.finished) :
    Aside c w a where
  quiet := hq
  trace := ht
  listener := hl
  answer := by rw [answer?, ha, answer?]
  fresh := hf.ge
  run x _ := by rw [hx]
  minor x hm := .inl (hx ▸ hm)

theorem ask (i : Nat) (job : Session.Job) (w : Server) : Aside c w (w.ask i job).1 := by
  have hq := quiet_ask i job w
  obtain ⟨cs, hask, -⟩ := ask_eq i job w
  rw [hask] at hq ⊢
  exact of_quiet hq rfl rfl rfl rfl rfl

theorem release (x : Chore) (w : Server) : Aside c w (w.release x) := by
  have hq := quiet_release x w
  obtain ⟨cs, hrel, -⟩ := release_eq x w
  rw [hrel] at hq ⊢
  exact of_quiet hq rfl rfl rfl rfl rfl

theorem table (w : Server) {t : Table} (ht : t.entries.Sublist w.table.entries) :
    Aside c w { w with table := t } :=
  of_quiet (quiet_table w ht) rfl rfl rfl rfl rfl

theorem update (hi : x.id ≠ c) (hm : x.isMinor = true) (w : Server) : Aside c w (w.update x) where
  quiet := by
    refine quiet_update x w ?_
    unfold Chore.isMinor at hm
    split at hm
    all_goals simp_all [Chore.isReplacing]
  trace := rfl
  listener := rfl
  answer := rfl
  fresh := Nat.le_refl _
  run y hy := by
    refine ⟨fun h => ?_, fun h => mem_update_of_ne h fun hyx => hi (hyx ▸ hy)⟩
    obtain rfl | ⟨h, -⟩ := mem_update h
    · exact absurd hy hi
    · exact h
  minor y hy := by
    obtain rfl | ⟨h, -⟩ := mem_update hy
    · exact .inr hm
    · exact .inl h

theorem settle {d : ChoreId} (hd : d ≠ c) (o : Answer) (w : Server) : Aside c w (w.settle d o) where
  quiet := quiet_settle d o w
  trace := rfl
  listener := rfl
  answer := by simp [answer?, Server.settle, hd]
  fresh := Nat.le_refl _
  run y hy := ⟨fun h => (mem_settle h).1, fun h => mem_settle_of_ne h (hy ▸ hd.symm)⟩
  minor y hy := .inl (mem_settle hy).1

theorem add {job : Job} (hc : c < w.fresh)
    (hj : (⟨w.fresh, job, .starting, 0, none⟩ : Chore).isMinor) : Aside c w (w.add job) where
  quiet := quiet_add job w
  trace := rfl
  listener := rfl
  answer := rfl
  fresh := Nat.le_succ _
  run y hy := by
    refine ⟨fun h => ?_, List.mem_append_left _⟩
    obtain h | rfl := mem_add h
    · exact h
    · exact absurd hy (Nat.ne_of_gt hc)
  minor y hy := by
    obtain h | rfl := mem_add hy
    · exact .inl h
    · exact .inr hj

theorem length (h : Aside c w a) : a.cells.length = w.cells.length := h.quiet.length

theorem told (h : Aside c w a) : a.told = w.told := by
  rw [Server.told, h.trace, Server.told]

end Aside

structure Manned (c : ChoreId) (w : Server) : Prop where
  errands : Errands [] w
  known : c < w.fresh
  running : ∀ x ∈ w.chores, x.id = c → x.isRunning = true
  minor : ∀ x ∈ w.chores, x.id ≠ c → x.isMinor = true

theorem Manned.rolled (h : Manned c w) : Rolled w := h.errands.rolled

/-- A chore that begins, or waits for the end of a session, is a minor one, and the others are the
run. -/
theorem Manned.cases (h : Manned c w) (hx : x ∈ w.chores) :
    x.id ≠ c ∧ x.isMinor = true ∨ x.id = c ∧ x.isRunning = true := by
  by_cases hi : x.id = c
  · exact .inr ⟨hi, h.running x hx hi⟩
  · exact .inl ⟨hi, h.minor x hx hi⟩

theorem job_of_isRunning (h : x.isRunning = true) : x.job = .run := by
  unfold Chore.isRunning at h
  split at h
  all_goals first | assumption | simp at h

inductive Stir (c : ChoreId) (w : Server) : Move → Server → Prop where
  | aside {v : Move} {a : Server} : Aside c w a → w.welcome? v = none → Stir c w v a
  | welcomed {v : Move} {x : Chore} {cs : List Cell} {t : Table} {i : Nat} {p : Address} :
      x ∈ w.chores → x.id = c → (∃ l, x.wait = .listening l) ∧ i = w.cells.length ∨
        (∃ stale t, x.wait = .replacing i stale t) → i < cs.length →
      (cs[i]?).map (·.peer) = some p → w.welcome? v = some (p, i) →
      Stir c w v (({ w with cells := cs, table := t } : Server).accepted x i true)
  | again {v : Move} {x : Chore} {cs : List Cell} {i l : Nat} : x ∈ w.chores → x.id = c →
      x.wait = .listening l → cs.length = w.cells.length → w.welcome? v = none →
      Stir c w v (({ w with cells := cs } : Server).accepted x i false)
  | replacing {v : Move} {x : Chore} {cs : List Cell} {t : Table} {l stale : Nat}
      {k : Session.TaskId} : x ∈ w.chores → x.id = c → x.wait = .listening l →
      w.cells.length < cs.length → w.welcome? v = none →
      Stir c w v (({ w with cells := cs, table := t } : Server).update
        { x with wait := .replacing w.cells.length stale k })
  | failed {x : Chore} {l : Nat} (e : Error) : x ∈ w.chores → x.id = c → x.wait = .listening l →
      Stir c w (.acceptFailed c e) (w.acceptFailed x e)
  | woken {x : Chore} {d : Duration} : x ∈ w.chores → x.id = c → x.wait = .resting d →
      Stir c w (.wake c) (w.beginAccept x)
  | stopped {x : Chore} {cs : List Cell} : x ∈ w.chores → x.id = c →
      (∃ l, x.wait = .listening l) ∨ (∃ i stale t, x.wait = .replacing i stale t) ∨
        (∃ d, x.wait = .resting d) → cs.length = w.cells.length →
      Stir c w (.shutDown c) (({ w with cells := cs } : Server).beginStop x)
  | drained {x : Chore} {i : Nat} {t : Session.TaskId} {rest : List Nat} (fault : Option Error) :
      x ∈ w.chores → x.id = c → x.wait = .draining i t rest →
      Stir c w (.proceed c) (w.drain { x with fault } rest)
  | dropped {x : Chore} {cs : List Cell} : x ∈ w.chores → x.id = c → cs.length = w.cells.length →
      Stir c w (.cancel c) { w with cells := cs, chores := w.chores.filter (·.id ≠ c) }

theorem quiet_later (d : Duration) (w : Server) : Quiet w (w.later d) := by
  refine { Quiet.refl w with peers := ?_, machines := fun i m hm => ?_ }
  · simp [later, Cell.later, Function.comp_def]
  · rw [machine?_later] at hm
    obtain ⟨n, hn, rfl⟩ := Option.map_eq_some_iff.1 hm
    exact ⟨n, [.pass d], hn, rfl⟩

theorem aside_begin (hi : x.id ≠ c) (hm : x.isMinor = true) (w : Server) :
    Aside c w (w.begin x) := by
  unfold begin
  split
  next hj => simp [Chore.isMinor, hj] at hm
  next hj => simp [Chore.isMinor, hj] at hm
  next hj => simp [Chore.isMinor, hj] at hm
  next hj => simp [Chore.isMinor, hj] at hm
  next j hj =>
    refine (Aside.ask j _ w).trans (Aside.update (x := { x with wait := .tending _ }) hi ?_ _)
    simp [Chore.isMinor, hj]
  next p hj =>
    split
    · exact Aside.settle hi _ w
    next j _ =>
      have ht : Aside c w { w with table := w.table.erase p } := Aside.table w List.filter_sublist
      refine ht.trans ((Aside.ask j .close _).trans
        (Aside.update (x := { x with wait := .closing j _ }) hi ?_ _))
      simp [Chore.isMinor, hj]

theorem stir_connected {l : Nat} (p : Address) (hx : x ∈ w.chores) (hi : x.id = c)
    (hw : x.wait = .listening l) : Stir c w (.connected c p) (w.connected x p) := by
  unfold connected
  dsimp only
  cases hg : w.table.get? p with
  | none =>
    exact .welcomed (p := p) hx hi (.inl ⟨⟨l, hw⟩, rfl⟩) (by simp) (by simp [newCell])
      (by simp [welcome?, hg])
  | some stale =>
    obtain ⟨cs, hask, hlen⟩ := ask_eq stale .close (w.enrol p)
    dsimp only
    rw [hask]
    exact .replacing hx hi hw (by simp [hlen, enrol]) (by simp [welcome?, hg])

theorem stir_datagram {l : Nat} (p : Address) (data : Bytes) (hx : x ∈ w.chores) (hi : x.id = c)
    (hw : x.wait = .listening l) : Stir c w (.datagram c p data) (w.datagram x p data) := by
  unfold datagram
  dsimp only
  cases hg : (w.table.get? p).filter w.isAlive with
  | some i =>
    exact .again hx hi hw (List.length_modify ..) (by simp [welcome?, pick_of_get? hg])
  | none =>
    exact .welcomed (p := p) hx hi (.inl ⟨⟨l, hw⟩, rfl⟩) (by simp [enrol])
      (by simp [enrol, newCell]) (by simp [welcome?, pick_of_none hg])

theorem stir_step (h : Manned c w) (hv : isBesideRun v = true) (hs : w.step v = some a) :
    Stir c w v a := by
  have hr := h.rolled
  cases turn_step hs with
  | start | run => simp [isBesideRun] at hv
  | @call job =>
    obtain ⟨p, rfl⟩ : ∃ p, job = .closeSession p := by cases job <;> simp_all [isBesideRun]
    exact .aside ((Aside.add h.known rfl).trans
      (aside_begin (x := ⟨w.fresh, .closeSession p, .starting, 0, none⟩) (Nat.ne_of_gt h.known) rfl
        _)) rfl
  | @spawn job =>
    obtain ⟨p, rfl⟩ : ∃ p, job = .closeSession p := by cases job <;> simp_all [isBesideRun]
    exact .aside (Aside.add h.known rfl) rfl
  | @begin x hx hw =>
    obtain ⟨hi, hm⟩ | ⟨-, hm⟩ := h.cases hx
    · exact .aside (aside_begin hi hm w) rfl
    · simp [Chore.isRunning, hw] at hm
  | @connected x l p hx hw =>
    obtain ⟨-, hm⟩ | ⟨hi, -⟩ := h.cases hx
    · simp [Chore.isMinor, hw] at hm
    · exact hi ▸ stir_connected p hx rfl hw
  | @datagram x l p data hx hw =>
    obtain ⟨-, hm⟩ | ⟨hi, -⟩ := h.cases hx
    · simp [Chore.isMinor, hw] at hm
    · exact hi ▸ stir_datagram p data hx rfl hw
  | @acceptFailed x l e hx hw =>
    obtain ⟨-, hm⟩ | ⟨hi, -⟩ := h.cases hx
    · simp [Chore.isMinor, hw] at hm
    · exact hi ▸ .failed e hx rfl hw
  | @wake x d hx hw =>
    obtain ⟨-, hm⟩ | ⟨hi, -⟩ := h.cases hx
    · simp [Chore.isMinor, hw] at hm
    · exact hi ▸ .woken hx rfl hw
  | @replaced x i stale t o hx hw =>
    obtain ⟨-, hm⟩ | ⟨hi, -⟩ := h.cases hx
    · simp [Chore.isMinor, hw] at hm
    · have hlt := h.errands.pending x hx i (by simp [Chore.pending, hw])
      have hc := List.getElem?_eq_getElem hlt
      refine .welcomed (t := w.table) hx hi (.inr ⟨stale, t, hw⟩) hlt (by rw [hc]; rfl) ?_
      simp [welcome?, hr.chore?_eq_some_iff.2 ⟨hx, rfl⟩, hw, hc]
  | @tended x i t o hx hj hw =>
    obtain ⟨hi, -⟩ | ⟨-, hm⟩ := h.cases hx
    · refine .aside ((Aside.table w (withoutOwn_sublist w i)).trans (Aside.settle hi _ _)) ?_
      simp [welcome?, hr.chore?_eq_some_iff.2 ⟨hx, rfl⟩, hw]
    · simp [Chore.isRunning, hw] at hm
  | @closed x i t o r hx hw =>
    obtain ⟨hi, -⟩ | ⟨-, hm⟩ := h.cases hx
    · refine .aside (Aside.settle hi _ _) ?_
      simp [welcome?, hr.chore?_eq_some_iff.2 ⟨hx, rfl⟩, hw]
    · simp [Chore.isRunning, hw] at hm
  | @drained x i t rest o fault hx hw =>
    obtain ⟨-, hm⟩ | ⟨hi, -⟩ := h.cases hx
    · simp [Chore.isMinor, hw] at hm
    · exact hi ▸ .drained fault hx rfl hw
  | @shutDown x hx hj hw =>
    obtain ⟨-, hm⟩ | ⟨hi, -⟩ := h.cases hx
    · simp [Chore.isMinor, hj] at hm
    · obtain ⟨cs, hrel, hlen⟩ := release_eq x w
      rw [hrel, hi]
      exact .stopped hx hi hw hlen
  | @cancel x hx =>
    obtain ⟨hi, -⟩ | ⟨hi, -⟩ := h.cases hx
    · have hk : Aside c w { w.release x with chores := w.chores.filter (·.id ≠ x.id) } := by
        obtain ⟨cs, hrel, -⟩ := release_eq x w
        have hk := (Aside.release (c := c) x w).trans (Aside.settle hi .done _)
        rw [hrel] at hk ⊢
        exact { hk with answer := rfl, quiet := { hk.quiet with } }
      exact .aside hk rfl
    · obtain ⟨cs, hrel, hlen⟩ := release_eq x w
      rw [hrel, hi]
      exact .dropped hx hi hlen
  | @session i u m n ho hm hn =>
    refine .aside (Aside.of_quiet (quiet_put [u] hm ?_) rfl rfl rfl rfl rfl) rfl
    rw [Session.Machine.steps, hn]
    rfl
  | @receive i t b n data rest hu hc hn =>
    refine .aside (Aside.of_quiet (quiet_modify i _ w fun e he => ?_) rfl rfl rfl rfl rfl) rfl
    obtain rfl : b = e := Option.some.inj (hc.symm.trans he)
    refine ⟨rfl, [.reply t (.received data)], ?_⟩
    rw [Session.Machine.steps, hn]
    rfl
  | remove p => exact .aside (Aside.table w List.filter_sublist) rfl
  | removeIf p i => exact .aside (Aside.table w (sublist_eraseIf _ _ _)) rfl
  | pass d => exact .aside (Aside.of_quiet (quiet_later d w) rfl rfl rfl rfl rfl) rfl

end Switchboard.Server
