import Switchboard.Proofs.Server.Admission
import Switchboard.Proofs.Server.Isolation
import Switchboard.Proofs.Session.Single
import Switchboard.Realizer.Server

/-! Serving beside the steps. The first session belongs to the steps: the chore that serves, and those
that look after other sessions, keep off it, and peers come to it over UDP only. -/
namespace Switchboard.Server

def Chore.isBeside (x : Chore) : Bool :=
  match x.job, x.wait with
  | .serve, .starting | .serve, .listening _ | .serve, .resting _ => true
  | .serve, .replacing i stale _ => 0 < i && 0 < stale
  | .tend i, .starting | .tend i, .tending _ => 0 < i
  | _, _ => false

structure Beside (k : ChoreId) (p : Address) (w : Server) : Prop where
  chores : ∀ x ∈ w.chores, x.isBeside = true ∧ (x.id = k → x.job = .serve)
  lt_fresh : k < w.fresh
  answers : ∀ r ∈ w.finished, r.1 = k → ∃ f, r.2 = .failed f
  placed : ∀ e ∈ w.table.entries, w.peers[e.2]? = some e.1
  first : w.peers[0]? = some p

variable {w a : Server} {x : Chore} {k c : ChoreId} {p q : Address} {i : Nat}

namespace Beside

theorem same (h : Beside k p w) (hx : a.chores = w.chores) (hf : a.fresh = w.fresh)
    (hr : a.finished = w.finished) (ht : a.table.entries ⊆ w.table.entries)
    (hp : a.peers = w.peers) : Beside k p a where
  chores := hx ▸ h.chores
  lt_fresh := hf ▸ h.lt_fresh
  answers := hr ▸ h.answers
  placed e he := hp ▸ h.placed e (ht he)
  first := hp ▸ h.first

theorem settle (h : Beside k p w) (o : Answer) (ho : c = k → ∃ f, o = .failed f) :
    Beside k p (w.settle c o) :=
  { h with
    chores := fun y hy => h.chores y (mem_settle hy).1
    answers := fun r hr hk => by
      obtain rfl | hr := List.mem_cons.1 hr
      · exact ho hk
      · exact h.answers r hr hk }

theorem update (h : Beside k p w) (hx : x.isBeside = true) (hk : x.id = k → x.job = .serve) :
    Beside k p (w.update x) :=
  { h with
    chores := fun y hy => by
      obtain rfl | ⟨hy, -⟩ := mem_update hy
      · exact ⟨hx, hk⟩
      · exact h.chores y hy }

theorem add (h : Beside k p w) (hi : 0 < i) : Beside k p (w.add (.tend i)) :=
  { h with
    lt_fresh := Nat.lt_succ_of_lt h.lt_fresh
    chores := fun y hy => by
      obtain hy | rfl := mem_add hy
      · exact h.chores y hy
      · exact ⟨by simpa [Chore.isBeside] using hi, fun hk => absurd h.lt_fresh (hk ▸ Nat.lt_irrefl _)⟩ }

theorem enrol (h : Beside k p w) (q : Address) : Beside k p (w.enrol q) := by
  have hp : (w.enrol q).peers = w.peers ++ [q] := by simp [peers, Server.enrol, newCell]
  have hl : w.peers.length = w.cells.length := List.length_map _
  have hput {j : Nat} {r : Address} (hj : w.peers[j]? = some r) :
      (w.enrol q).peers[j]? = some r := by
    rw [hp, List.getElem?_append_left (List.getElem?_eq_some_iff.1 hj).1, hj]
  refine { h with placed := fun e he => ?_, first := hput h.first }
  obtain he | he := List.mem_append.1 he
  · exact hput (h.placed e (List.mem_filter.1 he).1)
  · obtain rfl := List.mem_singleton.1 he
    rw [hp, ← hl, List.getElem?_concat_length]

theorem acceptFailed (h : Beside k p w) (hj : x.job = .serve) (e : Error) :
    Beside k p (w.acceptFailed x e) := by
  unfold Server.acceptFailed
  rw [if_neg (by simp [hj, isLasting])]
  split
  · rw [if_neg (by simp [hj])]
    exact h.settle _ fun _ => ⟨e, rfl⟩
  · exact h.update (by simp [Chore.isBeside, hj]) fun _ => hj

theorem beginAccept (h : Beside k p w) (hj : x.job = .serve) : Beside k p (w.beginAccept x) := by
  unfold Server.beginAccept
  split
  · exact h.acceptFailed hj _
  · have hk : Beside k p (w.emit .willAccept) := h.same rfl rfl rfl (List.Subset.refl _) rfl
    exact hk.update (by simp [Chore.isBeside, hj]) fun _ => hj

theorem accepted (h : Beside k p w) (hj : x.job = .serve) {fresh : Bool}
    (hi : fresh = true → 0 < i) : Beside k p (w.accepted x i fresh) := by
  obtain ⟨t, ht, -⟩ := accepted_told x i fresh w
  have hk : Beside k p { w with trace := t ++ w.trace } := h.same rfl rfl rfl (List.Subset.refl _) rfl
  rw [ht, if_pos (by simp [hj, isLasting])]
  split
  next hf => exact Beside.beginAccept (hk.add (hi hf)) hj
  next => exact hk.beginAccept hj

end Beside

def Drifts (m : Session.Machine) (w : Server) : Prop :=
  ∃ n, w.machine? 0 = some n ∧ (n = m ∨ ∃ u, u.isPassive = true ∧ m.step u = some n)

variable {m : Session.Machine}

theorem drifts_same (hm : w.machine? 0 = some m) (h : a.cells = w.cells) : Drifts m a :=
  ⟨m, by rw [machine?, h]; exact hm, .inl rfl⟩

theorem drifts_modify (hm : w.machine? 0 = some m) {b : Cell} (hb : w.cells[i]? = some b)
    (f : Cell → Cell) {u : Session.Move} (hu : u.isPassive = true)
    (hs : b.machine.step u = some (f b).machine) (hc : a.cells = w.cells.modify i f) :
    Drifts m a := by
  by_cases hi : i = 0
  · subst hi
    obtain rfl : b.machine = m := Option.some.inj ((machine?_of_cell hb).symm.trans hm)
    refine ⟨(f b).machine, ?_, .inr ⟨u, hu, hs⟩⟩
    rw [machine?, hc, List.getElem?_modify_eq, hb]
    rfl
  · refine ⟨m, ?_, .inl rfl⟩
    simpa [machine?, hc, List.getElem?_modify, hi] using hm

theorem drifts_hand (hm : w.machine? 0 = some m) (i : Nat) (data : Bytes) :
    Drifts m (w.hand i data) := by
  obtain hc | ⟨b, f, hb, hf, -, hs⟩ := hand_cases i data w
  · exact drifts_same hm hc
  · exact drifts_modify hm hb f rfl hs (congrArg _ hf)

structure Stays (w a : Server) : Prop where
  settings : a.settings = w.settings
  chores : a.chores = w.chores
  fresh : a.fresh = w.fresh
  finished : a.finished = w.finished
  table : a.table = w.table
  peers : a.peers = w.peers

theorem stays_modify (f : Cell → Cell) (hf : ∀ b, w.cells[i]? = some b → (f b).peer = b.peer) :
    Stays w { w with cells := w.cells.modify i f } := by
  refine ⟨rfl, rfl, rfl, rfl, rfl, ?_⟩
  cases hb : w.cells[i]? with
  | none => rw [List.modify_eq_set_getElem?, hb]; rfl
  | some b => exact peers_modify f hb (hf b hb)

def isOfSession : Move → Bool
  | .session .. | .receive .. | .pass _ => true
  | _ => false

theorem stays_step {v : Move} (hv : isOfSession v = true) (hs : w.step v = some a) :
    Stays w a := by
  cases turn_step hs with
  | session _ hb hn => exact stays_modify _ fun _ _ => rfl
  | receive _ _ hb hn =>
    exact stays_modify _ fun b' hb' => congrArg (·.peer) (Option.some.inj (hb.symm.trans hb'))
  | pass d => exact ⟨rfl, rfl, rfl, rfl, rfl, by simp [peers, later, Cell.later, Function.comp_def]⟩
  | _ => simp [isOfSession] at hv

theorem drifts_step {v : Move} {partner : Option Address} (hv : isOfSession v = true)
    (ho : Realizer.ServerRun.isOpen partner v = true) (hs : w.step v = some a)
    (hm : w.machine? 0 = some m) : Drifts m a := by
  cases turn_step hs with
  | @session i u b n hu hb hn =>
    obtain ⟨cell, hc, rfl⟩ := Option.map_eq_some_iff.1 hb
    have hp : u.isPassive = true := by
      cases u <;> first | rfl | simp [Realizer.ServerRun.isOpen, isOutside] at ho hu
    exact drifts_modify hm hc _ hp hn rfl
  | receive _ _ hb hn => exact drifts_modify hm hb _ rfl hn rfl
  | pass d => exact ⟨_, (machine?_later d w 0).trans (by rw [hm]; rfl), .inr ⟨.pass d, rfl, rfl⟩⟩
  | _ => simp [isOfSession] at hv

/-- Without chores nothing else goes on. -/
theorem isOfSession_of_chores {v : Move} {partner : Option Address} (hx : w.chores = [])
    (ho : Realizer.ServerRun.isOpen partner v = true) (hs : w.step v = some a) :
    isOfSession v = true := by
  have hn (c : ChoreId) : w.chore? c = none := by simp [chore?, hx]
  cases v with
  | session | receive | pass => rfl
  | begin | connected | datagram | acceptFailed | wake | proceed => simp [Server.step, hn] at hs
  | _ => simp [Realizer.ServerRun.isOpen] at ho

theorem peers_ask (i : Nat) (job : Session.Job) (w : Server) : (w.ask i job).1.peers = w.peers :=
  (quiet_ask i job w).peers

theorem machine?_ask (job : Session.Job) (hi : 0 < i) :
    (w.ask i job).1.machine? 0 = w.machine? 0 := by
  unfold ask
  split
  · simp [machine?, put, Nat.ne_of_gt hi]
  · rfl

theorem cells_acceptFailed (e : Error) (hj : x.job = .serve) :
    (w.acceptFailed x e).cells = w.cells := by
  unfold acceptFailed
  rw [if_neg (by simp [hj, isLasting])]
  split
  · rw [if_neg (by simp [hj])]
    rfl
  · rfl

theorem machine?_enrol_zero (hm : w.machine? 0 = some m) (q : Address) :
    (w.enrol q).machine? 0 = some m := by
  have hlt : 0 < w.cells.length := by
    obtain ⟨b, hb, -⟩ := Option.map_eq_some_iff.1 hm
    exact (List.getElem?_eq_some_iff.1 hb).1
  rw [machine?_enrol, if_neg (Nat.ne_of_lt hlt), hm]

namespace Beside

theorem ask (h : Beside k p w) (i : Nat) (job : Session.Job) : Beside k p (w.ask i job).1 := by
  obtain ⟨cs, hask, -⟩ := ask_eq i job w
  have hp := peers_ask i job w
  rw [hask] at hp ⊢
  exact h.same rfl rfl rfl (List.Subset.refl _) hp

theorem length_pos (h : Beside k p w) : 0 < w.cells.length := by
  have := (List.getElem?_eq_some_iff.1 h.first).1
  simpa [peers] using this

theorem serve_of_listening (h : Beside k p w) (hx : x ∈ w.chores) {l : Nat}
    (hw : x.wait = .listening l) : x.job = .serve := by
  have hb := (h.chores x hx).1
  cases hj : x.job <;> simp_all [Chore.isBeside]

theorem begin (h : Beside k p w) (hx : x ∈ w.chores) (hw : x.wait = .starting)
    (hm : w.machine? 0 = some m) : Beside k p (w.begin x) ∧ Drifts m (w.begin x) := by
  obtain ⟨hb, hk⟩ := h.chores x hx
  cases hj : x.job with
  | serve =>
    rw [Server.begin, hj]
    exact ⟨h.beginAccept hj, drifts_same hm (beginAccept_same x w).1⟩
  | tend i =>
    have hi : 0 < i := by simpa [Chore.isBeside, hj, hw] using hb
    have he : w.begin x = (w.ask i (tending w.settings)).1.update
        { x with wait := .tending (w.ask i (tending w.settings)).2 } := by rw [Server.begin, hj]
    rw [he]
    refine ⟨(h.ask i _).update ?_ fun hx => ?_, ?_⟩
    · simpa [Chore.isBeside, hj] using hi
    · exact absurd (hk hx) (by simp [hj])
    · exact ⟨m, (machine?_ask _ hi).trans hm, .inl rfl⟩
  | accept | closeSession | stop | run => simp [Chore.isBeside, hj] at hb

theorem connected (h : Beside k p w) (hj : x.job = .serve) (hq : q ≠ p)
    (hm : w.machine? 0 = some m) : Beside k p (w.connected x q) ∧ Drifts m (w.connected x q) := by
  have hme := machine?_enrol_zero hm q
  unfold Server.connected
  dsimp only
  split
  next => exact ⟨(h.enrol q).accepted hj fun _ => h.length_pos,
      drifts_same hme (accepted_same x _ true _).1⟩
  next stale hg =>
    have hst : 0 < stale := by
      have hs := h.placed _ (Table.mem_of_get? hg)
      refine Nat.pos_of_ne_zero fun h0 => hq ?_
      subst h0
      exact Option.some.inj (hs.symm.trans h.first)
    refine ⟨((h.enrol q).ask stale .close).update ?_ fun _ => hj, ?_⟩
    · simpa [Chore.isBeside, hj] using ⟨h.length_pos, hst⟩
    · exact ⟨m, (machine?_ask _ hst).trans hme, .inl rfl⟩

theorem hand (h : Beside k p w) (i : Nat) (data : Bytes) : Beside k p (w.hand i data) :=
  h.same rfl rfl rfl (List.Subset.refl _) (quiet_hand i data w).peers

theorem datagram (h : Beside k p w) (hj : x.job = .serve) (q : Address) (data : Bytes)
    (hm : w.machine? 0 = some m) :
    Beside k p (w.datagram x q data) ∧ Drifts m (w.datagram x q data) := by
  unfold Server.datagram
  dsimp only
  split
  next i _ =>
    obtain ⟨n, hn, hd⟩ := drifts_hand hm i (data.take w.settings.loops.buffersize)
    refine ⟨(h.hand i _).accepted hj (by simp), n, ?_, hd⟩
    rw [machine?, (accepted_same x i false _).1]
    exact hn
  next =>
    obtain ⟨n, hn, hd⟩ := drifts_hand (machine?_enrol_zero hm q) w.cells.length
      (data.take w.settings.loops.buffersize)
    refine ⟨((h.enrol q).hand _ _).accepted hj fun _ => h.length_pos, n, ?_, hd⟩
    rw [machine?, (accepted_same x _ true _).1]
    exact hn

theorem stays (h : Beside k p w) (ha : Stays w a) : Beside k p a :=
  h.same ha.chores ha.fresh ha.finished (ha.table ▸ List.Subset.refl _) ha.peers

/-- Whatever comes from without, the first session is left to go on by itself. -/
theorem step {v : Move} (h : Beside k p w) (hv : Realizer.ServerRun.isOpen (some p) v = true)
    (hs : w.step v = some a) (hm : w.machine? 0 = some m) : Beside k p a ∧ Drifts m a := by
  have ht := turn_step hs
  cases ht with
  | start | call | run | spawn | shutDown | cancel | remove | removeIf =>
    simp [Realizer.ServerRun.isOpen] at hv
  | begin hx hw => exact h.begin hx hw hm
  | @connected x l q hx hw ht =>
    exact h.connected (h.serve_of_listening hx hw)
      (fun hq => by simp [Realizer.ServerRun.isOpen, hq] at hv) hm
  | datagram q data hx hw => exact h.datagram (h.serve_of_listening hx hw) q data hm
  | acceptFailed e hx hw =>
    have hj := h.serve_of_listening hx hw
    exact ⟨h.acceptFailed hj e, drifts_same hm (cells_acceptFailed e hj)⟩
  | @wake x d hx hw =>
    have hj : x.job = .serve := by
      have hb := (h.chores x hx).1
      cases hj : x.job <;> simp_all [Chore.isBeside]
    exact ⟨h.beginAccept hj, drifts_same hm (beginAccept_same x w).1⟩
  | @replaced x i stale t o hx hw ho =>
    have hb := (h.chores x hx).1
    have hj : x.job = .serve ∧ 0 < i := by cases hj : x.job <;> simp_all [Chore.isBeside]
    exact ⟨h.accepted hj.1 fun _ => hj.2, drifts_same hm (accepted_same x i true w).1⟩
  | @tended x i t o hx hj hw ho =>
    refine ⟨?_, drifts_same hm rfl⟩
    have hk : Beside k p { w with table := w.withoutOwn i } :=
      h.same rfl rfl rfl (withoutOwn_sublist w i).subset rfl
    refine hk.settle .done fun hx' => ?_
    exact absurd ((h.chores x hx).2 hx') (by simp [hj])
  | closed hx hw | drained _ hx hw =>
    have hb := (h.chores _ hx).1
    unfold Chore.isBeside at hb
    split at hb <;> simp_all only [reduceCtorEq]
  | session | receive | pass =>
    exact ⟨h.stays (stays_step rfl hs), drifts_step rfl hv hs hm⟩

end Beside
end Switchboard.Server
