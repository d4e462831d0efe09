import Mathlib.Data.List.Nodup
import Switchboard.Proofs.Server.Turns

/-! The chores of a server under their numbers. No two have one number, and a number not yet given
out belongs to nobody. A chore that begins is new, and one that waits again or ends is found by its
number, so a chore keeps its place on the list whatever happens to the others. -/
namespace Switchboard.Server

structure Rolled (w : Server) : Prop where
  nodup : (w.chores.map (·.id)).Nodup
  lt_fresh : ∀ x ∈ w.chores, x.id < w.fresh

variable {w a : Server} {x y : Chore} {c : ChoreId}

theorem mem_update (h : y ∈ (w.update x).chores) : y = x ∨ y ∈ w.chores ∧ y.id ≠ x.id := by
  obtain ⟨z, hz, rfl⟩ := List.mem_map.1 h
  split
  next => exact .inl rfl
  next hi => exact .inr ⟨hz, hi⟩

theorem mem_update_of_ne (h : y ∈ w.chores) (hi : y.id ≠ x.id) : y ∈ (w.update x).chores :=
  List.mem_map.2 ⟨y, h, if_neg hi⟩

theorem mem_update_self (h : y ∈ w.chores) (hi : y.id = x.id) : x ∈ (w.update x).chores :=
  List.mem_map.2 ⟨y, h, if_pos hi⟩

theorem mem_settle {o : Answer} (h : y ∈ (w.settle c o).chores) : y ∈ w.chores ∧ y.id ≠ c := by
  simpa [settle] using h

theorem mem_settle_of_ne {o : Answer} (h : y ∈ w.chores) (hi : y.id ≠ c) :
    y ∈ (w.settle c o).chores := by
  simpa [settle] using ⟨h, hi⟩

theorem mem_add {job : Job} (h : y ∈ (w.add job).chores) :
    y ∈ w.chores ∨ y = ⟨w.fresh, job, .starting, 0, none⟩ := by
  simpa [add] using h

theorem ids_update (x : Chore) (w : Server) :
    (w.update x).chores.map (·.id) = w.chores.map (·.id) := by
  rw [update, List.map_map]
  apply List.map_congr_left
  intro y _
  rw [Function.comp_apply]
  split
  next h => exact h.symm
  next => rfl

/-! What changes neither the numbers nor the counter keeps the roll; the rest is a new number at the
end or one number less. -/

namespace Rolled

theorem eq_of_id (h : Rolled w) (hx : x ∈ w.chores) (hy : y ∈ w.chores) (hi : x.id = y.id) :
    x = y :=
  List.inj_on_of_nodup_map h.nodup hx hy hi

theorem chore?_eq_some_iff (h : Rolled w) : w.chore? c = some x ↔ x ∈ w.chores ∧ x.id = c := by
  refine ⟨of_chore?, fun ⟨hx, hi⟩ => ?_⟩
  obtain ⟨y, hy⟩ : ∃ y, w.chore? c = some y := by
    rw [← Option.isSome_iff_exists, chore?, List.find?_isSome]
    exact ⟨x, hx, by simpa using hi⟩
  obtain ⟨hm, hyi⟩ := of_chore? hy
  rw [hy, h.eq_of_id hm hx (hyi.trans hi.symm)]

theorem same (h : Rolled w) (hc : a.chores = w.chores) (hf : a.fresh = w.fresh) : Rolled a :=
  ⟨hc ▸ h.nodup, hc ▸ hf ▸ h.lt_fresh⟩

theorem filter (h : Rolled w) {p : Chore → Bool} (hc : a.chores = w.chores.filter p)
    (hf : a.fresh = w.fresh) : Rolled a where
  nodup := by
    rw [hc]
    exact h.nodup.sublist (List.filter_sublist.map _)
  lt_fresh x hx := by
    rw [hc] at hx
    rw [hf]
    exact h.lt_fresh x (List.mem_filter.1 hx).1

theorem settle (h : Rolled w) (c : ChoreId) (o : Answer) : Rolled (w.settle c o) :=
  h.filter rfl rfl

theorem update (h : Rolled w) (x : Chore) : Rolled (w.update x) where
  nodup := by rw [ids_update]; exact h.nodup
  lt_fresh y hy := by
    have hm : y.id ∈ (w.update x).chores.map (·.id) := List.mem_map_of_mem hy
    rw [ids_update] at hm
    obtain ⟨z, hz, hi⟩ := List.mem_map.1 hm
    exact hi ▸ h.lt_fresh z hz

theorem add (h : Rolled w) (job : Job) : Rolled (w.add job) where
  nodup := by
    have hn : w.fresh ∉ w.chores.map (·.id) := by
      intro hm
      obtain ⟨x, hx, hi⟩ := List.mem_map.1 hm
      exact absurd (h.lt_fresh x hx) (by simp [hi])
    simpa [Server.add, List.nodup_append] using
      ⟨h.nodup, fun x hx hi => hn (hi ▸ List.mem_map_of_mem hx)⟩
  lt_fresh x hx := by
    obtain hx | rfl := mem_add hx
    · exact Nat.lt_succ_of_lt (h.lt_fresh x hx)
    · exact Nat.lt_succ_self _

theorem ask (h : Rolled w) (i : Nat) (job : Session.Job) : Rolled (w.ask i job).1 := by
  obtain ⟨cs, hask, -⟩ := ask_eq i job w
  rw [hask]
  exact h.same rfl rfl

theorem start (h : Rolled w) (bound : Except Error Address) : Rolled (w.start bound).1 := by
  unfold Server.start
  split
  · exact h
  · cases bound <;> exact h.same rfl rfl

theorem stopped (h : Rolled w) (x : Chore) : Rolled (w.stopped x) := by
  unfold Server.stopped
  dsimp only
  split
  · exact (h.same (a := w.emit .didRun) rfl rfl).settle _ _
  · exact h.settle _ _

theorem drain (h : Rolled w) (x : Chore) (l : List Nat) : Rolled (w.drain x l) := by
  cases l with
  | nil => exact (h.same (a := w.emit .didStop) rfl rfl).stopped x
  | cons i l => exact (h.ask i .close).update _

theorem beginStop (h : Rolled w) (x : Chore) : Rolled (w.beginStop x) := by
  unfold Server.beginStop
  split
  · exact h.stopped x
  · have hk : Rolled { { w with listener := none }.emit .willStop with table := {} } :=
      h.same rfl rfl
    exact hk.drain x _

theorem acceptFailed (h : Rolled w) (x : Chore) (e : Error) : Rolled (w.acceptFailed x e) := by
  unfold Server.acceptFailed
  split
  · exact h.settle _ _
  · split
    · split
      · exact h.beginStop _
      · exact h.settle _ _
    · exact h.update _

theorem beginAccept (h : Rolled w) (x : Chore) : Rolled (w.beginAccept x) := by
  unfold Server.beginAccept
  split
  · exact h.acceptFailed x _
  · exact (h.same (a := w.emit .willAccept) rfl rfl).update _

theorem accepted (h : Rolled w) (x : Chore) (i : Nat) (fresh : Bool) :
    Rolled (w.accepted x i fresh) := by
  obtain ⟨t, ht, -⟩ := accepted_told x i fresh w
  have hk : Rolled { w with trace := t ++ w.trace } := h.same rfl rfl
  rw [ht]
  split
  · split
    · exact (hk.add _).beginAccept _
    · exact hk.beginAccept _
  · exact hk.settle _ _

theorem enrol (h : Rolled w) (p : Address) : Rolled (w.enrol p) := h.same rfl rfl

theorem connected (h : Rolled w) (x : Chore) (p : Address) : Rolled (w.connected x p) := by
  unfold Server.connected
  dsimp only
  split
  · exact (h.enrol p).accepted x _ _
  · exact ((h.enrol p).ask _ _).update _

theorem hand (h : Rolled w) (i : Nat) (data : Bytes) : Rolled (w.hand i data) := h.same rfl rfl

theorem datagram (h : Rolled w) (x : Chore) (p : Address) (data : Bytes) :
    Rolled (w.datagram x p data) := by
  unfold Server.datagram
  dsimp only
  split
  · exact (h.hand _ _).accepted x _ _
  · exact ((h.enrol p).hand _ _).accepted x _ _

theorem begin (h : Rolled w) (x : Chore) : Rolled (w.begin x) := by
  unfold Server.begin
  split
  · exact h.beginAccept x
  · exact h.beginAccept x
  · exact h.beginAccept x
  · exact h.beginStop x
  · exact (h.ask _ _).update _
  next p _ =>
    split
    · exact h.settle _ _
    · have hk : Rolled { w with table := w.table.erase p } := h.same rfl rfl
      exact (hk.ask _ _).update _

theorem callRun (h : Rolled w) (bound : Except Error Address) (down : Bool) :
    Rolled (w.callRun bound down) := by
  have hs := ((h.same (a := w.emit .willRun) rfl rfl).add .run).start bound
  unfold Server.callRun
  dsimp only
  split
  next hb =>
    rw [hb] at hs
    split
    · exact hs.beginStop _
    · exact hs.begin _
  next hb =>
    rw [hb] at hs
    exact hs.settle _ _

theorem release (h : Rolled w) (x : Chore) : Rolled (w.release x) := by
  obtain ⟨cs, hrel, -⟩ := release_eq x w
  rw [hrel]
  exact h.same rfl rfl

theorem step (h : Rolled w) {v : Move} (hs : w.step v = some a) : Rolled a := by
  cases turn_step hs with
  | start bound => exact h.start bound
  | call => exact (h.add _).begin _
  | run bound down => exact h.callRun bound down
  | spawn => exact h.add _
  | begin => exact h.begin _
  | connected p => exact h.connected _ p
  | datagram p data => exact h.datagram _ p data
  | acceptFailed e => exact h.acceptFailed _ e
  | wake => exact h.beginAccept _
  | replaced => exact h.accepted _ _ _
  | @tended x i =>
    have hk : Rolled { w with table := w.withoutOwn i } := h.same rfl rfl
    exact hk.settle _ _
  | closed => exact h.settle _ _
  | drained => exact h.drain _ _
  | @shutDown x => exact (h.release x).beginStop x
  | @cancel x =>
    obtain ⟨cs, hrel, -⟩ := release_eq x w
    rw [hrel]
    exact h.filter (p := (·.id ≠ x.id)) rfl rfl
  | session | receive | remove | removeIf | pass => exact h.same rfl rfl

theorem steps (h : Rolled w) (vs : List Move) (hs : w.steps vs = some a) : Rolled a :=
  steps_induction vs (fun _ _ _ _ hb hd => hb.step hd) h hs

end Rolled

theorem rolled_empty (s : Settings) : Rolled { settings := s } := ⟨List.nodup_nil, by simp⟩

end Switchboard.Server
