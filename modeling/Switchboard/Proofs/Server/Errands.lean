import Switchboard.Proofs.Server.Admission
import Switchboard.Proofs.Server.Chores
import Switchboard.Proofs.Session.Tending

/-! What chores wait for. A chore that closes a session, or looks after one, waits for a task of that
session which sees it to its end; no two chores wait for one task, and nobody else drops it. So when
such a wait is over, the session's link has been let go. -/
namespace Switchboard.Server
open Session.Machine (Minds Sound)

def Chore.pending (x : Chore) : List Nat :=
  match x.wait, x.job with
  | .starting, .tend i => [i]
  | .replacing i _ _, _ => [i]
  | .draining _ _ rest, _ => rest
  | _, _ => []

/-- What holds at any time, but for what the chores in `out` wait for. -/
structure Errands (out : List ChoreId) (w : Server) : Prop where
  rolled : Rolled w
  sound : ∀ i m, w.machine? i = some m → m.Sound ∧ m.session.state ≠ .created
  minds : ∀ x ∈ w.chores, x.id ∉ out → ∀ i t, x.task? = some (i, t) →
    ∃ m, w.machine? i = some m ∧ m.Minds t
  apart : ∀ x ∈ w.chores, x.id ∉ out → ∀ y ∈ w.chores, y.id ∉ out → ∀ k, x.task? = some k →
    y.task? = some k → x = y
  listed : ∀ e ∈ w.table.entries, e.2 < w.cells.length
  pending : ∀ x ∈ w.chores, ∀ i ∈ x.pending, i < w.cells.length

variable {w a : Server} {x y : Chore} {v : Move} {out : List ChoreId} {i : Nat}
  {t : Session.TaskId} {p : Address}

/-- A task that is there or has ended is not new. -/
theorem lt_fresh_of_minds {m : Session.Machine} (hm : m.Sound) (h : m.Minds t) : t < m.fresh := by
  obtain ⟨x, hx, rfl, -⟩ | ⟨-, o, ho⟩ := h
  · exact hm.roster.lt_fresh x hx
  · exact (hm.record.ended _ ho).1

theorem lt_of_machine? {m : Session.Machine} (h : w.machine? i = some m) : i < w.cells.length := by
  obtain ⟨c, hc, -⟩ := Option.map_eq_some_iff.1 h
  exact (List.getElem?_eq_some_iff.1 hc).1

theorem machine?_of_lt (h : i < w.cells.length) : ∃ m, w.machine? i = some m :=
  ⟨w.cells[i].machine, machine?_of_cell (List.getElem?_eq_getElem h)⟩

theorem sound_newCell (p : Address) (w : Server) :
    (w.newCell p).machine.Sound ∧ (w.newCell p).machine.session.state ≠ .created := by
  refine ⟨⟨⟨by simp [newCell], by simp [newCell], by simp [newCell], by simp [newCell]⟩,
    ⟨List.nodup_nil, by simp [newCell], by simp [newCell], by simp [newCell]⟩,
    ⟨by simp [newCell], by simp [newCell], by simp [newCell]⟩,
    ⟨by simp [newCell], by simp [newCell], by simp [newCell]⟩⟩, by simp [newCell]⟩

namespace Errands

theorem weaken (h : Errands [] w) (c : ChoreId) : Errands [c] w :=
  { h with
    minds := fun x hx _ => h.minds x hx (by simp)
    apart := fun x hx _ y hy _ => h.apart x hx (by simp) y hy (by simp) }

theorem same (h : Errands out w) (hc : a.cells = w.cells) (hx : a.chores = w.chores)
    (hf : a.fresh = w.fresh) (ht : a.table.entries ⊆ w.table.entries) : Errands out a where
  rolled := h.rolled.same hx hf
  sound i m hm := h.sound i m (by rwa [machine?, hc] at hm)
  minds x hm := by
    rw [hx] at hm
    simp only [machine?, hc]
    exact h.minds x hm
  apart := by
    rw [hx]
    exact h.apart
  listed e he := hc ▸ h.listed e (ht he)
  pending := by
    rw [hx, hc]
    exact h.pending

theorem emit (h : Errands out w) (e : Event) : Errands out (w.emit e) :=
  h.same rfl rfl rfl (List.Subset.refl _)

theorem table (h : Errands out w) {t : Table} (ht : t.entries ⊆ w.table.entries) :
    Errands out { w with table := t } := h.same rfl rfl rfl ht

theorem settle (h : Errands [x.id] w) (o : Answer) : Errands [] (w.settle x.id o) where
  rolled := h.rolled.settle _ _
  sound := h.sound
  minds y hy _ := by
    obtain ⟨hy, hi⟩ := mem_settle hy
    exact h.minds y hy (by simpa using hi)
  apart y hy _ z hz _ := by
    obtain ⟨hy, hi⟩ := mem_settle hy
    obtain ⟨hz, hj⟩ := mem_settle hz
    exact h.apart y hy (by simpa using hi) z hz (by simpa using hj)
  listed := h.listed
  pending y hy := h.pending y (mem_settle hy).1

/-- The chore waits for a task that is its own, or for none. -/
theorem update (h : Errands [x.id] w)
    (hx : ∀ i t, x.task? = some (i, t) → (∃ m, w.machine? i = some m ∧ m.Minds t) ∧
      ∀ y ∈ w.chores, y.id ≠ x.id → y.task? ≠ some (i, t))
    (hp : ∀ i ∈ x.pending, i < w.cells.length) : Errands [] (w.update x) where
  rolled := h.rolled.update x
  sound := h.sound
  minds y hy _ i t ht := by
    obtain rfl | ⟨hy, hi⟩ := mem_update hy
    · exact (hx i t ht).1
    · exact h.minds y hy (by simpa using hi) i t ht
  apart y hy _ z hz _ k hyk hzk := by
    obtain rfl | ⟨hym, hi⟩ := mem_update hy
    · obtain rfl | ⟨hzm, hj⟩ := mem_update hz
      · rfl
      · exact absurd hzk ((hx k.1 k.2 hyk).2 z hzm hj)
    · obtain rfl | ⟨hzm, hj⟩ := mem_update hz
      · exact absurd hyk ((hx k.1 k.2 hzk).2 y hym hi)
      · exact h.apart y hym (by simpa using hi) z hzm (by simpa using hj) k hyk hzk
  listed := h.listed
  pending y hy := by
    obtain rfl | ⟨hy, -⟩ := mem_update hy
    · exact hp
    · exact h.pending y hy

theorem add (h : Errands out w) (job : Job) (hj : ∀ i, job = .tend i → i < w.cells.length) :
    Errands out (w.add job) where
  rolled := h.rolled.add job
  sound := h.sound
  minds y hy ho i t ht := by
    obtain hy | rfl := mem_add hy
    · exact h.minds y hy ho i t ht
    · simp [Chore.task?] at ht
  apart y hy ho z hz hq k hyk hzk := by
    obtain hy | rfl := mem_add hy
    · obtain hz | rfl := mem_add hz
      · exact h.apart y hy ho z hz hq k hyk hzk
      · simp [Chore.task?] at hzk
    · simp [Chore.task?] at hyk
  listed := h.listed
  pending y hy i hi := by
    obtain hy | rfl := mem_add hy
    · exact h.pending y hy i hi
    · cases job with
      | tend j =>
        obtain rfl : i = j := by simpa [Chore.pending] using hi
        exact hj i rfl
      | _ => simp [Chore.pending] at hi

/-- A session goes on by a move that drops no task somebody waits for. -/
theorem modify (h : Errands out w) {c : Cell} (hc : w.cells[i]? = some c) (f : Cell → Cell)
    {u : Session.Move} (hs : c.machine.step u = some (f c).machine)
    (hu : ∀ t, u = .cancel t → ∀ y ∈ w.chores, y.id ∉ out → y.task? ≠ some (i, t)) :
    Errands out { w with cells := w.cells.modify i f } := by
  have hself : ({ w with cells := w.cells.modify i f } : Server).machine? i =
      some (f c).machine := by
    simp [machine?, hc]
  have hother (j : Nat) (hj : j ≠ i) :
      ({ w with cells := w.cells.modify i f } : Server).machine? j = w.machine? j := by
    simp [machine?, Ne.symm hj]
  have hcm := machine?_of_cell hc
  refine ⟨h.rolled.same rfl rfl, fun j m hm => ?_, fun x hx ho j t ht => ?_, h.apart, ?_, ?_⟩
  · by_cases hj : j = i
    · subst hj
      rw [hself] at hm
      obtain rfl := Option.some.inj hm
      obtain ⟨hsnd, hne⟩ := h.sound j _ hcm
      exact ⟨hsnd.step hs, Session.Machine.state_ne_created hsnd.orderly hs hne⟩
    · rw [hother j hj] at hm
      exact h.sound j m hm
  · obtain ⟨m, hm, hmd⟩ := h.minds x hx ho j t ht
    by_cases hj : j = i
    · subst hj
      obtain rfl := Option.some.inj (hcm.symm.trans hm)
      exact ⟨_, hself, hmd.step (h.sound j _ hcm).1 hs fun hv => hu t hv x hx ho ht⟩
    · exact ⟨m, (hother j hj).trans hm, hmd⟩
  · simpa using h.listed
  · simpa using h.pending

theorem put (h : Errands out w) {m n : Session.Machine} (hm : w.machine? i = some m)
    {u : Session.Move} (hs : m.step u = some n)
    (hu : ∀ t, u = .cancel t → ∀ y ∈ w.chores, y.id ∉ out → y.task? ≠ some (i, t)) :
    Errands out (w.put i n) := by
  obtain ⟨c, hc, rfl⟩ := Option.map_eq_some_iff.1 hm
  exact h.modify hc _ hs hu

/-- A chore that asks a session to be closed, or to be looked after, has a task of its own. -/
theorem ask (h : Errands out w) (hi : i < w.cells.length) (job : Session.Job)
    (hj : Session.Machine.isMinding job = true) :
    Errands out (w.ask i job).1 ∧
      (∃ m, (w.ask i job).1.machine? i = some m ∧ m.Minds (w.ask i job).2) ∧
      ∀ y ∈ (w.ask i job).1.chores, y.id ∉ out → y.task? ≠ some (i, (w.ask i job).2) := by
  obtain ⟨m, hm⟩ := machine?_of_lt hi
  obtain ⟨hsnd, hne⟩ := h.sound i m hm
  have hask : w.ask i job = (w.put i (m.call job), m.fresh) := by rw [Server.ask, hm]
  rw [hask]
  refine ⟨h.put hm (u := .call job) rfl (by simp), ⟨m.call job, ?_, ?_⟩, fun y hy ho ht => ?_⟩
  · obtain ⟨c, hc, -⟩ := Option.map_eq_some_iff.1 hm
    simp [machine?, Server.put, hc]
  · exact Session.Machine.minds_call hsnd.roster hj
  · obtain ⟨n, hn, hmd⟩ := h.minds y hy ho i _ ht
    obtain rfl := Option.some.inj (hm.symm.trans hn)
    exact Nat.lt_irrefl _ (lt_fresh_of_minds hsnd hmd)

/-- Then it waits for that task. -/
theorem ask_update (h : Errands [x.id] w) (hi : i < w.cells.length) {job : Session.Job}
    (hj : Session.Machine.isMinding job = true) {wait : Wait}
    (ht : ({ x with wait } : Chore).task? = some (i, (w.ask i job).2))
    (hp : ∀ j ∈ ({ x with wait } : Chore).pending, j < w.cells.length) :
    Errands [] ((w.ask i job).1.update { x with wait }) := by
  obtain ⟨hk, hmd, hap⟩ := h.ask hi job hj
  obtain ⟨cs, hask, hlen⟩ := ask_eq i job w
  refine hk.update (x := { x with wait }) (fun j u hu => ?_) fun j hj => ?_
  · obtain ⟨rfl, rfl⟩ := Prod.mk.inj (Option.some.inj (ht.symm.trans hu))
    exact ⟨hmd, fun y hy hne => hap y hy (by simpa using hne)⟩
  · rw [hask]
    exact hlen ▸ hp j hj

theorem update_free (h : Errands [x.id] w) (ht : x.task? = none) (hp : x.pending = []) :
    Errands [] (w.update x) :=
  h.update (fun i t hx => by simp [ht] at hx) (by simp [hp])

theorem start (h : Errands out w) (bound : Except Error Address) : Errands out (w.start bound).1 := by
  unfold Server.start
  split
  · exact h
  · cases bound <;> exact h.same rfl rfl rfl (List.Subset.refl _)

theorem stopped (h : Errands [x.id] w) : Errands [] (w.stopped x) := by
  unfold Server.stopped
  dsimp only
  split
  · exact (h.emit .didRun).settle _
  · exact h.settle _

theorem drain (h : Errands [x.id] w) (l : List Nat) (hl : ∀ i ∈ l, i < w.cells.length) :
    Errands [] (w.drain x l) := by
  cases l with
  | nil => exact (h.emit .didStop).stopped
  | cons i rest =>
    exact h.ask_update (hl i List.mem_cons_self) rfl rfl fun j hj =>
      hl j (List.mem_cons_of_mem _ hj)

theorem beginStop (h : Errands [x.id] w) : Errands [] (w.beginStop x) := by
  unfold Server.beginStop
  split
  · exact h.stopped
  · have hk : Errands [x.id] { { w with listener := none }.emit .willStop with table := {} } :=
      h.same rfl rfl rfl (List.nil_subset _)
    refine hk.drain _ fun i hi => ?_
    obtain ⟨e, he, rfl⟩ := List.mem_map.1 hi
    exact h.listed e he

theorem acceptFailed (h : Errands [x.id] w) (e : Error) : Errands [] (w.acceptFailed x e) := by
  unfold Server.acceptFailed
  split
  · exact h.settle _
  · split
    · split
      · exact Errands.beginStop (x := { x with fault := some e }) h
      · exact h.settle _
    · exact Errands.update_free (x := { x with
        failures := x.failures + 1, wait := .resting _ }) h rfl (by simp [Chore.pending])

theorem beginAccept (h : Errands [x.id] w) : Errands [] (w.beginAccept x) := by
  unfold Server.beginAccept
  split
  · exact h.acceptFailed _
  next l _ =>
    exact Errands.update_free (x := { x with wait := .listening l }) (h.emit .willAccept) rfl
      (by simp [Chore.pending])

theorem accepted (h : Errands [x.id] w) (hi : i < w.cells.length) (fresh : Bool) :
    Errands [] (w.accepted x i fresh) := by
  obtain ⟨t, ht, -⟩ := accepted_told x i fresh w
  have hk : Errands [x.id] { w with trace := t ++ w.trace } :=
    h.same rfl rfl rfl (List.Subset.refl _)
  rw [ht]
  split
  · split
    · have hadd := hk.add (.tend i) fun j hj => Job.tend.inj hj ▸ hi
      exact Errands.beginAccept (x := { x with failures := 0 }) hadd
    · exact Errands.beginAccept (x := { x with failures := 0 }) hk
  · exact hk.settle _

theorem enrol (h : Errands out w) (p : Address) : Errands out (w.enrol p) where
  rolled := h.rolled.enrol p
  sound j m hm := by
    rw [machine?_enrol] at hm
    split at hm
    · obtain rfl := Option.some.inj hm
      exact sound_newCell p w
    · exact h.sound j m hm
  minds x hx ho j t ht := by
    obtain ⟨m, hm, hmd⟩ := h.minds x hx ho j t ht
    refine ⟨m, ?_, hmd⟩
    rw [machine?_enrol, if_neg (Nat.ne_of_lt (lt_of_machine? hm)), hm]
  apart := h.apart
  listed e he := by
    have hlen : (w.enrol p).cells.length = w.cells.length + 1 := by simp [Server.enrol]
    rw [hlen]
    obtain he | he := List.mem_append.1 he
    · exact Nat.lt_succ_of_lt (h.listed e (List.mem_filter.1 he).1)
    · obtain rfl := List.mem_singleton.1 he
      exact Nat.lt_succ_self _
  pending x hx j hj := by
    have hlen : (w.enrol p).cells.length = w.cells.length + 1 := by simp [Server.enrol]
    rw [hlen]
    exact Nat.lt_succ_of_lt (h.pending x hx j hj)

theorem hand (h : Errands out w) (i : Nat) (data : Bytes) : Errands out (w.hand i data) := by
  obtain hc | ⟨c, f, hc, hf, -, hs⟩ := hand_cases i data w
  · exact h.same hc rfl rfl (List.Subset.refl _)
  · rw [hf]
    exact h.modify hc f hs (by simp)

theorem connected (h : Errands [x.id] w) (p : Address) : Errands [] (w.connected x p) := by
  have hlen : (w.enrol p).cells.length = w.cells.length + 1 := by simp [Server.enrol]
  unfold Server.connected
  dsimp only
  split
  · exact (h.enrol p).accepted (by omega) true
  next stale hs =>
    have hlt : stale < w.cells.length := by
      obtain ⟨e, he, rfl⟩ := Option.map_eq_some_iff.1 hs
      exact h.listed e (List.mem_of_find?_eq_some he)
    refine (h.enrol p).ask_update (by omega) rfl rfl fun j hj => ?_
    obtain rfl : j = w.cells.length := by simpa [Chore.pending] using hj
    omega

theorem datagram (h : Errands [x.id] w) (p : Address) (data : Bytes) :
    Errands [] (w.datagram x p data) := by
  have hlen (u : Server) (i : Nat) (d : Bytes) : (u.hand i d).cells.length = u.cells.length :=
    List.length_modify ..
  unfold Server.datagram
  dsimp only
  split
  next i hi =>
    have hlt : i < w.cells.length := by
      obtain ⟨e, he, rfl⟩ := Option.map_eq_some_iff.1 (Option.filter_eq_some_iff.1 hi).1
      exact h.listed e (List.mem_of_find?_eq_some he)
    exact (h.hand _ _).accepted (by rw [hlen]; exact hlt) false
  next =>
    exact ((h.enrol p).hand _ _).accepted (by rw [hlen]; simp [Server.enrol]) true

theorem isMinding_tending (s : Settings) : Session.Machine.isMinding (tending s) = true := by
  unfold tending
  split
  · rfl
  · split <;> rfl

theorem begin (h : Errands [x.id] w) (hp : ∀ i ∈ x.pending, i < w.cells.length)
    (hw : x.wait = .starting) : Errands [] (w.begin x) := by
  unfold Server.begin
  split
  · exact h.beginAccept
  · exact h.beginAccept
  · exact h.beginAccept
  · exact h.beginStop
  next i hj =>
    have hlt : i < w.cells.length := hp i (by simp [Chore.pending, hw, hj])
    refine h.ask_update hlt (isMinding_tending _) ?_ (by simp [Chore.pending])
    simp only [Chore.task?, hj]
    rfl
  next p hj =>
    split
    · exact h.settle _
    next i hi =>
      have hlt : i < w.cells.length := by
        obtain ⟨e, he, rfl⟩ := Option.map_eq_some_iff.1 hi
        exact h.listed e (List.mem_of_find?_eq_some he)
      have ht : Errands [x.id] { w with table := w.table.erase p } :=
        h.table List.filter_sublist.subset
      exact ht.ask_update hlt rfl rfl (by simp [Chore.pending])

/-- A chore that nobody asked for before begins. -/
theorem call (h : Errands [] w) {job : Job} (hj : ∀ i, job ≠ .tend i) :
    Errands [] (w.call job) := by
  have hk := (h.add job fun i hi => absurd hi (hj i)).weaken w.fresh
  refine Errands.begin (x := ⟨w.fresh, job, .starting, 0, none⟩) hk (fun i hi => ?_) rfl
  cases job with
  | tend j => exact absurd rfl (hj j)
  | _ => simp [Chore.pending] at hi

theorem callRun (h : Errands [] w) (bound : Except Error Address) (down : Bool) :
    Errands [] (w.callRun bound down) := by
  have hs := (((h.emit .willRun).add .run (by simp)).weaken w.fresh).start bound
  unfold Server.callRun
  dsimp only
  split
  next hb =>
    rw [hb] at hs
    split
    · exact Errands.beginStop (x := ⟨w.fresh, .run, .starting, 0, none⟩) hs
    · exact Errands.begin (x := ⟨w.fresh, .run, .starting, 0, none⟩) hs (by simp [Chore.pending]) rfl
  next hb =>
    rw [hb] at hs
    exact Errands.settle (x := ⟨w.fresh, .run, .starting, 0, none⟩) hs _

/-- Nobody else waits for what a chore waits for, so it may be dropped. -/
theorem release (h : Errands [] w) (hx : x ∈ w.chores) : Errands [x.id] (w.release x) := by
  unfold Server.release
  split
  next i t ht =>
    split
    next n hn =>
      obtain ⟨m, hm, hs⟩ := Option.bind_eq_some_iff.1 hn
      refine (h.weaken x.id).put hm hs fun u hu y hy hne hyt => ?_
      obtain rfl := Session.Move.cancel.inj hu
      obtain rfl := h.apart x hx (by simp) y hy (by simp) _ ht hyt
      simp at hne
    next => exact h.weaken _
  next => exact h.weaken _

theorem filter (h : Errands [x.id] w) :
    Errands [] { w with chores := w.chores.filter (·.id ≠ x.id) } :=
  { h.settle .done with rolled := h.rolled.filter (p := (·.id ≠ x.id)) rfl rfl }

theorem pass (h : Errands out w) (d : Duration) : Errands out (w.later d) := by
  have hlen : (w.later d).cells.length = w.cells.length := List.length_map _
  refine ⟨h.rolled.same rfl rfl, fun i m hi => ?_, fun x hx ho i t ht => ?_, h.apart, ?_, ?_⟩
  · rw [machine?_later] at hi
    obtain ⟨n, hn, rfl⟩ := Option.map_eq_some_iff.1 hi
    obtain ⟨hs, hne⟩ := h.sound i n hn
    exact ⟨hs.step (v := .pass d) rfl, hne⟩
  · obtain ⟨n, hn, hmd⟩ := h.minds x hx ho i t ht
    rw [machine?_later, hn]
    exact ⟨_, rfl, hmd.step (v := .pass d) (h.sound i n hn).1 rfl (by simp)⟩
  · rw [hlen]
    exact h.listed
  · rw [hlen]
    exact h.pending

theorem step (h : Errands [] w) (hs : w.step v = some a) : Errands [] a := by
  have hlen {x : Chore} (hx : x ∈ w.chores) : ∀ i ∈ x.pending, i < w.cells.length :=
    h.pending x hx
  cases turn_step hs with
  | start bound => exact h.start bound
  | @call job hj => exact h.call (by rintro i rfl; simp [isPublic] at hj)
  | run bound down => exact h.callRun bound down
  | @spawn job hj => exact h.add job (by rintro i rfl; simp [isPublic] at hj)
  | begin hx hw => exact (h.weaken _).begin (hlen hx) hw
  | connected p => exact (h.weaken _).connected p
  | datagram p data => exact (h.weaken _).datagram p data
  | acceptFailed e => exact (h.weaken _).acceptFailed e
  | wake => exact (h.weaken _).beginAccept
  | @replaced x i stale t o hx hw =>
    exact (h.weaken x.id).accepted (hlen hx i (by simp [Chore.pending, hw])) true
  | @tended x i =>
    have ht : Errands [x.id] { w with table := w.withoutOwn i } :=
      (h.weaken x.id).table (withoutOwn_sublist w i).subset
    exact ht.settle _
  | closed => exact (h.weaken _).settle _
  | @drained x i t rest o fault hx hw =>
    refine Errands.drain (x := { x with fault }) (h.weaken x.id) rest fun j hj => ?_
    exact hlen hx j (by simpa [Chore.pending, hw] using hj)
  | shutDown hx => exact (h.release hx).beginStop
  | @cancel x hx =>
    have hr := h.release hx
    obtain ⟨cs, hrel, -⟩ := release_eq x w
    rw [hrel] at hr ⊢
    exact hr.filter
  | @session i u m n ho hm hn =>
    refine h.put hm hn fun t hu y hy _ hyt => ?_
    subst hu
    simp only [isOutside, Bool.not_eq_true', List.any_eq_false, decide_eq_true_eq] at ho
    exact ho y hy hyt
  | receive rest _ hc hn => exact h.modify hc _ hn (by simp)
  | remove p => exact h.table List.filter_sublist.subset
  | removeIf p i => exact h.table (sublist_eraseIf _ _ _).subset
  | pass d => exact h.pass d

theorem steps (h : Errands [] w) (vs : List Move) (hs : w.steps vs = some a) : Errands [] a :=
  steps_induction vs (fun _ _ _ _ hb hd => hb.step hd) h hs

end Errands

theorem errands_empty (s : Settings) : Errands [] { settings := s } where
  rolled := rolled_empty s
  sound := by simp [machine?]
  minds := by simp
  apart := by simp
  listed := by simp
  pending := by simp

end Switchboard.Server
