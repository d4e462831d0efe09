import Switchboard.Proofs.Session.Lifecycle
import Switchboard.Proofs.Session.Roster

/-! The end of a session. Many may close it: the first lets the link go and waits for its answer, and
all others are done at once, whatever the link answers then. -/
namespace Switchboard.Session

def endsClose : Event → Bool
  | .closeSuccess | .closeFailure _ => true
  | _ => false

/-- The link is let go once, and the session is `closed` from its answer on. -/
structure Closure (s : Session) (trace : List Mark) (calls : List (TaskId × Call)) : Prop where
  closings : trace.countP (·.event = .closing) = if s.released then 1 else 0
  closes : calls.countP (·.2 = .close) = if s.released then 1 else 0
  closed : s.state = .closed ↔ ∃ k ∈ trace, endsClose k.event = true

namespace Closure
variable {s r : Session} {trace : List Mark} {calls : List (TaskId × Call)}

theorem change (h : Closure s trace calls) (hr : r.released = s.released)
    (hc : r.state = .closed ↔ s.state = .closed) : Closure r trace calls where
  closings := hr ▸ h.closings
  closes := hr ▸ h.closes
  closed := hc.trans h.closed

theorem tell (h : Closure s trace calls) (k : Mark) (hk : k.event ≠ .closing)
    (he : endsClose k.event = false) : Closure s (k :: trace) calls where
  closings := by
    rw [List.countP_cons, h.closings]
    simp [hk]
  closes := h.closes
  closed := by simp [h.closed, he]

theorem ask (h : Closure s trace calls) (t : TaskId) {c : Call} (hc : c ≠ .close) :
    Closure s trace ((t, c) :: calls) where
  closings := h.closings
  closes := by
    rw [List.countP_cons, h.closes]
    simp [hc]
  closed := h.closed

theorem release (h : Closure s trace calls) (hr : s.released = false) (ho : s.state ≠ .closed)
    (now : Duration) (t : TaskId) :
    Closure s.release (⟨now, some t, .closing⟩ :: trace) ((t, .close) :: calls) where
  closings := by
    rw [List.countP_cons, h.closings, hr]
    simp [Session.release]
  closes := by
    rw [List.countP_cons, h.closes, hr]
    simp [Session.release]
  closed := by
    have hn := fun k hk => mt (fun hx => h.closed.2 ⟨k, hk, hx⟩) ho
    simpa [Session.release, endsClose] using hn

theorem finish (h : Closure s trace calls) (k : Mark) (he : endsClose k.event = true) :
    Closure s.finish (k :: trace) calls where
  closings := by
    have hk : k.event ≠ .closing := fun hk => by simp [hk, endsClose] at he
    rw [List.countP_cons_of_neg (by simpa using hk)]
    exact h.closings
  closes := h.closes
  closed := by simp [Session.finish, he]

end Closure

theorem closed_beginClosing (s : Session) : s.beginClosing.state = .closed ↔ s.state = .closed := by
  cases hs : s.state <;> simp [beginClosing, hs]

theorem released_obeyExit (s : Session) (data : Bytes) :
    (s.obeyExit data).released = s.released := by
  unfold obeyExit
  split <;> rfl

theorem closed_obeyExit (s : Session) (data : Bytes) :
    (s.obeyExit data).state = .closed ↔ s.state = .closed := by
  unfold obeyExit
  split
  · exact closed_beginClosing s
  · exact Iff.rfl

/-- The tasks against what is on record: what has ended runs no more, and who has asked the link to
close waits for its answer. -/
structure Recorded (tasks : List Task) (fresh : Nat) (calls : List (TaskId × Call))
    (finished : List (TaskId × Outcome)) : Prop where
  ended : ∀ p ∈ finished, p.1 < fresh ∧ ∀ x ∈ tasks, x.id ≠ p.1
  called : ∀ c ∈ calls, c.1 < fresh
  shutting : ∀ x ∈ tasks, (x.id, .close) ∈ calls → x.wait = .shutting

namespace Recorded
variable {tasks l : List Task} {fresh : Nat} {calls : List (TaskId × Call)}
  {finished : List (TaskId × Outcome)} {t : TaskId}

theorem sublist (h : Recorded tasks fresh calls finished) (hs : l ⊆ tasks) :
    Recorded l fresh calls finished where
  ended p hp := ⟨(h.ended p hp).1, fun x hx => (h.ended p hp).2 x (hs hx)⟩
  called := h.called
  shutting x hx := h.shutting x (hs hx)

theorem settle (h : Recorded tasks fresh calls finished) (ht : t < fresh) (o : Outcome) :
    Recorded (tasks.filter (·.id ≠ t)) fresh calls ((t, o) :: finished) where
  ended p hp := by
    obtain rfl | hp := List.mem_cons.1 hp
    · exact ⟨ht, fun x hx => by simpa using (List.mem_filter.1 hx).2⟩
    · exact ⟨(h.ended p hp).1, fun x hx => (h.ended p hp).2 x (List.mem_filter.1 hx).1⟩
  called := h.called
  shutting x hx := h.shutting x (List.mem_filter.1 hx).1

theorem add (h : Recorded tasks fresh calls finished) (job : Job) (p : Option TaskId)
    (stamp : Nat) :
    Recorded (tasks ++ [⟨fresh, job, p, .starting, stamp⟩]) (fresh + 1) calls finished where
  ended q hq := by
    refine ⟨Nat.lt_succ_of_lt (h.ended q hq).1, fun x hx => ?_⟩
    obtain hx | hx := List.mem_append.1 hx
    · exact (h.ended q hq).2 x hx
    · obtain rfl := List.mem_singleton.1 hx
      exact (Nat.ne_of_lt (h.ended q hq).1).symm
  called c hc := Nat.lt_succ_of_lt (h.called c hc)
  shutting x hx hc := by
    obtain hx | hx := List.mem_append.1 hx
    · exact h.shutting x hx hc
    · obtain rfl := List.mem_singleton.1 hx
      exact absurd (h.called _ hc) (Nat.lt_irrefl _)

theorem no_end_fresh (h : Recorded tasks fresh calls finished) (o : Outcome) :
    (fresh, o) ∉ finished := fun hm => Nat.lt_irrefl _ (h.ended _ hm).1

theorem no_end {x : Task} (h : Recorded tasks fresh calls finished) (hx : x ∈ tasks)
    (o : Outcome) : (x.id, o) ∉ finished := fun hm => (h.ended _ hm).2 x hx rfl

theorem no_close {x : Task} (h : Recorded tasks fresh calls finished) (hx : x ∈ tasks)
    (hw : x.wait ≠ .shutting) : (x.id, .close) ∉ calls := fun hc => hw (h.shutting x hx hc)

end Recorded

namespace Machine
variable {m a b : Machine} {t u : TaskId} {job : Job}

abbrev ClosedOnce (m : Machine) : Prop := Closure m.session m.trace m.calls

theorem closedOnce_leaves (hl : Leaves t job m a)
    (ho : m.session.released = false → m.session.state ≠ .closed) (h : ClosedOnce m) :
    ClosedOnce a := by
  cases hl with
  | send data _ => exact (h.tell ⟨_, _, _⟩ (by simp) rfl).ask t (by simp)
  | recv size _ => exact (h.tell ⟨_, _, _⟩ (by simp) rfl).ask t (by simp)
  | close hr => exact h.release hr (ho hr) _ _
  | pause | watch | ends => exact h

theorem closedOnce_begins (hb : Begins t job m a)
    (ho : m.session.released = false → m.session.state ≠ .closed) (h : ClosedOnce m) :
    ClosedOnce a := by
  cases hb with
  | leaves hl => exact closedOnce_leaves hl ho h
  | fork _ =>
    obtain ⟨hs, ht, hc, -⟩ := addAll_same m.session.loops.toList t (m.await t .joining)
    rw [ClosedOnce, addLoops, hs, ht, hc]
    exact h
  | guard _ => exact h

theorem closedOnce_deed {v : Move} (hm : Orderly m) (h : ClosedOnce m) (hd : Deed m v a) :
    ClosedOnce a := by
  have hr : m.session.released = false → m.session.state ≠ .closed := fun hr hc => by
    simp [hm.released_of_closed hc] at hr
  cases hd with
  | activate hs =>
    unfold Session.activate at hs
    split at hs
    next hc =>
      obtain rfl := Except.ok.inj hs
      exact h.change rfl (by simp [hc])
    next => simp at hs
  | setLoop => exact h.change rfl Iff.rfl
  | ignore | pass | cancel | halt | relay | unwatch | look => exact h
  | call hb => exact closedOnce_begins hb hr h
  | start _ _ hb => exact closedOnce_begins hb hr h
  | sent _ _ hl =>
    exact closedOnce_leaves hl hr ((h.tell ⟨_, _, _⟩ (by simp) rfl).change rfl Iff.rfl)
  | @received x size d data a _ _ _ hl =>
    have hs := closed_obeyExit (m.session.received m.now data) data
    have hx := released_obeyExit (m.session.received m.now data) data
    exact closedOnce_leaves hl (fun hl hc => hr (hx.symm.trans hl) (hs.1 hc))
      ((h.tell ⟨_, _, _⟩ (by simp) rfl).change hx hs)
  | sendFailed | recvFailed =>
    exact (h.tell ⟨_, _, _⟩ (by simp) rfl).change rfl (closed_beginClosing _)
  | closed | closeFailed => exact h.finish ⟨_, _, _⟩ rfl
  | turn _ _ _ hl => exact closedOnce_leaves hl hr h
  | evict _ _ _ hl => exact closedOnce_leaves hl hr h
  | join _ _ _ hl => exact closedOnce_leaves hl hr h
  | notice _ _ _ hl => exact closedOnce_leaves hl hr h
  | deliver size data =>
    exact (h.tell ⟨_, _, _⟩ (by simp) rfl).change
      (released_obeyExit (m.session.touch m.now) data) (closed_obeyExit (m.session.touch m.now) data)

abbrev OnRecord (m : Machine) : Prop := Recorded m.tasks m.fresh m.calls m.finished

/-- A task that has not asked the link to close waits again, and waits for the answer if it asks
now. -/
theorem recorded_await (h : OnRecord m) (ht : t < m.fresh) (hc : (t, .close) ∉ m.calls)
    (w : Wait) {calls : List (TaskId × Call)} (hcs : ∀ c ∈ calls, c ∈ m.calls ∨ c.1 = t)
    (hw : (t, .close) ∈ calls → w = .shutting) :
    Recorded (m.await t w).tasks (m.await t w).fresh calls m.finished where
  ended p hp := by
    refine ⟨Nat.lt_succ_of_lt (h.ended p hp).1, fun y hy => ?_⟩
    obtain ⟨x, hx, hi, -⟩ := mem_await w hy
    rw [hi]
    exact (h.ended p hp).2 x hx
  called c hm := by
    obtain hm | rfl := hcs c hm
    · exact Nat.lt_succ_of_lt (h.called c hm)
    · exact Nat.lt_succ_of_lt ht
  shutting y hy hm := by
    obtain ⟨x, hx, hi, -, -, ⟨hxt, hyw⟩ | ⟨hxt, rfl⟩⟩ := mem_await w hy
    · rw [hyw]
      exact hw (by rwa [hi, hxt] at hm)
    · obtain hm | hm := hcs _ hm
      · exact h.shutting y hx hm
      · exact absurd hm hxt

theorem recorded_leaves (hl : Leaves t job m a) (h : OnRecord m) (ht : t < m.fresh)
    (hc : (t, .close) ∉ m.calls) : OnRecord a := by
  have own {c : Call} : ∀ d ∈ (t, c) :: m.calls, d ∈ m.calls ∨ d.1 = t := fun d hd => by
    obtain rfl | hd := List.mem_cons.1 hd
    · exact .inr rfl
    · exact .inl hd
  have other {c : Call} (hn : c ≠ .close) : (t, .close) ∉ (t, c) :: m.calls := fun hm => by
    obtain hm | hm := List.mem_cons.1 hm
    · exact hn (congrArg (·.2) hm).symm
    · exact hc hm
  cases hl with
  | send data _ => exact recorded_await h ht hc _ own fun hm => absurd hm (other (by simp))
  | recv size _ => exact recorded_await h ht hc _ own fun hm => absurd hm (other (by simp))
  | close _ => exact recorded_await h ht hc _ own fun _ => rfl
  | pause | watch => exact recorded_await h ht hc _ (fun _ => .inl) fun hm => absurd hm hc
  | ends _ => exact h.settle ht _

theorem recorded_addAll (ks : List Loop) (h : OnRecord m) :
    OnRecord (ks.foldl (fun m k => m.add m.fresh (.loop k) (some t)) m) := by
  induction ks generalizing m with
  | nil => exact h
  | cons k ks ih => exact ih (h.add (.loop k) (some t) m.fresh)

theorem recorded_begins (hb : Begins t job m a) (h : OnRecord m) (ht : t < m.fresh)
    (hc : (t, .close) ∉ m.calls) : OnRecord a := by
  cases hb with
  | leaves hl => exact recorded_leaves hl h ht hc
  | fork _ =>
    exact recorded_addAll _ (recorded_await h ht hc .joining (fun _ => .inl) fun hm => absurd hm hc)
  | guard _ =>
    exact recorded_await (m := m.add m.fresh _ (some t)) (h.add _ _ _) (Nat.lt_succ_of_lt ht) hc _
      (fun _ => .inl) fun hm => absurd hm hc

theorem recorded_deed {v : Move} (hr : Roster m.tasks m.fresh) (h : OnRecord m)
    (hd : Deed m v a) : OnRecord a := by
  have free {x : Task} (hx : x ∈ m.tasks) (hw : x.wait ≠ .shutting) :
      x.id < m.fresh ∧ (x.id, .close) ∉ m.calls := ⟨hr.lt_fresh x hx, h.no_close hx hw⟩
  cases hd with
  | activate | setLoop | ignore | deliver | pass => exact h
  | call hb =>
    exact recorded_begins hb (h.add _ _ _) (Nat.lt_succ_self _) fun hc =>
      Nat.lt_irrefl _ (h.called _ hc)
  | start hx hw hb =>
    obtain ⟨ht, hc⟩ := free hx (by simp [hw])
    exact recorded_begins hb h ht hc
  | sent hx hw hl =>
    obtain ⟨ht, hc⟩ := free hx (by simp [hw])
    exact recorded_leaves hl h ht hc
  | received hx hw _ hl =>
    obtain ⟨ht, hc⟩ := free hx (by simp [hw])
    exact recorded_leaves hl h ht hc
  | sendFailed _ hx | recvFailed _ hx | closed hx | closeFailed _ hx | halt hx | relay _ hx
  | unwatch hx => exact h.settle (hr.lt_fresh _ hx) _
  | turn hx hw _ hl =>
    obtain ⟨ht, hc⟩ := free hx (by simp [hw])
    exact recorded_leaves hl h ht hc
  | look hx hw _ =>
    obtain ⟨ht, hc⟩ := free hx (by simp [hw])
    exact recorded_await h ht hc _ (fun _ => .inl) fun hm => absurd hm hc
  | evict hx hw _ hl =>
    obtain ⟨ht, hc⟩ := free hx (by simp [hw])
    exact recorded_leaves hl (h.sublist (List.filter_subset_self _)) ht hc
  | join hx hw _ hl =>
    obtain ⟨ht, hc⟩ := free hx (by simp [hw])
    exact recorded_leaves hl h ht hc
  | notice hx hw _ hl =>
    obtain ⟨ht, hc⟩ := free hx (by simp [hw])
    exact recorded_leaves hl h ht hc
  | cancel => exact h.sublist (List.filter_subset_self _)

/-- A call to close, or to run the loops and close: when it is done, the link has been let go, and if
that was its own doing, the link is closed. -/
structure Closer (t : TaskId) (job : Job) (m : Machine) : Prop where
  known : t < m.fresh
  job : ∀ x ∈ m.tasks, x.id = t → x.job = job
  done : (t, .done) ∈ m.finished → m.session.released = true ∧
    ((t, .close) ∈ m.calls → ∃ k ∈ m.trace, k.task = some t ∧ k.event = .closeSuccess)

section Closer
variable (hj : job = .close ∨ job = .runLoops)

/-- Moves that neither end a task nor take anything off the record. -/
theorem Closer.keep (h : Closer t job m) (hn : m.fresh ≤ a.fresh)
    (hx : ∀ y ∈ a.tasks, y.id = t → y.job = job) (hf : a.finished = m.finished)
    (hr : m.session.released = true → a.session.released = true) (hk : m.trace ⊆ a.trace)
    (hc : (t, .done) ∈ m.finished → (t, .close) ∈ a.calls → (t, .close) ∈ m.calls) :
    Closer t job a where
  known := Nat.lt_of_lt_of_le h.known hn
  job := hx
  done hd := by
    rw [hf] at hd
    obtain ⟨hl, hs⟩ := h.done hd
    refine ⟨hr hl, fun hm => ?_⟩
    obtain ⟨k, hm, hk'⟩ := hs (hc hd hm)
    exact ⟨k, hk hm, hk'⟩

/-- A task ends; if it is the one who closes, it is not done yet. -/
theorem Closer.settle (h : Closer t job m) {o : Outcome} (ho : u = t → o ≠ .done) :
    Closer t job (m.settle u o) where
  known := h.known
  job x hx := h.job x (List.mem_filter.1 hx).1
  done hd := by
    obtain hd | hd := List.mem_cons.1 hd
    · obtain ⟨ht, hd⟩ := Prod.mk.inj hd
      exact absurd hd.symm (ho ht.symm)
    · exact h.done hd

theorem Closer.await (h : Closer t job m) (w : Wait) : Closer t job (m.await u w) :=
  h.keep (Nat.le_succ _) (fun y hy hi => by
    obtain ⟨x, hx, hxi, hxj, -⟩ := mem_await w hy
    rw [hxj]
    exact h.job x hx (hxi ▸ hi)) rfl id (fun _ => id) fun _ => id

/-- The link is asked by a task that is not done. -/
theorem Closer.ask (h : Closer t job m) (hn : ∀ o, (u, o) ∉ m.finished) (e : Event) (c : Call) :
    Closer t job ((m.emit u e).ask u c) := by
  refine h.keep (Nat.le_refl _) h.job rfl id (List.subset_cons_self _ _) fun hd hm => ?_
  obtain hm | hm := List.mem_cons.1 hm
  · obtain ⟨rfl, -⟩ := Prod.mk.inj hm
    exact absurd hd (hn _)
  · exact hm

theorem Closer.add (h : Closer t job m) (other : Job) (p : Option TaskId) :
    Closer t job (m.add m.fresh other p) :=
  h.keep (Nat.le_succ _) (fun y hy hi => by
    obtain hy | hy := List.mem_append.1 hy
    · exact h.job y hy hi
    · obtain rfl := List.mem_singleton.1 hy
      exact absurd h.known (by simp [← hi])) rfl id (fun _ => id) fun _ => id

theorem Closer.addAll (ks : List Loop) (h : Closer t job m) :
    Closer t job (ks.foldl (fun m k => m.add m.fresh (.loop k) (some u)) m) := by
  induction ks generalizing m with
  | nil => exact h
  | cons k ks ih => exact ih (h.add (.loop k) (some u))

theorem Closer.drop (h : Closer t job m) (p : Task → Bool) :
    Closer t job { m with tasks := m.tasks.filter p } :=
  h.keep (Nat.le_refl _) (fun x hx => h.job x (List.mem_filter.1 hx).1) rfl id (fun _ => id)
    fun _ => id

theorem Closer.tell (h : Closer t job m) (k : Mark) :
    Closer t job { m with trace := k :: m.trace } :=
  h.keep (Nat.le_refl _) h.job rfl id (List.subset_cons_self _ _) fun _ => id

theorem Closer.change (h : Closer t job m) {s : Session}
    (hs : m.session.released = true → s.released = true) :
    Closer t job { m with session := s } :=
  h.keep (Nat.le_refl _) h.job rfl hs (fun _ => id) fun _ => id

include hj

theorem closer_leaves {other : Job} (hl : Leaves u other m a) (h : Closer t job m)
    (hu : u = t → other = job) (hn : ∀ o, (u, o) ∉ m.finished) (hc : (u, .close) ∉ m.calls) :
    Closer t job a := by
  cases hl with
  | send | recv => exact (h.ask hn _ _).await _
  | close _ =>
    have hk : Closer t job (m.modify release) := h.change fun _ => rfl
    exact (hk.ask hn .closing .close).await _
  | pause | watch => exact h.await _
  | @ends o hr =>
    by_cases hd : u = t ∧ o = .done
    · obtain ⟨rfl, rfl⟩ := hd
      have hl : m.session.released = true := by
        cases hr with
        | told _ ho => exact absurd rfl ho
        | released hl => exact hl
        | halted => obtain h | h := hj <;> simp [h] at hu
        | unwatched => obtain h | h := hj <;> simp [h] at hu
      exact ⟨h.known, fun x hx => h.job x (List.mem_filter.1 hx).1,
        fun _ => ⟨hl, fun hm => absurd hm hc⟩⟩
    · exact h.settle fun hu ho => hd ⟨hu, ho⟩

theorem closer_begins {other : Job} (hb : Begins u other m a) (h : Closer t job m)
    (hu : u = t → other = job) (hn : ∀ o, (u, o) ∉ m.finished) (hc : (u, .close) ∉ m.calls) :
    Closer t job a := by
  cases hb with
  | leaves hl => exact closer_leaves hj hl h hu hn hc
  | fork _ => exact (h.await .joining).addAll _
  | guard _ => exact (h.add _ (some u)).await _

theorem closer_deed {v : Move} (hm : Orderly m) (hr : Roster m.tasks m.fresh) (hn : OnRecord m)
    (h : Closer t job m) (hd : Deed m v a) : Closer t job a := by
  have free {x : Task} (hx : x ∈ m.tasks) (hw : x.wait ≠ .shutting) :
      (∀ o, (x.id, o) ∉ m.finished) ∧ (x.id, .close) ∉ m.calls :=
    ⟨hn.no_end hx, hn.no_close hx hw⟩
  -- a task of another job than these two is not the one in question
  have other {x : Task} (hx : x ∈ m.tasks) (hw : x.job ≠ .close ∧ x.job ≠ .runLoops) (o : Outcome) :
      x.id = t → o ≠ .done := fun hi => by
    obtain hj | hj := hj
    · exact absurd ((h.job x hx hi).trans hj) hw.1
    · exact absurd ((h.job x hx hi).trans hj) hw.2
  cases hd with
  | ignore => exact h
  | setLoop => exact h.change id
  | pass => exact h.keep (Nat.le_refl _) h.job rfl id (fun _ => id) fun _ => id
  | activate hs =>
    unfold Session.activate at hs
    split at hs
    next =>
      obtain rfl := Except.ok.inj hs
      exact h.change id
    next => simp at hs
  | call hb =>
    refine closer_begins hj hb (h.add _ _) (fun hu => ?_) hn.no_end_fresh fun hc =>
      Nat.lt_irrefl _ (hn.called _ hc)
    exact absurd h.known (by simp [← hu])
  | start hx hw hb =>
    obtain ⟨he, hc⟩ := free hx (by simp [hw])
    exact closer_begins hj hb h (h.job _ hx) he hc
  | @sent x data d n a hx hw hl =>
    obtain ⟨he, hc⟩ := free hx (by simp [hw])
    have hk := (h.change (s := m.session.sent m.now n) id).tell ⟨m.now, x.id, .sendSuccess data⟩
    exact closer_leaves hj hl hk (h.job _ hx) he hc
  | @received x size d data a hx hw _ hl =>
    obtain ⟨he, hc⟩ := free hx (by simp [hw])
    have hk := (h.tell ⟨m.now, x.id, .recvSuccess size data⟩).change
      (released_obeyExit (m.session.received m.now data) data).trans
    exact closer_leaves hj hl hk (h.job _ hx) he hc
  | turn hx hw _ hl =>
    obtain ⟨he, hc⟩ := free hx (by simp [hw])
    exact closer_leaves hj hl h (h.job _ hx) he hc
  | join hx hw _ hl =>
    obtain ⟨he, hc⟩ := free hx (by simp [hw])
    exact closer_leaves hj hl h (h.job _ hx) he hc
  | notice hx hw _ hl =>
    obtain ⟨he, hc⟩ := free hx (by simp [hw])
    exact closer_leaves hj hl h (h.job _ hx) he hc
  | evict hx hw _ hl =>
    obtain ⟨he, hc⟩ := free hx (by simp [hw])
    exact closer_leaves hj hl (h.drop _) (h.job _ hx) he hc
  | look => exact h.await _
  | @sendFailed x data d v e =>
    have hk := (h.tell ⟨m.now, x.id, .sendFailure data e.message⟩).change (s := m.session.beginClosing) id
    exact hk.settle fun _ => by simp
  | @recvFailed x size d v e =>
    have hk := (h.tell ⟨m.now, x.id, .recvFailure size e.message⟩).change (s := m.session.beginClosing) id
    exact hk.settle fun _ => by simp
  | @closed x hx hw =>
    have hk := (h.change (s := m.session.finish) id).tell ⟨m.now, x.id, .closeSuccess⟩
    refine ⟨h.known, fun y hy => h.job y (List.mem_filter.1 hy).1, fun hd => ?_⟩
    obtain hd | hd := List.mem_cons.1 hd
    · obtain ⟨rfl, -⟩ := Prod.mk.inj hd
      exact ⟨hm.released_of_shutting x hx hw, fun _ => ⟨_, List.mem_cons_self, rfl, rfl⟩⟩
    · exact hk.done hd
  | @closeFailed x e =>
    have hk := (h.change (s := m.session.finish) id).tell ⟨m.now, x.id, .closeFailure e.message⟩
    exact hk.settle fun _ => by simp
  | halt hx hw _ => exact h.settle (other hx (by simp [hw]) _)
  | relay o hx hw =>
    have hs := hr.suits _ hx
    rw [hw] at hs
    obtain ⟨loops, limit, hs⟩ := hs
    exact h.settle (other hx (by simp [hs]) _)
  | unwatch hx hw _ =>
    have hs := hr.suits _ hx
    rw [hw] at hs
    obtain hs | hs := hs
    · exact h.settle (other hx (by simp [hs]) _)
    · exact h.settle (other hx (by simp [hs]) _)
  | cancel => exact h.drop _
  | deliver size data =>
    exact (h.tell ⟨m.now, none, .recvSuccess size data⟩).change
      (released_obeyExit (m.session.touch m.now) data).trans

end Closer

structure Sound (m : Machine) : Prop where
  orderly : Orderly m
  roster : Roster m.tasks m.fresh
  record : OnRecord m
  closure : ClosedOnce m

theorem sound_opened (settings : LoopSettings) (timeout : Option Duration) (now : Duration) :
    Sound (opened settings timeout now) where
  orderly := orderly_opened settings timeout now
  roster := ⟨List.nodup_nil, by simp [opened], by simp [opened], by simp [opened]⟩
  record := ⟨by simp [opened], by simp [opened], by simp [opened]⟩
  closure := ⟨by simp [opened], by simp [opened], by simp [opened]⟩

theorem Sound.step (hm : Sound m) {v : Move} (h : m.step v = some a) : Sound a where
  orderly := hm.orderly.advance (advance_step v h)
  roster := roster_deed hm.roster (deed_step v h)
  record := recorded_deed hm.roster hm.record (deed_step v h)
  closure := closedOnce_deed hm.orderly hm.closure (deed_step v h)

theorem Sound.steps (hm : Sound m) (vs : List Move) (h : m.steps vs = some a) : Sound a :=
  steps_induction (fun hm h => hm.step h) hm vs h

def Undertaken (t : TaskId) (job : Job) (vs : List Move) (m : Machine) : Prop :=
  ∃ us ws a, vs = us ++ ws ∧ m.steps us = some a ∧
    (ws.head? = some (.call job) ∧ a.fresh = t ∨ ∃ x ∈ a.tasks, x.id = t ∧ x.job = job)

theorem Closer.steps (hj : job = .close ∨ job = .runLoops) (hm : Sound m) (h : Closer t job m)
    (vs : List Move) (hs : m.steps vs = some a) : Closer t job a := by
  refine (steps_induction (P := fun m => Sound m ∧ Closer t job m) ?_ ⟨hm, h⟩ vs hs).2
  rintro m a v ⟨hm, h⟩ hs
  exact ⟨hm.step hs, closer_deed hj hm.orderly hm.roster hm.record h (deed_step v hs)⟩

theorem closer_of_undertaken (hj : job = .close ∨ job = .runLoops) (hm : Sound m)
    (vs : List Move) (hu : Undertaken t job vs m) (hs : m.steps vs = some a) :
    Closer t job a := by
  obtain ⟨us, ws, b, rfl, hb, hu⟩ := hu
  rw [steps_append, hb, Option.bind_some] at hs
  have hn := hm.steps us hb
  obtain ⟨hw, rfl⟩ | ⟨x, hx, rfl, rfl⟩ := hu
  · -- the task is as new as can be when its job begins
    obtain ⟨ws, rfl⟩ := List.head?_eq_some_iff.1 hw
    obtain ⟨c, hc, hs⟩ := Option.bind_eq_some_iff.1 hs
    have hnew : Closer b.fresh job (b.add b.fresh job none) := by
      refine ⟨Nat.lt_succ_self _, fun y hy hi => ?_, fun hd => absurd hd (hn.record.no_end_fresh _)⟩
      obtain hy | hy := List.mem_append.1 hy
      · exact absurd (hn.roster.lt_fresh y hy) (by simp [hi])
      · obtain rfl := List.mem_singleton.1 hy
        rfl
    refine Closer.steps hj (hn.step hc) ?_ ws hs
    cases deed_step _ hc with
    | call hb =>
      exact closer_begins hj hb hnew (fun _ => rfl) hn.record.no_end_fresh fun hc =>
        Nat.lt_irrefl _ (hn.record.called _ hc)
    | ignore k => simp at hj
    | sendFailed _ _ _ hv | recvFailed _ _ _ hv => simp at hv
  · refine Closer.steps hj hn ⟨hn.roster.lt_fresh x hx, fun y hy hi => ?_, fun hd => ?_⟩ ws hs
    · rw [hn.roster.eq_of_id hy hx hi]
    · exact absurd hd (hn.record.no_end hx _)

/-- When a call to close, or to run the loops and close, is done, the link has been let go exactly
once. The call that did it is done only when the link has closed; any other is done without waiting
for that, and the session is `closed` once the link has answered, be it with an error. -/
theorem released_of_done (settings : LoopSettings) (timeout : Option Duration) (now : Duration)
    (vs : List Move) (hs : (opened settings timeout now).steps vs = some m)
    (hj : job = .close ∨ job = .runLoops)
    (hu : Undertaken t job vs (opened settings timeout now)) (hd : (t, .done) ∈ m.finished) :
    m.session.released = true ∧ (m.session.state = .closing ∨ m.session.state = .closed) ∧
    m.calls.countP (·.2 = .close) = 1 ∧
    (m.session.state = .closed ↔ ∃ k ∈ m.trace, endsClose k.event = true) ∧
    ((t, .close) ∈ m.calls ∧ m.session.state = .closed ∧
        (∃ k ∈ m.trace, k.task = some t ∧ k.event = .closeSuccess) ∨
      (t, .close) ∉ m.calls ∧ ∃ u, u ≠ t ∧ (u, .close) ∈ m.calls) := by
  have hm := (sound_opened settings timeout now).steps vs hs
  obtain ⟨hr, hc⟩ := (closer_of_undertaken hj (sound_opened _ _ _) vs hu hs).done hd
  have hone : m.calls.countP (·.2 = .close) = 1 := by rw [hm.closure.closes, if_pos hr]
  refine ⟨hr, hm.orderly.over_of_released hr, hone, hm.closure.closed, ?_⟩
  by_cases ho : (t, .close) ∈ m.calls
  · obtain ⟨k, hk, hkt, hke⟩ := hc ho
    exact .inl ⟨ho, hm.closure.closed.2 ⟨k, hk, by rw [hke]; rfl⟩, k, hk, hkt, hke⟩
  · obtain ⟨⟨u, c⟩, hu, hc⟩ := List.countP_pos_iff.1 (hone ▸ Nat.one_pos)
    obtain rfl : c = .close := by simpa using hc
    exact .inr ⟨ho, u, fun hut => ho (hut ▸ hu), hu⟩

/-- The link takes its time over a close that begins while a loop waits to receive. The loop is
stopped, and `runLoops` is done. -/
def overtaken : List Move :=
  [.activate, .setLoop .recv true, .call .runLoops, .start 2, .call .close, .halt 2, .join 0]

theorem overtaken_done :
    ∃ m, (opened .client none 0).steps overtaken = some m ∧
      Undertaken 0 .runLoops overtaken (opened .client none 0) ∧ (0, .done) ∈ m.finished ∧
      m.session.released = true ∧ (m.session.state = .closing ∨ m.session.state = .closed) ∧
      m.calls.countP (·.2 = .close) = 1 ∧
      (m.session.state = .closed ↔ ∃ k ∈ m.trace, endsClose k.event = true) ∧
      ((0, .close) ∈ m.calls ∧ m.session.state = .closed ∧
          (∃ k ∈ m.trace, k.task = some 0 ∧ k.event = .closeSuccess) ∨
        (0, .close) ∉ m.calls ∧ ∃ u, u ≠ 0 ∧ (u, .close) ∈ m.calls) := by
  have h : ((opened .client none 0).steps overtaken).map
      (fun m => decide ((0, .done) ∈ m.finished)) = some true := by decide
  obtain ⟨m, hm, hd⟩ := Option.map_eq_some_iff.1 h
  have hd : (0, .done) ∈ m.finished := by simpa using hd
  have hu : Undertaken 0 .runLoops overtaken (opened .client none 0) :=
    ⟨overtaken.take 2, overtaken.drop 2, _, rfl, rfl, .inl ⟨rfl, rfl⟩⟩
  exact ⟨m, hm, hu, hd, released_of_done .client none 0 overtaken hm (.inr rfl) hu hd⟩

/-- What is done then is not closed. -/
theorem overtaken_not_closed :
    ¬ ∀ (settings : LoopSettings) (timeout : Option Duration) (now : Duration) (vs : List Move)
      (m : Machine) (t : TaskId) (job : Job), (opened settings timeout now).steps vs = some m →
      job = .close ∨ job = .runLoops → Undertaken t job vs (opened settings timeout now) →
      (t, .done) ∈ m.finished →
      m.session.state = .closed ∧ ∃ k ∈ m.trace, k.event = .closeSuccess := by
  intro hall
  have h : ((opened .client none 0).steps overtaken).map
      (fun m => (decide ((0, .done) ∈ m.finished), m.session.state)) = some (true, .closing) := by
    decide
  obtain ⟨m, hm, hd⟩ := Option.map_eq_some_iff.1 h
  obtain ⟨hd, hs⟩ := Prod.mk.inj hd
  have hu : Undertaken 0 .runLoops overtaken (opened .client none 0) :=
    ⟨overtaken.take 2, overtaken.drop 2, _, rfl, rfl, .inl ⟨rfl, rfl⟩⟩
  have hc := (hall .client none 0 overtaken m 0 .runLoops hm (.inr rfl) hu (by simpa using hd)).1
  simp [hs] at hc

end Machine
end Switchboard.Session
