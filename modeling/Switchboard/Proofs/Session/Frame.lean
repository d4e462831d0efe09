import Switchboard.Proofs.Session.Roster

/-! What a move leaves alone. It belongs to one task at most. It touches neither the clock nor the
flags, unless that is what it is for; no other task's send or receive begins with it; and it takes
no task away but its own and those below. -/
namespace Switchboard.Session

def opens : Event → Bool
  | .sending _ | .receiving _ => true
  | _ => false

namespace Move

/-- The task that a move belongs to. The one that asks for a job belongs to the new task. -/
def actor (m : Machine) : Move → TaskId
  | .start t | .reply t _ | .expire t | .wake t | .halt t | .join t | .notice t | .cancel t => t
  | _ => m.fresh

def isFlag : Move → Bool
  | .setLoop .. => true
  | _ => false

def isAnswer : Move → Bool
  | .reply .. => true
  | _ => false

/-- Whether a move changes what no task changes: the flags, the clock, and `created` into `active`. -/
def isOutside : Move → Bool
  | .setLoop .. | .pass _ | .activate => true
  | _ => false

end Move

namespace Machine
variable {m a b : Machine} {t u : TaskId} {job : Job}

/-- What a move of `u` adds to the trace: no send or receive begins but its own, and that only while
the session is active. -/
def Opens (u : TaskId) (m a : Machine) : Prop :=
  ∃ new, a.trace = new ++ m.trace ∧ ∀ k ∈ new, opens k.event = true →
    k.task = some u ∧ m.session.state = .active ∧ a.session.state = .active

theorem Opens.none (h : a.trace = m.trace) : Opens u m a := ⟨[], h, by simp⟩

theorem Opens.one {k : Mark} (h : a.trace = k :: m.trace) (hk : opens k.event = false) :
    Opens u m a := by
  refine ⟨[k], h, fun j hj ho => ?_⟩
  obtain rfl := List.mem_singleton.1 hj
  simp [hk] at ho

/-- Where a task behind a move of `u` comes from: it was there, it is the one that moves, or it is
new; and only a task that starts begins others. -/
inductive Origin (u : TaskId) (m : Machine) (y : Task) : Prop where
  | kept : y ∈ m.tasks → Origin u m y
  | own {x : Task} : x ∈ m.tasks → x.id = u → y.id = x.id → y.job = x.job →
      y.parent = x.parent → Origin u m y
  | fresh : m.fresh ≤ y.id → (∀ p, y.parent = some p → p = u ∧
      ∀ x ∈ m.tasks, x.id = u → x.wait = .starting) → Origin u m y

structure Frame (u : TaskId) (m a : Machine) : Prop where
  now : a.now = m.now
  fresh : m.fresh ≤ a.fresh
  loops : a.session.loops = m.session.loops
  state : a.session.state = m.session.state ∨ a.session.state ≠ .active
  tasks : ∀ y ∈ a.tasks, Origin u m y
  told : Opens u m a

theorem origin_await (w : Wait) : ∀ y ∈ (m.await u w).tasks, Origin u m y := by
  intro y hy
  obtain ⟨x, hx, hi, hj, hp, ⟨hu, -⟩ | ⟨-, rfl⟩⟩ := mem_await w hy
  · exact .own hx hu hi hj hp
  · exact .kept hx

theorem frame_await (w : Wait) : Frame u m (m.await u w) :=
  ⟨rfl, Nat.le_succ _, rfl, .inl rfl, origin_await w, .none rfl⟩

theorem frame_filter (p : Task → Bool) : Frame u m { m with tasks := m.tasks.filter p } :=
  ⟨rfl, Nat.le_refl _, rfl, .inl rfl, fun _ hy => .kept (List.mem_filter.1 hy).1, .none rfl⟩

theorem frame_settle (t : TaskId) (o : Outcome) : Frame u m (m.settle t o) :=
  ⟨rfl, Nat.le_refl _, rfl, .inl rfl, fun _ hy => .kept (List.mem_filter.1 hy).1, .none rfl⟩

theorem frame_leaves (hl : Leaves u job m a) : Frame u m a := by
  cases hl with
  | send data hs =>
    refine ⟨rfl, Nat.le_succ _, rfl, .inl rfl, origin_await (m := m) _, [_], rfl, fun k hk _ => ?_⟩
    obtain rfl := List.mem_singleton.1 hk
    exact ⟨rfl, hs, hs⟩
  | recv size hs =>
    refine ⟨rfl, Nat.le_succ _, rfl, .inl rfl, origin_await (m := m) _, [_], rfl, fun k hk _ => ?_⟩
    obtain rfl := List.mem_singleton.1 hk
    exact ⟨rfl, hs, hs⟩
  | close => exact ⟨rfl, Nat.le_succ _, rfl,
      .inr (by simp [await, ask, emit, modify, Session.release]), origin_await (m := m) _, .one rfl rfl⟩
  | pause | watch => exact frame_await _
  | ends => exact frame_settle _ _

theorem fresh_addAll (ks : List Loop) (t : TaskId) (m : Machine) :
    m.fresh ≤ (ks.foldl (fun m k => m.add m.fresh (.loop k) (some t)) m).fresh := by
  induction ks generalizing m with
  | nil => exact Nat.le_refl _
  | cons k ks ih => exact Nat.le_trans (Nat.le_succ _) (ih (m.add m.fresh (.loop k) (some t)))

theorem origin_addAll (ks : List Loop) (hw : ∀ x ∈ m.tasks, x.id = u → x.wait = .starting)
    (hf : m.fresh ≤ b.fresh) (hb : ∀ y ∈ b.tasks, Origin u m y) :
    ∀ y ∈ (ks.foldl (fun m k => m.add m.fresh (.loop k) (some u)) b).tasks, Origin u m y := by
  induction ks generalizing b with
  | nil => exact hb
  | cons k ks ih =>
    refine ih (Nat.le_succ_of_le hf) fun y hy => ?_
    obtain hy | hy := List.mem_append.1 hy
    · exact hb y hy
    · obtain rfl := List.mem_singleton.1 hy
      exact .fresh hf fun p hp => ⟨(Option.some.inj hp).symm, hw⟩

theorem frame_begins (hb : Begins u job m a)
    (hw : ∀ x ∈ m.tasks, x.id = u → x.wait = .starting) : Frame u m a := by
  cases hb with
  | leaves hl => exact frame_leaves hl
  | fork =>
    obtain ⟨hs, ht, -, hn⟩ := addAll_same m.session.loops.toList u (m.await u .joining)
    exact ⟨hn, Nat.le_trans (Nat.le_succ _) (fresh_addAll _ _ (m.await u .joining)), congrArg (·.loops) hs, .inl (congrArg (·.state) hs),
      origin_addAll _ hw (Nat.le_succ _) (origin_await _), .none ht⟩
  | guard =>
    refine ⟨rfl, Nat.le_add_right _ 2, rfl, .inl rfl, fun y hy => ?_, .none rfl⟩
    obtain ⟨x, hx, hi, hj, hp, ⟨hu, -⟩ | ⟨hu, rfl⟩⟩ := mem_await _ hy
    · obtain hx | hx := List.mem_append.1 hx
      · exact .own hx hu hi hj hp
      · obtain rfl := List.mem_singleton.1 hx
        exact .fresh (Nat.le_of_eq hi.symm) fun p hp' =>
          ⟨(Option.some.inj (hp.symm.trans hp')).symm, hw⟩
    · obtain hx | hx := List.mem_append.1 hx
      · exact .kept hx
      · obtain rfl := List.mem_singleton.1 hx
        exact .fresh (Nat.le_refl _) fun p hp' => ⟨(Option.some.inj hp').symm, hw⟩

/-- Behind an event that begins nothing, a task goes where it goes. -/
theorem Frame.after {k : Mark} (h : Frame u b a) (hn : b.now = m.now)
    (hl : b.session.loops = m.session.loops)
    (hs : b.session.state = m.session.state ∨ b.session.state ≠ .active) (hx : b.tasks = m.tasks)
    (hf : b.fresh = m.fresh) (ht : b.trace = k :: m.trace) (hk : opens k.event = false) :
    Frame u m a where
  now := h.now.trans hn
  fresh := hf ▸ h.fresh
  loops := h.loops.trans hl
  state := by
    obtain h | h := h.state
    · rwa [h]
    · exact .inr h
  tasks y hy := by
    cases h.tasks y hy with
    | kept hm => exact .kept (hx ▸ hm)
    | own hm hu hi hj hp => exact .own (hx ▸ hm) hu hi hj hp
    | fresh hi hp => exact .fresh (hf ▸ hi) (hx ▸ hp)
  told := by
    obtain ⟨new, hnew, hn⟩ := h.told
    refine ⟨new ++ [k], by simp [hnew, ht], fun j hj ho => ?_⟩
    obtain hj | hj := List.mem_append.1 hj
    · obtain ⟨hu, hb, ha⟩ := hn j hj ho
      obtain hs | hs := hs
      · exact ⟨hu, hs ▸ hb, ha⟩
      · exact absurd hb hs
    · obtain rfl := List.mem_singleton.1 hj
      simp [hk] at ho

theorem state_beginClosing (s : Session) :
    s.beginClosing.state = s.state ∨ s.beginClosing.state ≠ .active := by
  cases hs : s.state <;> simp [beginClosing, hs]

theorem state_obeyExit (s : Session) (data : Bytes) :
    (s.obeyExit data).state = s.state ∨ (s.obeyExit data).state ≠ .active := by
  unfold obeyExit
  split
  · exact state_beginClosing s
  · exact .inl rfl

theorem loops_obeyExit (s : Session) (data : Bytes) : (s.obeyExit data).loops = s.loops := by
  unfold obeyExit
  split <;> rfl

theorem frame_deed {v : Move} (hr : Roster m.tasks m.fresh) (hd : Deed m v a)
    (hv : v.isOutside = false) : Frame (v.actor m) m a := by
  cases hd with
  | activate | setLoop | pass => simp [Move.isOutside] at hv
  | ignore => exact ⟨rfl, Nat.le_refl _, rfl, .inl rfl, fun _ => .kept, .none rfl⟩
  | @call job _ hb =>
    have hnew : ∀ x ∈ (m.add m.fresh job none).tasks, x ∈ m.tasks ∨
        x.id = m.fresh ∧ x.parent = none ∧ x.wait = .starting := fun x hx => by
      obtain hx | hx := List.mem_append.1 hx
      · exact .inl hx
      · obtain rfl := List.mem_singleton.1 hx
        exact .inr ⟨rfl, rfl, rfl⟩
    have hold {x : Task} (hx : x ∈ m.tasks) : x.id ≠ m.fresh := Nat.ne_of_lt (hr.lt_fresh x hx)
    have hf := frame_begins hb fun x hx hi => by
      obtain hx | ⟨-, -, hw⟩ := hnew x hx
      · exact absurd hi (hold hx)
      · exact hw
    refine { hf with fresh := Nat.le_of_succ_le hf.fresh, tasks := fun y hy => ?_ }
    cases hf.tasks y hy with
    | kept hm =>
      obtain hm | ⟨hi, hp, -⟩ := hnew y hm
      · exact .kept hm
      · exact .fresh (Nat.le_of_eq hi.symm) (by simp [hp])
    | own hm hu hi hj hp =>
      obtain hm | ⟨hx, hxp, -⟩ := hnew _ hm
      · exact absurd hu (hold hm)
      · exact .fresh (Nat.le_of_eq (hi.trans hx).symm) (by simp [hp, hxp])
    | fresh hi hp =>
      exact .fresh (Nat.le_of_succ_le hi) fun p hp' =>
        ⟨(hp p hp').1, fun x hx hi => absurd hi (hold hx)⟩
  | start hx hw hb =>
    exact frame_begins hb fun y hy hi => by rw [hr.eq_of_id hy hx hi, hw]
  | @sent x data d n a hx hw hl =>
    exact (frame_leaves hl).after (k := ⟨_, _, _⟩) rfl rfl (.inl rfl) rfl rfl rfl rfl
  | received hx hw _ hl =>
    exact (frame_leaves hl).after (k := ⟨_, _, _⟩) rfl (loops_obeyExit _ _) (state_obeyExit _ _)
      rfl rfl rfl rfl
  | @sendFailed x data _ _ e _ _ hv =>
    have hf : Frame x.id m (m.sendFailed x.id data e) := (frame_settle x.id _).after (k := ⟨_, _, _⟩) rfl rfl
      (state_beginClosing m.session) rfl rfl rfl rfl
    obtain rfl | rfl := hv <;> exact hf
  | @recvFailed x size _ _ e _ _ hv =>
    have hf : Frame x.id m (m.recvFailed x.id size e) := (frame_settle x.id _).after (k := ⟨_, _, _⟩) rfl rfl
      (state_beginClosing m.session) rfl rfl rfl rfl
    obtain rfl | rfl | rfl := hv <;> exact hf
  | closed | closeFailed =>
    exact (frame_settle _ _).after (k := ⟨_, _, _⟩) rfl rfl 
      (.inr (by simp [emit, modify, Session.finish])) rfl rfl rfl rfl
  | turn _ _ _ hl => exact frame_leaves hl
  | look => exact frame_await _
  | @evict x _ _ _ _ _ hx _ _ hl =>
    have hf := frame_leaves hl
    refine { hf with tasks := fun y hy => ?_ }
    have hm {z : Task} (hz : z ∈ (m.clear x.id).tasks) : z ∈ m.tasks := (List.mem_filter.1 hz).1
    cases hf.tasks y hy with
    | kept hy => exact .kept (hm hy)
    | own hy hu hi hj hp => exact .own (hm hy) hu hi hj hp
    | fresh hi hp =>
      refine .fresh hi fun p hp' => ⟨(hp p hp').1, fun z hz hzi => ?_⟩
      obtain rfl := hr.eq_of_id hz hx hzi
      exact (hp p hp').2 z (List.mem_filter.2 ⟨hz, by simp [isBelow_self hr hz]⟩) rfl
  | halt | relay | unwatch => exact frame_settle _ _
  | join _ _ _ hl => exact frame_leaves hl
  | notice _ _ _ hl => exact frame_leaves hl
  | cancel => exact frame_filter _
  | deliver size data =>
    exact ⟨rfl, Nat.le_refl _, loops_obeyExit _ _, state_obeyExit _ _, fun _ hy => .kept hy, .one rfl rfl⟩

theorem kept_await (w : Wait) {x : Task} (hx : x ∈ m.tasks) (hi : x.id ≠ u) :
    x ∈ (m.await u w).tasks :=
  List.mem_map.2 ⟨x, hx, if_neg hi⟩

theorem kept_settle (o : Outcome) {x : Task} (hx : x ∈ m.tasks) (hi : x.id ≠ u) :
    x ∈ (m.settle u o).tasks :=
  List.mem_filter.2 ⟨hx, by simpa using hi⟩

theorem kept_leaves (hl : Leaves u job m a) {x : Task} (hx : x ∈ m.tasks) (hi : x.id ≠ u) :
    x ∈ a.tasks := by
  cases hl with
  | send | recv | close | pause | watch => exact kept_await _ hx hi
  | ends => exact kept_settle _ hx hi

theorem kept_addAll (ks : List Loop) {x : Task} (hx : x ∈ m.tasks) :
    x ∈ (ks.foldl (fun m k => m.add m.fresh (.loop k) (some u)) m).tasks := by
  induction ks generalizing m with
  | nil => exact hx
  | cons k ks ih => exact ih (List.mem_append_left _ hx)

theorem kept_begins (hb : Begins u job m a) {x : Task} (hx : x ∈ m.tasks) (hi : x.id ≠ u) :
    x ∈ a.tasks := by
  cases hb with
  | leaves hl => exact kept_leaves hl hx hi
  | fork => exact kept_addAll _ (kept_await _ hx hi)
  | guard => exact kept_await _ (List.mem_append_left _ hx) hi

/-- A task stays as it is while others move, unless it is below the one that moves. -/
theorem kept_deed {v : Move} (hd : Deed m v a) {x : Task} (hx : x ∈ m.tasks)
    (hi : x.id ≠ v.actor m) (hb : m.isBelow (v.actor m) x = false) : x ∈ a.tasks := by
  cases hd with
  | activate | setLoop | pass | ignore | deliver => exact hx
  | call hb => exact kept_begins hb (List.mem_append_left _ hx) hi
  | start _ _ hb => exact kept_begins hb hx hi
  | sent _ _ hl => exact kept_leaves hl hx hi
  | received _ _ _ hl => exact kept_leaves hl hx hi
  | sendFailed _ _ _ hv => obtain rfl | rfl := hv <;> exact kept_settle _ hx hi
  | recvFailed _ _ _ hv => obtain rfl | rfl | rfl := hv <;> exact kept_settle _ hx hi
  | closed | closeFailed | halt | relay | unwatch => exact kept_settle _ hx hi
  | turn _ _ _ hl => exact kept_leaves hl hx hi
  | look => exact kept_await _ hx hi
  | evict _ _ _ hl =>
    exact kept_leaves hl (List.mem_filter.2 ⟨hx, by simpa [Move.actor] using hb⟩) hi
  | join _ _ _ hl => exact kept_leaves hl hx hi
  | notice _ _ _ hl => exact kept_leaves hl hx hi
  | cancel =>
    exact List.mem_filter.2 ⟨hx, by simpa [Move.actor] using ⟨hi, hb⟩⟩

theorem actor_known {v : Move} (hd : Deed m v a) :
    v.actor m = m.fresh ∨ ∃ x ∈ m.tasks, x.id = v.actor m := by
  cases hd with
  | activate | setLoop | pass | ignore | deliver | call => exact .inl rfl
  | sendFailed _ hx _ hv => obtain rfl | rfl := hv <;> exact .inr ⟨_, hx, rfl⟩
  | recvFailed _ hx _ hv => obtain rfl | rfl | rfl := hv <;> exact .inr ⟨_, hx, rfl⟩
  | start hx | sent hx | received hx | closed hx | closeFailed _ hx | turn hx | look hx | evict hx
  | halt hx | join hx | relay _ hx | notice hx | unwatch hx | cancel hx => exact .inr ⟨_, hx, rfl⟩

/-- The state changes to `active` by `activate` alone. -/
theorem state_deed {v : Move} (hr : Roster m.tasks m.fresh) (hd : Deed m v a)
    (hv : v ≠ .activate) (hm : m.session.state ≠ .active) : a.session.state ≠ .active := by
  by_cases ho : v.isOutside = true
  · cases hd with
    | activate => exact absurd rfl hv
    | setLoop | pass => exact hm
    | sendFailed _ _ _ hv => obtain rfl | rfl := hv <;> simp [Move.isOutside] at ho
    | recvFailed _ _ _ hv => obtain rfl | rfl | rfl := hv <;> simp [Move.isOutside] at ho
    | _ => simp [Move.isOutside] at ho
  · obtain h | h := (frame_deed hr hd (by simpa using ho)).state
    · rwa [h]
    · exact h

/-- What the moves that belong to no task do. -/
theorem step_outside {v : Move} (h : m.step v = some a) :
    (∃ d, v = .pass d ∧ a = { m with now := m.now + d }) ∨
    (∃ k on, v = .setLoop k on ∧ a = m.modify (·.setLoop k on)) ∨ v = .activate ∨
    v.isOutside = false := by
  cases v with
  | pass d => exact .inl ⟨d, rfl, (Option.some.inj h).symm⟩
  | setLoop k on => exact .inr (.inl ⟨k, on, rfl, (Option.some.inj h).symm⟩)
  | activate => exact .inr (.inr (.inl rfl))
  | _ => exact .inr (.inr (.inr rfl))

theorem now_step {v : Move} (hr : Roster m.tasks m.fresh) (h : m.step v = some a) :
    m.now ≤ a.now := by
  obtain ⟨d, -, rfl⟩ | ⟨k, on, -, rfl⟩ | rfl | hv := step_outside h
  · exact Nat.le_add_right _ _
  · exact Nat.le_refl _
  · cases deed_step _ h with
    | activate => exact Nat.le_refl _
    | sendFailed _ _ _ hv | recvFailed _ _ _ hv => simp at hv
  · exact Nat.le_of_eq (frame_deed hr (deed_step v h) hv).now.symm

theorem origin_step {v : Move} (hr : Roster m.tasks m.fresh) (h : m.step v = some a) :
    ∀ y ∈ a.tasks, Origin (v.actor m) m y := by
  obtain ⟨d, -, rfl⟩ | ⟨k, on, -, rfl⟩ | rfl | hv := step_outside h
  · exact fun _ hy => .kept hy
  · exact fun _ hy => .kept hy
  · cases deed_step _ h with
    | activate => exact fun _ hy => .kept hy
    | sendFailed _ _ _ hv | recvFailed _ _ _ hv => simp at hv
  · exact (frame_deed hr (deed_step v h) hv).tasks

theorem fresh_step {v : Move} (hr : Roster m.tasks m.fresh) (h : m.step v = some a) :
    m.fresh ≤ a.fresh := by
  obtain ⟨d, -, rfl⟩ | ⟨k, on, -, rfl⟩ | rfl | hv := step_outside h
  · exact Nat.le_refl _
  · exact Nat.le_refl _
  · cases deed_step _ h with
    | activate => exact Nat.le_refl _
    | sendFailed _ _ _ hv | recvFailed _ _ _ hv => simp at hv
  · exact (frame_deed hr (deed_step v h) hv).fresh

theorem opens_step {v : Move} (hr : Roster m.tasks m.fresh) (h : m.step v = some a) :
    Opens (v.actor m) m a := by
  obtain ⟨d, -, rfl⟩ | ⟨k, on, -, rfl⟩ | rfl | hv := step_outside h
  · exact .none rfl
  · exact .none rfl
  · cases deed_step _ h with
    | activate => exact .none rfl
    | sendFailed _ _ _ hv | recvFailed _ _ _ hv => simp at hv
  · exact (frame_deed hr (deed_step v h) hv).told

end Machine
end Switchboard.Session
