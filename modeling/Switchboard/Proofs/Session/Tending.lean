import Switchboard.Proofs.Session.ForkJoin

/-! Tasks that see a session to its end: who closes it, who waits for its end or runs the loops and
then closes, and who guards one of these. However the moves come, such a task ends only when the link
has been let go, and when nothing is left to do it still waits only where the session is alive or the
link has not answered. -/
namespace Switchboard.Session.Machine
variable {m a b : Machine} {t u : TaskId} {v : Move} {x y : Task}

def Ended (t : TaskId) (m : Machine) : Prop :=
  m.session.released = true ∧ ∃ o, (t, o) ∈ m.finished

inductive Keeper (m : Machine) (x : Task) : Prop where
  | watch : x.wait = .starting ∨ x.wait = .watching → x.job = .linger → Keeper m x
  | loops : x.wait = .starting ∨ x.wait = .joining → x.job = .runLoops →
      (∀ y ∈ m.tasks, y.parent = some x.id → ∃ k, y.job = .loop k) → Keeper m x
  | shut : x.wait = .shutting → (∀ k, x.job ≠ .loop k) → Keeper m x

def Kept (t : TaskId) (p : Option TaskId) (m : Machine) : Prop :=
  (∃ x ∈ m.tasks, x.id = t ∧ x.parent = p ∧ Keeper m x) ∨ Ended t m

/-- A task that sees the session to its end, by itself or by the one that it guards. -/
inductive Guardian (m : Machine) (x : Task) : Prop where
  | keeper : Keeper m x → Guardian m x
  | starting {loops : Bool} {limit : Duration} : x.wait = .starting → x.job = .guard loops limit →
      Guardian m x
  | guarding {child : TaskId} {d : Duration} {loops : Bool} {limit : Duration} :
      x.wait = .guarding child d → x.job = .guard loops limit → Kept child (some x.id) m →
      Guardian m x

def Minds (t : TaskId) (m : Machine) : Prop :=
  (∃ x ∈ m.tasks, x.id = t ∧ x.parent = none ∧ Guardian m x) ∨ Ended t m

/-! What a task can do by itself. -/

inductive Own (m : Machine) (x : Task) (a : Machine) : Move → Prop where
  | start : x.wait = .starting → a = m.start x.id x.job → Own m x a (.start x.id)
  | reply (r : Reply) : m.reply x r = some a → Own m x a (.reply x.id r)
  | expire : m.expire x = some a → Own m x a (.expire x.id)
  | wake : m.wake x = some a → Own m x a (.wake x.id)
  | halt : m.halt x = some a → Own m x a (.halt x.id)
  | join : m.join x = some a → Own m x a (.join x.id)
  | notice : m.notice x = some a → Own m x a (.notice x.id)
  | cancel : x.parent = none → Own m x a (.cancel x.id)

theorem own_step (hr : Roster m.tasks m.fresh) (hx : x ∈ m.tasks) (hi : v.actor m = x.id)
    (hs : m.step v = some a) : Own m x a v := by
  have hf := task?_of_mem hr hx
  have hnew : m.fresh ≠ x.id := Nat.ne_of_gt (hr.lt_fresh x hx)
  cases v with
  | activate | setLoop | call | deliver | pass => exact absurd hi hnew
  | start t =>
    obtain rfl : t = x.id := hi
    rw [step, hf, Option.bind_some] at hs
    obtain ⟨hw, hs⟩ := Option.ite_none_right_eq_some.1 hs
    exact .start hw (Option.some.inj hs).symm
  | reply t r =>
    obtain rfl : t = x.id := hi
    rw [step, hf, Option.bind_some] at hs
    exact .reply r hs
  | expire t =>
    obtain rfl : t = x.id := hi
    rw [step, hf, Option.bind_some] at hs
    exact .expire hs
  | wake t =>
    obtain rfl : t = x.id := hi
    rw [step, hf, Option.bind_some] at hs
    exact .wake hs
  | halt t =>
    obtain rfl : t = x.id := hi
    rw [step, hf, Option.bind_some] at hs
    exact .halt hs
  | join t =>
    obtain rfl : t = x.id := hi
    rw [step, hf, Option.bind_some] at hs
    exact .join hs
  | notice t =>
    obtain rfl : t = x.id := hi
    rw [step, hf, Option.bind_some] at hs
    exact .notice hs
  | cancel t =>
    obtain rfl : t = x.id := hi
    rw [step, hf, Option.bind_some] at hs
    obtain ⟨hp, -⟩ := Option.ite_none_right_eq_some.1 hs
    exact .cancel hp

theorem mem_await_self (w : Wait) (hx : x ∈ m.tasks) :
    { x with wait := w, stamp := m.fresh } ∈ (m.await x.id w).tasks :=
  List.mem_map.2 ⟨x, hx, if_pos rfl⟩

/-- Who begins to close waits for the link, or is done because the link has been let go. -/
theorem kept_beginClose (hx : x ∈ m.tasks) (hj : ∀ k, x.job ≠ .loop k) :
    Kept x.id x.parent (m.beginClose x.id) := by
  unfold beginClose
  split
  next hr => exact .inr ⟨hr, .done, List.mem_cons_self⟩
  next => exact .inl ⟨_, mem_await_self (m := ((m.modify release).emit x.id .closing).ask x.id .close)
      .shutting hx, rfl, rfl, .shut rfl hj⟩

theorem kept_lingerOn (hx : x ∈ m.tasks) (hj : x.job = .linger) :
    Kept x.id x.parent (m.lingerOn x.id) := by
  unfold lingerOn
  split
  next => exact .inl ⟨_, mem_await_self .watching hx, rfl, rfl, .watch (.inr rfl) hj⟩
  next => exact kept_beginClose hx (by simp [hj])

theorem kept_addLoops (hx : x ∈ m.tasks) (hj : x.job = .runLoops)
    (hk : ∀ y ∈ m.tasks, y.parent = some x.id → ∃ k, y.job = .loop k) :
    Kept x.id x.parent (m.addLoops x.id) := by
  refine .inl ⟨_, kept_addAll _ (mem_await_self .joining hx), rfl, rfl,
    .loops (.inr rfl) hj fun y hy hp => ?_⟩
  obtain ⟨new, ht, hnj, -⟩ := tasks_addAll m.session.loops.toList x.id (m.await x.id .joining)
  rw [addLoops, ht] at hy
  obtain hy | hy := List.mem_append.1 hy
  · obtain ⟨z, hz, -, hzj, hzp, -⟩ := mem_await _ hy
    rw [hzj]
    exact hk z hz (hzp ▸ hp)
  · have hm : y.job ∈ m.session.loops.toList.map .loop := hnj ▸ List.mem_map_of_mem hy
    obtain ⟨k, -, hk⟩ := List.mem_map.1 hm
    exact ⟨k, hk.symm⟩

theorem kept_start (hx : x ∈ m.tasks) (hk : Keeper m x) (hw : x.wait = .starting) :
    Kept x.id x.parent (m.start x.id x.job) := by
  cases hk with
  | watch _ hj =>
    rw [hj]
    exact kept_lingerOn hx hj
  | loops _ hj hk =>
    rw [hj]
    exact kept_addLoops hx hj hk
  | shut hs => simp [hw] at hs

theorem ended_reply {r : Reply} (hm : Orderly m) (hx : x ∈ m.tasks) (hw : x.wait = .shutting)
    (h : m.reply x r = some a) : Ended x.id a := by
  have hr := hm.released_of_shutting x hx hw
  unfold reply at h
  rw [hw] at h
  cases r with
  | sent | received => simp at h
  | closed =>
    obtain rfl := Option.some.inj h
    exact ⟨hr, .done, List.mem_cons_self⟩
  | failed e =>
    obtain rfl := Option.some.inj h
    exact ⟨hr, .failed e, List.mem_cons_self⟩

/-- A keeper that moves is one behind the move, or has ended. -/
theorem keeper_own (hm : Orderly m) (hx : x ∈ m.tasks) (hk : Keeper m x) (h : Own m x a v)
    (hc : v ≠ .cancel x.id) : Kept x.id x.parent a := by
  cases h with
  | cancel => exact absurd rfl hc
  | start hw ha => exact ha ▸ kept_start hx hk hw
  | reply r hr =>
    cases hk with
    | watch hw => obtain hw | hw := hw <;> simp [reply, hw] at hr
    | loops hw => obtain hw | hw := hw <;> simp [reply, hw] at hr
    | shut hw => exact .inr (ended_reply hm hx hw hr)
  | expire he =>
    cases hk with
    | watch hw => obtain hw | hw := hw <;> simp [expire, hw] at he
    | loops hw => obtain hw | hw := hw <;> simp [expire, hw] at he
    | shut hw => simp [expire, hw] at he
  | wake hwk =>
    cases hk with
    | watch hw => obtain hw | hw := hw <;> simp [wake, hw] at hwk
    | loops hw => obtain hw | hw := hw <;> simp [wake, hw] at hwk
    | shut hw => simp [wake, hw] at hwk
  | halt hh =>
    cases hk with
    | watch _ hj => simp [halt, hj] at hh
    | loops _ hj => simp [halt, hj] at hh
    | shut _ hj =>
      unfold halt at hh
      split at hh
      next k hk => exact absurd hk (hj k)
      next => simp at hh
  | join hj =>
    cases hk with
    | watch hw => obtain hw | hw := hw <;> simp [join, hw] at hj
    | loops hw hr =>
      obtain hw | hw := hw
      · simp [join, hw] at hj
      · rw [(eq_of_join hw hj).1]
        exact kept_beginClose hx (by simp [hr])
    | shut hw => simp [join, hw] at hj
  | notice hn =>
    obtain ⟨hw, hn⟩ := Option.ite_none_right_eq_some.1 hn
    simp only [Bool.and_eq_true, decide_eq_true_eq] at hw
    cases hk with
    | watch _ hj =>
      rw [if_pos hj] at hn
      obtain rfl := Option.some.inj hn
      exact kept_beginClose hx (by simp [hj])
    | loops hs => simp [hw.1] at hs
    | shut hs => simp [hw.1] at hs

/-- Whoever moves, nobody else gets tasks below it. -/
theorem kin_other (hr : Roster m.tasks m.fresh) (hs : m.step v = some a) (hi : v.actor m ≠ t)
    (hy : y ∈ a.tasks) (hp : y.parent = some t) :
    ∃ x ∈ m.tasks, x.id = y.id ∧ x.job = y.job ∧ x.parent = some t := by
  cases origin_step hr hs y hy with
  | kept hm => exact ⟨y, hm, rfl, rfl, hp⟩
  | own hm _ hid hj hq => exact ⟨_, hm, hid.symm, hj.symm, hq ▸ hp⟩
  | fresh _ hq => exact absurd (hq t hp).1.symm hi

theorem keeper_other (hr : Roster m.tasks m.fresh) (hs : m.step v = some a)
    (hi : v.actor m ≠ x.id) (hk : Keeper m x) : Keeper a x := by
  cases hk with
  | watch hw hj => exact .watch hw hj
  | loops hw hj hk =>
    refine .loops hw hj fun y hy hp => ?_
    obtain ⟨z, hz, -, hzj, hzp⟩ := kin_other hr hs hi hy hp
    exact hzj ▸ hk z hz hzp
  | shut hw hj => exact .shut hw hj

/-! What has ended stays on record. -/

theorem finished_leaves {job : Job} (hl : Leaves t job m a) :
    ∃ l, a.finished = l ++ m.finished ∧ ∀ p ∈ l, p.1 = t := by
  cases hl with
  | send | recv | close | pause | watch => exact ⟨[], rfl, by simp⟩
  | ends => exact ⟨[_], rfl, by simp⟩

theorem finished_addAll (ks : List Loop) (t : TaskId) (m : Machine) :
    (ks.foldl (fun m k => m.add m.fresh (.loop k) (some t)) m).finished = m.finished := by
  induction ks generalizing m with
  | nil => rfl
  | cons k ks ih => exact ih _

theorem finished_begins {job : Job} (hb : Begins t job m a) :
    ∃ l, a.finished = l ++ m.finished ∧ ∀ p ∈ l, p.1 = t := by
  cases hb with
  | leaves hl => exact finished_leaves hl
  | fork => exact ⟨[], finished_addAll _ _ _, by simp⟩
  | guard => exact ⟨[], rfl, by simp⟩

/-- What a move puts on record is of the one who moves. -/
theorem finished_deed (hd : Deed m v a) :
    ∃ l, a.finished = l ++ m.finished ∧ ∀ p ∈ l, p.1 = v.actor m := by
  cases hd with
  | activate | setLoop | ignore | look | cancel | deliver | pass => exact ⟨[], rfl, by simp⟩
  | call hb =>
    have h := finished_begins hb
    exact h
  | start _ _ hb => exact finished_begins hb
  | sent _ _ hl =>
    have h := finished_leaves hl
    exact h
  | received _ _ _ hl =>
    have h := finished_leaves hl
    exact h
  | evict _ _ _ hl =>
    have h := finished_leaves hl
    exact h
  | turn _ _ _ hl => exact finished_leaves hl
  | join _ _ _ hl => exact finished_leaves hl
  | notice _ _ _ hl => exact finished_leaves hl
  | sendFailed _ _ _ hv =>
    refine ⟨[_], rfl, ?_⟩
    obtain rfl | rfl := hv <;> simp [Move.actor]
  | recvFailed _ _ _ hv =>
    refine ⟨[_], rfl, ?_⟩
    obtain rfl | rfl | rfl := hv <;> simp [Move.actor]
  | closed | closeFailed | halt | relay | unwatch => exact ⟨[_], rfl, by simp [Move.actor]⟩

theorem Ended.step (h : Ended t m) (hs : m.step v = some a) : Ended t a := by
  obtain ⟨hr, o, ho⟩ := h
  obtain ⟨l, hl, -⟩ := finished_deed (deed_step v hs)
  exact ⟨released_advance (advance_step v hs) hr, o, hl ▸ List.mem_append_right _ ho⟩

/-- A keeper of which nobody above moves is one behind the move, or has ended. -/
theorem Keeper.step (hm : Sound m) (hx : x ∈ m.tasks) (hk : Keeper m x) (hs : m.step v = some a)
    (hb : m.isBelow (v.actor m) x = false) (hc : v ≠ .cancel x.id) : Kept x.id x.parent a := by
  by_cases hi : v.actor m = x.id
  · exact keeper_own hm.orderly hx hk (own_step hm.roster hx hi hs) hc
  · exact .inl ⟨x, kept_deed (deed_step v hs) hx (Ne.symm hi) hb, rfl, rfl,
      keeper_other hm.roster hs hi hk⟩

/-- Somebody who does not wait for another can be cancelled, and nobody else. -/
theorem parent_of_cancel (hr : Roster m.tasks m.fresh) (hx : x ∈ m.tasks)
    (hs : m.step (.cancel x.id) = some a) : x.parent = none := by
  rw [step, task?_of_mem hr hx, Option.bind_some] at hs
  exact (Option.ite_none_right_eq_some.1 hs).1

/-- The one that a guard waits for is not taken away while the guard does not move. -/
theorem Kept.step (hm : Sound m) (hx : x ∈ m.tasks) (hp : x.parent = none)
    (hk : Kept u (some x.id) m) (hs : m.step v = some a) (hi : v.actor m ≠ x.id) :
    Kept u (some x.id) a := by
  obtain ⟨y, hy, rfl, hyp, hk⟩ | he := hk
  · have hb : m.isBelow (v.actor m) y = false := by
      unfold isBelow
      rw [hyp]
      simp [Ne.symm hi, task?_of_mem hm.roster hx, hp]
    have hc : v ≠ .cancel y.id := fun hv => by
      subst hv
      simp [parent_of_cancel hm.roster hy hs] at hyp
    exact hyp ▸ hk.step hm hy hs hb hc
  · exact .inr (he.step hs)

theorem kept_addGuarded (hr : Roster m.tasks m.fresh) (hx : x ∈ m.tasks) {loops : Bool}
    {limit : Duration} (hj : x.job = .guard loops limit) :
    ∃ y ∈ (m.addGuarded x.id loops limit).tasks, y.id = x.id ∧ y.parent = x.parent ∧
      Guardian (m.addGuarded x.id loops limit) y := by
  have hlt := hr.lt_fresh x hx
  have hself := mem_await_self (m := m.add m.fresh (if loops then .runLoops else .linger) (some x.id))
    (.guarding m.fresh (m.rings (m.session.lastActivity + limit))) (List.mem_append_left _ hx)
  refine ⟨_, hself, rfl, rfl, .guarding rfl hj (.inl ⟨_, kept_await _ (List.mem_append_right _
    List.mem_cons_self) (Nat.ne_of_gt hlt), rfl, rfl, ?_⟩)⟩
  have hkids : ∀ y ∈ (m.addGuarded x.id loops limit).tasks, y.parent = some m.fresh →
      ∃ k, y.job = .loop k := by
    intro y hy hp
    obtain ⟨z, hz, -, -, hzp, -⟩ := mem_await _ hy
    rw [hp] at hzp
    obtain hz | hz := List.mem_append.1 hz
    · have hzlt := hr.lt_fresh z hz
      exact absurd (hr.parent_lt z hz _ hzp.symm) (Nat.not_lt.2 (Nat.le_of_lt hzlt))
    · obtain rfl := List.mem_singleton.1 hz
      exact absurd (Option.some.inj hzp) (Nat.ne_of_gt hlt)
  cases loops with
  | true => exact .loops (.inl rfl) rfl hkids
  | false => exact .watch (.inl rfl) rfl

theorem keeper_await (w : Wait) (hk : Keeper m y) : Keeper (m.await t w) y := by
  cases hk with
  | watch hw hj => exact .watch hw hj
  | loops hw hj hk =>
    refine .loops hw hj fun z hz hp => ?_
    obtain ⟨z', hz', -, hj', hp', -⟩ := mem_await w hz
    exact hj' ▸ hk z' hz' (hp' ▸ hp)
  | shut hw hj => exact .shut hw hj

theorem Kept.minds (h : Kept t none m) : Minds t m := by
  obtain ⟨x, hx, hi, hp, hk⟩ | he := h
  · exact .inl ⟨x, hx, hi, hp, .keeper hk⟩
  · exact .inr he

/-- What a guard can do: look again later, take the place of the one that it guards, or end after
it. -/
theorem guarding_own (hm : Sound m) (hx : x ∈ m.tasks) (hp : x.parent = none) {child : TaskId}
    {d : Duration} {loops : Bool} {limit : Duration} (hw : x.wait = .guarding child d)
    (hj : x.job = .guard loops limit) (hk : Kept child (some x.id) m) (h : Own m x a v)
    (hc : v ≠ .cancel x.id) : Minds x.id a := by
  cases h with
  | cancel => exact absurd rfl hc
  | start hs => simp [hw] at hs
  | reply r hr => simp [reply, hw] at hr
  | expire he => simp [expire, hw] at he
  | halt hh => simp [halt, hj] at hh
  | notice hn => simp [notice, hw] at hn
  | wake hwk =>
    rw [wake, hw, hj] at hwk
    obtain ⟨-, hwk⟩ := Option.ite_none_right_eq_some.1 hwk
    split at hwk
    next =>
      obtain rfl := Option.some.inj hwk
      have hmem : x ∈ (m.clear x.id).tasks :=
        List.mem_filter.2 ⟨hx, by simp [isBelow_self hm.roster hx]⟩
      have hb := kept_beginClose hmem (by simp [hj])
      rw [hp] at hb
      exact hb.minds
    next =>
      obtain rfl := Option.some.inj hwk
      refine .inl ⟨_, mem_await_self _ hx, rfl, hp, .guarding rfl hj ?_⟩
      obtain ⟨y, hy, rfl, hyp, hk⟩ | he := hk
      · have hne : y.id ≠ x.id := (Nat.ne_of_lt (hm.roster.parent_lt y hy _ hyp)).symm
        exact .inl ⟨y, kept_await _ hy hne, rfl, hyp, keeper_await _ hk⟩
      · exact .inr he
  | join hjn =>
    rw [join, hw] at hjn
    obtain ⟨hrun, hjn⟩ := Option.ite_none_left_eq_some.1 hjn
    obtain rfl := Option.some.inj hjn
    obtain ⟨y, hy, hyi, -⟩ | he := hk
    · exact absurd (isRunning_iff.2 ⟨y, hy, hyi⟩) hrun
    · exact .inr ⟨he.1, _, List.mem_cons_self⟩

theorem guardian_own (hm : Sound m) (hx : x ∈ m.tasks) (hp : x.parent = none) (hg : Guardian m x)
    (h : Own m x a v) (hc : v ≠ .cancel x.id) : Minds x.id a := by
  cases hg with
  | keeper hk =>
    have hkept := keeper_own hm.orderly hx hk h hc
    rw [hp] at hkept
    exact hkept.minds
  | guarding hw hj hk => exact guarding_own hm hx hp hw hj hk h hc
  | starting hw hj =>
    cases h with
    | cancel => exact absurd rfl hc
    | start _ ha =>
      rw [hj] at ha
      obtain rfl : a = m.addGuarded x.id _ _ := ha
      obtain ⟨y, hy, hi, hyp, hg⟩ := kept_addGuarded hm.roster hx hj
      exact .inl ⟨y, hy, hi, hyp.trans hp, hg⟩
    | reply r hr => simp [reply, hw] at hr
    | expire he => simp [expire, hw] at he
    | wake hwk => simp [wake, hw] at hwk
    | halt hh => simp [halt, hj] at hh
    | join hjn => simp [join, hw] at hjn
    | notice hn => simp [notice, hw] at hn

/-- Unless it is cancelled, a task that sees the session to its end is there until the link has been
let go, whatever moves. -/
theorem Minds.step (hm : Sound m) (h : Minds t m) (hs : m.step v = some a) (hc : v ≠ .cancel t) :
    Minds t a := by
  obtain ⟨x, hx, rfl, hp, hg⟩ | he := h
  · by_cases hi : v.actor m = x.id
    · exact guardian_own hm hx hp hg (own_step hm.roster hx hi hs) hc
    · have hxa := kept_deed (deed_step v hs) hx (Ne.symm hi) (isBelow_orphan hp _ _)
      refine .inl ⟨x, hxa, rfl, hp, ?_⟩
      cases hg with
      | keeper hk => exact .keeper (keeper_other hm.roster hs hi hk)
      | starting hw hj => exact .starting hw hj
      | guarding hw hj hk => exact .guarding hw hj (hk.step hm hx hp hs hi)
  · exact .inr (he.step hs)

def isMinding : Job → Bool
  | .close | .linger | .runLoops | .guard .. => true
  | _ => false

theorem minds_call {job : Job} (hr : Roster m.tasks m.fresh) (hj : isMinding job = true) :
    Minds m.fresh (m.call job) := by
  have hmem : ⟨m.fresh, job, none, .starting, m.fresh⟩ ∈ (m.add m.fresh job none).tasks :=
    List.mem_append_right _ List.mem_cons_self
  have hkids : ∀ y ∈ (m.add m.fresh job none).tasks, y.parent = some m.fresh →
      ∃ k, y.job = .loop k := by
    intro y hy hp
    obtain hy | hy := List.mem_append.1 hy
    · have hlt := hr.lt_fresh y hy
      exact absurd (hr.parent_lt y hy _ hp) (Nat.not_lt.2 (Nat.le_of_lt hlt))
    · obtain rfl := List.mem_singleton.1 hy
      simp at hp
  cases job with
  | send | recv | exchange | watch | loop => simp [isMinding] at hj
  | close => exact (kept_beginClose hmem (by simp)).minds
  | linger => exact (kept_lingerOn hmem rfl).minds
  | runLoops => exact (kept_addLoops hmem rfl hkids).minds
  | guard loops limit =>
    obtain ⟨y, hy, hi, hp, hg⟩ := kept_addGuarded (roster_add (.guard loops limit) hr (by simp))
      hmem rfl
    exact .inl ⟨y, hy, hi, hp, hg⟩

/-- Who has closed has let the link go at once. -/
theorem released_call_close (m : Machine) : (m.call .close).session.released = true := by
  have h : m.call .close = (m.add m.fresh .close none).beginClose m.fresh := rfl
  rw [h, beginClose]
  split
  next hr => exact hr
  next => rfl

/-- What has an outcome is not there any more. -/
theorem Sound.gone (hm : Sound m) {o : Outcome} (ho : m.outcome? t = some o) :
    ∀ x ∈ m.tasks, x.id ≠ t := by
  obtain ⟨p, hp, -⟩ := Option.map_eq_some_iff.1 ho
  have hi : p.1 = t := by simpa using List.find?_some hp
  exact hi ▸ (hm.record.ended p (List.mem_of_find?_eq_some hp)).2

/-- When it has an outcome, the link has been let go. -/
theorem Minds.released (hm : Sound m) (h : Minds t m) {o : Outcome} (ho : m.outcome? t = some o) :
    m.session.released = true := by
  obtain ⟨x, hx, hi, -⟩ | he := h
  · exact absurd hi (hm.gone ho x hx)
  · exact he.1

/-! When nothing is left to do. -/

def AtRest (m : Machine) : Prop := ∀ x ∈ m.tasks, m.prompt x = none ∧ x.wait ≠ .shutting

theorem not_starting_of_atRest (h : AtRest m) (hx : x ∈ m.tasks) : x.wait ≠ .starting := by
  intro hw
  have hp := (h x hx).1
  simp [prompt, hw] at hp

theorem prompt_of_notice (h : (m.notice x).isSome = true) : m.prompt x ≠ none := by
  unfold prompt
  split
  · simp
  · split
    · simp
    · split
      · simp
      · simp

theorem Keeper.alive (hr : AtRest m) (hx : x ∈ m.tasks) (hk : Keeper m x) :
    m.session.alive = true := by
  have hw := not_starting_of_atRest hr hx
  by_contra hna
  have ha : m.session.alive = false := by simpa using hna
  cases hk with
  | watch hs =>
    obtain hs | hs := hs
    · exact hw hs
    · have hn : (m.notice x).isSome = true := by simp [notice, hs, ha]
      exact prompt_of_notice hn (hr x hx).1
  | loops hs hj hk =>
    obtain hs | hs := hs
    · exact hw hs
    · -- a loop below would end, and with none below there is nothing to wait for
      by_cases hn : ∃ y ∈ m.tasks, y.parent = some x.id
      · obtain ⟨y, hy, hp⟩ := hn
        obtain ⟨k, hk⟩ := hk y hy hp
        have hoff : m.isOn k = false := by simp [isOn, ha]
        refine prompt_of_halt ?_ (hr y hy).1
        rw [halt_of_off hk hoff, Option.isSome_some]
      · simp only [not_exists, not_and] at hn
        refine prompt_of_join ?_ (hr x hx).1
        rw [join_of_alone hs hn, Option.isSome_some]
  | shut hs => exact (hr x hx).2 hs

/-- Where nothing is left to do, a session somebody still looks after is alive. -/
theorem Minds.alive (hm : Sound m) (hr : AtRest m) (h : Minds t m) :
    m.session.alive = true ∨ Ended t m := by
  obtain ⟨x, hx, rfl, hp, hg⟩ | he := h
  · left
    cases hg with
    | keeper hk => exact hk.alive hr hx
    | starting hw => exact absurd hw (not_starting_of_atRest hr hx)
    | @guarding child d loops limit hw hj hk =>
      obtain ⟨y, hy, -, -, hk⟩ | ⟨-, o, ho⟩ := hk
      · exact hk.alive hr hy
      · have hrun : m.isRunning child = false := by
          rw [← Bool.not_eq_true, isRunning_iff]
          rintro ⟨y, hy, hi⟩
          exact (hm.record.ended _ ho).2 y hy hi
        refine absurd (hr x hx).1 (prompt_of_join ?_)
        rw [join, hw]
        simp [hrun]
  · exact .inr he

/-! How long the link takes to close. -/

def Brisk (m : Machine) : Prop :=
  m.session.released = true → m.session.state = .closed ∨ ∃ x ∈ m.tasks, x.wait = .shutting

theorem shutting_leaves {job : Job} (hl : Leaves x.id job m a) (hx : x ∈ m.tasks)
    (hm : m.session.released = false) (ha : a.session.released = true) :
    ∃ y ∈ a.tasks, y.id = x.id ∧ y.job = x.job ∧ y.wait = .shutting := by
  cases hl with
  | close =>
    exact ⟨_, mem_await_self (m := ((m.modify release).emit x.id .closing).ask x.id .close)
      .shutting hx, rfl, rfl, rfl⟩
  | send | recv | pause | watch | ends =>
    have hr := hm.symm.trans ha
    simp at hr

theorem shutting_begins {job : Job} (hb : Begins x.id job m a) (hx : x ∈ m.tasks)
    (hm : m.session.released = false) (ha : a.session.released = true) :
    ∃ y ∈ a.tasks, y.id = x.id ∧ y.job = x.job ∧ y.wait = .shutting := by
  cases hb with
  | leaves hl => exact shutting_leaves hl hx hm ha
  | fork =>
    rw [addLoops, (addAll_same _ _ _).1] at ha
    have hr := hm.symm.trans ha
    simp at hr
  | guard =>
    have hr := hm.symm.trans ha
    simp at hr

theorem state_of_closed (hm : Orderly m) (hs : m.step v = some a)
    (hc : m.session.state = .closed) : a.session.state = .closed := by
  obtain h | h := state_advance hm (advance_step v hs)
  · rw [h, hc]
  · simp [hc, State.next] at h

/-- The one who lets the link go waits for it. -/
theorem shutting_step (hm : Sound m) (hs : m.step v = some a) (hr : m.session.released = false)
    (ha : a.session.released = true) :
    ∃ x, (x ∈ m.tasks ∨ v = .call x.job) ∧ x.id = v.actor m ∧
      ∃ y ∈ a.tasks, y.id = x.id ∧ y.job = x.job ∧ y.wait = .shutting := by
  have same (h : a.session.released = m.session.released) : False := by
    rw [hr, ha] at h
    exact Bool.false_ne_true h.symm
  cases deed_step v hs with
  | activate hact =>
    unfold Session.activate at hact
    split at hact
    next =>
      obtain rfl := Except.ok.inj hact
      exact (same rfl).elim
    next => simp at hact
  | setLoop | ignore | sendFailed | recvFailed | closed | closeFailed | look | halt | relay
  | unwatch | cancel | pass => exact (same rfl).elim
  | deliver size data => exact (same (released_obeyExit (m.session.touch m.now) data)).elim
  | @call job a hb =>
    exact ⟨⟨m.fresh, job, none, .starting, m.fresh⟩, .inr rfl, rfl,
      shutting_begins hb (List.mem_append_right _ List.mem_cons_self) hr ha⟩
  | start hx _ hb => exact ⟨_, .inl hx, rfl, shutting_begins hb hx hr ha⟩
  | sent hx _ hl => exact ⟨_, .inl hx, rfl, shutting_leaves hl hx hr ha⟩
  | @received x size d data a hx _ _ hl =>
    have ho := released_obeyExit (m.session.received m.now data) data
    exact ⟨_, .inl hx, rfl, shutting_leaves hl hx (ho.trans hr) ha⟩
  | turn hx _ _ hl => exact ⟨_, .inl hx, rfl, shutting_leaves hl hx hr ha⟩
  | @evict x _ _ _ _ a hx _ _ hl =>
    exact ⟨_, .inl hx, rfl, shutting_leaves hl
      (List.mem_filter.2 ⟨hx, by simp [isBelow_self hm.roster hx]⟩) hr ha⟩
  | join hx _ _ hl => exact ⟨_, .inl hx, rfl, shutting_leaves hl hx hr ha⟩
  | notice hx _ _ hl => exact ⟨_, .inl hx, rfl, shutting_leaves hl hx hr ha⟩

/-- Where nobody waits for the link, at most the one who moves does so next. -/
theorem brisk_step (hm : Sound m) (hs : m.step v = some a)
    (hc : m.session.released = true → m.session.state = .closed) : Brisk a := by
  intro ha
  cases hr : m.session.released with
  | true => exact .inl (state_of_closed hm.orderly hs (hc hr))
  | false =>
    obtain ⟨-, -, -, y, hy, -, -, hw⟩ := shutting_step hm hs hr ha
    exact .inr ⟨y, hy, hw⟩

/-- When the link has answered the one who closes, the session is closed. -/
theorem closed_of_reply {r : Reply} (hr : Roster m.tasks m.fresh) (hx : x ∈ m.tasks)
    (hw : x.wait = .shutting) (hs : m.step (.reply x.id r) = some a) :
    a.session.state = .closed := by
  rw [step, task?_of_mem hr hx, Option.bind_some] at hs
  unfold reply at hs
  rw [hw] at hs
  cases r with
  | sent | received => simp at hs
  | closed =>
    obtain rfl := Option.some.inj hs
    rfl
  | failed e =>
    obtain rfl := Option.some.inj hs
    rfl

/-- A session in use stays in use. -/
theorem state_ne_created (hm : Orderly m) (hs : m.step v = some a)
    (hc : m.session.state ≠ .created) : a.session.state ≠ .created := by
  obtain h | h := state_advance hm (advance_step v hs)
  · rwa [h]
  · intro ha
    rw [ha] at h
    cases hst : m.session.state <;> simp [hst, State.next] at h

/-- And one that is active has been so before. -/
theorem active_of_step (hm : Orderly m) (hs : m.step v = some a)
    (hc : m.session.state ≠ .created) (ha : a.session.state = .active) :
    m.session.state = .active := by
  obtain h | h := state_advance hm (advance_step v hs)
  · exact h.symm.trans ha
  · rw [ha] at h
    cases hst : m.session.state <;> simp [hst, State.next] at h hc

end Switchboard.Session.Machine
