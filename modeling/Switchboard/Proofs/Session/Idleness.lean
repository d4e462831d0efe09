import Switchboard.Proofs.Session.Signs

/-! The guard of a session. It is not told of signs of life: it looks when the timer rings behind the
limit since the last that it has seen, and if there has been another one by then, it sleeps for the
rest. So it gives up no session that is not idle, and none that is idle when the timer rings goes on
for longer. -/
namespace Switchboard

namespace Duration

theorem le_tick (d : Duration) : d ≤ d.tick := by
  have h (n : Nat) : n ≤ (n + 999999) / 1000000 * 1000000 := by omega
  exact h d

theorem tick_lt (d : Duration) : d.tick < d + ofMillis 1 := by
  have h (n : Nat) : (n + 999999) / 1000000 * 1000000 < n + 1 * 1000000 := by omega
  exact h d

theorem tick_le {d : Duration} {n : Nat} (hd : d ≤ ofMillis n) : d.tick ≤ ofMillis n := by
  have h (k : Nat) (hk : k ≤ n * 1000000) : (k + 999999) / 1000000 * 1000000 ≤ n * 1000000 := by
    omega
  exact h d hd

end Duration

namespace Session.Machine
variable {m a b c : Machine} {t : TaskId} {v : Move} {x : Task} {limit made start e : Duration}
  {n : Nat}

/-- A time at which a wait that has begun at `start` may be over: then, or when the timer rings. -/
def Rings (start e : Duration) : Prop := start ≤ e ∧ (e = start ∨ ∃ n, e = .ofMillis n)

def guards (t : TaskId) (m : Machine) : Bool :=
  (m.task? t).any fun x => match x.wait with
    | .guarding .. => true
    | _ => false

def isEarly (t : TaskId) (m : Machine) : Bool := ((m.task? t).bind alarm).all (m.now ≤ ·.1)

def isInTime (t : TaskId) : Machine × Move → Bool
  | (m, .pass d) => { m with now := m.now + d }.isEarly t
  | _ => true

/-- Whenever the timer has rung from `start` until now, the session has not been idle. -/
def Stirring (limit made start : Duration) (m : Machine) : Prop :=
  ∀ e, Rings start e → e < m.now → ¬IsIdle limit (signs made m) e

theorem isLeast_rings (m : Machine) (d : Duration) :
    IsLeast {e | Rings m.now e ∧ d ≤ e} (m.rings d) := by
  unfold rings
  split
  next hd => exact ⟨⟨⟨Nat.le_refl _, .inl rfl⟩, hd⟩, fun e he => he.1.1⟩
  next hd =>
    have hlt : m.now < d := Nat.lt_of_not_le hd
    refine ⟨⟨⟨Nat.le_trans hlt.le d.le_tick, .inr ⟨_, rfl⟩⟩, d.le_tick⟩, ?_⟩
    rintro e ⟨⟨-, rfl | ⟨n, rfl⟩⟩, hde⟩
    · exact absurd hde hd
    · exact Duration.tick_le hde

/-- It makes no difference when the wait has begun, if it is not over at once. -/
theorem rings_iff {p : Duration} (hp : start ≤ p) (he : p < e) : Rings start e ↔ Rings p e := by
  unfold Rings
  have h₁ : e ≠ start := Nat.ne_of_gt (Nat.lt_of_le_of_lt hp he)
  have h₂ : e ≠ p := Nat.ne_of_gt he
  have h₃ : start ≤ e := Nat.le_trans hp he.le
  simp [h₁, h₂, h₃, he.le]

theorem isLeast_rings_of_lt {d : Duration} (hs : start ≤ m.now) (hd : m.now < d) :
    IsLeast {e | Rings start e ∧ d ≤ e} (m.rings d) := by
  have hset : {e | Rings start e ∧ d ≤ e} = {e | Rings m.now e ∧ d ≤ e} := by
    ext e
    exact and_congr_left fun he => rings_iff hs (Nat.lt_of_lt_of_le hd he)
  rw [hset]
  exact isLeast_rings m d

/-- Time may pass as far as to where the timer rings behind the limit since the last sign of life. -/
theorem Stirring.step (hm : Sound m) (hd : Dated made m) (h : Stirring limit made start m)
    (hs : m.step v = some a)
    (hp : ∀ d e, v = .pass d → Rings start e → m.session.lastActivity + limit ≤ e → m.now + d ≤ e) :
    Stirring limit made start a := by
  intro e hr he
  by_cases hv : ∃ d, v = .pass d
  · obtain ⟨d, rfl⟩ := hv
    obtain rfl := Option.some.inj hs
    obtain hlt | hge := Nat.lt_or_ge e m.now
    · exact h e hr hlt
    · have he : e < m.now + d := he
      intro hi
      have hle := (hd.isIdle_iff (Nat.le_trans hd.past hge)).1 hi
      exact absurd he (Nat.not_lt.2 (hp d e rfl hr hle))
  · rw [now_eq_of_step hm.roster hs fun d hd => hv ⟨d, hd⟩] at he
    have hl := signs_step made hs
    split at hl
    · rw [hl, ← List.singleton_append, isIdle_append (by simpa using he)]
      exact h e hr he
    · rw [hl]
      exact h e hr he

/-! A guard from move to move. -/

/-- It has begun at `start`, and sleeps for the limit behind a sign of life, with `n` others before that
one at least. -/
structure OnGuard (t : TaskId) (limit made start : Duration) (n : Nat) (m : Machine) (x : Task) :
    Prop where
  mem : x ∈ m.tasks
  id : x.id = t
  parent : x.parent = none
  job : ∃ loops, x.job = .guard loops limit
  began : start ≤ m.now
  wait : ∃ child d new s old, x.wait = .guarding child d ∧
    IsLeast {e | Rings start e ∧ s + limit ≤ e} d ∧ signs made m = new ++ s :: old ∧ n ≤ old.length

def Relieved (t : TaskId) (m : Machine) : Prop :=
  t < m.fresh ∧ ∀ x ∈ m.tasks, x.id = t → x.wait = .shutting ∧ ∀ k, x.job ≠ .loop k

def Guarding (t : TaskId) (limit made start : Duration) (n : Nat) (m : Machine) : Prop :=
  (∃ x, OnGuard t limit made start n m x) ∨ Relieved t m ∧ n ≤ (signs made m).length

theorem guards_iff (hr : Roster m.tasks m.fresh) :
    m.guards t = true ↔ ∃ x ∈ m.tasks, x.id = t ∧ ∃ child d, x.wait = .guarding child d := by
  unfold guards
  constructor
  · intro h
    obtain ⟨x, hx, hw⟩ := (Option.any_eq_true _ _).1 h
    obtain ⟨hx, hi⟩ := eq_of_task? hx
    cases hc : x.wait with
    | guarding child d => exact ⟨x, hx, hi, child, d, hc⟩
    | _ => simp [hc] at hw
  · rintro ⟨x, hx, rfl, child, d, hw⟩
    rw [task?_of_mem hr hx, Option.any_some, hw]

theorem OnGuard.guards (h : OnGuard t limit made start n m x) (hr : Roster m.tasks m.fresh) :
    m.guards t = true := by
  obtain ⟨child, d, -, s, -, hw, -⟩ := h.wait
  exact (guards_iff hr).2 ⟨x, h.mem, h.id, child, d, hw⟩

theorem guards_beginClose (t : TaskId) (m : Machine) : (m.beginClose t).guards t = false := by
  cases hx : (m.beginClose t).task? t with
  | none => rw [Machine.guards, hx, Option.any_none]
  | some x =>
    obtain ⟨hm, hi⟩ := eq_of_task? hx
    rw [Machine.guards, hx, Option.any_some, wait_beginClose hm hi]

theorem Relieved.guards (h : Relieved t m) (hr : Roster m.tasks m.fresh) : m.guards t = false := by
  rw [← Bool.not_eq_true, guards_iff hr]
  rintro ⟨x, hx, hi, child, d, hw⟩
  simp [(h.2 x hx hi).1] at hw

theorem Relieved.ne_wake (h : Relieved t m) (hs : m.step v = some a) : v ≠ .wake t := by
  rintro rfl
  obtain ⟨x, hx, hw⟩ := Option.bind_eq_some_iff.1 hs
  obtain ⟨hx, hi⟩ := eq_of_task? hx
  unfold Machine.wake at hw
  rw [(h.2 x hx hi).1] at hw
  simp at hw

theorem Relieved.step (hr : Roster m.tasks m.fresh) (h : Relieved t m) (hs : m.step v = some a) :
    Relieved t a := by
  refine ⟨Nat.lt_of_lt_of_le h.1 (fresh_step hr hs), fun y hy hi => ?_⟩
  obtain ⟨x, hx, hxi, -, -, rfl | hu⟩ := old_step hr hs hy (hi ▸ h.1)
  · exact h.2 y hx hi
  · obtain ⟨hw, hj⟩ := h.2 x hx (hxi.trans hi)
    exact absurd hxi.symm (shutter_deed hr (deed_step v hs) hx hw hj hu y hy)

/-- A task that is not there any more is relieved. -/
theorem relieved_of_gone (ht : t < m.fresh) (h : ∀ x ∈ m.tasks, x.id ≠ t) : Relieved t m :=
  ⟨ht, fun x hx hi => absurd hi (h x hx)⟩

theorem Relieved.isEarly (h : Relieved t m) : m.isEarly t = true := by
  unfold Machine.isEarly
  cases hx : m.task? t with
  | none => rfl
  | some x =>
    obtain ⟨hx, hi⟩ := eq_of_task? hx
    simp [alarm, (h.2 x hx hi).1]

namespace OnGuard
variable (h : OnGuard t limit made start n m x)
include h

theorem deadline (hd : Dated made m) : ∃ child d, x.wait = .guarding child d ∧ Rings start d ∧
    ∀ e, Rings start e → m.session.lastActivity + limit ≤ e → d ≤ e := by
  obtain ⟨child, d, new, s, old, hw, hl, hs, -⟩ := h.wait
  have hle : s ≤ m.session.lastActivity :=
    hd.le s (hs ▸ List.mem_append_right _ List.mem_cons_self)
  exact ⟨child, d, hw, hl.1.1, fun e hr he =>
    hl.2 ⟨hr, Nat.le_trans (Nat.add_le_add_right hle _) he⟩⟩

theorem isEarly_iff (hr : Roster m.tasks m.fresh) {child : TaskId} {d : Duration}
    (hw : x.wait = .guarding child d) : m.isEarly t = true ↔ m.now ≤ d := by
  have hx := task?_of_mem hr h.mem
  rw [h.id] at hx
  simp [Machine.isEarly, hx, alarm, hw]

theorem later (d : Duration) : OnGuard t limit made start n { m with now := m.now + d } x :=
  ⟨h.mem, h.id, h.parent, h.job, Nat.le_trans h.began (Nat.le_add_right _ _), h.wait⟩

/-- So time that passes in time passes no further than to where the timer rings behind the limit. -/
theorem inTime (hr : Roster m.tasks m.fresh) (hd : Dated made m) {d : Duration}
    (ht : isInTime t (m, .pass d) = true) (he : Rings start e)
    (hle : m.session.lastActivity + limit ≤ e) : m.now + d ≤ e := by
  obtain ⟨child, u, hw, -, hu⟩ := h.deadline hd
  exact Nat.le_trans (((h.later d).isEarly_iff hr hw).1 ht) (hu e he hle)

/-- Such a guard gives up the session when it is idle, and else looks again when it may be so the next
time, for which there must have been another sign of life. -/
theorem wake (hm : Sound m) (hd : Dated made m) (hs : m.step (.wake t) = some a) :
    (m.session.lastActivity + limit ≤ m.now ∧ a = (m.clear t).beginClose t) ∨
      (m.now < m.session.lastActivity + limit ∧ a.session = m.session ∧ a.now = m.now) ∧
        ∃ y, OnGuard t limit made start (n + 1) a y ∧
          ∃ child, y.wait = .guarding child (m.rings (m.session.lastActivity + limit)) := by
  obtain ⟨hx, rfl, hp, ⟨loops, hj⟩, hb, child, d, new, s, old, hw, hl, hsig, hn⟩ := h
  rw [Machine.step, task?_of_mem hm.roster hx, Option.bind_some, Machine.wake, hw, hj] at hs
  obtain ⟨hdue, hs⟩ := Option.ite_none_right_eq_some.1 hs
  split at hs
  next hidle =>
    exact .inl ⟨(Nat.le_sub_iff_add_le' hd.past).1 hidle, (Option.some.inj hs).symm⟩
  next hidle =>
    have hlt : m.now < m.session.lastActivity + limit :=
      Nat.lt_of_not_le (mt (Nat.le_sub_iff_add_le' hd.past).2 hidle)
    obtain rfl := Option.some.inj hs
    obtain ⟨r, hr⟩ := hd.eq_cons
    refine .inr ⟨⟨hlt, rfl, rfl⟩, _, ⟨mem_await_self _ hx, rfl, hp, ⟨loops, hj⟩, hb, child, _, [],
      m.session.lastActivity, r, rfl, isLeast_rings_of_lt hb hlt, hr, ?_⟩, child, rfl⟩
    -- the last sign of life is not the one that it has waited for
    rw [hr] at hsig
    cases new with
    | nil =>
      obtain ⟨hls, -⟩ := List.cons.inj hsig
      exact absurd (Nat.le_trans (hls ▸ hl.1.2) hdue) (Nat.not_le.2 hlt)
    | cons s' new =>
      rw [List.cons_append] at hsig
      obtain ⟨-, rfl⟩ := List.cons.inj hsig
      rw [List.length_append, List.length_cons]
      omega

/-- What becomes of it: it is as it was, it looks again later, or it is relieved. -/
theorem next (hm : Sound m) (hd : Dated made m) (hs : m.step v = some a) :
    (v ≠ .wake t ∧ OnGuard t limit made start n a x) ∨
      (v = .wake t ∧ ∃ y, OnGuard t limit made start (n + 1) a y ∧
        ∃ child, y.wait = .guarding child (m.rings (m.session.lastActivity + limit))) ∨
      Relieved t a ∧ n + (if v = .wake t then 1 else 0) ≤ (signs made a).length := by
  have hlt := Nat.lt_of_lt_of_le (hm.roster.lt_fresh x h.mem) (fresh_step hm.roster hs)
  obtain ⟨child, d, new, s, old, hw, hl, hsig, hn⟩ := h.wait
  obtain ⟨newer, ha, -⟩ := signs_steps hm made [v] (by rw [steps, hs]; rfl)
  have hlen : n + 1 ≤ (signs made a).length := by
    rw [ha, hsig, List.length_append, List.length_append, List.length_cons]
    omega
  have gone (hv : v ≠ .wake t) (hg : ∀ y ∈ a.tasks, y.id ≠ x.id) :
      Relieved t a ∧ n + (if v = .wake t then 1 else 0) ≤ (signs made a).length := by
    rw [if_neg hv]
    exact ⟨h.id ▸ relieved_of_gone hlt hg, Nat.le_of_succ_le hlen⟩
  by_cases hi : v.actor m = x.id
  · obtain ⟨loops, hj⟩ := h.job
    cases own_step hm.roster h.mem hi hs with
    | start hst => simp [hw] at hst
    | reply r hr => simp [Machine.reply, hw] at hr
    | expire he => simp [Machine.expire, hw] at he
    | halt hh => simp [Machine.halt, hj] at hh
    | notice hn => simp [Machine.notice, hw] at hn
    | wake =>
      obtain ⟨-, rfl⟩ | ⟨-, hy⟩ := h.wake hm hd (h.id ▸ hs)
      · refine .inr (.inr ⟨⟨h.id ▸ hlt, fun y hy hyi => ⟨wait_beginClose hy hyi, fun k hk => ?_⟩⟩, ?_⟩)
        · have hlt := hm.roster.lt_fresh x h.mem
          obtain ⟨z, hz, hzi, hzj, -⟩ := old_step hm.roster hs hy (hyi ▸ h.id ▸ hlt)
          rw [hm.roster.eq_of_id hz h.mem (hzi.trans (hyi.trans h.id.symm)), hj, hk] at hzj
          simp at hzj
        · rwa [if_pos (by rw [h.id])]
      · exact .inr (.inl ⟨by rw [h.id], hy⟩)
    | join hjn =>
      refine .inr (.inr (gone (by simp) fun y hy => ?_))
      rw [Machine.join, hw] at hjn
      obtain ⟨-, hjn⟩ := Option.ite_none_left_eq_some.1 hjn
      obtain rfl := Option.some.inj hjn
      simpa using (List.mem_filter.1 hy).2
    | cancel =>
      refine .inr (.inr (gone (by simp) fun y hy => ?_))
      rw [Machine.step, task?_of_mem hm.roster h.mem, Option.bind_some, if_pos h.parent] at hs
      obtain rfl := Option.some.inj hs
      have hn := (List.mem_filter.1 hy).2
      simp only [Bool.and_eq_true, decide_eq_true_eq] at hn
      exact hn.1
  · have hv : v ≠ .wake t := by
      rintro rfl
      exact hi h.id.symm
    exact .inl ⟨hv, kept_deed (deed_step v hs) h.mem (Ne.symm hi) (isBelow_orphan h.parent _ _), h.id,
      h.parent, h.job, Nat.le_trans h.began (now_step hm.roster hs), child, d, newer ++ new, s, old, hw,
      hl, by rw [ha, hsig, List.append_assoc], hn⟩

end OnGuard

namespace Guarding

theorem step (hm : Sound m) (hd : Dated made m) (h : Guarding t limit made start n m)
    (hs : m.step v = some a) : Guarding t limit made start (n + if v = .wake t then 1 else 0) a := by
  obtain ⟨x, h⟩ | ⟨h, hn⟩ := h
  · obtain ⟨hv, hx⟩ | ⟨rfl, y, hy, -⟩ | hr := h.next hm hd hs
    · rw [if_neg hv]
      exact .inl ⟨x, hx⟩
    · rw [if_pos rfl]
      exact .inl ⟨y, hy⟩
    · exact .inr hr
  · obtain ⟨new, hl, -⟩ := signs_steps hm made [v] (by rw [steps, hs]; rfl)
    rw [if_neg (h.ne_wake hs), Nat.add_zero]
    refine .inr ⟨h.step hm.roster hs, ?_⟩
    rw [hl, List.length_append]
    exact Nat.le_add_left_of_le hn

theorem isEarly (hm : Sound m) (hd : Dated made m) (h : Guarding t limit made start n m)
    (he : m.isEarly t = true) (hs : m.step v = some a) (ht : isInTime t (m, v) = true) :
    a.isEarly t = true := by
  by_cases hv : ∃ d, v = .pass d
  · obtain ⟨d, rfl⟩ := hv
    obtain rfl := Option.some.inj hs
    exact ht
  have hn : a.now = m.now := now_eq_of_step hm.roster hs fun d hd => hv ⟨d, hd⟩
  obtain ⟨x, h⟩ | ⟨h, -⟩ := h
  · obtain ⟨-, hx⟩ | ⟨-, y, hy, child, hw⟩ | ⟨hr, -⟩ := h.next hm hd hs
    · obtain ⟨child, d, hw, -⟩ := h.deadline hd
      rw [h.isEarly_iff hm.roster hw] at he
      rw [hx.isEarly_iff (hm.step hs).roster hw, hn]
      exact he
    · rw [hy.isEarly_iff (hm.step hs).roster hw, hn]
      exact (isLeast_rings m _).1.1.1
    · exact hr.isEarly
  · exact (h.step hm.roster hs).isEarly

/-- While it waits, the session has not been idle when the timer has rung. -/
theorem stirring (hm : Sound m) (hd : Dated made m) (h : Guarding t limit made start n m)
    (hst : m.guards t = true → Stirring limit made start m) (hs : m.step v = some a)
    (ht : isInTime t (m, v) = true) : a.guards t = true → Stirring limit made start a := by
  intro ha
  obtain ⟨x, h⟩ | ⟨h, -⟩ := h
  · refine (hst (h.guards hm.roster)).step hm hd hs fun d e hv he hle => ?_
    subst hv
    exact h.inTime hm.roster hd ht he hle
  · simp [(h.step hm.roster hs).guards (hm.step hs).roster] at ha

theorem steps (hm : Sound m) (hd : Dated made m) (h : Guarding t limit made start n m) (vs : List Move)
    (hs : m.steps vs = some a) : Guarding t limit made start (n + vs.count (.wake t)) a := by
  induction vs generalizing m n with
  | nil => exact Option.some.inj hs ▸ h
  | cons v vs ih =>
    obtain ⟨b, hb, hs⟩ := Option.bind_eq_some_iff.1 hs
    have hc : (v :: vs).count (.wake t) = (if v = .wake t then 1 else 0) + vs.count (.wake t) := by
      rw [List.count_cons, Nat.add_comm]
      simp only [beq_iff_eq]
    rw [hc, ← Nat.add_assoc]
    exact ih (hm.step hb) (hd.step hm hb) (h.step hm hd hb) hs

end Guarding

structure InTime (t : TaskId) (limit made start : Duration) (m : Machine) : Prop where
  early : m.isEarly t = true
  stirring : m.guards t = true → Stirring limit made start m

theorem InTime.steps (hm : Sound m) (hd : Dated made m) (hg : Guarding t limit made start n m)
    (h : InTime t limit made start m) (vs : List Move) (hs : m.steps vs = some a)
    (ht : (walk vs m).all (isInTime t) = true) : InTime t limit made start a := by
  induction vs generalizing m n with
  | nil => exact Option.some.inj hs ▸ h
  | cons v vs ih =>
    obtain ⟨b, hb, hs⟩ := Option.bind_eq_some_iff.1 hs
    rw [walk, hb, Option.map_some, Option.getD_some, List.all_cons, Bool.and_eq_true] at ht
    exact ih (hm.step hb) (hd.step hm hb) (hg.step hm hd hb)
      ⟨hg.isEarly hm hd h.early hb ht.1, hg.stirring hm hd h.stirring hb ht.1⟩ hs ht.2

theorem guarding_call (hd : Dated made m) (loops : Bool) :
    Guarding m.fresh limit made m.now ((signs made m).length - 1) (m.call (.guard loops limit)) := by
  obtain ⟨l, hl⟩ := hd.eq_cons
  refine .inl ⟨_, mem_await_self (m := (m.add m.fresh (.guard loops limit) none).add (m.fresh + 1)
    (if loops then .runLoops else .linger) m.fresh) _ (List.mem_append_left _ (List.mem_append_right _
      List.mem_cons_self)), rfl, rfl, ⟨loops, rfl⟩, Nat.le_refl _, m.fresh + 1, _, [],
    m.session.lastActivity, l, rfl, isLeast_rings m _, hl, ?_⟩
  rw [hl]
  exact Nat.le_refl _

theorem sound_guard (hm : Sound m) (limit : Duration) (loops : Bool) :
    Sound (m.call (.guard loops limit)) :=
  hm.step (v := .call (.guard loops limit)) rfl

theorem dated_guard (hm : Sound m) (hd : Dated made m) (limit : Duration) (loops : Bool) :
    Dated made (m.call (.guard loops limit)) :=
  hd.step hm (v := .call (.guard loops limit)) rfl

theorem inTime_call (hm : Sound m) (hd : Dated made m) (loops : Bool) :
    InTime m.fresh limit made m.now (m.call (.guard loops limit)) := by
  have hb := sound_guard hm limit loops
  refine ⟨?_, fun _ e he hlt => absurd hlt (Nat.not_lt.2 he.1)⟩
  have hg : Guarding m.fresh limit made _ _ (m.call (.guard loops limit)) := guarding_call hd loops
  obtain ⟨x, hx⟩ | ⟨h, -⟩ := hg
  · obtain ⟨child, d, hw, hd, -⟩ := hx.deadline (dated_guard hm hd limit loops)
    exact (hx.isEarly_iff hb.roster hw).2 hd.1
  · exact h.isEarly

/-! What a guard does to the session, and when. -/

theorem guards_of_wake (h : Guarding t limit made start n m) (hs : m.step (.wake t) = some a) :
    ∃ x, OnGuard t limit made start n m x :=
  h.resolve_right fun h => absurd rfl (h.1.ne_wake hs)

theorem OnGuard.due (h : OnGuard t limit made start n m x) (hr : Roster m.tasks m.fresh)
    {child : TaskId} {d : Duration} (hw : x.wait = .guarding child d)
    (hs : m.step (.wake t) = some a) : d ≤ m.now := by
  obtain ⟨hx, rfl, -, ⟨loops, hj⟩, -⟩ := h
  rw [Machine.step, task?_of_mem hr hx, Option.bind_some, Machine.wake, hw, hj] at hs
  exact (Option.ite_none_right_eq_some.1 hs).1

/-- It gives up no session that is not idle. -/
theorem Guarding.idle (hm : Sound m) (hd : Dated made m) (h : Guarding t limit made start n m)
    (hs : m.step (.wake t) = some a) (ha : a.guards t = false) :
    start ≤ m.now ∧ m.session.lastActivity + limit ≤ m.now := by
  obtain ⟨x, hx⟩ := guards_of_wake h hs
  refine ⟨hx.began, ?_⟩
  obtain ⟨hi, -⟩ | ⟨-, y, hy, -⟩ := hx.wake hm hd hs
  · exact hi
  · simp [hy.guards (hm.step hs).roster] at ha

/-- On time it looks just when the timer rings, and that is soon behind the limit. -/
theorem InTime.rings (hm : Sound m) (hd : Dated made m) (hg : Guarding t limit made start n m)
    (h : InTime t limit made start m) (hs : m.step (.wake t) = some a) : Rings start m.now ∧
      (m.now = start ∨ m.now < m.session.lastActivity + limit + .ofMillis 1) := by
  obtain ⟨x, hx⟩ := guards_of_wake hg hs
  obtain ⟨child, d, hw, hr, hle⟩ := hx.deadline hd
  have hn : d = m.now :=
    Nat.le_antisymm (hx.due hm.roster hw hs) ((hx.isEarly_iff hm.roster hw).1 h.early)
  rw [hn] at hr hle
  refine ⟨hr, ?_⟩
  obtain hlt | hge := Nat.lt_or_ge start (m.session.lastActivity + limit)
  · have hle := hle _ ⟨Nat.le_trans hlt.le (Duration.le_tick _), .inr ⟨_, rfl⟩⟩ (Duration.le_tick _)
    exact .inr (Nat.lt_of_le_of_lt hle (Duration.tick_lt _))
  · exact .inl (Nat.le_antisymm (hle start ⟨Nat.le_refl _, .inl rfl⟩ hge) hr.1)

theorem InTime.isLeast (hm : Sound m) (hd : Dated made m) (hg : Guarding t limit made start n m)
    (h : InTime t limit made start m) (hs : m.step (.wake t) = some a) (ha : a.guards t = false) :
    IsLeast {e | Rings start e ∧ IsIdle limit (signs made m) e} m.now := by
  obtain ⟨x, hx⟩ := guards_of_wake hg hs
  obtain ⟨-, hi⟩ := hg.idle hm hd hs ha
  exact ⟨⟨(h.rings hm hd hg hs).1, (hd.isIdle_iff hd.past).2 hi⟩, fun e he => Nat.le_of_not_lt
    fun hlt => h.stirring (hx.guards hm.roster) e he.1 hlt he.2⟩

/-- Where everything happens at whole milliseconds, it makes no difference that the timer goes by
those. -/
theorem isLeast_of_whole {l : List Duration} (hl : ∃ n, limit = .ofMillis n)
    (hs : ∀ s ∈ l, ∃ n, s = .ofMillis n) (h : IsLeast {e | Rings start e ∧ IsIdle limit l e} c.now) :
    IsLeast {e | start ≤ e ∧ IsIdle limit l e} c.now := by
  refine ⟨⟨h.1.1.1, h.1.2⟩, fun e ⟨hse, hi⟩ => ?_⟩
  obtain ⟨s, hsl, hle, hi⟩ := hi.since hse
  refine Nat.le_trans (h.2 ⟨⟨le_max_left _ _, ?_⟩, hi⟩) hle
  obtain ⟨n, rfl⟩ := hl
  obtain ⟨k, rfl⟩ := hs s hsl
  obtain hmax | hmax := max_choice start (Duration.ofMillis k + .ofMillis n)
  · exact .inl hmax
  · exact .inr ⟨k + n, hmax.trans (Nat.add_mul k n _).symm⟩

theorem Guarding.ends (hm : Sound m) (hd : Dated made m) (h : Guarding t limit made start n m)
    (hg : m.guards t = true) (hr : Rings start m.now) (hi : m.session.lastActivity + limit ≤ m.now) :
    m.step (.wake t) = some ((m.clear t).beginClose t) := by
  obtain ⟨x, h⟩ | ⟨h, -⟩ := h
  · obtain ⟨child, d, hw, -, hle⟩ := h.deadline hd
    obtain ⟨loops, hj⟩ := h.job
    obtain rfl := h.id
    have hidle : limit ≤ m.session.idleFor m.now := (Nat.le_sub_iff_add_le' hd.past).2 hi
    rw [Machine.step, task?_of_mem hm.roster h.mem, Option.bind_some, Machine.wake, hw, hj]
    dsimp only
    rw [if_pos (hle _ hr hi), if_pos hidle]
  · simp [h.guards hm.roster] at hg

/-- Where it sees the session to its end, it guards as long as that is active. -/
theorem Guarding.onGuard (hm : Sound m) (h : Guarding t limit made start n m) (ht : Minds t m)
    (ha : m.session.state = .active) : ∃ x, OnGuard t limit made start n m x := by
  have hr : m.session.released ≠ true := fun hr => by simpa [ha] using hm.orderly.over_of_released hr
  obtain h | ⟨h, -⟩ := h
  · exact h
  · obtain ⟨x, hx, hi, -⟩ | he := ht
    · exact absurd (hm.orderly.released_of_shutting x hx (h.2 x hx hi).1) hr
    · exact absurd he.1 hr

/-- It can look when the time has come for which it sleeps. -/
theorem OnGuard.looks (hr : Roster m.tasks m.fresh) (h : OnGuard t limit made start n m x)
    {child : TaskId} {d : Duration} (hw : x.wait = .guarding child d) (hd : d ≤ m.now) :
    ∃ a, m.step (.wake t) = some a := by
  obtain ⟨loops, hj⟩ := h.job
  obtain rfl := h.id
  rw [Machine.step, task?_of_mem hr h.mem, Option.bind_some, Machine.wake, hw, hj]
  dsimp only
  rw [if_pos hd]
  split <;> exact ⟨_, rfl⟩

/-- Time may pass up to there. -/
theorem OnGuard.pass_rest (hr : Roster m.tasks m.fresh) (h : OnGuard t limit made start n m x)
    {child : TaskId} {d : Duration} (hw : x.wait = .guarding child d) (hn : m.now ≤ d) :
    ∃ a, m.step (.pass (d - m.now)) = some a ∧ isInTime t (m, .pass (d - m.now)) = true ∧
      a.now = d ∧ a.session = m.session ∧ OnGuard t limit made start n a x := by
  have hadd : m.now + (d - m.now) = d := Nat.add_sub_of_le hn
  have hx := h.later (d - m.now)
  exact ⟨_, rfl, (hx.isEarly_iff hr hw).2 hadd.le, hadd, rfl, hx⟩

/-- When it looks and the limit is over since the last sign of life, it gives the session up. -/
theorem OnGuard.expires (hm : Sound m) (hd : Dated made m) (h : OnGuard t limit made start n m x)
    {child : TaskId} {d : Duration} (hw : x.wait = .guarding child d) (hn : m.now ≤ d)
    (hi : m.session.lastActivity + limit ≤ d) :
    ∃ a b, m.step (.pass (d - m.now)) = some a ∧ isInTime t (m, .pass (d - m.now)) = true ∧
      a.now = d ∧ a.step (.wake t) = some b ∧ b.guards t = false := by
  obtain ⟨a, hs, ht, ha, hses, hx⟩ := h.pass_rest hm.roster hw hn
  obtain ⟨child₂, u, hu, hr, -⟩ := h.deadline hd
  obtain ⟨-, rfl⟩ := Wait.guarding.inj (hw.symm.trans hu)
  have hg := hx.guards (hm.step hs).roster
  refine ⟨a, _, hs, ht, ha, Guarding.ends (hm.step hs) (hd.step hm hs) (.inl ⟨x, hx⟩) hg ?_ ?_,
    guards_beginClose _ _⟩
  · rwa [ha]
  · rwa [ha, hses]

/-- Without another sign of life two more looks are enough, and the last of them gives it up at the
first time for that. -/
theorem Guarding.stops (hm : Sound m) (hd : Dated made m) (h : Guarding t limit made start n m)
    (he : m.isEarly t = true) (hg : m.guards t = true) :
    ∃ us a b, (∀ u ∈ us, u = .wake t ∨ ∃ d, u = .pass d) ∧ us.count (.wake t) ≤ 1 ∧
      (walk us m).all (isInTime t) = true ∧ m.steps us = some a ∧
      IsLeast {e | (m.now ≤ e ∧ Rings start e) ∧ m.session.lastActivity + limit ≤ e} a.now ∧
      a.step (.wake t) = some b ∧ b.guards t = false := by
  obtain ⟨x, hx⟩ | ⟨h, -⟩ := h
  case inr => simp [h.guards hm.roster] at hg
  obtain ⟨child, d, hw, hr, hle⟩ := hx.deadline hd
  have hn : m.now ≤ d := (hx.isEarly_iff hm.roster hw).1 he
  by_cases hi : m.session.lastActivity + limit ≤ d
  · obtain ⟨a, b, hs, ht, rfl, hb, hgb⟩ := hx.expires hm hd hw hn hi
    refine ⟨[.pass (a.now - m.now)], a, b, by simp, by simp, ?_, by rw [Machine.steps, hs]; rfl,
      ⟨⟨⟨hn, hr⟩, hi⟩, fun e he => hle e he.1.2 he.2⟩, hb, hgb⟩
    simp [walk, hs, ht]
  · -- there has been another sign since, so it sleeps for the rest
    have hlt := Nat.lt_of_not_le hi
    obtain ⟨a₁, hs, ht, rfl, hses, hx₁⟩ := hx.pass_rest hm.roster hw hn
    have hm₁ := hm.step hs
    obtain ⟨c, hc⟩ := hx₁.looks hm₁.roster hw (Nat.le_refl _)
    obtain ⟨hidle, -⟩ | ⟨⟨-, hses₂, hnow⟩, y, hy, child₂, hw₂⟩ := hx₁.wake hm₁ (hd.step hm hs) hc
    · exact absurd (hses ▸ hidle) hi
    have hl := isLeast_rings_of_lt hx₁.began hlt
    rw [hses] at hw₂
    obtain ⟨a, b, hs₂, ht₂, ha, hb, hgb⟩ := hy.expires (hm₁.step hc) ((hd.step hm hs).step hm₁ hc) hw₂
      (hnow ▸ Nat.le_trans hlt.le hl.1.2) (by rw [hses₂, hses]; exact hl.1.2)
    refine ⟨[.pass (a₁.now - m.now), .wake t, .pass (a₁.rings (m.session.lastActivity + limit) - c.now)],
      a, b, by simp, by simp, ?_, ?_, ?_, hb, hgb⟩
    · have hwake : isInTime t (a₁, .wake t) = true := rfl
      simp only [walk, hs, hc, hs₂, Option.map_some, Option.getD_some, List.all_cons, List.all_nil, ht,
        ht₂, hwake, Bool.and_true]
    · rw [Machine.steps, hs, Option.bind_some, Machine.steps, hc, Option.bind_some, Machine.steps, hs₂]
      rfl
    · rw [ha]
      have hle := Nat.le_trans hn (Nat.le_trans hlt.le hl.1.2)
      exact ⟨⟨⟨hle, hl.1.1⟩, hl.1.2⟩, fun e he => hl.2 ⟨he.1.2, he.2⟩⟩

/-! Who has given up a session closes it, unless somebody has done so before. -/

structure Seals (t : TaskId) (m : Machine) : Prop where
  relieved : Relieved t m
  closed : ∀ o, (t, o) ∈ m.finished → m.session.state = .closed

theorem Seals.step (hm : Sound m) (h : Seals t m) (hs : m.step v = some a) : Seals t a := by
  refine ⟨h.relieved.step hm.roster hs, fun o ho => ?_⟩
  have hd := deed_step v hs
  obtain ⟨l, hl, hown⟩ := finished_deed hd
  obtain ho | ho := List.mem_append.1 (hl ▸ ho)
  · have ht : t = v.actor m := hown _ ho
    obtain hi | ⟨x, hx, hi⟩ := actor_known hd
    · exact absurd (ht.trans hi) (Nat.ne_of_lt h.relieved.1)
    · obtain ⟨hw, hj⟩ := h.relieved.2 x hx (hi.trans ht.symm)
      cases own_step hm.roster hx hi.symm hs with
      | reply r => exact closed_of_reply hm.roster hx hw hs
      | start hst => simp [hw] at hst
      | expire he => simp [Machine.expire, hw] at he
      | wake hk => simp [Machine.wake, hw] at hk
      | join hn => simp [Machine.join, hw] at hn
      | notice hn => simp [Machine.notice, hw] at hn
      | halt hh =>
        unfold Machine.halt at hh
        split at hh
        next hk => exact absurd hk (hj _)
        next => simp at hh
      | cancel =>
        obtain ⟨y, -, hy⟩ := Option.bind_eq_some_iff.1 hs
        obtain ⟨-, hy⟩ := Option.ite_none_right_eq_some.1 hy
        obtain rfl := Option.some.inj hy
        obtain rfl := List.self_eq_append_left.1 hl
        simp at ho
  · exact state_of_closed hm.orderly hs (h.closed o ho)

theorem Seals.steps (hm : Sound m) (h : Seals t m) (vs : List Move) (hs : m.steps vs = some a) :
    Seals t a := by
  refine (steps_induction (P := fun m => Sound m ∧ Seals t m) ?_ ⟨hm, h⟩ vs hs).2
  rintro m a v ⟨hm, h⟩ hs
  exact ⟨hm.step hs, h.step hm hs⟩

theorem Guarding.seals (hm : Sound m) (hd : Dated made m) (h : Guarding t limit made start n m)
    (hr : m.session.released = false) (hs : m.step (.wake t) = some a) (ha : a.guards t = false) :
    Seals t a := by
  obtain ⟨x, hx⟩ := guards_of_wake h hs
  have hrel : Relieved t a := by
    obtain ⟨hv, -⟩ | ⟨-, y, hy, -⟩ | hrel := hx.next hm hd hs
    · exact absurd rfl hv
    · simp [hy.guards (hm.step hs).roster] at ha
    · exact hrel.1
  refine ⟨hrel, fun o ho => ?_⟩
  obtain ⟨-, rfl⟩ | ⟨-, y, hy, -⟩ := hx.wake hm hd hs
  · have hf : ((m.clear t).beginClose t).finished = m.finished := by
      rw [beginClose, if_neg (ne_true_of_eq_false (b := (m.clear t).session.released) hr)]
      rfl
    rw [hf, ← hx.id] at ho
    exact absurd ho (hm.record.no_end hx.mem o)
  · simp [hy.guards (hm.step hs).roster] at ha

/-- If it is the first to close the link, the session is closed when that has answered. -/
theorem Guarding.closes (hm : Sound m) (hd : Dated made m) (h : Guarding t limit made start n m)
    (hr : m.session.released = false) (hs : m.step (.wake t) = some a) (ha : a.guards t = false) :
    a.session.released = true ∧ ∃ y b, a.task? t = some y ∧ y.wait = .shutting ∧
      a.step (.reply t .closed) = some b ∧ b.session.state = .closed ∧ b.outcome? t = some .done := by
  obtain ⟨x, hx⟩ := guards_of_wake h hs
  obtain ⟨-, rfl⟩ | ⟨-, y, hy, -⟩ := hx.wake hm hd hs
  case inr => simp [hy.guards (hm.step hs).roster] at ha
  have hrel : ((m.clear t).beginClose t).session.released = true := by
    unfold beginClose
    split
    next hk => exact hk
    next => rfl
  obtain ⟨x, -, hxi, y, hy, hyi, -, hw⟩ := shutting_step hm hs hr hrel
  obtain rfl : y.id = t := hyi.trans hxi
  have hf := task?_of_mem (hm.step hs).roster hy
  have hb : ((m.clear y.id).beginClose y.id).step (.reply y.id .closed) =
      some (((m.clear y.id).beginClose y.id).closeDone y) := by
    rw [Machine.step, hf, Option.bind_some]
    unfold Machine.reply
    rw [hw]
  refine ⟨hrel, y, _, hf, hw, hb, rfl, ?_⟩
  simp [outcome?, closeDone, settle]

/-! A guard from its beginning. -/

def GivesUp (t : TaskId) (b : Machine) (vs : List Move) (c : Machine) : Prop :=
  ∃ us ws d, vs = us ++ .wake t :: ws ∧ b.steps us = some c ∧ c.step (.wake t) = some d ∧
    d.guards t = false

/-- A guard `t` that begins in `b`, in a run from there to `a`, on time or not. -/
structure IdleWait (t : TaskId) (limit made : Duration) (b : Machine) (vs : List Move)
    (a : Machine) : Prop where
  /-- It gives up no session that is not idle. -/
  early : ∀ c, GivesUp t b vs c → b.now ≤ c.now ∧ IsIdle limit (signs made c) c.now
  /-- If the session is idle when the timer rings, it can give it up. -/
  ends : a.guards t = true → Rings b.now a.now → IsIdle limit (signs made a) a.now →
    ∃ d, a.step (.wake t) = some d ∧ d.guards t = false
  /-- It looks once more than there are signs of life, at most. -/
  looks : vs.count (.wake t) + (signs made b).length ≤ (signs made a).length + 1

/-- The same, if time has passed no further than to where it looks. -/
structure IdleWaitInTime (t : TaskId) (limit made : Duration) (b : Machine) (vs : List Move)
    (a : Machine) : Prop where
  /-- It gives up the session at the first time since `b` at which the timer rings and that is idle. -/
  least : ∀ c, GivesUp t b vs c → c.now ∉ signs made a →
    IsLeast {e | Rings b.now e ∧ IsIdle limit (signs made a) e} c.now
  /-- That is at once, or less than a millisecond behind the limit. -/
  soon : ∀ c, GivesUp t b vs c →
    c.now = b.now ∨ c.now < c.session.lastActivity + limit + .ofMillis 1
  /-- It is the first time of all at which that is idle, if everything is at whole milliseconds. -/
  whole : (∃ n, limit = .ofMillis n) → (∀ s ∈ signs made a, ∃ n, s = .ofMillis n) →
    ∀ c, GivesUp t b vs c → c.now ∉ signs made a →
      IsLeast {e | b.now ≤ e ∧ IsIdle limit (signs made a) e} c.now
  /-- While it waits, no such time goes by. -/
  waits : a.guards t = true → ∀ e, Rings b.now e → e < a.now → ¬IsIdle limit (signs made a) e
  /-- Without another sign of life it is over two looks later at most, when the timer rings behind the
  limit. -/
  stops : a.guards t = true → ∃ us c d, (∀ u ∈ us, u = .wake t ∨ ∃ d, u = .pass d) ∧
    us.count (.wake t) ≤ 1 ∧ (walk us a).all (isInTime t) = true ∧ a.steps us = some c ∧
    IsLeast {e | (a.now ≤ e ∧ Rings b.now e) ∧ a.session.lastActivity + limit ≤ e} c.now ∧
    c.step (.wake t) = some d ∧ d.guards t = false

theorem Guarding.le_length (h : Guarding t limit made start n m) : n ≤ (signs made m).length := by
  obtain ⟨x, h⟩ | ⟨-, hn⟩ := h
  · obtain ⟨child, d, new, s, old, -, -, hl, hn⟩ := h.wait
    rw [hl, List.length_append, List.length_cons]
    omega
  · exact hn

/-- What there is of a guard, some time after it has begun. -/
theorem guarding_run (hm : Sound m) (hd : Dated made m) (loops : Bool) (vs : List Move)
    (hs : (m.call (.guard loops limit)).steps vs = some a) :
    Guarding m.fresh limit made m.now ((signs made m).length - 1 + vs.count (.wake m.fresh)) a := by
  exact (guarding_call hd loops).steps (sound_guard hm limit loops) (dated_guard hm hd limit loops) vs hs

theorem inTime_run (hm : Sound m) (hd : Dated made m) (loops : Bool) (vs : List Move)
    (hs : (m.call (.guard loops limit)).steps vs = some a)
    (ht : (walk vs (m.call (.guard loops limit))).all (isInTime m.fresh) = true) :
    InTime m.fresh limit made m.now a := by
  exact InTime.steps (sound_guard hm limit loops) (dated_guard hm hd limit loops) (guarding_call hd loops)
    (inTime_call hm hd loops) vs hs ht

theorem idleWait_call (hm : Sound m) (hd : Dated made m) (loops : Bool) (vs : List Move)
    (hs : (m.call (.guard loops limit)).steps vs = some a) :
    IdleWait m.fresh limit made (m.call (.guard loops limit)) vs a := by
  have hb := sound_guard hm limit loops
  have hdb := dated_guard hm hd limit loops
  have hga := guarding_run hm hd loops vs hs
  constructor
  case early =>
    rintro c ⟨us, ws, d, -, hc, hcd, hg⟩
    have hdc := hdb.steps hb us hc
    have hi := (guarding_run hm hd loops us hc).idle (hb.steps us hc) hdc hcd hg
    exact ⟨hi.1, (hdc.isIdle_iff hdc.past).2 hi.2⟩
  case ends =>
    intro hg hr hi
    have hda := hdb.steps hb vs hs
    exact ⟨_, hga.ends (hb.steps vs hs) hda hg hr ((hda.isIdle_iff hda.past).1 hi),
      guards_beginClose _ _⟩
  case looks =>
    have hle := hga.le_length
    obtain ⟨l, hl⟩ := hd.eq_cons
    have hlen : (signs made m).length = l.length + 1 := by rw [hl, List.length_cons]
    show vs.count _ + (signs made m).length ≤ _
    omega

theorem idleWaitInTime_call (hm : Sound m) (hd : Dated made m) (loops : Bool) (vs : List Move)
    (hs : (m.call (.guard loops limit)).steps vs = some a)
    (ht : (walk vs (m.call (.guard loops limit))).all (isInTime m.fresh) = true) :
    IdleWaitInTime m.fresh limit made (m.call (.guard loops limit)) vs a := by
  have hb := sound_guard hm limit loops
  have hdb := dated_guard hm hd limit loops
  have hpre (us ws : List Move) (hvs : vs = us ++ ws) (c : Machine)
      (hc : (m.call (.guard loops limit)).steps us = some c) :
      InTime m.fresh limit made m.now c := by
    subst hvs
    rw [walk_append hc, List.all_append, Bool.and_eq_true] at ht
    exact inTime_run hm hd loops us hc ht.1
  have hleast : ∀ c, GivesUp m.fresh (m.call (.guard loops limit)) vs c → c.now ∉ signs made a →
      IsLeast {e | Rings m.now e ∧ IsIdle limit (signs made a) e} c.now := by
    rintro c ⟨us, ws, d, rfl, hc, hcd, hg⟩ hn
    have hcs := hb.steps us hc
    have hl := (hpre us _ rfl c hc).isLeast hcs (hdb.steps hb us hc)
      (guarding_run hm hd loops us hc) hcd hg
    rw [steps_append, hc, Option.bind_some] at hs
    obtain ⟨new, hl', hle⟩ := signs_steps hcs made _ hs
    rw [hl'] at hn ⊢
    refine isLeast_append (fun s hs => ?_) hl
    have hne : s ≠ c.now := fun h => hn (h ▸ List.mem_append_left _ hs)
    exact Nat.lt_of_le_of_ne (hle s hs) (Ne.symm hne)
  have hia := hpre vs [] (List.append_nil _).symm a hs
  constructor
  case least => exact hleast
  case soon =>
    rintro c ⟨us, ws, d, rfl, hc, hcd, -⟩
    exact ((hpre us _ rfl c hc).rings (hb.steps us hc) (hdb.steps hb us hc)
      (guarding_run hm hd loops us hc) hcd).2
  case whole => exact fun hl hs c hc hn => isLeast_of_whole hl hs (hleast c hc hn)
  case waits => exact hia.stirring
  case stops =>
    exact (guarding_run hm hd loops vs hs).stops (hb.steps vs hs) (hdb.steps hb vs hs) hia.early

end Session.Machine
end Switchboard
