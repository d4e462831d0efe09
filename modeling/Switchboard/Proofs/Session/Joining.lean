import Switchboard.Proofs.Session.Course
import Switchboard.Proofs.Session.Loops

/-! A task that has begun loops, and such a loop, from move to move. The task does nothing but wait for
the loops until it joins them, and then for the link to close. A loop goes when its flag is down or
the session is not active, be the link as slow as it likes. -/
namespace Switchboard.Session.Machine
variable {m a b : Machine} {t c u : TaskId} {k : Loop} {v : Move} {l : List (Machine × Move)}

theorem prompt_of_halt {x : Task} (h : (m.halt x).isSome = true) : m.prompt x ≠ none := by
  unfold prompt
  rw [if_pos h]
  split <;> simp

theorem prompt_of_join {x : Task} (h : (m.join x).isSome = true) : m.prompt x ≠ none := by
  unfold prompt
  rw [if_pos h]
  split
  · simp
  · split <;> simp

theorem halt_of_off {x : Task} (hj : x.job = .loop k) (hk : m.isOn k = false) :
    m.halt x = some (m.settle x.id .done) := by
  rw [halt, hj]
  exact if_neg (by simp [hk])

theorem join_of_alone {x : Task} (hw : x.wait = .joining)
    (hn : ∀ y ∈ m.tasks, y.parent ≠ some x.id) : m.join x = some (m.beginClose x.id) := by
  rw [join, hw]
  exact if_neg (by simpa using hn)

theorem eq_of_join {x : Task} (hw : x.wait = .joining) (h : m.join x = some a) :
    a = m.beginClose x.id ∧ ∀ y ∈ m.tasks, y.parent ≠ some x.id := by
  rw [join, hw] at h
  dsimp only at h
  split at h
  next => simp at h
  next hn => exact ⟨(Option.some.inj h).symm, by simpa using hn⟩

theorem isBelow_orphan {x : Task} (hp : x.parent = none) (u : TaskId) (m : Machine) :
    m.isBelow u x = false := by
  unfold isBelow
  split
  · rfl
  next h => simp [hp] at h

/-- A task that joins does nothing else. -/
theorem joiner_deed {x : Task} (hr : Roster m.tasks m.fresh) (hd : Deed m v a) (hx : x ∈ m.tasks)
    (hw : x.wait = .joining) (hi : v.actor m = x.id) : v = .join x.id ∨ v = .cancel x.id := by
  have hnew : m.fresh ≠ x.id := Nat.ne_of_gt (hr.lt_fresh x hx)
  cases hd with
  | activate | setLoop | pass | ignore | deliver | call => exact absurd hi hnew
  | join hy => exact .inl (congrArg _ hi)
  | cancel hy => exact .inr (congrArg _ hi)
  | sendFailed _ hy hw' hv =>
    obtain rfl | rfl := hv <;>
    · obtain rfl := hr.eq_of_id hy hx hi
      simp [hw] at hw'
  | recvFailed _ hy hw' hv =>
    obtain rfl | rfl | rfl := hv <;>
    · obtain rfl := hr.eq_of_id hy hx hi
      simp [hw] at hw'
  | halt hy hj =>
    obtain rfl := hr.eq_of_id hy hx hi
    have hs := hr.suits _ hy
    simp [hw, hj, Wait.suits] at hs
  | start hy hw' | sent hy hw' | received hy hw' | closed hy hw' | closeFailed _ hy hw'
  | turn hy hw' | look hy hw' | evict hy hw' | relay _ hy hw' | notice hy hw' | unwatch hy hw' =>
    obtain rfl := hr.eq_of_id hy hx hi
    simp [hw] at hw'

/-- A task that waits for the link's end does nothing behind it. -/
theorem shutter_deed {x : Task} (hr : Roster m.tasks m.fresh) (hd : Deed m v a) (hx : x ∈ m.tasks)
    (hw : x.wait = .shutting) (hj : ∀ k, x.job ≠ .loop k) (hi : v.actor m = x.id) :
    ∀ y ∈ a.tasks, y.id ≠ x.id := by
  have hnew : m.fresh ≠ x.id := Nat.ne_of_gt (hr.lt_fresh x hx)
  cases hd with
  | activate | setLoop | pass | ignore | deliver | call => exact absurd hi hnew
  | cancel hy =>
    obtain rfl := hr.eq_of_id hy hx hi
    intro y hy
    have hn := (List.mem_filter.1 hy).2
    simp only [Bool.and_eq_true, decide_eq_true_eq] at hn
    exact hn.1
  | closed hy | closeFailed _ hy =>
    obtain rfl := hr.eq_of_id hy hx hi
    exact fun y hy => by simpa using (List.mem_filter.1 hy).2
  | sendFailed _ hy hw' hv =>
    obtain rfl | rfl := hv <;>
    · obtain rfl := hr.eq_of_id hy hx hi
      simp [hw] at hw'
  | recvFailed _ hy hw' hv =>
    obtain rfl | rfl | rfl := hv <;>
    · obtain rfl := hr.eq_of_id hy hx hi
      simp [hw] at hw'
  | halt hy hj' =>
    obtain rfl := hr.eq_of_id hy hx hi
    exact absurd hj' (hj _)
  | start hy hw' | sent hy hw' | received hy hw' | turn hy hw' | look hy hw' | evict hy hw'
  | join hy hw' | relay _ hy hw' | notice hy hw' | unwatch hy hw' =>
    obtain rfl := hr.eq_of_id hy hx hi
    simp [hw] at hw'

/-- A task that begins to close waits for the link's end, or is done. -/
theorem wait_beginClose {y : Task} (hy : y ∈ (m.beginClose t).tasks) (hi : y.id = t) :
    y.wait = .shutting := by
  unfold beginClose at hy
  split at hy
  next =>
    have hn := (List.mem_filter.1 hy).2
    simp [hi] at hn
  next =>
    obtain ⟨x, -, hxi, -, -, ⟨-, hw⟩ | ⟨hx, -⟩⟩ := mem_await _ hy
    · exact hw
    · exact absurd (hxi.symm.trans hi) hx

/-- A task that was there before is so with the same job and under the same parent. -/
theorem old_step {y : Task} (hr : Roster m.tasks m.fresh) (hs : m.step v = some a)
    (hy : y ∈ a.tasks) (hi : y.id < m.fresh) :
    ∃ x ∈ m.tasks, x.id = y.id ∧ x.job = y.job ∧ x.parent = y.parent ∧
      (y = x ∨ v.actor m = x.id) := by
  cases origin_step hr hs y hy with
  | kept hm => exact ⟨y, hm, rfl, rfl, rfl, .inl rfl⟩
  | own hm hu hi hj hp => exact ⟨_, hm, hi.symm, hj.symm, hp.symm, .inr hu.symm⟩
  | fresh hn => exact absurd hi (Nat.not_lt.2 hn)

/-- Only a task that starts gets tasks below it. -/
theorem kin_step {y : Task} (hr : Roster m.tasks m.fresh) (hs : m.step v = some a)
    (ht : t < m.fresh) (hn : ∀ x ∈ m.tasks, x.id = t → x.wait ≠ .starting) (hy : y ∈ a.tasks)
    (hp : y.parent = some t) :
    ∃ x ∈ m.tasks, x.id = y.id ∧ x.job = y.job ∧ x.parent = some t := by
  cases origin_step hr hs y hy with
  | kept hm => exact ⟨y, hm, rfl, rfl, hp⟩
  | own hm _ hi hj hq => exact ⟨_, hm, hi.symm, hj.symm, hq ▸ hp⟩
  | fresh _ hq =>
    obtain ⟨rfl, hw⟩ := hq t hp
    obtain hu | ⟨x, hx, hi⟩ := actor_known (deed_step v hs)
    · exact absurd hu (Nat.ne_of_lt ht)
    · exact absurd (hw x hx hi) (hn x hx hi)

/-- A task that has forked its loops, at the end `a` of a run with the moves `l` since. It waits for
them until it joins them, and from then on, if it waits at all, for the link's end. -/
structure Going (t : TaskId) (l : List (Machine × Move)) (a : Machine) : Prop where
  sound : Sound a
  orderly : ∀ p ∈ l, Orderly p.1
  past : ∀ p ∈ l, p.1.now ≤ a.now
  inactive : ∀ p ∈ l, p.1.session.state ≠ .active → a.session.state ≠ .active
  known : t < a.fresh
  task : ∀ x ∈ a.tasks, x.id = t → x.job = .runLoops ∧ x.parent = none
  waiting : joinsAt t l = [] → ∃ x ∈ a.tasks, x.id = t ∧ x.wait = .joining
  closing : joinsAt t l ≠ [] →
    (∀ x ∈ a.tasks, x.id = t → x.wait = .shutting) ∧ ∀ x ∈ a.tasks, x.parent ≠ some t
  once : (joinsAt t l).length ≤ 1

namespace Going

theorem not_starting (h : Going t l a) : ∀ x ∈ a.tasks, x.id = t → x.wait ≠ .starting := by
  intro x hx hi
  by_cases hj : joinsAt t l = []
  · obtain ⟨y, hy, hyi, hw⟩ := h.waiting hj
    rw [h.sound.roster.eq_of_id hx hy (hi.trans hyi.symm), hw]
    simp
  · rw [(h.closing hj).1 x hx hi]
    simp

/-- Joining, the task closes, and nothing is left below it. -/
theorem join (h : Going t l m) (hj : joinsAt t l = []) (hs : m.step (.join t) = some a) :
    a = m.beginClose t ∧ ∀ x ∈ m.tasks, x.parent ≠ some t := by
  obtain ⟨x, hx, rfl, hw⟩ := h.waiting hj
  obtain ⟨y, hy, hs⟩ := Option.bind_eq_some_iff.1 hs
  rw [task?_of_mem h.sound.roster hx] at hy
  obtain rfl := Option.some.inj hy
  exact eq_of_join hw hs

/-- It joins once. -/
theorem ne_join (h : Going t l m) (hj : joinsAt t l ≠ []) (hs : m.step v = some a) :
    v ≠ .join t := by
  rintro rfl
  obtain ⟨x, hf, hx⟩ := Option.bind_eq_some_iff.1 hs
  obtain ⟨hm, rfl⟩ := eq_of_task? hf
  unfold Machine.join at hx
  rw [(h.closing hj).1 x hm rfl] at hx
  simp at hx

/-- While a loop is there, nobody takes it away. -/
theorem not_below (h : Going t l m) (hs : m.step v = some a) (hc : v ≠ .cancel t) {x : Task}
    (hx : x ∈ m.tasks) (hp : x.parent = some t) : m.isBelow (v.actor m) x = false := by
  have hj : joinsAt t l = [] := by
    by_contra hj
    exact (h.closing hj).2 x hx hp
  have ht : t ≠ v.actor m := fun hu => by
    obtain ⟨z, hz, rfl, hw⟩ := h.waiting hj
    obtain rfl | rfl := joiner_deed h.sound.roster (deed_step v hs) hz hw hu.symm
    · exact (h.join hj hs).2 x hx hp
    · exact hc rfl
  have hb : (m.task? t).bind (·.parent) ≠ some (v.actor m) := fun hb => by
    obtain ⟨z, hf, hz⟩ := Option.bind_eq_some_iff.1 hb
    obtain ⟨hm, hi⟩ := eq_of_task? hf
    simp [(h.task z hm hi).2] at hz
  unfold isBelow
  rw [hp]
  simp [ht, hb]

theorem step (h : Going t l m) (hs : m.step v = some a) (hv : v ≠ .activate) (hc : v ≠ .cancel t) :
    Going t (l ++ [(m, v)]) a where
  sound := h.sound.step hs
  orderly p hp := by
    obtain hp | hp := List.mem_append.1 hp
    · exact h.orderly p hp
    · obtain rfl := List.mem_singleton.1 hp
      exact h.sound.orderly
  past p hp := by
    have hn := now_step h.sound.roster hs
    obtain hp | hp := List.mem_append.1 hp
    · exact Nat.le_trans (h.past p hp) hn
    · obtain rfl := List.mem_singleton.1 hp
      exact hn
  inactive p hp ho := by
    refine state_deed h.sound.roster (deed_step v hs) hv ?_
    obtain hp | hp := List.mem_append.1 hp
    · exact h.inactive p hp ho
    · obtain rfl := List.mem_singleton.1 hp
      exact ho
  known := Nat.lt_of_lt_of_le h.known (fresh_step h.sound.roster hs)
  task y hy hi := by
    obtain ⟨x, hx, hxi, hj, hp, -⟩ := old_step h.sound.roster hs hy (hi ▸ h.known)
    rw [← hj, ← hp]
    exact h.task x hx (hxi.trans hi)
  waiting hn := by
    rw [joinsAt_concat] at hn
    obtain ⟨hn, hj⟩ := List.append_eq_nil_iff.1 hn
    obtain ⟨x, hx, hi, hw⟩ := h.waiting hn
    refine ⟨x, kept_deed (deed_step v hs) hx (fun hu => ?_) ?_, hi, hw⟩
    · obtain rfl | rfl := joiner_deed h.sound.roster (deed_step v hs) hx hw hu.symm
      · simp [hi] at hj
      · exact hc (congrArg _ hi)
    · exact isBelow_orphan (h.task x hx hi).2 _ _
  closing hn := by
    have hk (hm : ∀ x ∈ m.tasks, x.parent ≠ some t) : ∀ y ∈ a.tasks, y.parent ≠ some t := by
      intro y hy hp
      obtain ⟨x, hx, -, -, hxp⟩ := kin_step h.sound.roster hs h.known h.not_starting hy hp
      exact hm x hx hxp
    by_cases hj : joinsAt t l = []
    · obtain rfl : v = .join t := by
        by_contra hv
        simp [joinsAt_concat, hj, hv] at hn
      obtain ⟨rfl, hm⟩ := h.join hj hs
      exact ⟨fun y hy hi => wait_beginClose hy hi, hk hm⟩
    · obtain ⟨hw, hm⟩ := h.closing hj
      refine ⟨fun y hy hi => ?_, hk hm⟩
      obtain ⟨x, hx, hxi, -, -, rfl | hu⟩ := old_step h.sound.roster hs hy (hi ▸ h.known)
      · exact hw y hx hi
      · rw [hi] at hxi
        have hg := shutter_deed h.sound.roster (deed_step v hs) hx (hw x hx hxi)
          (by simp [(h.task x hx hxi).1]) hu y hy
        exact absurd (hi.trans hxi.symm) hg
  once := by
    rw [joinsAt_concat]
    split
    next hv =>
      have hj : joinsAt t l = [] := by
        by_contra hj
        exact h.ne_join hj hs hv
      simp [hj]
    next => simpa using h.once

end Going

/-- A loop `c` that `t` has begun, at the end `a` of a run with the moves `l` since. It is there while
it is on. Off, it is there only until time passes, and begins nothing any more. -/
structure Looping (t c : TaskId) (k : Loop) (l : List (Machine × Move)) (a : Machine) : Prop where
  known : c < a.fresh
  task : ∀ x ∈ a.tasks, x.id = c → x.job = .loop k ∧ x.parent = some t
  gone : (∀ x ∈ a.tasks, x.id ≠ c) → ∃ b ∈ l.map (·.1) ++ [a], b.isOn k = false
  late : ∀ x ∈ a.tasks, x.id = c → ∀ p ∈ l, p.1.isOn k = false →
    p.1.now = a.now ∧ a.isOn k = false
  flagged : ∀ x ∈ a.tasks, x.id = c → a.session.loops.has k = false →
    ∃ p ∈ l, p.2.isFlag = true ∧ p.1.now = a.now
  quiet : ∀ p ∈ l, p.1.isOn k = false → begunBy c a.trace = begunBy c p.1.trace

namespace Looping

theorem not_isApart {p q : Machine × Move} (hp : p.2.isFlag = true)
    (hq : q.2.isFlag = true ∨ q.2.isAnswer = true) (hn : p.1.now = q.1.now) :
    isApart p q ≠ true := by
  obtain hq | hq := hq <;> simp [isApart, hp, hq, hn]

/-- No time passes, and no flag goes up again, before a loop that is off has gone. -/
theorem still (h : Looping t c k l m) (hg : Going t l m) {x : Task} (hx : x ∈ m.tasks)
    (hi : x.id = c) (hk : m.isOn k = false) (hs : m.step v = some a) (hv : v ≠ .activate)
    (hp : isPunctual (m, v) = true) (ha : ∀ p ∈ l, isApart p (m, v) = true) :
    a.now = m.now ∧ a.isOn k = false := by
  have hoff := (isOn_eq_false_iff hg.sound.orderly k).1 hk
  obtain ⟨d, rfl, rfl⟩ | ⟨j, on, rfl, rfl⟩ | rfl | hin := step_outside hs
  · have hd : d = 0 := by
      by_contra hd
      have hn : ∀ y ∈ m.tasks, m.prompt y = none := by simpa [isPunctual, hd] using hp
      refine absurd (hn x hx) (prompt_of_halt ?_)
      rw [halt_of_off (h.task x hx hi).1 hk, Option.isSome_some]
    subst hd
    exact ⟨rfl, hk⟩
  · refine ⟨rfl, ?_⟩
    obtain hoff | hoff := hoff
    · obtain ⟨p, hm, hf, hn⟩ := h.flagged x hx hi hoff
      exact absurd (ha p hm) (not_isApart hf (.inl rfl) hn)
    · exact (isOn_eq_false_iff (hg.sound.step hs).orderly k).2 (.inr hoff)
  · exact absurd rfl hv
  · have hf := frame_deed hg.sound.roster (deed_step v hs) hin
    refine ⟨hf.now, (isOn_eq_false_iff (hg.sound.step hs).orderly k).2 ?_⟩
    obtain hoff | hoff := hoff
    · exact .inl (hf.loops ▸ hoff)
    · exact .inr (state_deed hg.sound.roster (deed_step v hs) hv hoff)

theorem step (h : Looping t c k l m) (hg : Going t l m) (hs : m.step v = some a)
    (hv : v ≠ .activate) (hc : v ≠ .cancel t) (hp : isPunctual (m, v) = true)
    (ha : ∀ p ∈ l, isApart p (m, v) = true) : Looping t c k (l ++ [(m, v)]) a := by
  have hr := hg.sound.roster
  have old {y : Task} (hy : y ∈ a.tasks) (hi : y.id = c) :
      ∃ x ∈ m.tasks, x.id = c ∧ x.job = y.job ∧ x.parent = y.parent := by
    obtain ⟨x, hx, hxi, hj, hq, -⟩ := old_step hr hs hy (hi ▸ h.known)
    exact ⟨x, hx, hxi.trans hi, hj, hq⟩
  -- where it was off before, it is off at the last move
  have off {x : Task} (hx : x ∈ m.tasks) (hi : x.id = c) {p : Machine × Move}
      (hm : p ∈ l ++ [(m, v)]) (hk : p.1.isOn k = false) : p.1.now = m.now ∧ m.isOn k = false := by
    obtain hm | hm := List.mem_append.1 hm
    · exact h.late x hx hi p hm hk
    · obtain rfl := List.mem_singleton.1 hm
      exact ⟨rfl, hk⟩
  constructor
  case known => exact Nat.lt_of_lt_of_le h.known (fresh_step hr hs)
  case task =>
    intro y hy hi
    obtain ⟨x, hx, hxi, hj, hq⟩ := old hy hi
    rw [← hj, ← hq]
    exact h.task x hx hxi
  case late =>
    intro y hy hi p hm hk
    obtain ⟨x, hx, hxi, -, -⟩ := old hy hi
    obtain ⟨hn, hk⟩ := off hx hxi hm hk
    obtain ⟨hn', hk'⟩ := h.still hg hx hxi hk hs hv hp ha
    exact ⟨hn.trans hn'.symm, hk'⟩
  case gone =>
    intro hgone
    by_cases hx : ∃ x ∈ m.tasks, x.id = c
    · obtain ⟨x, hx, rfl⟩ := hx
      obtain ⟨hj, hq⟩ := h.task x hx rfl
      by_cases hu : v.actor m = x.id
      · obtain ⟨y, hy, hi⟩ | hk := loop_deed hr (hg.sound.step hs).orderly (deed_step v hs) hx hj hu
          (by simp [hq])
        · exact absurd hi (hgone y hy)
        · exact ⟨a, by simp, hk⟩
      · have hm := kept_deed (deed_step v hs) hx (Ne.symm hu) (hg.not_below hs hc hx hq)
        exact absurd rfl (hgone x hm)
    · obtain ⟨b, hb, hk⟩ := h.gone fun x hm hi => hx ⟨x, hm, hi⟩
      exact ⟨b, List.mem_append_left _ (by simpa using hb), hk⟩
  case flagged =>
    intro y hy hi hoff
    obtain ⟨x, hx, hxi, -, -⟩ := old hy hi
    by_cases hm : m.session.loops.has k = false
    · obtain ⟨p, hp', hf, hn⟩ := h.flagged x hx hxi hm
      have hk := (isOn_eq_false_iff hg.sound.orderly k).2 (.inl hm)
      exact ⟨p, List.mem_append_left _ hp', hf, hn.trans (h.still hg hx hxi hk hs hv hp ha).1.symm⟩
    · obtain ⟨d, -, rfl⟩ | ⟨j, on, rfl, rfl⟩ | rfl | hin := step_outside hs
      · exact absurd hoff hm
      · exact ⟨_, List.mem_append_right _ List.mem_cons_self, rfl, rfl⟩
      · exact absurd rfl hv
      · rw [(frame_deed hr (deed_step v hs) hin).loops] at hoff
        exact absurd hoff hm
  case quiet =>
    intro p hm hk
    have hstep : begunBy c a.trace = begunBy c m.trace := by
      by_cases hu : v.actor m = c
      · obtain hn | ⟨x, hx, hxi⟩ := actor_known (deed_step v hs)
        · exact absurd (hu.symm.trans hn) (Nat.ne_of_lt h.known)
        · rw [hu] at hxi
          obtain ⟨-, hk⟩ := off hx hxi hm hk
          obtain hoff | hoff := (isOn_eq_false_iff hg.sound.orderly k).1 hk
          · obtain ⟨q, hq, hf, hn⟩ := h.flagged x hx hxi hoff
            have hans : v.isAnswer = false := by
              by_contra hans
              exact not_isApart hf (.inr (by simpa using hans)) hn (ha q hq)
            rw [← hxi] at hu ⊢
            exact begunBy_loop hr (deed_step v hs) hx (h.task x hx hxi).1 hu hk hans
          · exact begunBy_of_opens (opens_step hr hs) (.inr hoff)
      · exact begunBy_of_opens (opens_step hr hs) (.inl hu)
    obtain hm | hm := List.mem_append.1 hm
    · exact hstep.trans (h.quiet p hm hk)
    · obtain rfl := List.mem_singleton.1 hm
      exact hstep

end Looping

end Switchboard.Session.Machine
