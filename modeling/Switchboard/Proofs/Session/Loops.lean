import Switchboard.Proofs.Session.Frame
import Switchboard.Proofs.Session.Lifecycle

/-! What a loop can do. Where its flag is down, or the session is not alive, it begins nothing of its
own, and it ends in no other case. -/
namespace Switchboard.Session

def begunBy (t : TaskId) (trace : List Mark) : Nat :=
  trace.countP fun k => k.task = some t && opens k.event

namespace Machine
variable {m a : Machine} {t u : TaskId} {k : Loop}

theorem begunBy_of_opens (h : Opens u m a) (hn : u ≠ t ∨ m.session.state ≠ .active) :
    begunBy t a.trace = begunBy t m.trace := by
  obtain ⟨new, ht, hk⟩ := h
  have h0 : new.countP (fun k => k.task = some t && opens k.event) = 0 := by
    rw [List.countP_eq_zero]
    intro k hm he
    simp only [Bool.and_eq_true, decide_eq_true_eq] at he
    obtain ⟨hu, hs, -⟩ := hk k hm he.2
    obtain hn | hn := hn
    · exact hn (Option.some.inj (hu.symm.trans he.1))
    · exact hn hs
  rw [begunBy, ht, List.countP_append, h0, Nat.zero_add, begunBy]

theorem isOn_eq_false_iff (hm : Orderly m) (k : Loop) :
    m.isOn k = false ↔ m.session.loops.has k = false ∨ m.session.state ≠ .active := by
  have ha : m.session.alive = false ↔ m.session.state ≠ .active := by
    rw [ne_eq, ← hm.alive_iff, Bool.not_eq_true]
  rw [isOn, Bool.and_eq_false_iff, ha]

theorem leaves_loop (hl : Leaves t (.loop k) m a) (ha : Orderly a)
    (hx : ∃ x ∈ m.tasks, x.id = t) : (∃ y ∈ a.tasks, y.id = t) ∨ a.isOn k = false := by
  have stays (w : Wait) : ∃ y ∈ (m.await t w).tasks, y.id = t := by
    obtain ⟨x, hx, hi⟩ := hx
    exact ⟨_, List.mem_map_of_mem hx, by split <;> exact hi⟩
  cases hl with
  | send | recv | close | pause | watch => exact .inl (stays _)
  | ends hr =>
    right
    cases hr with
    | inactive hs => exact (isOn_eq_false_iff ha k).2 (.inr hs)
    | told hn => exact absurd rfl (hn k)
    | released hr =>
      refine (isOn_eq_false_iff ha k).2 (.inr ?_)
      obtain hs | hs := ha.over_of_released hr <;> simp [hs]
    | halted hk => exact hk

/-- A loop that somebody waits for goes away only where it is not on. -/
theorem loop_deed {v : Move} {x : Task} (hr : Roster m.tasks m.fresh) (ha : Orderly a)
    (hd : Deed m v a) (hx : x ∈ m.tasks) (hj : x.job = .loop k) (hi : v.actor m = x.id)
    (hp : x.parent ≠ none) : (∃ y ∈ a.tasks, y.id = x.id) ∨ a.isOn k = false := by
  have hx' : ∃ y ∈ m.tasks, y.id = x.id := ⟨x, hx, rfl⟩
  have hnew : m.fresh ≠ x.id := Nat.ne_of_gt (hr.lt_fresh x hx)
  cases hd with
  | activate | setLoop | pass | ignore | deliver | call => exact absurd hi hnew
  | start hy _ hb =>
    obtain rfl := hr.eq_of_id hy hx hi
    cases hb with
    | leaves hl =>
      rw [hj] at hl
      exact leaves_loop hl ha hx'
    | fork hf => simp [hj] at hf
    | guard hg => simp [hj] at hg
  | sent hy _ hl =>
    obtain rfl := hr.eq_of_id hy hx hi
    rw [hj] at hl
    exact leaves_loop hl ha hx'
  | received hy _ _ hl =>
    obtain rfl := hr.eq_of_id hy hx hi
    rw [hj] at hl
    exact leaves_loop hl ha hx'
  | sendFailed | recvFailed => exact .inr (Bool.and_false _)
  | closed | closeFailed => exact .inr (Bool.and_false _)
  | turn hy _ _ hl =>
    obtain rfl := hr.eq_of_id hy hx hi
    rw [hj] at hl
    exact leaves_loop hl ha hx'
  | look hy _ hg =>
    obtain rfl := hr.eq_of_id hy hx hi
    simp [hj] at hg
  | evict hy _ hg =>
    obtain rfl := hr.eq_of_id hy hx hi
    simp [hj] at hg
  | halt hy hk hn =>
    obtain rfl := hr.eq_of_id hy hx hi
    obtain rfl := Job.loop.inj (hj.symm.trans hk)
    exact .inr hn
  | join hy _ _ hl =>
    obtain rfl := hr.eq_of_id hy hx hi
    rw [hj] at hl
    exact leaves_loop hl ha hx'
  | relay _ hy hw =>
    obtain rfl := hr.eq_of_id hy hx hi
    have hs := hr.suits _ hy
    simp [hw, hj, Wait.suits] at hs
  | notice hy _ hl =>
    obtain rfl := hr.eq_of_id hy hx hi
    simp [hj] at hl
  | unwatch hy hw =>
    obtain rfl := hr.eq_of_id hy hx hi
    have hs := hr.suits _ hy
    simp [hw, hj, Wait.suits] at hs
  | cancel hy hn =>
    obtain rfl := hr.eq_of_id hy hx hi
    exact absurd hn hp

/-- A loop that is not on begins nothing, unless the link answers it just then. -/
theorem begunBy_loop {v : Move} {x : Task} (hr : Roster m.tasks m.fresh) (hd : Deed m v a)
    (hx : x ∈ m.tasks) (hj : x.job = .loop k) (hi : v.actor m = x.id) (hk : m.isOn k = false)
    (hv : v.isAnswer = false) : begunBy x.id a.trace = begunBy x.id m.trace := by
  have hnew : m.fresh ≠ x.id := Nat.ne_of_gt (hr.lt_fresh x hx)
  cases hd with
  | activate | setLoop | pass | ignore | deliver | call => exact absurd hi hnew
  | sent | received | closed | closeFailed => simp [Move.isAnswer] at hv
  | start hy _ hb =>
    obtain rfl := hr.eq_of_id hy hx hi
    cases hb with
    | leaves _ hoff =>
      obtain rfl := hoff k hj hk
      rfl
    | fork hf => simp [hj] at hf
    | guard hg => simp [hj] at hg
  | sendFailed | recvFailed => exact List.countP_cons_of_neg (by simp [opens])
  | turn hy _ hl _ hoff =>
    obtain rfl := hr.eq_of_id hy hx hi
    obtain rfl := Job.loop.inj (hj.symm.trans hl)
    obtain rfl := hoff hk
    rfl
  | look hy _ hg =>
    obtain rfl := hr.eq_of_id hy hx hi
    simp [hj] at hg
  | evict hy _ hg =>
    obtain rfl := hr.eq_of_id hy hx hi
    simp [hj] at hg
  | join hy hw =>
    obtain rfl := hr.eq_of_id hy hx hi
    have hs := hr.suits _ hy
    simp [hw, hj, Wait.suits] at hs
  | notice hy _ hl =>
    obtain rfl := hr.eq_of_id hy hx hi
    simp [hj] at hl
  | halt | relay | unwatch | cancel => rfl

end Machine
end Switchboard.Session
