import Mathlib.Data.List.Nodup
import Switchboard.Proofs.Session.Deed

/-! The tasks of a session under their numbers. No two have one number, numbers not yet given out
belong to nobody, a task is younger than the one that began it, and each waits only in ways that suit
its job. -/
namespace Switchboard.Session

/-- Only watchers watch, only guards guard, and only who has forked joins. -/
def Wait.suits : Wait → Job → Prop
  | .watching, job => job = .watch ∨ job = .linger
  | .joining, job => job = .runLoops
  | .guarding .., job => ∃ loops limit, job = .guard loops limit
  | _, _ => True

structure Roster (tasks : List Task) (fresh : Nat) : Prop where
  nodup : (tasks.map (·.id)).Nodup
  lt_fresh : ∀ x ∈ tasks, x.id < fresh
  parent_lt : ∀ x ∈ tasks, ∀ p, x.parent = some p → p < x.id
  suits : ∀ x ∈ tasks, x.wait.suits x.job

namespace Roster
variable {l r : List Task} {n : Nat} {x y : Task}

theorem eq_of_id (h : Roster l n) (hx : x ∈ l) (hy : y ∈ l) (hi : x.id = y.id) : x = y :=
  List.inj_on_of_nodup_map h.nodup hx hy hi

theorem sublist (h : Roster l n) (hs : r.Sublist l) : Roster r n where
  nodup := h.nodup.sublist (hs.map _)
  lt_fresh x hx := h.lt_fresh x (hs.subset hx)
  parent_lt x hx := h.parent_lt x (hs.subset hx)
  suits x hx := h.suits x (hs.subset hx)

end Roster

namespace Machine
variable {m a : Machine} {t : TaskId} {job : Job}

theorem isRunning_iff : m.isRunning t = true ↔ ∃ x ∈ m.tasks, x.id = t := by
  simp [isRunning, task?]

theorem task?_of_mem {x : Task} (h : Roster m.tasks m.fresh) (hx : x ∈ m.tasks) :
    m.task? x.id = some x := by
  obtain ⟨y, hy⟩ := Option.isSome_iff_exists.1 (isRunning_iff.2 ⟨x, hx, rfl⟩)
  obtain ⟨hm, hi⟩ := eq_of_task? hy
  rw [hy, h.eq_of_id hm hx hi]

theorem isBelow_self {x : Task} (h : Roster m.tasks m.fresh) (hx : x ∈ m.tasks) :
    m.isBelow x.id x = false := by
  unfold isBelow
  split
  next => rfl
  next p hp =>
    have hlt := h.parent_lt x hx p hp
    have hn : (m.task? p).bind (·.parent) ≠ some x.id := by
      intro hb
      obtain ⟨y, hf, hyp⟩ := Option.bind_eq_some_iff.1 hb
      obtain ⟨hy, rfl⟩ := eq_of_task? hf
      exact absurd (h.parent_lt y hy _ hyp) (Nat.lt_asymm hlt)
    simp [Nat.ne_of_lt hlt, hn]

theorem mem_await {y : Task} (w : Wait) (h : y ∈ (m.await t w).tasks) :
    ∃ x ∈ m.tasks, y.id = x.id ∧ y.job = x.job ∧ y.parent = x.parent ∧
      (x.id = t ∧ y.wait = w ∨ x.id ≠ t ∧ y = x) := by
  obtain ⟨x, hx, rfl⟩ := List.mem_map.1 h
  split
  next ht => exact ⟨x, hx, rfl, rfl, rfl, .inl ⟨ht, rfl⟩⟩
  next ht => exact ⟨x, hx, rfl, rfl, rfl, .inr ⟨ht, rfl⟩⟩

theorem ids_await (t : TaskId) (w : Wait) (m : Machine) :
    (m.await t w).tasks.map (·.id) = m.tasks.map (·.id) := by
  rw [await, List.map_map]
  apply List.map_congr_left
  intro x _
  rw [Function.comp_apply]
  split <;> rfl

theorem roster_await (w : Wait) (h : Roster m.tasks m.fresh)
    (hw : ∀ x ∈ m.tasks, x.id = t → w.suits x.job) :
    Roster (m.await t w).tasks (m.await t w).fresh where
  nodup := by rw [ids_await]; exact h.nodup
  lt_fresh y hy := by
    obtain ⟨x, hx, hi, -⟩ := mem_await w hy
    rw [hi]
    exact Nat.lt_succ_of_lt (h.lt_fresh x hx)
  parent_lt y hy p hp := by
    obtain ⟨x, hx, hi, -, hxp, -⟩ := mem_await w hy
    rw [hi]
    exact h.parent_lt x hx p (hxp ▸ hp)
  suits y hy := by
    obtain ⟨x, hx, -, hj, -, ⟨ht, hyw⟩ | ⟨-, rfl⟩⟩ := mem_await w hy
    · rw [hyw, hj]
      exact hw x hx ht
    · exact h.suits y hx

theorem roster_add (job : Job) {p : Option TaskId} (h : Roster m.tasks m.fresh)
    (hp : ∀ q, p = some q → q < m.fresh) :
    Roster (m.add m.fresh job p).tasks (m.add m.fresh job p).fresh where
  nodup := by
    have hn : m.fresh ∉ m.tasks.map (·.id) := by
      intro hm
      obtain ⟨x, hx, hi⟩ := List.mem_map.1 hm
      exact absurd (h.lt_fresh x hx) (by simp [hi])
    simpa [add, List.nodup_append] using ⟨h.nodup, fun x hx hi => hn (hi ▸ List.mem_map_of_mem hx)⟩
  lt_fresh x hx := by
    obtain hx | hx := List.mem_append.1 hx
    · exact Nat.lt_succ_of_lt (h.lt_fresh x hx)
    · obtain rfl := List.mem_singleton.1 hx
      exact Nat.lt_succ_self _
  parent_lt x hx q hq := by
    obtain hx | hx := List.mem_append.1 hx
    · exact h.parent_lt x hx q hq
    · obtain rfl := List.mem_singleton.1 hx
      exact hp q hq
  suits x hx := by
    obtain hx | hx := List.mem_append.1 hx
    · exact h.suits x hx
    · obtain rfl := List.mem_singleton.1 hx
      exact trivial

theorem roster_addAll (ks : List Loop) (h : Roster m.tasks m.fresh) (ht : t < m.fresh) :
    Roster (ks.foldl (fun m k => m.add m.fresh (.loop k) (some t)) m).tasks
      (ks.foldl (fun m k => m.add m.fresh (.loop k) (some t)) m).fresh := by
  induction ks generalizing m with
  | nil => exact h
  | cons k ks ih =>
    refine ih (roster_add (.loop k) h ?_) (Nat.lt_succ_of_lt ht)
    rintro q ⟨⟩
    exact ht

theorem roster_leaves (hl : Leaves t job m a) (h : Roster m.tasks m.fresh)
    (hj : ∀ x ∈ m.tasks, x.id = t → x.job = job) : Roster a.tasks a.fresh := by
  cases hl with
  | send data _ => exact roster_await _ h fun _ _ _ => trivial
  | recv size _ => exact roster_await _ h fun _ _ _ => trivial
  | close _ => exact roster_await _ h fun _ _ _ => trivial
  | pause d _ => exact roster_await _ h fun _ _ _ => trivial
  | watch hw =>
    refine roster_await _ h fun x hx ht => ?_
    rw [hj x hx ht]
    exact hw
  | ends _ => exact h.sublist List.filter_sublist

theorem roster_begins (hb : Begins t job m a) (h : Roster m.tasks m.fresh) (ht : t < m.fresh)
    (hj : ∀ x ∈ m.tasks, x.id = t → x.job = job) : Roster a.tasks a.fresh := by
  cases hb with
  | leaves hl => exact roster_leaves hl h hj
  | fork hf =>
    exact roster_addAll _ (roster_await _ h fun x hx hi => (hj x hx hi).trans hf)
      (Nat.lt_succ_of_lt ht)
  | @guard loops limit hg =>
    refine roster_await (m := m.add m.fresh (if loops then .runLoops else .linger) (some t)) _
      (roster_add _ h ?_) fun x hx hi => ?_
    · rintro q ⟨⟩
      exact ht
    · obtain hx | hx := List.mem_append.1 hx
      · exact ⟨loops, limit, (hj x hx hi).trans hg⟩
      · obtain rfl := List.mem_singleton.1 hx
        exact absurd ht (by simp [← hi])

theorem roster_deed {v : Move} (h : Roster m.tasks m.fresh) (hd : Deed m v a) :
    Roster a.tasks a.fresh := by
  have hj {x : Task} (hx : x ∈ m.tasks) : ∀ y ∈ m.tasks, y.id = x.id → y.job = x.job :=
    fun y hy hi => congrArg _ (h.eq_of_id hy hx hi)
  cases hd with
  | activate | setLoop | ignore | deliver | pass => exact h
  | @call job a hb =>
    refine roster_begins hb (roster_add job h (by simp)) (Nat.lt_succ_self _) ?_
    intro x hx hi
    obtain hx | hx := List.mem_append.1 hx
    · exact absurd (h.lt_fresh x hx) (by simp [hi])
    · obtain rfl := List.mem_singleton.1 hx
      rfl
  | start hx _ hb => exact roster_begins hb h (h.lt_fresh _ hx) (hj hx)
  | sent hx _ hl => exact roster_leaves hl h (hj hx)
  | received hx _ _ hl => exact roster_leaves hl h (hj hx)
  | sendFailed | recvFailed | closed | closeFailed | halt | relay | unwatch | cancel =>
    exact h.sublist List.filter_sublist
  | turn hx _ _ hl => exact roster_leaves hl h (hj hx)
  | look hx _ hg => exact roster_await _ h fun y hy hi => ⟨_, _, (hj hx y hy hi).trans hg⟩
  | @evict x child d loops limit a hx _ _ hl =>
    exact roster_leaves hl (h.sublist List.filter_sublist)
      fun y hy => hj hx y (List.mem_filter.1 hy).1
  | join hx _ _ hl => exact roster_leaves hl h (hj hx)
  | notice hx _ _ hl => exact roster_leaves hl h (hj hx)

end Machine
end Switchboard.Session
