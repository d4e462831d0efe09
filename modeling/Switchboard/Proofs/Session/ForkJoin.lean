import Switchboard.Proofs.Session.Joining

/-! The fork and the join of the loops. A task begins every loop that is on, waits for all of them,
and then closes. The close comes at the first time when there is nothing to wait for. -/
namespace Switchboard.Session.Machine
variable {m a b : Machine} {t : TaskId} {k : Loop} {v : Move} {l : List (Machine × Move)}

def Spent (ks : List Loop) (d : Duration) (l : List Machine) (e : Duration) : Prop :=
  (∃ c ∈ l, c.session.state ≠ .active ∧ c.now ≤ e) ∨
    d ≤ e ∧ ∀ k ∈ ks, ∃ c ∈ l, c.session.loops.has k = false ∧ c.now ≤ e

variable {ks : List Loop} {d e : Duration} {r : List Machine}

theorem Spent.append (h : Spent ks d r e) (a : Machine) : Spent ks d (r ++ [a]) e := by
  obtain ⟨c, hc, hs⟩ | ⟨hd, hk⟩ := h
  · exact .inl ⟨c, List.mem_append_left _ hc, hs⟩
  · refine .inr ⟨hd, fun k hm => ?_⟩
    obtain ⟨c, hc, hs⟩ := hk k hm
    exact ⟨c, List.mem_append_left _ hc, hs⟩

/-- What comes later changes nothing about that. -/
theorem spent_append_iff (he : e < a.now) : Spent ks d (r ++ [a]) e ↔ Spent ks d r e := by
  have hl (p : Machine → Prop) (h : ∃ c ∈ r ++ [a], p c ∧ c.now ≤ e) : ∃ c ∈ r, p c ∧ c.now ≤ e := by
    obtain ⟨c, hc, hp, hn⟩ := h
    obtain hc | hc := List.mem_append.1 hc
    · exact ⟨c, hc, hp, hn⟩
    · obtain rfl := List.mem_singleton.1 hc
      exact absurd he (Nat.not_lt.2 hn)
  refine ⟨fun h => ?_, fun h => h.append a⟩
  obtain h | ⟨hd, hk⟩ := h
  · exact .inl (hl _ h)
  · exact .inr ⟨hd, fun k hm => hl _ (hk k hm)⟩

structure Forked (t : TaskId) (ks : List Loop) (b : Machine) (l : List (Machine × Move))
    (a : Machine) : Prop where
  going : Going t l a
  begun : b.now ≤ a.now
  loops : ∀ y ∈ b.tasks, y.parent = some t → ∀ k, y.job = .loop k → Looping t y.id k l a
  kin : ∀ x ∈ a.tasks, x.parent = some t →
    ∃ y ∈ b.tasks, y.parent = some t ∧ y.id = x.id ∧ y.job = x.job
  early : joinsAt t l = [] → ∀ e < a.now, ¬Spent ks b.now (l.map (·.1) ++ [a]) e
  settled : ∀ d ∈ joinsAt t l, Spent ks b.now (l.map (·.1) ++ [a]) d ∧
    ∀ e < d, ¬Spent ks b.now (l.map (·.1) ++ [a]) e

namespace Forked
variable (hks : (b.tasks.filter (·.parent = some t)).map (·.job) = ks.map .loop)
include hks

theorem loop_of_child {y : Task} (hy : y ∈ b.tasks) (hp : y.parent = some t) :
    ∃ k ∈ ks, y.job = .loop k := by
  have hm : y.job ∈ ks.map .loop := by
    rw [← hks]
    exact List.mem_map_of_mem (List.mem_filter.2 ⟨hy, by simpa using hp⟩)
  obtain ⟨k, hk, hj⟩ := List.mem_map.1 hm
  exact ⟨k, hk, hj.symm⟩

theorem child_of_loop (hk : k ∈ ks) : ∃ y ∈ b.tasks, y.parent = some t ∧ y.job = .loop k := by
  have hm : Job.loop k ∈ (b.tasks.filter (·.parent = some t)).map (·.job) := by
    rw [hks]
    exact List.mem_map_of_mem hk
  obtain ⟨y, hy, hj⟩ := List.mem_map.1 hm
  obtain ⟨hy, hp⟩ := List.mem_filter.1 hy
  exact ⟨y, hy, by simpa using hp, hj⟩

/-- Where there is nothing to wait for, every loop that is still there is off. -/
theorem off_of_spent (h : Forked t ks b l a) (hd : Spent ks b.now (l.map (·.1) ++ [a]) e)
    {x : Task} (hx : x ∈ a.tasks) (hp : x.parent = some t) :
    ∃ k, x.job = .loop k ∧ a.isOn k = false := by
  obtain ⟨y, hy, hyp, hi, hj⟩ := h.kin x hx hp
  obtain ⟨k, hk, hyk⟩ := loop_of_child hks hy hyp
  refine ⟨k, hj.symm.trans hyk, ?_⟩
  obtain ⟨c, hc, hs, -⟩ | ⟨-, hoff⟩ := hd
  · refine (isOn_eq_false_iff h.going.sound.orderly k).2 (.inr ?_)
    obtain hc | hc := List.mem_append.1 hc
    · obtain ⟨p, hp, rfl⟩ := List.mem_map.1 hc
      exact h.going.inactive p hp hs
    · obtain rfl := List.mem_singleton.1 hc
      exact hs
  · obtain ⟨c, hc, hs, -⟩ := hoff k hk
    have hcoff : c.isOn k = false := by rw [isOn, hs, Bool.false_and]
    obtain hc | hc := List.mem_append.1 hc
    · obtain ⟨p, hp, rfl⟩ := List.mem_map.1 hc
      exact ((h.loops y hy hyp k hyk).late x hx hi.symm p hp hcoff).2
    · obtain rfl := List.mem_singleton.1 hc
      exact hcoff

/-- There, somebody can go on at once. -/
theorem prompt_of_spent (h : Forked t ks b l a) (hj : joinsAt t l = [])
    (hd : Spent ks b.now (l.map (·.1) ++ [a]) e) : ∃ x ∈ a.tasks, a.prompt x ≠ none := by
  by_cases hx : ∃ x ∈ a.tasks, x.parent = some t
  · obtain ⟨x, hx, hp⟩ := hx
    obtain ⟨k, hk, hoff⟩ := off_of_spent hks h hd hx hp
    exact ⟨x, hx, prompt_of_halt (by rw [halt_of_off hk hoff, Option.isSome_some])⟩
  · obtain ⟨z, hz, rfl, hw⟩ := h.going.waiting hj
    refine ⟨z, hz, prompt_of_join ?_⟩
    rw [join_of_alone hw fun y hy hp => hx ⟨y, hy, hp⟩, Option.isSome_some]

/-- Where no loop is left, there is nothing to wait for. -/
theorem spent_of_alone (h : Forked t ks b l a) (hn : ∀ x ∈ a.tasks, x.parent ≠ some t) :
    Spent ks b.now (l.map (·.1) ++ [a]) a.now := by
  have hpast : ∀ c ∈ l.map (·.1) ++ [a], Orderly c ∧ c.now ≤ a.now := fun c hc => by
    obtain hc | hc := List.mem_append.1 hc
    · obtain ⟨p, hp, rfl⟩ := List.mem_map.1 hc
      exact ⟨h.going.orderly p hp, h.going.past p hp⟩
    · obtain rfl := List.mem_singleton.1 hc
      exact ⟨h.going.sound.orderly, Nat.le_refl _⟩
  by_cases ho : ∃ c ∈ l.map (·.1) ++ [a], c.session.state ≠ .active
  · obtain ⟨c, hc, ho⟩ := ho
    exact .inl ⟨c, hc, ho, (hpast c hc).2⟩
  · refine .inr ⟨h.begun, fun k hk => ?_⟩
    obtain ⟨y, hy, hp, hj⟩ := child_of_loop hks hk
    have hl := h.loops y hy hp k hj
    obtain ⟨c, hc, hoff⟩ := hl.gone fun x hx hi => hn x hx (hl.task x hx hi).2
    obtain hoff | hs := (isOn_eq_false_iff (hpast c hc).1 k).1 hoff
    · exact ⟨c, hc, hoff, (hpast c hc).2⟩
    · exact absurd ⟨c, hc, hs⟩ ho

theorem step (h : Forked t ks b l m) (hs : m.step v = some a) (hv : v ≠ .activate)
    (hc : v ≠ .cancel t) (hp : isPunctual (m, v) = true)
    (ha : ∀ p ∈ l, isApart p (m, v) = true) : Forked t ks b (l ++ [(m, v)]) a := by
  have hn := now_step h.going.sound.roster hs
  have hl : (l ++ [(m, v)]).map (·.1) ++ [a] = (l.map (·.1) ++ [m]) ++ [a] := by simp
  constructor
  case going => exact h.going.step hs hv hc
  case begun => exact Nat.le_trans h.begun hn
  case loops => exact fun y hy hq k hk => (h.loops y hy hq k hk).step h.going hs hv hc hp ha
  case kin =>
    intro x hx hq
    obtain ⟨z, hz, hi, hj, hzp⟩ :=
      kin_step h.going.sound.roster hs h.going.known h.going.not_starting hx hq
    rw [← hi, ← hj]
    exact h.kin z hz hzp
  case early =>
    intro hj e he
    rw [joinsAt_concat] at hj
    have hj := (List.append_eq_nil_iff.1 hj).1
    rw [hl, spent_append_iff he]
    by_cases hem : e < m.now
    · exact h.early hj e hem
    · -- time passes, so nobody is prompt
      intro hd
      obtain ⟨x, hx, hq⟩ := prompt_of_spent hks h hj hd
      obtain ⟨d, rfl, rfl⟩ | ⟨k, on, rfl, rfl⟩ | rfl | hin := step_outside hs
      · have hd : d ≠ 0 := by
          rintro rfl
          exact hem he
        have hall : ∀ y ∈ m.tasks, m.prompt y = none := by simpa [isPunctual, hd] using hp
        exact hq (hall x hx)
      · exact hem he
      · exact absurd rfl hv
      · rw [(frame_deed h.going.sound.roster (deed_step v hs) hin).now] at he
        exact hem he
  case settled =>
    intro d hd
    rw [joinsAt_concat] at hd
    rw [hl]
    have hlift (hd : d ≤ m.now) (h : Spent ks b.now (l.map (·.1) ++ [m]) d ∧
        ∀ e < d, ¬Spent ks b.now (l.map (·.1) ++ [m]) e) :
        Spent ks b.now ((l.map (·.1) ++ [m]) ++ [a]) d ∧
          ∀ e < d, ¬Spent ks b.now ((l.map (·.1) ++ [m]) ++ [a]) e := by
      refine ⟨h.1.append a, fun e he => ?_⟩
      rw [spent_append_iff (Nat.lt_of_lt_of_le he (Nat.le_trans hd hn))]
      exact h.2 e he
    obtain hd | hd := List.mem_append.1 hd
    · have hle : d ≤ m.now := by
        obtain ⟨p, hp, -, rfl⟩ := mem_joinsAt.1 hd
        exact h.going.past p hp
      exact hlift hle (h.settled d hd)
    · split at hd
      next hvj =>
        obtain rfl := List.mem_singleton.1 hd
        subst hvj
        have hj : joinsAt t l = [] := by
          by_contra hj
          exact h.going.ne_join hj hs rfl
        exact hlift (Nat.le_refl _)
          ⟨spent_of_alone hks h (h.going.join hj hs).2, h.early hj⟩
      next => simp at hd

end Forked

theorem tasks_addAll (ks : List Loop) (t : TaskId) (m : Machine) :
    ∃ new, (ks.foldl (fun m k => m.add m.fresh (.loop k) (some t)) m).tasks = m.tasks ++ new ∧
      new.map (·.job) = ks.map .loop ∧ ∀ x ∈ new, x.parent = some t := by
  induction ks generalizing m with
  | nil => exact ⟨[], by simp, rfl, by simp⟩
  | cons k ks ih =>
    obtain ⟨new, hn, hj, hp⟩ := ih (m.add m.fresh (.loop k) (some t))
    refine ⟨⟨m.fresh, .loop k, some t, .starting, m.fresh⟩ :: new, ?_, ?_, ?_⟩
    · rw [List.foldl_cons, hn, Machine.add, List.append_assoc, List.singleton_append]
    · rw [List.map_cons, hj, List.map_cons]
    · simpa using hp

end Switchboard.Session.Machine
