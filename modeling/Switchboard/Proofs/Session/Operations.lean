import Switchboard.Proofs.Session.Roster

/-! What one task tells of what it asks of the link. Each of its operations is begun by one event and
ended by one at most, of its own kind and about the same bytes or size, before the next begins. An
operation that stays open is one that the task still waits for, or one that was dropped. -/
namespace Switchboard.Session

def begins : Event → Bool
  | .sending _ | .receiving _ | .closing => true
  | _ => false

inductive Ends : Event → Event → Prop where
  | sent (data : Bytes) : Ends (.sending data) (.sendSuccess data)
  | sendFailed (data : Bytes) (error : Text) : Ends (.sending data) (.sendFailure data error)
  | received (size : Nat) (data : Bytes) : Ends (.receiving size) (.recvSuccess size data)
  | recvFailed (size : Nat) (error : Text) : Ends (.receiving size) (.recvFailure size error)
  | closed : Ends .closing .closeSuccess
  | closeFailed (error : Text) : Ends .closing (.closeFailure error)

/-- The events of one task, the latest first: one operation after the other. The second argument is
the beginning of the one that is still open. -/
inductive Operations : List Event → Option Event → Prop where
  | nil : Operations [] none
  | begun {l : List Event} {e : Event} : Operations l none → begins e = true →
      Operations (e :: l) (some e)
  | ended {l : List Event} {e f : Event} : Operations l (some e) → Ends e f →
      Operations (f :: l) none

/-- No event both begins an operation and ends one. -/
theorem begins_of_ends {e f : Event} (h : Ends e f) : begins e = true ∧ begins f = false := by
  cases h <;> exact ⟨rfl, rfl⟩

theorem Operations.mem {l : List Event} {e : Event} (h : Operations l (some e)) : e ∈ l := by
  cases h
  exact List.mem_cons_self

theorem Operations.begins_or_ends {l : List Event} {s : Option Event} {e : Event}
    (h : Operations l s) (he : e ∈ l) : begins e = true ∨ ∃ f, Ends f e := by
  induction h with
  | nil => simp at he
  | begun _ hb ih =>
    obtain rfl | he := List.mem_cons.1 he
    · exact .inl hb
    · exact ih he
  | ended _ hf ih =>
    obtain rfl | he := List.mem_cons.1 he
    · exact .inr ⟨_, hf⟩
    · exact ih he

theorem Operations.unique {l : List Event} {s r : Option Event} (h : Operations l s)
    (k : Operations l r) : s = r := by
  cases h with
  | nil =>
    cases k
    rfl
  | begun _ he =>
    cases k with
    | begun => rfl
    | ended _ hf => simp [(begins_of_ends hf).2] at he
  | ended _ hf =>
    cases k with
    | begun _ he => simp [(begins_of_ends hf).2] at he
    | ended => rfl

theorem asked_eq_some_begins {w : Wait} {e : Event} (h : w.asked = some e) : begins e = true := by
  cases w <;> simp [Wait.asked] at h <;> subst h <;> rfl

def eventsOf (t : TaskId) (trace : List Mark) : List Event :=
  (trace.filter (·.task = some t)).map (·.event)

theorem mem_eventsOf {t : TaskId} {e : Event} {trace : List Mark} :
    e ∈ eventsOf t trace ↔ ∃ k ∈ trace, k.task = some t ∧ k.event = e := by
  simp [eventsOf, and_assoc]

theorem eventsOf_cons_self (t : TaskId) (now : Duration) (e : Event) (l : List Mark) :
    eventsOf t (⟨now, some t, e⟩ :: l) = e :: eventsOf t l := by
  simp [eventsOf]

theorem eventsOf_cons_of_ne {t u : TaskId} (h : u ≠ t) (now : Duration) (e : Event)
    (l : List Mark) : eventsOf t (⟨now, some u, e⟩ :: l) = eventsOf t l := by
  simp [eventsOf, h]

/-- The events of every task are operations, and what is open is what the task waits for. Of tasks
that are not there, only those in `lost` have left something open. -/
structure Books (lost : TaskId → Prop) (trace : List Mark) (tasks : List Task) (fresh : Nat) :
    Prop where
  known : ∀ k ∈ trace, ∃ t, k.task = some t ∧ t < fresh
  account : ∀ t, ∃ s, Operations (eventsOf t trace) s ∧
    (∀ x ∈ tasks, x.id = t → s = x.wait.asked) ∧ ((∀ x ∈ tasks, x.id ≠ t) → s ≠ none → lost t)

namespace Books
variable {lost : TaskId → Prop} {trace : List Mark} {tasks l : List Task} {fresh n : Nat}
  {t : TaskId}

theorem eventsOf_fresh (h : Books lost trace tasks fresh) : eventsOf fresh trace = [] := by
  rw [eventsOf, List.map_eq_nil_iff, List.filter_eq_nil_iff]
  intro k hk
  obtain ⟨t, ht, hl⟩ := h.known k hk
  simp [ht, Nat.ne_of_lt hl]

/-- The books may be read with another list of tasks, if each has what is open for it. -/
theorem relist (h : Books lost trace tasks fresh) (hn : fresh ≤ n) {lost' : TaskId → Prop}
    (hl : ∀ t s, Operations (eventsOf t trace) s →
      (∀ x ∈ tasks, x.id = t → s = x.wait.asked) →
      ((∀ x ∈ tasks, x.id ≠ t) → s ≠ none → lost t) →
      (∀ x ∈ l, x.id = t → s = x.wait.asked) ∧ ((∀ x ∈ l, x.id ≠ t) → s ≠ none → lost' t)) :
    Books lost' trace l n where
  known k hk := by
    obtain ⟨t, ht, hf⟩ := h.known k hk
    exact ⟨t, ht, Nat.lt_of_lt_of_le hf hn⟩
  account t := by
    obtain ⟨s, ho, hs, hg⟩ := h.account t
    exact ⟨s, ho, hl t s ho hs hg⟩

theorem add (h : Books lost trace tasks fresh) (job : Job) (p : Option TaskId) (stamp : Nat) :
    Books lost trace (tasks ++ [⟨fresh, job, p, .starting, stamp⟩]) (fresh + 1) := by
  refine h.relist (Nat.le_succ _) fun t s ho hs hg => ⟨?_, ?_⟩
  · intro x hx hi
    obtain hx | hx := List.mem_append.1 hx
    · exact hs x hx hi
    · obtain rfl := List.mem_singleton.1 hx
      obtain rfl : fresh = t := hi
      rw [h.eventsOf_fresh] at ho
      exact ho.unique .nil
  · exact fun hx => hg fun x hm => hx x (List.mem_append_left _ hm)

/-- Tasks go away; those that waited for the link are lost. -/
theorem drop (h : Books lost trace tasks fresh) (p : Task → Bool) {lost' : TaskId → Prop}
    (hm : ∀ t, lost t → lost' t)
    (hp : ∀ x ∈ tasks, p x = false → x.wait.asked ≠ none → lost' x.id) :
    Books lost' trace (tasks.filter p) fresh := by
  refine h.relist (Nat.le_refl _) fun t s ho hs hg => ⟨?_, ?_⟩
  · exact fun x hx => hs x (List.mem_filter.1 hx).1
  · intro hx hn
    by_cases ht : ∃ x ∈ tasks, x.id = t
    · obtain ⟨x, hm, rfl⟩ := ht
      refine hp x hm ?_ (hs x hm rfl ▸ hn)
      by_contra hpx
      exact hx x (List.mem_filter.2 ⟨hm, by simpa using hpx⟩) rfl
    · exact hm t (hg (fun x hx hi => ht ⟨x, hx, hi⟩) hn)

end Books

namespace Machine
variable {lost lost' : TaskId → Prop} {m a : Machine} {t : TaskId} {job : Job}

/-- A task whose wait is over: the books are right without it, and it has nothing open. -/
structure Free (lost : TaskId → Prop) (t : TaskId) (m : Machine) : Prop where
  books : Books lost m.trace (m.tasks.filter (·.id ≠ t)) m.fresh
  closed : Operations (eventsOf t m.trace) none
  there : ∃ x ∈ m.tasks, x.id = t
  lt_fresh : t < m.fresh

abbrev Booked (lost : TaskId → Prop) (m : Machine) : Prop := Books lost m.trace m.tasks m.fresh

/-- A task that does not wait for the link is free. -/
theorem free_of_asked {x : Task} (hr : Roster m.tasks m.fresh) (h : Booked lost m)
    (hx : x ∈ m.tasks) (hw : x.wait.asked = none) : Free lost x.id m := by
  obtain ⟨s, ho, hs, -⟩ := h.account x.id
  rw [hs x hx rfl, hw] at ho
  refine ⟨h.drop _ (fun _ => id) fun y hy hi hn => ?_, ho, ⟨x, hx, rfl⟩, hr.lt_fresh x hx⟩
  obtain rfl := hr.eq_of_id hy hx (by simpa using hi)
  exact absurd hw hn

/-- A task is free when the operation it waits for ends. -/
theorem free_of_ends {x : Task} (hr : Roster m.tasks m.fresh) (h : Booked lost m)
    (hx : x ∈ m.tasks) {e f : Event} (hw : x.wait.asked = some e) (he : Ends e f) :
    Free lost x.id (m.emit x.id f) where
  books := by
    refine ⟨?_, fun t => ?_⟩
    · intro k hk
      obtain rfl | hk := List.mem_cons.1 hk
      · exact ⟨x.id, rfl, hr.lt_fresh x hx⟩
      · exact h.known k hk
    · obtain ⟨s, ho, hs, hg⟩ := h.account t
      by_cases ht : x.id = t
      · subst ht
        rw [hs x hx rfl, hw] at ho
        refine ⟨none, (eventsOf_cons_self _ _ _ _).symm ▸ .ended ho he, ?_, fun _ hn => absurd rfl hn⟩
        intro y hy hi
        exact absurd hi (by simpa using (List.mem_filter.1 hy).2)
      · refine ⟨s, (eventsOf_cons_of_ne ht _ _ _).symm ▸ ho, ?_, ?_⟩
        · exact fun y hy => hs y (List.mem_filter.1 hy).1
        · refine fun hy => hg fun y hm hi => hy y (List.mem_filter.2 ⟨hm, ?_⟩) hi
          simpa [hi] using fun hxt => ht hxt.symm
  closed := by
    obtain ⟨s, ho, hs, -⟩ := h.account x.id
    rw [hs x hx rfl, hw] at ho
    exact (eventsOf_cons_self _ _ _ _).symm ▸ .ended ho he
  there := ⟨x, hx, rfl⟩
  lt_fresh := hr.lt_fresh x hx

/-- A free task waits again, and has then open what it waits for. -/
theorem Free.await (h : Free lost t m) {trace : List Mark} (w : Wait)
    (hk : ∀ k ∈ trace, k ∈ m.trace ∨ k.task = some t)
    (ht : Operations (eventsOf t trace) w.asked)
    (hu : ∀ u, u ≠ t → eventsOf u trace = eventsOf u m.trace) :
    Books lost trace (m.await t w).tasks (m.fresh + 1) where
  known k hm := by
    obtain hm | hm := hk k hm
    · obtain ⟨u, hu, hl⟩ := h.books.known k hm
      exact ⟨u, hu, Nat.lt_succ_of_lt hl⟩
    · exact ⟨t, hm, Nat.lt_succ_of_lt h.lt_fresh⟩
  account u := by
    by_cases hut : u = t
    · subst hut
      refine ⟨w.asked, ht, ?_, fun hn => ?_⟩
      · intro y hy hi
        obtain ⟨x, -, hxi, -, -, ⟨-, hyw⟩ | ⟨hx, -⟩⟩ := mem_await w hy
        · rw [hyw]
        · exact absurd (hxi ▸ hi) hx
      · obtain ⟨x, hx, rfl⟩ := h.there
        have := hn _ (List.mem_map_of_mem hx)
        simp at this
    · obtain ⟨s, ho, hs, hg⟩ := h.books.account u
      refine ⟨s, (hu u hut).symm ▸ ho, ?_, fun hn => hg fun x hx hi => ?_⟩
      · intro y hy hi
        obtain ⟨x, hx, hxi, -, -, ⟨hxt, -⟩ | ⟨hxt, rfl⟩⟩ := mem_await w hy
        · exact absurd (hi.symm.trans (hxi.trans hxt)) hut
        · exact hs y (List.mem_filter.2 ⟨hx, by simpa using hxt⟩) hi
      · have := hn _ (List.mem_map_of_mem (List.mem_filter.1 hx).1)
        split at this <;> exact this hi

theorem Free.rest (h : Free lost t m) (w : Wait) (hw : w.asked = none) :
    Booked lost (m.await t w) :=
  h.await w (fun _ hk => .inl hk) (hw ▸ h.closed) fun _ _ => rfl

theorem Free.begin (h : Free lost t m) (w : Wait) {e : Event} (hw : w.asked = some e) :
    Booked lost ((m.emit t e).await t w) := by
  refine h.await w (fun k hk => ?_) ?_ fun u hu => eventsOf_cons_of_ne hu.symm _ _ _
  · obtain rfl | hk := List.mem_cons.1 hk
    · exact .inr rfl
    · exact .inl hk
  · show Operations (eventsOf t (⟨m.now, some t, e⟩ :: m.trace)) w.asked
    rw [eventsOf_cons_self, hw]
    exact .begun h.closed (asked_eq_some_begins hw)

theorem Free.leaves (h : Free lost t m) (hl : Leaves t job m a) : Booked lost a := by
  cases hl with
  | send data _ => exact h.begin (.sending data m.deadline) rfl
  | recv size _ => exact h.begin (.receiving size m.deadline) rfl
  | close _ => exact h.begin .shutting rfl
  | pause d _ => exact h.rest _ rfl
  | watch _ => exact h.rest _ rfl
  | ends _ => exact h.books

theorem booked_addAll (ks : List Loop) (h : Booked lost m) :
    Booked lost (ks.foldl (fun m k => m.add m.fresh (.loop k) (some t)) m) := by
  induction ks generalizing m with
  | nil => exact h
  | cons k ks ih => exact ih (h.add (.loop k) (some t) m.fresh)

theorem Free.add (h : Free lost t m) (job : Job) (p : Option TaskId) :
    Free lost t (m.add m.fresh job p) where
  books := by
    have hn : m.fresh ≠ t := Nat.ne_of_gt h.lt_fresh
    simpa [Machine.add, List.filter_append, hn] using h.books.add job p m.fresh
  closed := h.closed
  there := by
    obtain ⟨x, hx, hi⟩ := h.there
    exact ⟨x, List.mem_append_left _ hx, hi⟩
  lt_fresh := Nat.lt_succ_of_lt h.lt_fresh

theorem Free.begins (h : Free lost t m) (hb : Begins t job m a) : Booked lost a := by
  cases hb with
  | leaves hl => exact h.leaves hl
  | fork _ => exact booked_addAll _ (h.rest .joining rfl)
  | guard _ => exact (h.add _ _).rest _ rfl

theorem Free.modify (h : Free lost t m) (f : Session → Session) : Free lost t (m.modify f) :=
  ⟨h.books, h.closed, h.there, h.lt_fresh⟩

theorem Booked.mono (h : Booked lost m) (hm : ∀ u, lost u → lost' u) : Booked lost' m :=
  h.relist (Nat.le_refl _) fun u _ _ hs hg => ⟨hs, fun hn hs => hm u (hg hn hs)⟩

/-- Moves that take a task away wherever it waits: its caller does not wait any longer, its flag is
down, or its guard gives up. -/
def isDrop : Move → Bool
  | .cancel _ | .halt _ | .wake _ => true
  | _ => false

def drops (v : Move) (m a : Machine) : List TaskId :=
  if isDrop v then
    (m.tasks.filter fun x => x.wait.asked.isSome && !a.isRunning x.id).map (·.id)
  else []

def dropped : List Move → Machine → List TaskId
  | [], _ => []
  | v :: vs, m => match m.step v with
    | some a => drops v m a ++ dropped vs a
    | none => []

theorem mem_drops {v : Move} {x : Task} (hv : isDrop v = true) (hx : x ∈ m.tasks)
    (hw : x.wait.asked ≠ none) (ha : ∀ y ∈ a.tasks, y.id ≠ x.id) : x.id ∈ drops v m a := by
  rw [drops, if_pos hv]
  refine List.mem_map_of_mem (List.mem_filter.2 ⟨hx, ?_⟩)
  have hr : ¬a.isRunning x.id = true := fun hr => by
    obtain ⟨y, hy, hi⟩ := isRunning_iff.1 hr
    exact ha y hy hi
  simpa [Option.isSome_iff_ne_none, hr] using hw

theorem task_of_leaves (hl : Leaves t job m a) {y : Task} (hy : y ∈ a.tasks) :
    ∃ x ∈ m.tasks, x.id = y.id ∧ x.job = y.job ∧ x.parent = y.parent := by
  cases hl with
  | send | recv | close | pause | watch =>
    obtain ⟨x, hx, hi, hj, hp, -⟩ := mem_await _ hy
    exact ⟨x, hx, hi.symm, hj.symm, hp.symm⟩
  | ends => exact ⟨y, (List.mem_filter.1 hy).1, rfl, rfl, rfl⟩

theorem booked_deed {v : Move} (hr : Roster m.tasks m.fresh) (h : Booked lost m)
    (hd : Deed m v a) (hv : ∀ size data, v ≠ .deliver size data) :
    Booked (fun t => lost t ∨ t ∈ drops v m a) a := by
  have keep {b : Machine} (h : Booked lost b) : Booked (fun t => lost t ∨ t ∈ drops v m a) b :=
    h.mono fun _ => .inl
  cases hd with
  | activate | setLoop | ignore | pass => exact keep h
  | @call job a hb =>
    have hn := roster_add job (p := none) hr (by simp)
    have hm : ⟨m.fresh, job, none, .starting, m.fresh⟩ ∈ (m.add m.fresh job none).tasks := by
      simp [Machine.add]
    exact keep ((free_of_asked hn (h.add job none m.fresh) hm rfl).begins hb)
  | start hx hw hb => exact keep ((free_of_asked hr h hx (by rw [hw]; rfl)).begins hb)
  | @sent x data d n a hx hw hl =>
    have hf := free_of_ends (m := m.modify (·.sent m.now n)) hr h hx (by rw [hw]; rfl) (.sent data)
    exact keep (hf.leaves hl)
  | @received x size d data a hx hw _ hl =>
    have hf := free_of_ends (m := m.modify (·.received m.now data)) hr h hx (by rw [hw]; rfl)
      (.received size data)
    exact keep ((hf.modify _).leaves hl)
  | @sendFailed x data d v e hx hw _ =>
    exact keep (free_of_ends hr h hx (by rw [hw]; rfl) (.sendFailed data e.message)).books
  | @recvFailed x size d v e hx hw _ =>
    exact keep (free_of_ends hr h hx (by rw [hw]; rfl) (.recvFailed size e.message)).books
  | closed hx hw => exact keep (free_of_ends hr h hx (by rw [hw]; rfl) .closed).books
  | closeFailed e hx hw =>
    exact keep (free_of_ends hr h hx (by rw [hw]; rfl) (.closeFailed e.message)).books
  | turn hx hw _ hl => exact keep ((free_of_asked hr h hx (by rw [hw]; rfl)).leaves hl)
  | look hx hw _ => exact keep ((free_of_asked hr h hx (by rw [hw]; rfl)).rest _ rfl)
  | @evict x child d loops limit a hx hw hj hl =>
    have hb : Booked (fun t => lost t ∨ t ∈ drops (.wake x.id) m a) (m.clear x.id) := by
      refine h.drop _ (fun _ => .inl) fun y hy hp hn => .inr (mem_drops rfl hy hn ?_)
      intro z hz hi
      obtain ⟨w, hw, hwi, -⟩ := task_of_leaves hl hz
      obtain ⟨hw, hb⟩ := List.mem_filter.1 hw
      obtain rfl := hr.eq_of_id hw hy (hwi.trans hi)
      simp [hb] at hp
    have hx' : x ∈ (m.clear x.id).tasks :=
      List.mem_filter.2 ⟨hx, by simp [isBelow_self hr hx]⟩
    have hr' := hr.sublist (r := (m.clear x.id).tasks) List.filter_sublist
    exact (free_of_asked hr' hb hx' (by rw [hw]; rfl)).leaves hl
  | halt hx _ _ =>
    refine h.drop _ (fun _ => .inl) fun y hy hp hn => .inr (mem_drops rfl hy hn ?_)
    intro z hz hi
    simp [settle, hi] at hz hp
    exact hz.2 hp
  | join hx hw _ hl => exact keep ((free_of_asked hr h hx (by rw [hw]; rfl)).leaves hl)
  | relay _ hx hw => exact keep (free_of_asked hr h hx (by rw [hw]; rfl)).books
  | notice hx hw _ hl => exact keep ((free_of_asked hr h hx (by rw [hw]; rfl)).leaves hl)
  | unwatch hx hw _ => exact keep (free_of_asked hr h hx (by rw [hw]; rfl)).books
  | cancel hx _ =>
    refine h.drop _ (fun _ => .inl) fun y hy hp hn => .inr (mem_drops rfl hy hn ?_)
    intro z hz hi
    obtain ⟨hz, hb⟩ := List.mem_filter.1 hz
    obtain rfl := hr.eq_of_id hz hy hi
    exact absurd (hb.symm.trans hp) (by simp)
  | deliver size data => exact absurd rfl (hv size data)

theorem booked_steps (vs : List Move) (hr : Roster m.tasks m.fresh) (h : Booked lost m)
    (hv : ∀ size data, .deliver size data ∉ vs) (hs : m.steps vs = some a) :
    Booked (fun t => lost t ∨ t ∈ dropped vs m) a := by
  induction vs generalizing m lost with
  | nil =>
    obtain rfl := Option.some.inj hs
    exact h.mono fun _ => .inl
  | cons v vs ih =>
    obtain ⟨b, hb, hs⟩ := Option.bind_eq_some_iff.1 hs
    have hd := deed_step v hb
    have hn := booked_deed hr h hd fun size data hvd => hv size data (by simp [hvd])
    refine (ih (roster_deed hr hd) hn (fun size data hm => hv size data (by simp [hm])) hs).mono ?_
    intro t ht
    simpa [dropped, hb, or_assoc] using ht

end Machine
end Switchboard.Session
