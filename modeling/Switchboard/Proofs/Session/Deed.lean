import Switchboard.Proofs.Session.Phase

/-! What a move does, said once for all that is proved about runs. A task waits for the link, for
the clock, for other tasks or for the end of the session; when that wait is over it is free, and it
then asks the link, rests, or ends. `Deed` lists the ways in which a move can free a task, and
`Leaves` where a free task goes. -/
namespace Switchboard.Session

def Wait.asked : Wait → Option Event
  | .sending data _ => some (.sending data)
  | .receiving size _ => some (.receiving size)
  | .shutting => some .closing
  | _ => none

namespace Machine
variable {m a : Machine} {t : TaskId} {job : Job}

inductive Reason (m : Machine) : Job → Outcome → Prop where
  | inactive {job : Job} : m.session.state ≠ .active →
      Reason m job (.failed (.sessionInactive m.session.state))
  | told {job : Job} {o : Outcome} : (∀ k, job ≠ .loop k) → o ≠ .done → Reason m job o
  | released {job : Job} : m.session.released = true → Reason m job .done
  | halted {k : Loop} : m.isOn k = false → Reason m (.loop k) .done
  | unwatched : Reason m .watch .done

inductive Leaves (t : TaskId) (job : Job) (m : Machine) : Machine → Prop where
  | send (data : Bytes) : m.session.state = .active →
      Leaves t job m
        (((m.emit t (.sending data)).ask t (.send data)).await t (.sending data m.deadline))
  | recv (size : Nat) : m.session.state = .active →
      Leaves t job m
        (((m.emit t (.receiving size)).ask t (.recv size)).await t (.receiving size m.deadline))
  | close : m.session.released = false →
      Leaves t job m ((((m.modify release).emit t .closing).ask t .close).await t .shutting)
  | pause {k : Loop} (d : Duration) : job = .loop k → Leaves t job m (m.await t (.pausing d))
  | watch : job = .watch ∨ job = .linger → Leaves t job m (m.await t .watching)
  | ends {o : Outcome} : Reason m job o → Leaves t job m (m.settle t o)

inductive Begins (t : TaskId) (job : Job) (m : Machine) : Machine → Prop where
  /-- A loop that is not on ends at once. -/
  | leaves {a : Machine} : Leaves t job m a →
      (∀ k, job = .loop k → m.isOn k = false → a = m.settle t .done) → Begins t job m a
  | fork : job = .runLoops → Begins t job m (m.addLoops t)
  | guard {loops : Bool} {limit : Duration} : job = .guard loops limit →
      Begins t job m (m.addGuarded t loops limit)

inductive Deed (m : Machine) : Move → Machine → Prop where
  | activate {s : Session} : m.session.activate = .ok s → Deed m .activate { m with session := s }
  | setLoop (k : Loop) (on : Bool) : Deed m (.setLoop k on) (m.modify (·.setLoop k on))
  | call {job : Job} {a : Machine} : Begins m.fresh job (m.add m.fresh job none) a →
      Deed m (.call job) a
  | ignore (k : Loop) : Deed m (.call (.loop k)) m
  | start {x : Task} {a : Machine} : x ∈ m.tasks → x.wait = .starting → Begins x.id x.job m a →
      Deed m (.start x.id) a
  | sent {x : Task} {data : Bytes} {d : Option Duration} {n : Nat} {a : Machine} : x ∈ m.tasks →
      x.wait = .sending data d →
      Leaves x.id x.job ((m.modify (·.sent m.now n)).emit x.id (.sendSuccess data)) a →
      Deed m (.reply x.id (.sent n)) a
  | received {x : Task} {size : Nat} {d : Option Duration} {data : Bytes} {a : Machine} :
      x ∈ m.tasks → x.wait = .receiving size d → data ≠ [] →
      Leaves x.id x.job (((m.modify (·.received m.now data)).emit x.id
        (.recvSuccess size data)).modify (·.obeyExit data)) a →
      Deed m (.reply x.id (.received data)) a
  | sendFailed {x : Task} {data : Bytes} {d : Option Duration} {v : Move} (e : Error) :
      x ∈ m.tasks → x.wait = .sending data d → v = .expire x.id ∨ v = .reply x.id (.failed e) →
      Deed m v (m.sendFailed x.id data e)
  | recvFailed {x : Task} {size : Nat} {d : Option Duration} {v : Move} (e : Error) :
      x ∈ m.tasks → x.wait = .receiving size d →
      v = .expire x.id ∨ v = .reply x.id (.failed e) ∨ v = .reply x.id (.received []) →
      Deed m v (m.recvFailed x.id size e)
  | closed {x : Task} : x ∈ m.tasks → x.wait = .shutting →
      Deed m (.reply x.id .closed) (m.closeDone x)
  | closeFailed {x : Task} (e : Error) : x ∈ m.tasks → x.wait = .shutting →
      Deed m (.reply x.id (.failed e)) (m.closeFailed x e)
  | turn {x : Task} {k : Loop} {d : Duration} {a : Machine} : x ∈ m.tasks → x.wait = .pausing d →
      x.job = .loop k → Leaves x.id x.job m a → (m.isOn k = false → a = m.settle x.id .done) →
      Deed m (.wake x.id) a
  | look {x : Task} {child : TaskId} {d : Duration} {loops : Bool} {limit : Duration} :
      x ∈ m.tasks → x.wait = .guarding child d → x.job = .guard loops limit →
      Deed m (.wake x.id)
        (m.await x.id (.guarding child (m.rings (m.session.lastActivity + limit))))
  | evict {x : Task} {child : TaskId} {d : Duration} {loops : Bool} {limit : Duration}
      {a : Machine} : x ∈ m.tasks → x.wait = .guarding child d → x.job = .guard loops limit →
      Leaves x.id x.job (m.clear x.id) a → Deed m (.wake x.id) a
  | halt {x : Task} {k : Loop} : x ∈ m.tasks → x.job = .loop k → m.isOn k = false →
      Deed m (.halt x.id) (m.settle x.id .done)
  | join {x : Task} {a : Machine} : x ∈ m.tasks → x.wait = .joining →
      (∀ y ∈ m.tasks, y.parent ≠ some x.id) → Leaves x.id x.job m a → Deed m (.join x.id) a
  | relay {x : Task} {child : TaskId} {d : Duration} (o : Outcome) : x ∈ m.tasks →
      x.wait = .guarding child d → Deed m (.join x.id) (m.settle x.id o)
  | notice {x : Task} {a : Machine} : x ∈ m.tasks → x.wait = .watching → x.job = .linger →
      Leaves x.id x.job m a → Deed m (.notice x.id) a
  | unwatch {x : Task} : x ∈ m.tasks → x.wait = .watching → x.job ≠ .linger →
      Deed m (.notice x.id) (m.settle x.id .done)
  | cancel {x : Task} : x ∈ m.tasks → x.parent = none → Deed m (.cancel x.id) (m.abandon x.id)
  | deliver (size : Nat) (data : Bytes) : Deed m (.deliver size data) (m.deliver size data)
  | pass (d : Duration) : Deed m (.pass d) { m with now := m.now + d }

theorem ensureActive_eq_ok_iff (s : Session) : s.ensureActive = .ok () ↔ s.state = .active := by
  unfold ensureActive
  split <;> simp_all

theorem eq_inactive_of_ensureActive {s : Session} {e : Error} (h : s.ensureActive = .error e) :
    s.state ≠ .active ∧ e = .sessionInactive s.state := by
  unfold ensureActive at h
  split at h
  next => simp at h
  next hs => exact ⟨hs, (Except.error.inj h).symm⟩

theorem leaves_beginSend (data : Bytes) : Leaves t job m (m.beginSend t data) := by
  unfold beginSend
  split
  next e h =>
    obtain ⟨hs, rfl⟩ := eq_inactive_of_ensureActive h
    exact .ends (.inactive hs)
  next h => exact .send data ((ensureActive_eq_ok_iff _).1 h)

theorem leaves_beginRecv (size : Nat) : Leaves t job m (m.beginRecv t size) := by
  unfold beginRecv
  split
  next e h =>
    obtain ⟨hs, rfl⟩ := eq_inactive_of_ensureActive h
    exact .ends (.inactive hs)
  next h => exact .recv size ((ensureActive_eq_ok_iff _).1 h)

theorem leaves_beginClose : Leaves t job m (m.beginClose t) := by
  unfold beginClose
  split
  next h => exact .ends (.released h)
  next h => exact .close (by simpa using h)

theorem leaves_turn (k : Loop) : Leaves t (.loop k) m (m.turn t k) := by
  unfold turn
  split
  next =>
    cases k with
    | send | sendrecv => exact leaves_beginSend _
    | recv => exact leaves_beginRecv _
  next h => exact .ends (.halted (by simpa using h))

theorem turn_of_off {k : Loop} (h : m.isOn k = false) : m.turn t k = m.settle t .done := by
  unfold turn
  rw [if_neg (by simp [h])]

theorem leaves_lingerOn : Leaves t .linger m (m.lingerOn t) := by
  unfold lingerOn
  split
  · exact .watch (.inr rfl)
  · exact leaves_beginClose

theorem leaves_afterSend (n : Nat) : Leaves t job m (m.afterSend t n job) := by
  unfold afterSend
  split
  next => exact leaves_beginRecv _
  next => exact leaves_beginRecv _
  next k _ => exact .pause _ rfl
  next hl => exact .ends (.told hl (by simp))

theorem leaves_afterRecv (data : Bytes) : Leaves t job m (m.afterRecv t data job) := by
  unfold afterRecv
  split
  next k => exact .pause _ rfl
  next hl => exact .ends (.told hl (by simp))

theorem begins_start : Begins t job m (m.start t job) := by
  cases job with
  | send data => exact .leaves (leaves_beginSend _) (by simp)
  | recv size => exact .leaves (leaves_beginRecv _) (by simp)
  | exchange => exact .leaves (leaves_beginSend _) (by simp)
  | close => exact .leaves leaves_beginClose (by simp)
  | watch =>
    rw [start]
    split
    · exact .leaves (.watch (.inl rfl)) (by simp)
    · exact .leaves (.ends .unwatched) (by simp)
  | linger => exact .leaves leaves_lingerOn (by simp)
  | runLoops => exact .fork rfl
  | loop k =>
    refine .leaves (leaves_turn k) fun j hj hk => ?_
    obtain rfl := Job.loop.inj hj
    exact turn_of_off hk
  | guard loops limit => exact .guard rfl

/-- Beginning the loops touches nothing but the tasks. -/
theorem addAll_same (ks : List Loop) (t : TaskId) (m : Machine) :
    (ks.foldl (fun m k => m.add m.fresh (.loop k) (some t)) m).session = m.session ∧
    (ks.foldl (fun m k => m.add m.fresh (.loop k) (some t)) m).trace = m.trace ∧
    (ks.foldl (fun m k => m.add m.fresh (.loop k) (some t)) m).calls = m.calls ∧
    (ks.foldl (fun m k => m.add m.fresh (.loop k) (some t)) m).now = m.now := by
  induction ks generalizing m with
  | nil => exact ⟨rfl, rfl, rfl, rfl⟩
  | cons k ks ih => exact ih _

theorem deed_call (job : Job) : Deed m (.call job) (m.call job) := by
  unfold call
  split
  next k => exact .ignore k
  next => exact .call begins_start

theorem deed_reply {x : Task} (hx : x ∈ m.tasks) (r : Reply) (h : m.reply x r = some a) :
    Deed m (.reply x.id r) a := by
  unfold reply at h
  split at h
  next hw =>
    obtain rfl := Option.some.inj h
    exact .sent hx hw (leaves_afterSend _)
  next hw =>
    obtain rfl := Option.some.inj h
    exact .sendFailed _ hx hw (.inr rfl)
  next hw =>
    obtain rfl := Option.some.inj h
    exact .recvFailed _ hx hw (.inr (.inr rfl))
  next hd hw =>
    obtain rfl := Option.some.inj h
    exact .received hx hw (by simpa using hd) (leaves_afterRecv _)
  next hw =>
    obtain rfl := Option.some.inj h
    exact .recvFailed _ hx hw (.inr (.inl rfl))
  next hw =>
    obtain rfl := Option.some.inj h
    exact .closed hx hw
  next hw =>
    obtain rfl := Option.some.inj h
    exact .closeFailed _ hx hw
  next => simp at h

theorem deed_expire {x : Task} (hx : x ∈ m.tasks) (h : m.expire x = some a) :
    Deed m (.expire x.id) a := by
  unfold expire at h
  dsimp only at h
  split at h
  next hw =>
    obtain ⟨-, h⟩ := Option.ite_none_right_eq_some.1 h
    obtain rfl := Option.some.inj h
    exact .sendFailed _ hx hw (.inl rfl)
  next hw =>
    obtain ⟨-, h⟩ := Option.ite_none_right_eq_some.1 h
    obtain rfl := Option.some.inj h
    exact .recvFailed _ hx hw (.inl rfl)
  next => simp at h

theorem deed_wake {x : Task} (hx : x ∈ m.tasks) (h : m.wake x = some a) :
    Deed m (.wake x.id) a := by
  unfold wake at h
  split at h
  next hw hj =>
    obtain ⟨-, h⟩ := Option.ite_none_right_eq_some.1 h
    obtain rfl := Option.some.inj h
    exact .turn hx hw hj (hj ▸ leaves_turn _) turn_of_off
  next hw hj =>
    obtain ⟨-, h⟩ := Option.ite_none_right_eq_some.1 h
    split at h
    next =>
      obtain rfl := Option.some.inj h
      exact .evict hx hw hj leaves_beginClose
    next =>
      obtain rfl := Option.some.inj h
      exact .look hx hw hj
  next => simp at h

theorem deed_halt {x : Task} (hx : x ∈ m.tasks) (h : m.halt x = some a) :
    Deed m (.halt x.id) a := by
  unfold halt at h
  split at h
  next hj =>
    split at h
    next => simp at h
    next hk =>
      obtain rfl := Option.some.inj h
      exact .halt hx hj (by simpa using hk)
  next => simp at h

theorem deed_join {x : Task} (hx : x ∈ m.tasks) (h : m.join x = some a) :
    Deed m (.join x.id) a := by
  unfold join at h
  split at h
  next hw =>
    split at h
    next => simp at h
    next hc =>
      obtain rfl := Option.some.inj h
      exact .join hx hw (by simpa using hc) leaves_beginClose
  next hw =>
    split at h
    next => simp at h
    next =>
      obtain rfl := Option.some.inj h
      exact .relay _ hx hw
  next => simp at h

theorem deed_notice {x : Task} (hx : x ∈ m.tasks) (h : m.notice x = some a) :
    Deed m (.notice x.id) a := by
  obtain ⟨hw, h⟩ := Option.ite_none_right_eq_some.1 h
  simp only [Bool.and_eq_true, decide_eq_true_eq] at hw
  obtain rfl := Option.some.inj h
  split
  next hj => exact .notice hx hw.1 hj leaves_beginClose
  next hj => exact .unwatch hx hw.1 hj

theorem eq_of_task? {x : Task} (h : m.task? t = some x) : x ∈ m.tasks ∧ x.id = t :=
  ⟨List.mem_of_find?_eq_some h, by simpa using List.find?_some h⟩

/-- Every move is one of these deeds. -/
theorem deed_step (v : Move) (h : m.step v = some a) : Deed m v a := by
  cases v with
  | activate =>
    rw [step] at h
    split at h
    next s hs =>
      obtain rfl : { m with session := s } = a := by simpa using h
      exact .activate hs
    next => simp at h
  | setLoop k on =>
    obtain rfl : m.modify (·.setLoop k on) = a := by simpa [step] using h
    exact .setLoop k on
  | call job =>
    obtain rfl : m.call job = a := by simpa [step] using h
    exact deed_call job
  | start t =>
    obtain ⟨x, hf, hr⟩ := Option.bind_eq_some_iff.1 h
    obtain ⟨hx, rfl⟩ := eq_of_task? hf
    obtain ⟨hw, hr⟩ := Option.ite_none_right_eq_some.1 hr
    obtain rfl := Option.some.inj hr
    exact .start hx hw begins_start
  | reply t r =>
    obtain ⟨x, hf, hr⟩ := Option.bind_eq_some_iff.1 h
    obtain ⟨hx, rfl⟩ := eq_of_task? hf
    exact deed_reply hx r hr
  | expire t =>
    obtain ⟨x, hf, hr⟩ := Option.bind_eq_some_iff.1 h
    obtain ⟨hx, rfl⟩ := eq_of_task? hf
    exact deed_expire hx hr
  | wake t =>
    obtain ⟨x, hf, hr⟩ := Option.bind_eq_some_iff.1 h
    obtain ⟨hx, rfl⟩ := eq_of_task? hf
    exact deed_wake hx hr
  | halt t =>
    obtain ⟨x, hf, hr⟩ := Option.bind_eq_some_iff.1 h
    obtain ⟨hx, rfl⟩ := eq_of_task? hf
    exact deed_halt hx hr
  | join t =>
    obtain ⟨x, hf, hr⟩ := Option.bind_eq_some_iff.1 h
    obtain ⟨hx, rfl⟩ := eq_of_task? hf
    exact deed_join hx hr
  | notice t =>
    obtain ⟨x, hf, hr⟩ := Option.bind_eq_some_iff.1 h
    obtain ⟨hx, rfl⟩ := eq_of_task? hf
    exact deed_notice hx hr
  | cancel t =>
    obtain ⟨x, hf, hr⟩ := Option.bind_eq_some_iff.1 h
    obtain ⟨hx, rfl⟩ := eq_of_task? hf
    obtain ⟨hp, hr⟩ := Option.ite_none_right_eq_some.1 hr
    obtain rfl := Option.some.inj hr
    exact .cancel hx hp
  | deliver size data =>
    obtain rfl : m.deliver size data = a := by simpa [step] using h
    exact .deliver size data
  | pass d =>
    obtain rfl : { m with now := m.now + d } = a := by simpa [step] using h
    exact .pass d

/-- What every move preserves, a run preserves. -/
theorem steps_induction {P : Machine → Prop}
    (hP : ∀ {m a : Machine} {v : Move}, P m → m.step v = some a → P a) (hm : P m)
    (vs : List Move) (h : m.steps vs = some a) : P a := by
  induction vs generalizing m with
  | nil =>
    obtain rfl := Option.some.inj h
    exact hm
  | cons v vs ih =>
    obtain ⟨b, hb, h⟩ := Option.bind_eq_some_iff.1 h
    exact ih (hP hm hb) h

theorem steps_append (us ws : List Move) (m : Machine) :
    m.steps (us ++ ws) = (m.steps us).bind (steps ws) := by
  induction us generalizing m with
  | nil => rfl
  | cons v us ih =>
    rw [List.cons_append, steps, steps, Option.bind_assoc]
    exact Option.bind_congr fun b _ => ih b

end Machine
end Switchboard.Session
