import Switchboard.Proofs.Realizer.ClientCourse
import Switchboard.Proofs.Realizer.Script
import Switchboard.Proofs.Session.Stance
import Switchboard.Realizer.Meeting

/-! The phases of a client's run that goes well. In each of them the run can go on in at most one way:
by itself, or when the network answers the one thing it has been asked. -/
namespace Switchboard.Realizer.ClientRun
open Session (Machine TaskId Stance)

variable {s : Scenario} {r q : ClientRun} {a b : Phase} {e : Enactment} {p : Step} {i n : Nat}
  {m : Machine} {t : TaskId} {stage : ClientStage} {job : Option Client.Stage}
  {result : Option Session.Outcome} {o : Option Session.Outcome} {x : Stance} {c : Client}

structure Posed (r : ClientRun) (stage : ClientStage) (job : Option Client.Stage)
    (result : Option Session.Outcome) (x : Stance) : Prop where
  stage : r.stage = stage
  job : r.client.stage = job
  result : r.client.result = result
  session : ∃ m, r.client.sessions = [m] ∧ m.Stands x

inductive InPhase (s : Scenario) (r : ClientRun) : Phase → Prop where
  | opening : r.scenario = s → r.stage = .connecting → r.client.stage = some (.opening false) →
      r.client.result = none → r.client.sessions = [] →
      r.client.settings.transport = s.agent.transport → InPhase s r .opening
  | opened : r.scenario = s → r.Posed .connecting none (some .done) .ready →
      r.client.current = some 0 → InPhase s r .opened
  | asked {e : Enactment} {t : TaskId} {i : Nat} {p : Step} :
      r.Posed (.acting e) (some (.working 0 t)) none (.working t (p.call s.agent.buffersize)) →
      r.client.current = some 0 → Booked s (s.proper i) e → s.steps[i]? = some p →
      InPhase s r (.asked i)
  | told {e : Enactment} {t : TaskId} {i : Nat} {p : Step} :
      r.Posed (.acting e) (some (.working 0 t)) none (.told t p.proper) →
      r.client.current = some 0 → Booked s (s.proper i) e → s.steps[i]? = some p →
      InPhase s r (.told i)
  | answered {e : Enactment} {i : Nat} {p : Step} :
      r.Posed (.acting e) none (some p.proper) .ready →
      r.client.current = some 0 → Booked s (s.proper i) e → s.steps[i]? = some p →
      InPhase s r (.answered i)
  | leaving {y : Report} {t : TaskId} :
      r.Posed (.leaving (.ok y)) (some (.leaving 0 t (.answer .done))) none (.shutting t) →
      Passes s y → InPhase s r .leaving
  | left {y : Report} {t : TaskId} :
      r.Posed (.leaving (.ok y)) (some (.leaving 0 t (.answer .done))) none (.shut t) →
      Passes s y → InPhase s r .left
  | parted {y : Report} {t : TaskId} :
      r.Posed (.leaving (.ok y)) none (some .done) (.shut t) → Passes s y → InPhase s r .parted
  | ended {y : Report} {t : TaskId} :
      r.Posed (.ended (.ok y)) none (some .done) (.shut t) → Passes s y → InPhase s r .ended

namespace Posed

theorem pass (h : r.Posed stage job result x) {d : Duration}
    (hq : r.step (.client (.pass d)) = some q) : q.Posed stage job result x := by
  obtain rfl := Option.some.inj hq
  obtain ⟨m, hm, hx⟩ := h.session
  exact ⟨h.stage, h.job, h.result, _, by simp [hm], hx.later d⟩

theorem step_inner (h : r.Posed stage job result x) {v : Session.Move} (hv : v.isInner = true)
    (i : Nat) : r.client.step (.session i v) = none := by
  obtain ⟨m, hm, hx⟩ := h.session
  cases i with
  | zero => simp [Client.step, hm, hx.step_inner hv]
  | succ i => simp [Client.step, hm]

theorem outcome?_eq (h : r.Posed stage job result x) (hx : ∀ m : Machine, m.Stands x →
    m.outcome? t = o) : r.client.outcome? 0 t = o := by
  obtain ⟨m, hm, hs⟩ := h.session
  simp [Client.outcome?, hm, hx m hs]

theorem reply (h : r.Posed stage job result x) {y : Session.Reply} {x' : Stance}
    (hx : ∀ m : Machine, m.Stands x → ∃ a, m.step (.reply t y) = some a ∧ a.Stands x') : ∃ q,
    r.step (.client (.session 0 (.reply t y))) = some q ∧ q.Posed stage job result x' ∧
      q.client.current = r.client.current := by
  obtain ⟨m, hm, hs⟩ := h.session
  obtain ⟨a, ha, hs'⟩ := hx m hs
  refine ⟨{ r with client := r.client.put 0 a }, ?_, ⟨h.stage, h.job, h.result, a, ?_, hs'⟩, rfl⟩
  · simp [ClientRun.step, isOpen, Client.step, Client.isOutside, hm, ha]
  · simp [Client.put, hm]

theorem awaits (h : r.Posed stage job result x) {y : Session.Task}
    (hy : (r.client.sessions[0]?).bind (·.task? t) = some y) : x.Awaits t y.wait := by
  obtain ⟨m, hm, hx⟩ := h.session
  exact hx.awaits (by simpa [hm] using hy)

theorem exists_task (h : r.Posed stage job result x)
    (hx : (∃ c, x = .working t c) ∨ x = .shutting t) :
    ∃ u y, (r.client.sessions[0]?).bind (·.task? u) = some y := by
  obtain ⟨m, hm, hs⟩ := h.session
  obtain ⟨y, hy⟩ := hs.exists_task hx
  exact ⟨t, y, by simp [hm, hy]⟩

/-- A session that is not to be closed is not let go. -/
theorem unreleased (h : r.Posed stage job result x) (hx : x.isClosing = false) :
    (r.client.sessions[0]?).any (·.session.released) = false := by
  obtain ⟨m, hm, hs⟩ := h.session
  simp [hm, (hs.inUse hx).2]

end Posed

/-- The run asks for the step behind those that are written down, or leaves. -/
theorem inPhase_act (hj : r.client.stage = none) (hc : r.client.current = some 0)
    (hm : ∃ m, r.client.sessions = [m] ∧ m.Stands .ready) (hs : Scripted s)
    (hb : Booked s (s.proper i) e) (hi : i ≤ s.steps.length) :
    InPhase s (r.act e) (.behind s.steps.length i) := by
  obtain ⟨m, hm, hr⟩ := hm
  have hsole : Sole m r.client := ⟨hm, hc⟩
  have hl := length_proper hi
  have hjob := hb.job?_eq
  rw [hl] at hjob
  unfold Phase.behind
  split
  next hlt =>
    rw [List.getElem?_eq_getElem hlt, Option.map_some] at hjob
    have hp := List.getElem?_eq_getElem hlt
    generalize s.steps[i] = p at hjob hp
    have asked {j : Client.Job}
        (hd : ∀ c : Client, c.begin j = c.work (p.call s.agent.buffersize).job) :
        InPhase s (r.ask j (.acting e)) (.asked i) := by
      obtain ⟨d, hcall, hmd, hsd, hrd⟩ := hsole.call hj hd
      rw [ClientRun.ask, hcall, Option.getD_some]
      exact .asked ⟨rfl, hsd, hrd, _, hmd.sessions, hr.call (p.call_ne_close _)⟩ hmd.current hb hp
    rw [ClientRun.act, hjob]
    cases hpc : p.call s.agent.buffersize with
    | send data => exact asked fun _ => by rw [hpc]; rfl
    | recv size => exact asked fun _ => by rw [hpc]; rfl
    | close => exact absurd hpc (p.call_ne_close _)
  next hge =>
    obtain rfl : i = s.steps.length := Nat.le_antisymm hi (Nat.not_lt.1 hge)
    rw [List.getElem?_eq_none (Nat.le_refl _), Option.map_none] at hjob
    rw [ClientRun.act, hjob]
    have hd : ∃ d, r.client.step (.call .disconnect) = some d ∧
        d.stage = some (.leaving 0 m.fresh (.answer .done)) ∧ d.result = none ∧
        d.sessions = [m.call .close] := by
      refine ⟨_, by rw [Client.step, if_pos (by simp [hj])], ?_⟩
      simp [Client.begin, hc, Client.leave, Client.ask, hm, Client.goto, Client.put]
    obtain ⟨d, hcall, hsd, hrd, hmd⟩ := hd
    change InPhase s (r.ask .disconnect (.leaving (.ok e.report))) .leaving
    rw [ClientRun.ask, hcall, Option.getD_some]
    exact .leaving ⟨rfl, hsd, hrd, _, hmd, hr.close⟩ (hb.passes hs)

/-- A run begins with an attempt to connect. -/
theorem inPhase_new (hs : s.agent.buffersize ≠ 0) (ip : Text) (timeout : Nat) :
    ∃ r, ClientRun.new s ip timeout = .ok r ∧ InPhase s r .opening := by
  have hv : Client.new (clientSettings s ip timeout) =
      .ok { settings := clientSettings s ip timeout } := by
    simp [Client.new, Client.Settings.validate, clientSettings, hs, bind, Except.bind, pure, Except.pure]
  exact ⟨_, by rw [ClientRun.new, hv]; rfl, .opening rfl rfl rfl rfl rfl rfl⟩

namespace InPhase

theorem within (h : InPhase s r a) : a.Within s.steps.length := by
  cases h with
  | asked _ _ _ hp | told _ _ _ hp | answered _ _ _ hp => exact (List.getElem?_eq_some_iff.1 hp).1
  | _ => trivial

theorem connect (h : InPhase s r .opening) (here : Address) : ∃ q,
    r.step (.client (.opened (.ok here))) = some q ∧ InPhase s q .opened := by
  obtain ⟨hsc, hst, hj, hr, hm, -⟩ := h
  have hc : r.client.step (.opened (.ok here)) = some (r.client.opened (.ok here) false) := by
    rw [Client.step, hj]
  refine ⟨{ r with client := r.client.opened (.ok here) false }, ?_, .opened hsc ⟨hst, rfl, rfl, ?_⟩ ?_⟩
  · simp [ClientRun.step, isOpen, hc]
  · exact ⟨r.client.newSession, by simp [Client.opened, Client.finish, Client.emit, hm],
      Machine.stands_ready rfl rfl rfl⟩
  · simp [Client.opened, Client.finish, Client.emit, hm]

theorem transport (h : InPhase s r .opening) :
    r.client.settings.transport = s.agent.transport := by
  obtain ⟨-, -, -, -, -, h⟩ := h
  exact h

theorem opening_of_opened (h : InPhase s r a) {y : Except Error Address}
    (hs : r.step (.client (.opened y)) = some q) : a = .opening := by
  cases h with
  | opening => rfl
  | opened _ h | asked h | told h | answered h | leaving h | left h | parted h | ended h =>
    simp [ClientRun.step, isOpen, Client.step, h.job] at hs

/-- What the run does by itself brings it to the next phase. -/
theorem own (h : InPhase s r a) (hs : Scripted s) {v : ClientRun.Move}
    (hv : Meeting.isOfClient v = true) (hq : r.step v = some q) :
    ∃ b, a.next s.steps.length = some b ∧ InPhase s q b := by
  cases v with
  | advance =>
    cases h with
    | opening _ hst _ hr => simp [ClientRun.step, advance, hst, hr] at hq
    | asked h | told h | leaving h | left h | ended h =>
      simp [ClientRun.step, advance, h.stage, h.result] at hq
    | opened hsc h hc =>
      obtain rfl : r.act (.begin s) = q := by
        simpa [ClientRun.step, advance, h.stage, h.result, hsc] using hq
      exact ⟨_, rfl, inPhase_act h.job hc h.session hs (booked_begin s) (Nat.zero_le _)⟩
    | answered h hc hb hp =>
      obtain ⟨b, hab, hb⟩ := hb.proper hs hp
      obtain rfl : r.act b = q := by
        simpa [ClientRun.step, advance, h.stage, h.result, hab] using hq
      exact ⟨_, rfl, inPhase_act h.job hc h.session hs hb (List.getElem?_eq_some_iff.1 hp).1⟩
    | @parted y t h hy =>
      obtain rfl : { r with stage := .ended (.ok y) } = q := by
        simpa [ClientRun.step, advance, h.stage, h.result] using hq
      exact ⟨_, rfl, .ended ⟨rfl, h.job, h.result, h.session⟩ hy⟩
  | client v =>
    cases v with
    | call | opened | interrupt | pass => simp [Meeting.isOfClient] at hv
    | session i u =>
      cases h with
      | opening _ _ _ _ hm => simp [ClientRun.step, isOpen, Client.step, hm] at hq
      | opened _ h | asked h | told h | answered h | leaving h | left h | parted h | ended h =>
        simp [ClientRun.step, isOpen, h.step_inner hv] at hq
    | wake =>
      cases h with
      | opening _ _ hj => simp [ClientRun.step, isOpen, Client.step, hj] at hq
      | opened _ h | asked h | told h | answered h | leaving h | left h | parted h | ended h =>
        simp [ClientRun.step, isOpen, Client.step, h.job] at hq
    | proceed =>
      cases h with
      | opening _ _ hj => simp [ClientRun.step, isOpen, Client.step, Client.proceed, hj] at hq
      | opened _ h | answered h | parted h | ended h =>
        simp [ClientRun.step, isOpen, Client.step, Client.proceed, h.job] at hq
      | asked h =>
        have ho := h.outcome?_eq fun m hm => hm.outcome?_working
        simp [ClientRun.step, isOpen, Client.step, Client.proceed, h.job, ho] at hq
      | leaving h =>
        have ho := h.outcome?_eq fun m hm => hm.outcome?_shutting
        simp [ClientRun.step, isOpen, Client.step, Client.proceed, h.job, ho] at hq
      | told h hc hb hp =>
        have ho := h.outcome?_eq fun m hm => hm.2.2
        simp only [ClientRun.step, isOpen, Client.step, Client.proceed, h.job, ho, if_true,
          Option.map_some, Option.some.injEq] at hq
        obtain rfl := hq
        obtain ⟨m, hm, hx⟩ := h.session
        exact ⟨_, rfl, .answered ⟨h.stage, rfl, rfl, m, hm, hx.of_told⟩ hc hb hp⟩
      | left h hy =>
        have ho := h.outcome?_eq fun m hm => hm.2
        simp only [ClientRun.step, isOpen, Client.step, Client.proceed, h.job, ho, if_true,
          Option.map_some, Option.some.injEq] at hq
        obtain rfl := hq
        exact ⟨_, rfl, .parted ⟨h.stage, rfl, rfl, h.session⟩ hy⟩

/-- When there is a next phase, the run comes to it by itself. -/
theorem own_isSome (h : InPhase s r a) (hn : (a.next s.steps.length).isSome) :
    ∃ v, Meeting.isOfClient v = true ∧ (r.step v).isSome := by
  cases h with
  | opening | asked | leaving | ended => simp [Phase.next] at hn
  | opened _ h | parted h =>
    exact ⟨.advance, rfl, by simp [ClientRun.step, advance, h.stage, h.result]⟩
  | answered h => exact ⟨.advance, rfl, by simp [ClientRun.step, advance, h.stage, h.result]⟩
  | told h =>
    have ho := h.outcome?_eq fun m hm => hm.2.2
    exact ⟨.client .proceed, rfl,
      by simp [ClientRun.step, isOpen, Client.step, Client.proceed, h.job, ho]⟩
  | left h =>
    have ho := h.outcome?_eq fun m hm => hm.2
    exact ⟨.client .proceed, rfl,
      by simp [ClientRun.step, isOpen, Client.step, Client.proceed, h.job, ho]⟩

/-- The session has just one task, if any, and the answer to that brings the run further. -/
theorem answer (h : InPhase s r a) (hs : Scripted s) {u : TaskId} {y : Session.Task}
    (hy : (r.client.sessions[0]?).bind (·.task? u) = some y) : ∃ rep q, a.Awaits s y.wait rep ∧
      r.step (.client (.session 0 (.reply u rep))) = some q ∧ InPhase s q a.heard := by
  cases h with
  | opening _ _ _ _ hm => simp [hm] at hy
  | opened _ h | told h | answered h | left h | parted h | ended h => exact (h.awaits hy).elim
  | @asked e t i p h hc hb hp =>
    obtain ⟨rfl, hw⟩ := h.awaits hy
    obtain ⟨q, hq, h, hcq⟩ := h.reply fun m hm => stands_reply (hs p (List.mem_of_getElem? hp)) hm
    exact ⟨_, q, .step hp hw, hq, .told h (hcq.trans hc) hb hp⟩
  | leaving h hz =>
    obtain ⟨rfl, hw⟩ := h.awaits hy
    obtain ⟨q, hq, h, -⟩ := h.reply fun m hm => hm.closed
    exact ⟨_, q, .close hw, hq, .left h hz⟩

theorem exists_task (h : InPhase s r a) (ha : (∃ i, a = .asked i) ∨ a = .leaving) :
    ∃ u y, (r.client.sessions[0]?).bind (·.task? u) = some y := by
  cases h with
  | asked h => exact h.exists_task (.inl ⟨_, rfl⟩)
  | leaving h => exact h.exists_task (.inr rfl)
  | _ => simp at ha

/-- While steps are left, the session is not closed. -/
theorem unreleased (h : InPhase s r a) (ha : a.done s.steps.length < s.steps.length) :
    (r.client.sessions[0]?).any (·.session.released) = false := by
  cases h with
  | opening _ _ _ _ hm => simp [hm]
  | opened _ h | asked h | told h | answered h => exact h.unreleased rfl
  | leaving | left | parted | ended => exact absurd ha (Nat.lt_irrefl _)

theorem result?_ended (h : InPhase s r .ended) : ∃ y, r.result? = some (.ok y) ∧ Passes s y := by
  cases h with
  | ended h hy => exact ⟨_, by rw [result?, h.stage], hy⟩

theorem ended_of_result? (h : InPhase s r a) {z : Except Error Report} (hz : r.result? = some z) :
    a = .ended := by
  cases h with
  | ended => rfl
  | opening _ hst => simp [result?, hst] at hz
  | opened _ h | asked h | told h | answered h | leaving h | left h | parted h =>
    simp [result?, h.stage] at hz

theorem pass (h : InPhase s r a) (d : Duration) :
    ∃ q, r.step (.client (.pass d)) = some q ∧ InPhase s q a := by
  refine ⟨_, rfl, ?_⟩
  cases h with
  | opening hsc hst hj hr hm htr => exact .opening hsc hst hj hr (by simp [hm]) htr
  | opened hsc h hc => exact .opened hsc (h.pass rfl) hc
  | asked h hc hb hp => exact .asked (h.pass rfl) hc hb hp
  | told h hc hb hp => exact .told (h.pass rfl) hc hb hp
  | answered h hc hb hp => exact .answered (h.pass rfl) hc hb hp
  | leaving h hy => exact .leaving (h.pass rfl) hy
  | left h hy => exact .left (h.pass rfl) hy
  | parted h hy => exact .parted (h.pass rfl) hy
  | ended h hy => exact .ended (h.pass rfl) hy

end InPhase
end Switchboard.Realizer.ClientRun
