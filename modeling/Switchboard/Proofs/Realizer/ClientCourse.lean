import Switchboard.Proofs.Realizer.Account
import Switchboard.Proofs.Scenario.Field
import Switchboard.Realizer.Client

/-! The steps of a scenario in the role of a client. The run makes one connection, and its session is
asked for nothing but the steps until the run disconnects. -/
namespace Switchboard.Realizer
open Session (Machine TaskId)

variable {s : Scenario} {gs : List Session.Outcome} {o : Session.Outcome} {e : Enactment} {p : Step}
  {m : Machine} {t : TaskId} {c d : Client} {r q : ClientRun}

structure Sole (m : Machine) (c : Client) : Prop where
  sessions : c.sessions = [m]
  current : c.current = some 0

namespace Sole

theorem session? (h : Sole m c) : c.session? = some m := by
  rw [Client.session?, h.current, Option.bind_some, h.sessions]
  rfl

theorem outcome?_eq (h : Sole m c) (t : TaskId) : c.outcome? 0 t = m.outcome? t := by
  rw [Client.outcome?, h.sessions]
  rfl

theorem session (h : Sole m c) {i : Nat} {v : Session.Move} (hs : c.step (.session i v) = some d) :
    ∃ a, v.isPassive = true ∧ m.step v = some a ∧ Sole a d ∧ d.stage = c.stage ∧
      d.result = c.result := by
  obtain ⟨hv, hs⟩ := Option.ite_none_right_eq_some.1 hs
  obtain ⟨a, ha, rfl⟩ := Option.map_eq_some_iff.1 hs
  obtain ⟨b, hb, hba⟩ := Option.bind_eq_some_iff.1 ha
  have hi : i = 0 ∧ b = m := by
    rw [h.sessions] at hb
    cases i with
    | zero => exact ⟨rfl, (Option.some.inj hb).symm⟩
    | succ i => simp at hb
  obtain ⟨rfl, rfl⟩ := hi
  refine ⟨a, ?_, hba, ⟨by simp [Client.put, h.sessions], h.current⟩, rfl, rfl⟩
  cases v <;> first | rfl | exact hv

theorem pass (h : Sole m c) {k : Duration} (hs : c.step (.pass k) = some d) :
    ∃ a, m.step (.pass k) = some a ∧ Sole a d ∧ d.stage = c.stage ∧ d.result = c.result := by
  obtain rfl := Option.some.inj hs
  exact ⟨_, rfl, ⟨by simp [h.sessions], h.current⟩, rfl, rfl⟩

theorem work (h : Sole m c) (k : Session.Call) :
    Sole (m.call k.job) (c.work k.job) ∧ (c.work k.job).stage = some (.working 0 m.fresh) ∧
      (c.work k.job).result = c.result := by
  have hc : c.work k.job = (c.put 0 (m.call k.job)).goto (.working 0 m.fresh) := by
    simp [Client.work, h.current, Client.ask, h.sessions]
  rw [hc]
  exact ⟨⟨by simp [Client.put, Client.goto, h.sessions], h.current⟩, rfl, rfl⟩

theorem call (h : Sole m c) (hs : c.stage = none) {k : Session.Call} {job : Client.Job}
    (hj : ∀ c : Client, c.begin job = c.work k.job) :
    ∃ d, c.step (.call job) = some d ∧ Sole (m.call k.job) d ∧ d.stage = some (.working 0 m.fresh) ∧
      d.result = none := by
  have h' : Sole m { c with result := none } := ⟨h.sessions, h.current⟩
  refine ⟨({ c with result := none } : Client).work k.job, ?_, h'.work k⟩
  rw [Client.step, if_pos (by simp [hs]), hj]

end Sole

inductive Stirs (c : Client) : Client.Move → Client → Prop where
  | session {i : Nat} {v : Session.Move} {d : Client} : c.step (.session i v) = some d →
      Stirs c (.session i v) d
  | pass (k : Duration) {d : Client} : c.step (.pass k) = some d → Stirs c (.pass k) d
  | opened (x : Except Error Address) {loops : Bool} : c.stage = some (.opening loops) →
      Stirs c (.opened x) (c.opened x loops)
  | wake {k : Duration} {loops : Bool} : c.stage = some (.resting k loops) →
      Stirs c .wake (c.attempt loops)
  | proceed {d : Client} : c.proceed = some d → Stirs c .proceed d

theorem stirs_step {v : Client.Move} (hv : ClientRun.isOpen v = true) (hs : c.step v = some d) :
    Stirs c v d := by
  cases v with
  | call | interrupt => simp [ClientRun.isOpen] at hv
  | session i v => exact .session hs
  | pass k => exact .pass k hs
  | proceed => exact .proceed hs
  | opened x =>
    rw [Client.step] at hs
    split at hs
    next loops hst =>
      obtain rfl := Option.some.inj hs
      exact .opened x hst
    next => simp at hs
  | wake =>
    rw [Client.step] at hs
    split at hs
    next k loops hst =>
      obtain ⟨-, hs⟩ := Option.ite_none_right_eq_some.1 hs
      obtain rfl := Option.some.inj hs
      exact .wake hst
    next => simp at hs

/-- Between two calls a client does nothing; its sessions and the clock go on. -/
theorem stirs_of_stage {v : Client.Move} (h : Stirs c v d) (hst : c.stage = none) :
    d.stage = none ∧ d.result = c.result ∧
      ((∃ i u, c.step (.session i u) = some d) ∨ ∃ k, c.step (.pass k) = some d) := by
  cases h with
  | @session i u _ hs =>
    obtain ⟨-, hs'⟩ := Option.ite_none_right_eq_some.1 hs
    obtain ⟨a, -, rfl⟩ := Option.map_eq_some_iff.1 hs'
    exact ⟨hst, rfl, .inl ⟨i, u, hs⟩⟩
  | pass k hs =>
    obtain rfl := Option.some.inj hs
    exact ⟨hst, rfl, .inr ⟨k, rfl⟩⟩
  | opened x h => simp [hst] at h
  | wake h => simp [hst] at h
  | proceed h => simp [Client.proceed, hst] at h

/-- What a session goes through while its client does nothing, a session step by step keeps. -/
theorem Sole.still (h : Sole m c)
    (hs : (∃ i u, c.step (.session i u) = some d) ∨ ∃ k, c.step (.pass k) = some d) :
    ∃ a u, u.isPassive = true ∧ m.step u = some a ∧ Sole a d ∧ d.stage = c.stage ∧
      d.result = c.result := by
  obtain ⟨i, u, hs⟩ | ⟨k, hs⟩ := hs
  · obtain ⟨a, hu, ha, hm, hst, hr⟩ := h.session hs
    exact ⟨a, u, hu, ha, hm, hst, hr⟩
  · obtain ⟨a, ha, hm, hst, hr⟩ := h.pass hs
    exact ⟨a, .pass k, rfl, ha, hm, hst, hr⟩

namespace ClientRun

inductive Stands (s : Scenario) (r : ClientRun) : Prop where
  | calling : r.stage = .connecting → r.client.sessions = [] →
      r.client.stage = some (.opening false) ∨ (∃ d, r.client.stage = some (.resting d false)) →
      r.client.result = none → Stands s r
  | refused (f : Error) : r.stage = .connecting → r.client.stage = none →
      r.client.result = some (.failed f) → Stands s r
  | called {m : Machine} : r.stage = .connecting → r.client.stage = none →
      r.client.result = some .done → Sole m r.client → Rested s [] m → Stands s r
  | acting {m : Machine} {gs : List Session.Outcome} {p : Step} {e : Enactment} {t : TaskId} :
      r.stage = .acting e → Sole m r.client →
      (r.client.stage = some (.working 0 t) ∧ r.client.result = none) ∨
        (r.client.stage = none ∧ ∃ o, r.client.result = some o ∧ m.outcome? t = some o) →
      Booked s gs e → s.steps[gs.length]? = some p → Turn s gs (p.call s.agent.buffersize) t m →
      Stands s r
  | past : (∃ x, r.stage = .leaving x) ∨ (∃ x, r.stage = .ended x) → Stands s r

theorem stands_new {ip : Text} {timeout : Nat} (h : ClientRun.new s ip timeout = .ok r) :
    Stands s r ∧ r.scenario = s := by
  obtain ⟨c, hc, h⟩ := bind_eq_ok.1 h
  obtain ⟨_, -, hc⟩ := bind_eq_ok.1 hc
  obtain rfl := pure_eq_ok.1 hc
  obtain rfl := pure_eq_ok.1 h
  exact ⟨.calling rfl rfl (.inl rfl) rfl, rfl⟩

theorem rested_newSession (s : Scenario) (c : Client) : Rested s [] c.newSession :=
  rested_new s ⟨rfl, .inl rfl⟩ rfl rfl rfl

/-- An attempt opens a link, ends the call, or is followed by another one. -/
theorem stands_opened (h : r.stage = .connecting) (hc : r.client.sessions = [])
    (hr : r.client.result = none) (x : Except Error Address) :
    Stands s { r with client := r.client.opened x false } := by
  unfold Client.opened
  cases x with
  | ok peer => exact .called h rfl rfl ⟨by rw [hc]; rfl, by rw [hc]; rfl⟩ (rested_newSession s _)
  | error f =>
    dsimp only
    split
    · exact .refused f h rfl rfl
    · split
      · exact .refused _ h rfl rfl
      · exact .calling h hc (.inr ⟨_, rfl⟩) hr

theorem Stands.client (h : Stands s r) {v : Client.Move} (hv : ClientRun.isOpen v = true)
    (hs : r.client.step v = some d) : Stands s { r with client := d } := by
  have hd := stirs_step hv hs
  cases h with
  | past h => exact .past h
  | calling h hc hst hr =>
    cases hd with
    | session hs => simp [Client.step, hc] at hs
    | pass k hs =>
      obtain rfl := Option.some.inj hs
      exact .calling h (by simp [hc]) hst hr
    | @opened x loops ho =>
      obtain rfl : loops = false := by
        obtain hst | ⟨k, hst⟩ := hst <;> simp_all
      exact stands_opened h hc hr x
    | @wake k loops hw =>
      obtain rfl : loops = false := by
        obtain hst | ⟨k, hst⟩ := hst <;> simp_all
      exact .calling h hc (.inl rfl) hr
    | proceed hp => obtain hst | ⟨k, hst⟩ := hst <;> simp [Client.proceed, hst] at hp
  | refused f h hst hr =>
    obtain ⟨hst', hr', -⟩ := stirs_of_stage hd hst
    exact .refused f h hst' (hr'.trans hr)
  | called h hst hr hm hm' =>
    obtain ⟨hst', hr', hs⟩ := stirs_of_stage hd hst
    obtain ⟨a, u, hu, ha, hma, -⟩ := hm.still hs
    exact .called h hst' (hr'.trans hr) hma (hm'.step hu ha)
  | @acting m gs p e t h hm hst hb hp ht =>
    -- the client notices that the task has ended, or only the session and the clock go on
    by_cases hq : r.client.proceed = some d
    · obtain ⟨hst, -⟩ | ⟨hst, -⟩ := hst
      · have ho : (r.client.outcome? 0 t).map (Client.finish · r.client) = some d := by
          simpa only [Client.proceed, hst] using hq
        obtain ⟨o, hmo, rfl⟩ := Option.map_eq_some_iff.1 ho
        rw [hm.outcome?_eq] at hmo
        exact .acting h ⟨hm.sessions, hm.current⟩ (.inr ⟨rfl, o, rfl, hmo⟩) hb hp ht
      · simp [Client.proceed, hst] at hq
    · have hstill : (∃ i u, r.client.step (.session i u) = some d) ∨
          ∃ k, r.client.step (.pass k) = some d := by
        cases hd with
        | @session i u _ hs => exact .inl ⟨i, u, hs⟩
        | pass k hs => exact .inr ⟨k, hs⟩
        | opened x ho => obtain ⟨hst, -⟩ | ⟨hst, -⟩ := hst <;> simp [hst] at ho
        | wake hw => obtain ⟨hst, -⟩ | ⟨hst, -⟩ := hst <;> simp [hst] at hw
        | proceed hp => exact absurd hp hq
      obtain ⟨a, u, hu, ha, hma, hsa, hra⟩ := hm.still hstill
      refine .acting h hma ?_ hb hp (ht.step hu ha)
      obtain ⟨hst, hr⟩ | ⟨hst, o, hr, ho⟩ := hst
      · exact .inl ⟨hsa.trans hst, hra.trans hr⟩
      · exact .inr ⟨hsa.trans hst, o, hra.trans hr, ht.outcome?_step hu ha ho⟩

/-- The run asks for the next step, or leaves when there is none. -/
theorem stands_act (hm : Sole m r.client) (hst : r.client.stage = none) (hb : Booked s gs e)
    (hr : Rested s gs m) :
    Stands s (r.act e) ∧ ((r.act e).stage = .acting e ∨
      (r.act e).stage = .leaving (.ok e.report) ∧ Ends s m (.ok e.report)) := by
  have hj := hb.job?_eq
  cases hp : s.steps[gs.length]? with
  | none =>
    rw [hp, Option.map_none] at hj
    rw [ClientRun.act, hj]
    exact ⟨.past (.inl ⟨_, rfl⟩), .inr ⟨rfl, hr.ends hb hp⟩⟩
  | some p =>
    rw [hp, Option.map_some] at hj
    have asked {job : Client.Job}
        (hd : ∀ c : Client, c.begin job = c.work (p.call s.agent.buffersize).job) :
        Stands s (r.ask job (.acting e)) := by
      obtain ⟨d, hc, hmd, hsd, hrd⟩ := hm.call hst hd
      rw [ClientRun.ask, hc, Option.getD_some]
      exact .acting rfl hmd (.inl ⟨hsd, hrd⟩) hb hp (hr.ask hp)
    rw [ClientRun.act, hj]
    cases hc : p.call s.agent.buffersize with
    | send data => exact ⟨asked fun _ => by rw [hc]; rfl, .inl rfl⟩
    | recv size => exact ⟨asked fun _ => by rw [hc]; rfl, .inl rfl⟩
    | close => exact absurd hc (p.call_ne_close _)

/-- What follows when the call that connects is over. -/
theorem Stands.advance_connecting (h : Stands s r) (hsc : r.scenario = s)
    (hst : r.stage = .connecting) (hq : r.advance = some q) :
    Stands s q ∧ ((∃ f, r.client.result = some (.failed f) ∧ q.stage = .ended (.error f)) ∨
      ∃ m, r.client.session? = some m ∧ m.given = [] ∧ m.asked = [] ∧
        ((∃ e, q.stage = .acting e) ∨ ∃ x, q.stage = .leaving x ∧ Ends s m x)) := by
  rw [ClientRun.advance, hst] at hq
  cases h with
  | past h => simp [hst] at h
  | acting h => simp [hst] at h
  | calling _ _ _ hr => simp [hr] at hq
  | refused f _ _ hr =>
    rw [hr] at hq
    obtain rfl := Option.some.inj hq
    exact ⟨.past (.inr ⟨_, rfl⟩), .inl ⟨f, hr, rfl⟩⟩
  | @called m _ hcs hr hm hm' =>
    rw [hr] at hq
    obtain rfl := Option.some.inj hq
    rw [hsc]
    obtain ⟨hs, ha⟩ := stands_act hm hcs (booked_begin s) hm'
    refine ⟨hs, .inr ⟨m, hm.session?, hm'.given, hm'.asked, ?_⟩⟩
    obtain ha | ha := ha
    · exact .inl ⟨_, ha⟩
    · exact .inr ⟨_, ha⟩

theorem Stands.advance_acting (h : Stands s r) (hst : r.stage = .acting e)
    (hq : r.advance = some q) :
    Stands s q ∧ ∃ m, r.client.session? = some m ∧
      ((∃ b, q.stage = .acting b ∧ Goes s e m b) ∨
      ∃ x, q.stage = .leaving x ∧ Ends s m x) := by
  rw [ClientRun.advance, hst] at hq
  cases h with
  | past h => simp [hst] at h
  | calling h => simp [hst] at h
  | refused _ h => simp [hst] at h
  | called h => simp [hst] at h
  | @acting m gs p e' t h hm hcs hb hp ht =>
    obtain rfl := ClientStage.acting.inj (hst.symm.trans h)
    obtain ⟨-, hr⟩ | ⟨hcs, o, hr, ho⟩ := hcs
    · simp [hr] at hq
    · rw [hr] at hq
      obtain rfl := Option.some.inj hq
      obtain ⟨f, ha, he⟩ | ⟨b, ha, hb', hr'⟩ := ht.absorb hb hp rfl ho
      · rw [ha]
        exact ⟨.past (.inl ⟨_, rfl⟩), m, hm.session?, .inr ⟨_, rfl, he⟩⟩
      · rw [ha]
        obtain ⟨hs, ha⟩ := stands_act hm hcs hb' hr'
        refine ⟨hs, m, hm.session?, ?_⟩
        obtain ha | ha := ha
        · exact .inl ⟨b, ha, hr'.goes hb hb'⟩
        · exact .inr ⟨_, ha⟩

/-- The run ends when its client has disconnected, or has failed to. -/
theorem advance_leaving {x : Except Error Report} (hst : r.stage = .leaving x)
    (hq : r.advance = some q) : q.stage = .ended x ∨
      ∃ f, r.client.result = some (.failed f) ∧ q.stage = .ended (.error f) := by
  rw [ClientRun.advance, hst] at hq
  cases hr : r.client.result with
  | none => simp [hr] at hq
  | some o =>
    rw [hr] at hq
    cases o with
    | failed f => exact .inr ⟨f, rfl, Option.some.inj hq ▸ rfl⟩
    | done | sent | received => exact .inl (Option.some.inj hq ▸ rfl)

theorem scenario_act (e : Enactment) (r : ClientRun) : (r.act e).scenario = r.scenario := by
  unfold ClientRun.act
  split <;> rfl

theorem scenario_step {v : ClientRun.Move} (hs : r.step v = some q) : q.scenario = r.scenario := by
  cases v with
  | client v =>
    obtain ⟨-, hs⟩ := Option.ite_none_right_eq_some.1 hs
    obtain ⟨d, -, rfl⟩ := Option.map_eq_some_iff.1 hs
    rfl
  | advance =>
    rw [ClientRun.step, ClientRun.advance] at hs
    split at hs
    next => exact Option.some.inj hs ▸ rfl
    next => exact Option.some.inj hs ▸ scenario_act _ r
    next =>
      obtain rfl := Option.some.inj hs
      split
      · exact scenario_act _ r
      · rfl
    next => exact Option.some.inj hs ▸ rfl
    next => exact Option.some.inj hs ▸ rfl
    next => simp at hs

theorem Stands.step (h : Stands s r) (hsc : r.scenario = s) {v : ClientRun.Move}
    (hs : r.step v = some q) : Stands s q := by
  cases v with
  | client v =>
    obtain ⟨hv, hs⟩ := Option.ite_none_right_eq_some.1 hs
    obtain ⟨d, hd, rfl⟩ := Option.map_eq_some_iff.1 hs
    exact h.client hv hd
  | advance =>
    cases hst : r.stage with
    | connecting => exact (h.advance_connecting hsc hst hs).1
    | acting e => exact (h.advance_acting hst hs).1
    | leaving x =>
      obtain h | ⟨f, -, h⟩ := advance_leaving hst hs
      · exact .past (.inr ⟨_, h⟩)
      · exact .past (.inr ⟨_, h⟩)
    | ended x => simp [ClientRun.step, ClientRun.advance, hst] at hs

theorem Stands.steps (h : Stands s r) (hsc : r.scenario = s) (vs : List Move)
    (hs : r.steps vs = some q) : Stands s q ∧ q.scenario = s := by
  induction vs generalizing r with
  | nil =>
    obtain rfl := Option.some.inj hs
    exact ⟨h, hsc⟩
  | cons v vs ih =>
    obtain ⟨b, hb, hs⟩ := Option.bind_eq_some_iff.1 hs
    exact ih (h.step hsc hb) ((scenario_step hb).trans hsc) hs

/-- While steps are done, an operation that is over is noticed. -/
theorem Stands.acts (h : Stands s r) {e : Enactment} (hst : r.stage = .acting e) :
    ∃ m, r.client.session? = some m ∧ Acts s e m ∧
      (m.given.length = e.report.outcomes.length + 1 →
        (r.step .advance).isSome ∨ (r.step (.client .proceed)).isSome) := by
  cases h with
  | past h => simp [hst] at h
  | calling h => simp [hst] at h
  | refused _ h => simp [hst] at h
  | called h => simp [hst] at h
  | @acting m gs p e' t h hm hcs hb hp ht =>
    obtain rfl := ClientStage.acting.inj (hst.symm.trans h)
    refine ⟨m, hm.session?, ht.acts hb hp, fun hl => ?_⟩
    obtain ⟨hcs, hr⟩ | ⟨hcs, o, hr, -⟩ := hcs
    · right
      obtain ⟨-, hg, -⟩ | ⟨o, ho, -⟩ := ht.given
      · rw [hg, hb.report.length] at hl
        omega
      · simp [ClientRun.step, isOpen, Client.step, Client.proceed, hcs, hm.outcome?_eq, ho]
    · left
      simp [ClientRun.step, advance, hst, hr]

end ClientRun
end Switchboard.Realizer
