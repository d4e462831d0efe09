import Switchboard.Proofs.Realizer.Account
import Switchboard.Proofs.Realizer.Beside
import Switchboard.Proofs.Scenario.Field

/-! The steps of a scenario in the role of a server. The first peer gets the session of the steps,
which is asked for nothing else until the run stops; other peers are served beside it. -/
namespace Switchboard.Realizer
open Session (Machine TaskId)
open Server (Beside Drifts Stays ChoreId)

variable {s : Scenario} {gs : List Session.Outcome} {o : Session.Outcome} {e : Enactment} {p : Step}
  {m : Machine} {t : TaskId} {w a : Server} {r q : ServerRun} {c k : ChoreId} {peer : Address}

structure Vacant (c : ChoreId) (w : Server) : Prop where
  cells : w.cells = []
  table : w.table.entries = []
  chores : ∀ x ∈ w.chores, x.job = .accept ∧ x.id = c ∧ ∃ l, x.wait = .listening l
  finished : w.finished = []
  lt_fresh : c < w.fresh

structure Answered (c : ChoreId) (o : Server.Answer) (w : Server) : Prop where
  chores : w.chores = []
  finished : w.finished = [(c, o)]
  lt_fresh : c < w.fresh

structure Greeted (peer : Address) (w : Server) : Prop where
  placed : ∀ e ∈ w.table.entries, w.peers[e.2]? = some e.1
  first : w.peers[0]? = some peer

theorem Answered.answer? {o : Server.Answer} (h : Answered c o w) : w.answer? c = some o := by
  simp [Server.answer?, h.finished]

theorem Rested.drift (h : Rested s gs m) (hd : Drifts m w) :
    ∃ n, w.machine? 0 = some n ∧ Rested s gs n := by
  obtain ⟨n, hn, rfl | ⟨u, hu, hs⟩⟩ := hd
  · exact ⟨n, hn, h⟩
  · exact ⟨n, hn, h.step hu hs⟩

theorem Turn.drift {k : Session.Call} (h : Turn s gs k t m) (hd : Drifts m w) :
    ∃ n, w.machine? 0 = some n ∧ Turn s gs k t n := by
  obtain ⟨n, hn, rfl | ⟨u, hu, hs⟩⟩ := hd
  · exact ⟨n, hn, h⟩
  · exact ⟨n, hn, h.step hu hs⟩

theorem rested_newCell (s : Scenario) (peer : Address) (w : Server) :
    Rested s [] (w.newCell peer).machine :=
  rested_new s ⟨rfl, .inl rfl⟩ rfl rfl rfl

namespace Vacant

theorem machine?_enrol (h : Vacant c w) (peer : Address) :
    (w.enrol peer).machine? 0 = some (w.newCell peer).machine := by
  rw [Server.machine?_enrol, if_pos (by simp [h.cells])]

theorem greeted_enrol (h : Vacant c w) (peer : Address) : Greeted peer (w.enrol peer) := by
  have hp : (w.enrol peer).peers = [peer] := by
    simp [Server.peers, Server.enrol, h.cells, Server.newCell]
  refine ⟨fun e he => ?_, by rw [hp]; rfl⟩
  have he : e = (peer, 0) := by
    simpa [Server.enrol, Server.Table.insert, Server.Table.erase, h.table, h.cells] using he
  rw [he, hp]
  rfl

theorem answered (h : Vacant c w) {x : Server.Chore} (hx : x ∈ w.chores) (o : Server.Answer)
    {b : Server} (hc : b.chores = w.chores) (hf : b.finished = w.finished)
    (hl : b.fresh = w.fresh) : Answered c o (b.settle x.id o) := by
  obtain ⟨-, rfl, -⟩ := h.chores x hx
  refine ⟨?_, by simp [Server.settle, hf, h.finished], hl ▸ h.lt_fresh⟩
  rw [Server.settle, hc, List.filter_eq_nil_iff]
  intro y hy
  simp [(h.chores y hy).2.1]

/-- The first peer is accepted. -/
theorem accepted (h : Vacant c w) {x : Server.Chore} (hx : x ∈ w.chores) {b : Server}
    (hc : b.chores = w.chores) (hf : b.finished = w.finished) (hl : b.fresh = w.fresh)
    (hg : Greeted peer b) (hm : b.machine? 0 = some m) :
    Answered c (.accepted 0 true) (b.accepted x 0 true) ∧ Greeted peer (b.accepted x 0 true) ∧
      (b.accepted x 0 true).machine? 0 = some m := by
  obtain ⟨l, hl'⟩ := Server.accepted_eq 0 true b (h.chores x hx).1
  rw [hl']
  exact ⟨h.answered hx _ hc hf hl, ⟨hg.placed, hg.first⟩, hm⟩

theorem step (h : Vacant c w) (s : Scenario) {v : Server.Move} {partner : Option Address}
    (hv : ServerRun.isOpen partner v = true) (hs : w.step v = some a) :
    Vacant c a ∨ (∃ f, Answered c (.failed f) a) ∨ ∃ peer m, Answered c (.accepted 0 true) a ∧
      Greeted peer a ∧ a.machine? 0 = some m ∧ Rested s [] m := by
  have hget (q : Address) : w.table.get? q = none := by simp [Server.Table.get?, h.table]
  have listens {x : Server.Chore} (hx : x ∈ w.chores) : ∃ l, x.wait = .listening l :=
    (h.chores x hx).2.2
  have nobody (i : Nat) : w.cells[i]? = none := by simp [h.cells]
  cases Server.turn_step hs with
  | start | call | run | spawn | shutDown | cancel | remove | removeIf =>
    simp [ServerRun.isOpen] at hv
  | begin hx hw | wake hx hw | replaced hx hw | closed hx hw | drained _ hx hw =>
    obtain ⟨l, hl⟩ := listens hx
    simp [hl] at hw
  | tended hx _ hw =>
    obtain ⟨l, hl⟩ := listens hx
    simp [hl] at hw
  | @connected x l q hx =>
    have hc : w.connected x q = (w.enrol q).accepted x 0 true := by
      simp [Server.connected, hget, h.cells]
    rw [hc]
    obtain ⟨ho, hg, hm⟩ := h.accepted hx (b := w.enrol q) rfl rfl rfl (h.greeted_enrol q)
      (h.machine?_enrol q)
    exact .inr (.inr ⟨q, _, ho, hg, hm, rested_newCell s q w⟩)
  | @datagram x l q data hx =>
    have hc : w.datagram x q data =
        ((w.enrol q).hand 0 (data.take w.settings.loops.buffersize)).accepted x 0 true := by
      simp [Server.datagram, hget, h.cells]
    have hd := Server.drifts_hand (h.machine?_enrol q) 0 (data.take w.settings.loops.buffersize)
    obtain ⟨n, hn, hr⟩ := (rested_newCell s q w).drift hd
    have hg := h.greeted_enrol q
    have hp := Server.peers_hand 0 (data.take w.settings.loops.buffersize) (w.enrol q)
    rw [hc]
    obtain ⟨ho, hg, hm⟩ := h.accepted hx (b := (w.enrol q).hand 0 _) rfl rfl rfl
      ⟨hp ▸ hg.placed, hp ▸ hg.first⟩ hn
    exact .inr (.inr ⟨q, n, ho, hg, hm, hr⟩)
  | @acceptFailed x l f hx =>
    rw [Server.acceptFailed_eq f w (h.chores x hx).1]
    exact .inr (.inl ⟨f, h.answered hx _ rfl rfl rfl⟩)
  | session _ hm => simp [Server.machine?, nobody] at hm
  | receive _ _ hb => simp [nobody] at hb
  | pass d =>
    exact .inl ⟨by simp [Server.later, h.cells], h.table, h.chores, h.finished, h.lt_fresh⟩

end Vacant

theorem Answered.stays {o : Server.Answer} (h : Answered c o w) (ha : Stays w a) :
    Answered c o a :=
  ⟨ha.chores.trans h.chores, ha.finished.trans h.finished, ha.fresh ▸ h.lt_fresh⟩

theorem Greeted.stays (h : Greeted peer w) (ha : Stays w a) : Greeted peer a :=
  ⟨ha.table ▸ ha.peers ▸ h.placed, ha.peers ▸ h.first⟩

namespace ServerRun

inductive Stands (s : Scenario) (r : ServerRun) : Prop where
  | accepting {c : ChoreId} : r.stage = .accepting c → Vacant c r.server → Stands s r
  | refused {c : ChoreId} (f : Error) : r.stage = .accepting c →
      Answered c (.failed f) r.server → Stands s r
  | accepted {c : ChoreId} {peer : Address} {m : Machine} : r.stage = .accepting c →
      Answered c (.accepted 0 true) r.server → Greeted peer r.server →
      r.server.machine? 0 = some m → Rested s [] m → Stands s r
  | acting {k : ChoreId} {peer : Address} {m : Machine} {gs : List Session.Outcome} {p : Step}
      {e : Enactment} {t : TaskId} : r.stage = .acting 0 t e k → Beside k peer r.server →
      r.server.machine? 0 = some m → Booked s gs e → s.steps[gs.length]? = some p →
      Turn s gs (p.call s.agent.buffersize) t m → Stands s r
  | past : (∃ c x, r.stage = .stopping c x) ∨ (∃ x, r.stage = .ended x) → Stands s r

theorem stands_new {host : Text} {bound : Except Error Address}
    (h : ServerRun.new s host bound = .ok r) : Stands s r ∧ r.scenario = s := by
  obtain ⟨w, hw, h⟩ := bind_eq_ok.1 h
  obtain rfl := Server.new_eq hw
  cases bound with
  | error f =>
    obtain rfl := pure_eq_ok.1 h
    exact ⟨.past (.inr ⟨_, rfl⟩), rfl⟩
  | ok here =>
    obtain rfl := pure_eq_ok.1 h
    refine ⟨.accepting rfl ⟨rfl, rfl, fun x hx => ?_, rfl, Nat.zero_lt_one⟩, rfl⟩
    obtain rfl := List.mem_singleton.1 hx
    exact ⟨rfl, rfl, 0, rfl⟩

theorem go_call (hm : w.machine? 0 = some m) {j : Session.Call} (hj : j ≠ .close) :
    w.go (.session 0 (.call j.job)) = w.put 0 (m.call j.job) := by
  have ho : w.isOutside 0 (.call j.job) = true := by
    cases j with
    | close => exact absurd rfl hj
    | send | recv => rfl
  simp [Server.go, Server.step, ho, hm, Machine.step]

theorem Stands.server (h : Stands s r) {v : Server.Move}
    (hv : ServerRun.isOpen r.peer? v = true) (hs : r.server.step v = some a) :
    Stands s { r with server := a } := by
  cases h with
  | past h => exact .past h
  | accepting hst h =>
    obtain h | ⟨f, h⟩ | ⟨peer, m, ha, hg, hm, hr⟩ := h.step s hv hs
    · exact .accepting hst h
    · exact .refused f hst h
    · exact .accepted hst ha hg hm hr
  | refused f hst h =>
    have hst' := Server.stays_step (Server.isOfSession_of_chores h.chores hv hs) hs
    exact .refused f hst (h.stays hst')
  | accepted hst h hg hm hr =>
    have hos := Server.isOfSession_of_chores h.chores hv hs
    have hst' := Server.stays_step hos hs
    obtain ⟨n, hn, hr⟩ := hr.drift (Server.drifts_step hos hv hs hm)
    exact .accepted hst (h.stays hst') (hg.stays hst') hn hr
  | @acting k peer m gs p e t hst hb hm hbk hp ht =>
    have hpeer : r.peer? = some peer := by
      rw [ServerRun.peer?, hst, ← hb.first, Server.peers, List.getElem?_map]
    rw [hpeer] at hv
    obtain ⟨hb, hd⟩ := hb.step hv hs hm
    obtain ⟨n, hn, ht⟩ := ht.drift hd
    exact .acting hst hb hn hbk hp ht

/-- The run asks for the next step, or stops when there is none. -/
theorem stands_act (hb : Beside k peer r.server) (hm : r.server.machine? 0 = some m)
    (hbk : Booked s gs e) (hr : Rested s gs m) :
    Stands s (r.act 0 e k) ∧ ((∃ t, (r.act 0 e k).stage = .acting 0 t e k) ∨
      (∃ c, (r.act 0 e k).stage = .stopping c (.ok e.report)) ∧ Ends s m (.ok e.report)) := by
  have hj := hbk.job?_eq
  cases hp : s.steps[gs.length]? with
  | none =>
    rw [hp, Option.map_none] at hj
    rw [ServerRun.act, hj]
    exact ⟨.past (.inl ⟨_, _, rfl⟩), .inr ⟨⟨_, rfl⟩, hr.ends hbk hp⟩⟩
  | some p =>
    rw [hp, Option.map_some] at hj
    rw [ServerRun.act, hj, hm]
    dsimp only
    rw [go_call hm (p.call_ne_close _)]
    refine ⟨.acting rfl (hb.stays (Server.stays_modify _ fun _ _ => rfl)) ?_ hbk hp (hr.ask hp),
      .inl ⟨_, rfl⟩⟩
    obtain ⟨b, hc, rfl⟩ := Option.map_eq_some_iff.1 hm
    simp [Server.machine?, Server.put, hc]

/-- What follows when the accept is over. -/
theorem Stands.advance_accepting (h : Stands s r) (hsc : r.scenario = s)
    (hst : r.stage = .accepting c) (hq : r.advance = some q) :
    Stands s q ∧ ((∃ f d, r.server.answer? c = some (.failed f) ∧
        q.stage = .stopping d (.error f)) ∨
      ∃ m, r.server.machine? 0 = some m ∧ m.given = [] ∧ m.asked = [] ∧
        ((∃ t e k, q.stage = .acting 0 t e k) ∨
          ∃ d x, q.stage = .stopping d x ∧ Ends s m x)) := by
  rw [ServerRun.advance, hst] at hq
  cases h with
  | past h => simp [hst] at h
  | acting h => simp [hst] at h
  | accepting h hv =>
    obtain rfl := ServerStage.accepting.inj (hst.symm.trans h)
    simp [Server.answer?, hv.finished] at hq
  | refused f h ha =>
    obtain rfl := ServerStage.accepting.inj (hst.symm.trans h)
    obtain rfl : r.stop (.error f) = q := by simpa [ha.answer?] using hq
    exact ⟨.past (.inl ⟨_, _, rfl⟩), .inl ⟨f, _, ha.answer?, rfl⟩⟩
  | @accepted _ peer m h ha hg hm hr =>
    obtain rfl := ServerStage.accepting.inj (hst.symm.trans h)
    have hadd : r.server.go (.spawn .serve) = r.server.add .serve := rfl
    have hb : Beside r.server.fresh peer (r.server.add .serve) := by
      refine ⟨fun x hx => ?_, Nat.lt_succ_self _, fun y hy hk => ?_, hg.placed, hg.first⟩
      · obtain hx | rfl := Server.mem_add hx
        · simp [ha.chores] at hx
        · exact ⟨rfl, fun _ => rfl⟩
      · have hy : y = (c, .accepted 0 true) := by simpa [Server.add, ha.finished] using hy
        rw [hy] at hk
        exact absurd hk (Nat.ne_of_lt ha.lt_fresh)
    dsimp only at hq
    rw [ha.answer?, hadd, hsc] at hq
    obtain rfl := Option.some.inj hq
    obtain ⟨hs, hact⟩ := stands_act (r := ⟨s, r.server.add .serve, .accepting c⟩) hb hm
      (booked_begin s) hr
    refine ⟨hs, .inr ⟨m, hm, hr.given, hr.asked, ?_⟩⟩
    obtain ⟨t, ht⟩ | ⟨⟨d, hd⟩, he⟩ := hact
    · exact .inl ⟨t, _, _, ht⟩
    · exact .inr ⟨d, _, hd, he⟩

/-- What follows when a step is over, or when serving is. -/
theorem Stands.advance_acting {i : Nat} (h : Stands s r) (hst : r.stage = .acting i t e k)
    (hq : r.advance = some q) :
    Stands s q ∧ ∃ m, r.server.machine? i = some m ∧
      ((∃ u b, q.stage = .acting i u b k ∧ Goes s e m b) ∨
      (∃ d x, q.stage = .stopping d x ∧ Ends s m x) ∨
      ∃ d f, q.stage = .stopping d (.error f) ∧ r.server.answer? k = some (.failed f) ∧
        m.given.length = e.report.outcomes.length) := by
  rw [ServerRun.advance, hst] at hq
  dsimp only at hq
  cases h with
  | past h => simp [hst] at h
  | accepting h => simp [hst] at h
  | refused _ h => simp [hst] at h
  | accepted h => simp [hst] at h
  | @acting k' peer m gs p e' t' h hb hm hbk hp ht =>
    obtain ⟨rfl, rfl, rfl, rfl⟩ := ServerStage.acting.inj (hst.symm.trans h)
    have ho : r.server.outcome? 0 t = m.outcome? t := by rw [Server.outcome?, hm, Option.bind_some]
    rw [ho] at hq
    cases hot : m.outcome? t with
    | some o =>
      rw [hot] at hq
      obtain rfl := Option.some.inj hq
      obtain ⟨f, ha, he⟩ | ⟨b, ha, hb', hr⟩ := ht.absorb hbk hp rfl hot
      · rw [ha]
        exact ⟨.past (.inl ⟨_, _, rfl⟩), m, hm, .inr (.inl ⟨_, _, rfl, he⟩)⟩
      · rw [ha]
        obtain ⟨hs, hact⟩ := stands_act hb hm hb' hr
        refine ⟨hs, m, hm, ?_⟩
        obtain ⟨u, hu⟩ | ⟨⟨d, hd⟩, he⟩ := hact
        · exact .inl ⟨u, b, hu, hr.goes hbk hb'⟩
        · exact .inr (.inl ⟨d, _, hd, he⟩)
    | none =>
      rw [hot] at hq
      obtain ⟨o, hk, hq⟩ := Option.map_eq_some_iff.1 hq
      -- serving gives an answer only when it fails
      have hf : ∃ f, o = .failed f := by
        obtain ⟨y, hy, rfl⟩ := Option.map_eq_some_iff.1 hk
        exact hb.answers y (List.mem_of_find?_eq_some hy) (by simpa using List.find?_some hy)
      obtain ⟨f, rfl⟩ := hf
      obtain rfl := hq
      refine ⟨.past (.inl ⟨_, _, rfl⟩), m, hm, .inr (.inr ⟨_, f, rfl, hk, ?_⟩)⟩
      obtain ⟨-, hg, -⟩ | ⟨o, ho, -⟩ := ht.given
      · rw [hg, hbk.report.length]
      · simp [hot] at ho

/-- The run ends when its server has stopped, or has failed to. -/
theorem advance_stopping {x : Except Error Report} (hst : r.stage = .stopping c x)
    (hq : r.advance = some q) : q.stage = .ended x ∨
      ∃ f, r.server.answer? c = some (.failed f) ∧ q.stage = .ended (.error f) := by
  rw [ServerRun.advance, hst] at hq
  obtain ⟨o, ho, rfl⟩ := Option.map_eq_some_iff.1 hq
  split
  next f => exact .inr ⟨f, ho, rfl⟩
  next => exact .inl rfl

theorem scenario_act (i : Nat) (e : Enactment) (k : ChoreId) (r : ServerRun) :
    (r.act i e k).scenario = r.scenario := by
  unfold ServerRun.act
  split <;> rfl

theorem scenario_step {v : ServerRun.Move} (hs : r.step v = some q) :
    q.scenario = r.scenario := by
  cases v with
  | server v =>
    obtain ⟨-, hs⟩ := Option.ite_none_right_eq_some.1 hs
    obtain ⟨d, -, rfl⟩ := Option.map_eq_some_iff.1 hs
    rfl
  | advance =>
    rw [ServerRun.step, ServerRun.advance] at hs
    split at hs
    next =>
      obtain ⟨o, -, rfl⟩ := Option.map_eq_some_iff.1 hs
      split
      · exact scenario_act _ _ _ _
      · rfl
      · rfl
    next =>
      split at hs
      next =>
        obtain rfl := Option.some.inj hs
        split
        · exact scenario_act _ _ _ _
        · rfl
      next =>
        obtain ⟨o, -, rfl⟩ := Option.map_eq_some_iff.1 hs
        split <;> rfl
    next =>
      obtain ⟨o, -, rfl⟩ := Option.map_eq_some_iff.1 hs
      split <;> rfl
    next => simp at hs

theorem Stands.step (h : Stands s r) (hsc : r.scenario = s) {v : ServerRun.Move}
    (hs : r.step v = some q) : Stands s q := by
  cases v with
  | server v =>
    obtain ⟨hv, hs⟩ := Option.ite_none_right_eq_some.1 hs
    obtain ⟨d, hd, rfl⟩ := Option.map_eq_some_iff.1 hs
    exact h.server hv hd
  | advance =>
    cases hst : r.stage with
    | accepting c => exact (h.advance_accepting hsc hst hs).1
    | acting i t e k => exact (h.advance_acting hst hs).1
    | stopping c x =>
      obtain h | ⟨f, -, h⟩ := advance_stopping hst hs
      · exact .past (.inr ⟨_, h⟩)
      · exact .past (.inr ⟨_, h⟩)
    | ended x => simp [ServerRun.step, ServerRun.advance, hst] at hs

theorem Stands.steps (h : Stands s r) (hsc : r.scenario = s) (vs : List Move)
    (hs : r.steps vs = some q) : Stands s q ∧ q.scenario = s := by
  induction vs generalizing r with
  | nil =>
    obtain rfl := Option.some.inj hs
    exact ⟨h, hsc⟩
  | cons v vs ih =>
    obtain ⟨b, hb, hs⟩ := Option.bind_eq_some_iff.1 hs
    exact ih (h.step hsc hb) ((scenario_step hb).trans hsc) hs

/-- While steps are done, an operation that is over is noticed. -/
theorem Stands.acts {i : Nat} (h : Stands s r) (hst : r.stage = .acting i t e k) :
    ∃ m, r.server.machine? i = some m ∧ Acts s e m ∧
      (m.given.length = e.report.outcomes.length + 1 → (r.step .advance).isSome) := by
  cases h with
  | past h => simp [hst] at h
  | accepting h => simp [hst] at h
  | refused _ h => simp [hst] at h
  | accepted h => simp [hst] at h
  | @acting k' peer m gs p e' t' h hb hm hbk hp ht =>
    obtain ⟨rfl, rfl, rfl, rfl⟩ := ServerStage.acting.inj (hst.symm.trans h)
    refine ⟨m, hm, ht.acts hbk hp, fun hl => ?_⟩
    obtain ⟨-, hg, -⟩ | ⟨o, ho, -⟩ := ht.given
    · rw [hg, hbk.report.length] at hl
      omega
    · simp [ServerRun.step, advance, hst, Server.outcome?, hm, ho]

end ServerRun
end Switchboard.Realizer
