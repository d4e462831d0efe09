import Switchboard.Proofs.Realizer.Script
import Switchboard.Proofs.Realizer.ServerCourse
import Switchboard.Realizer.Meeting

/-! The phases of a server's run that goes well, with one peer. Over UDP the chore that serves takes
in what comes for the session, so what waits for it there belongs to the phase, and so does whether
that chore has begun. -/
namespace Switchboard.Realizer.ServerRun
open Session (Machine TaskId Stance)
open Server (Chore ChoreId)

variable {s : Scenario} {peer : Address} {r q : ServerRun} {a b : Phase} {e : Enactment} {p : Step}
  {i n : Nat} {m : Machine} {t u : TaskId} {stage : ServerStage} {chores : List Chore}
  {inbox rest : List Bytes} {x : Stance} {w : Server} {st : Bool} {c k : ChoreId} {wait : Server.Wait}
  {j : Server.Job} {f : Option Error}

structure Posed (s : Scenario) (peer : Address) (r : ServerRun) (stage : ServerStage)
    (chores : List Chore) (inbox : List Bytes) (x : Stance) : Prop where
  stage : r.stage = stage
  chores : r.server.chores = chores
  transport : r.server.settings.transport = s.agent.transport
  size : r.server.settings.loops.buffersize = s.agent.buffersize
  cells : ∃ m, r.server.cells = [⟨m, peer, inbox⟩] ∧ m.Stands x

structure Attends (peer : Address) (w : Server) : Prop where
  listener : ∃ l, w.listener = some l
  table : w.table.entries = [(peer, 0)]
  spent : ∀ y ∈ w.finished, y.1 < w.fresh

def IsServing (starting : Bool) : Server.Wait → Prop
  | .starting => starting = true
  | .listening _ => starting = false
  | _ => False

theorem isServing_starting : IsServing true .starting := rfl

theorem isServing_listening (l : Nat) : IsServing false (.listening l) := rfl

inductive InPhase (s : Scenario) (peer : Address) (r : ServerRun) : Phase → List Bytes → Bool → Prop
    where
  | opening {c : ChoreId} {l : Nat} : r.scenario = s → r.stage = .accepting c →
      r.server.chores = [⟨c, .accept, .listening l, 0, none⟩] →
      r.server.settings.transport = s.agent.transport →
      r.server.settings.loops.buffersize = s.agent.buffersize →
      r.server.cells = [] → r.server.table.entries = [] → r.server.finished = [] →
      r.server.listener = some l → c < r.server.fresh → InPhase s peer r .opening [] false
  | opened {c : ChoreId} {inbox : List Bytes} : r.scenario = s →
      Posed s peer r (.accepting c) [] inbox .ready → Attends peer r.server →
      r.server.answer? c = some (.accepted 0 true) → InPhase s peer r .opened inbox false
  | asked {e : Enactment} {t : TaskId} {k : ChoreId} {wait : Server.Wait} {inbox : List Bytes}
      {st : Bool} {i : Nat} {p : Step} :
      Posed s peer r (.acting 0 t e k) [⟨k, .serve, wait, 0, none⟩] inbox
        (.working t (p.call s.agent.buffersize)) →
      IsServing st wait → r.server.answer? k = none → Attends peer r.server →
      Booked s (s.proper i) e → s.steps[i]? = some p → InPhase s peer r (.asked i) inbox st
  | answered {e : Enactment} {t : TaskId} {k : ChoreId} {wait : Server.Wait} {inbox : List Bytes}
      {st : Bool} {i : Nat} {p : Step} :
      Posed s peer r (.acting 0 t e k) [⟨k, .serve, wait, 0, none⟩] inbox (.told t p.proper) →
      IsServing st wait → r.server.answer? k = none → Attends peer r.server →
      Booked s (s.proper i) e → s.steps[i]? = some p → InPhase s peer r (.answered i) inbox st
  | leaving {y : Report} {c : ChoreId} {t : TaskId} {inbox : List Bytes} :
      Posed s peer r (.stopping c (.ok y)) [⟨c, .stop, .draining 0 t [], 0, none⟩] inbox
        (.shutting t) →
      r.server.answer? c = none → Passes s y → InPhase s peer r .leaving inbox false
  | left {y : Report} {c : ChoreId} {t : TaskId} {inbox : List Bytes} :
      Posed s peer r (.stopping c (.ok y)) [⟨c, .stop, .draining 0 t [], 0, none⟩] inbox (.shut t) →
      r.server.answer? c = none → Passes s y → InPhase s peer r .left inbox false
  | parted {y : Report} {c : ChoreId} {t : TaskId} {inbox : List Bytes} :
      Posed s peer r (.stopping c (.ok y)) [] inbox (.shut t) →
      r.server.answer? c = some .done → Passes s y → InPhase s peer r .parted inbox false
  | ended {y : Report} {t : TaskId} {inbox : List Bytes} :
      Posed s peer r (.ended (.ok y)) [] inbox (.shut t) → Passes s y →
      InPhase s peer r .ended inbox false

theorem server_of_step {v : Server.Move} (h : r.step (.server v) = some q) :
    ∃ w, r.server.step v = some w ∧ q = { r with server := w } := by
  obtain ⟨-, h⟩ := Option.ite_none_right_eq_some.1 h
  obtain ⟨w, hw, rfl⟩ := Option.map_eq_some_iff.1 h
  exact ⟨w, hw, rfl⟩

/-- Whether the network answers the task, which it does not when that receives over UDP. -/
theorem isOutside_reply {y : Session.Task} {rep : Session.Reply}
    (hy : (w.machine? 0).bind (·.task? u) = some y) : w.isOutside 0 (.reply u rep) = true ↔
      w.settings.transport = .tcp ∨ ∀ size d, y.wait ≠ .receiving size d := by
  obtain ⟨id, job, parent, wait, stamp⟩ := y
  cases wait <;> simp [Server.isOutside, Server.isReceiving, hy]

theorem answer?_eq_none (h : ∀ y ∈ w.finished, y.1 < c) : w.answer? c = none := by
  rw [Server.answer?, Option.map_eq_none_iff, List.find?_eq_none]
  intro y hy
  simpa using Nat.ne_of_lt (h y hy)

namespace Posed

theorem machine? (h : Posed s peer r stage chores inbox x) :
    ∃ m, r.server.machine? 0 = some m ∧ m.Stands x := by
  obtain ⟨m, hm, hx⟩ := h.cells
  exact ⟨m, by simp [Server.machine?, hm], hx⟩

theorem outcome?_eq {o : Option Session.Outcome} (h : Posed s peer r stage chores inbox x)
    (hx : ∀ m : Machine, m.Stands x → m.outcome? t = o) : r.server.outcome? 0 t = o := by
  obtain ⟨m, hm, hs⟩ := h.machine?
  rw [Server.outcome?, hm, Option.bind_some, hx m hs]

theorem step_inner (h : Posed s peer r stage chores inbox x) {v : Session.Move}
    (hv : v.isInner = true) (i : Nat) : r.server.step (.session i v) = none := by
  obtain ⟨m, hm, hx⟩ := h.cells
  cases i with
  | zero => simp [Server.step, Server.machine?, hm, hx.step_inner hv]
  | succ i => simp [Server.step, Server.machine?, hm]

theorem later (h : Posed s peer r stage chores inbox x) (d : Duration) :
    Posed s peer { r with server := r.server.later d } stage chores inbox x := by
  obtain ⟨m, hm, hx⟩ := h.cells
  exact ⟨h.stage, h.chores, h.transport, h.size, _, by simp [Server.later, Server.Cell.later, hm],
    hx.later d⟩

theorem put (h : Posed s peer r stage chores inbox x) {m : Machine} {x' : Stance}
    (hm : m.Stands x') (inbox' : List Bytes) {w : Server} (hc : w.chores = r.server.chores)
    (hs : w.settings = r.server.settings) (hw : w.cells = [⟨m, peer, inbox'⟩]) :
    Posed s peer { r with server := w } stage chores inbox' x' :=
  ⟨h.stage, hc.trans h.chores, hs ▸ h.transport, hs ▸ h.size, m, hw, hm⟩

theorem reply (h : Posed s peer r stage chores inbox x) {y : Session.Reply} {x' : Stance}
    (hx : ∀ m : Machine, m.Stands x → ∃ a, m.step (.reply t y) = some a ∧ a.Stands x')
    (ho : r.server.isOutside 0 (.reply t y) = true) : ∃ a,
    r.step (.server (.session 0 (.reply t y))) = some { r with server := r.server.put 0 a } ∧
      Posed s peer { r with server := r.server.put 0 a } stage chores inbox x' := by
  obtain ⟨m, hm, hs⟩ := h.cells
  obtain ⟨a, ha, hs'⟩ := hx m hs
  refine ⟨a, ?_, h.put hs' inbox rfl rfl (by simp [Server.put, hm])⟩
  simp [ServerRun.step, isOpen, Server.step, ho, Server.machine?, hm, ha]

theorem awaits (h : Posed s peer r stage chores inbox x) {y : Session.Task}
    (hy : (r.server.machine? 0).bind (·.task? u) = some y) : x.Awaits u y.wait := by
  obtain ⟨m, hm, hx⟩ := h.machine?
  exact hx.awaits (by simpa [hm] using hy)

theorem exists_task (h : Posed s peer r stage chores inbox x)
    (hx : (∃ c, x = .working t c) ∨ x = .shutting t) :
    ∃ u y, (r.server.machine? 0).bind (·.task? u) = some y := by
  obtain ⟨m, hm, hs⟩ := h.machine?
  obtain ⟨y, hy⟩ := hs.exists_task hx
  exact ⟨t, y, by simp [hm, hy]⟩

/-- A session that is not to be closed is not let go. -/
theorem unreleased (h : Posed s peer r stage chores inbox x) (hx : x.isClosing = false) :
    (r.server.machine? 0).any (·.session.released) = false := by
  obtain ⟨m, hm, hs⟩ := h.machine?
  simp [hm, (hs.inUse hx).2]

end Posed

theorem chore?_eq (hx : w.chores = [⟨c, j, wait, n, f⟩]) (k : ChoreId) :
    w.chore? k = if c = k then some ⟨c, j, wait, n, f⟩ else none := by
  rw [Server.chore?, hx]
  by_cases hk : c = k <;> simp [hk]

/-- Who serves waits for no session, so nothing but its chore goes when it is dropped. -/
theorem go_cancel (hc : w.chores = [⟨k, .serve, wait, 0, none⟩]) (hw : IsServing st wait) :
    w.go (.cancel k) = { w with chores := [] } := by
  have hr : w.release ⟨k, .serve, wait, 0, none⟩ = w := by
    cases wait with
    | starting | listening => rfl
    | _ => exact hw.elim
  simp [Server.go, Server.step, chore?_eq hc, hr, hc, Server.isPublic]

/-- A server that stops closes the one session on its table. -/
theorem go_stop (ha : Attends peer w) (hc : w.chores = []) (hm : w.cells = [⟨m, peer, inbox⟩]) :
    (w.go (.call .stop)).chores = [⟨w.fresh, .stop, .draining 0 m.fresh [], 0, none⟩] ∧
      (w.go (.call .stop)).cells = [⟨m.call .close, peer, inbox⟩] ∧
      (w.go (.call .stop)).settings = w.settings ∧ (w.go (.call .stop)).finished = w.finished := by
  obtain ⟨l, hl⟩ := ha.listener
  have ht : w.table.sessions = [0] := by simp [Server.Table.sessions, ha.table]
  simp [Server.go, Server.step, Server.isPublic, Server.call, Server.add, Server.begin,
    Server.beginStop, hl, ht, Server.emit, Server.drain, Server.ask, Server.machine?, hm, Server.put,
    Server.update, hc]

/-- The run asks for the step behind those that are written down, or stops. -/
theorem inPhase_act (h : Posed s peer r stage [⟨k, .serve, wait, 0, none⟩] inbox .ready)
    (hw : IsServing st wait) (hk : r.server.answer? k = none) (ha : Attends peer r.server)
    (hs : Scripted s) (hb : Booked s (s.proper i) e) (hi : i ≤ s.steps.length) :
    ∃ st, InPhase s peer (r.act 0 e k) (.behind s.steps.length i) inbox st := by
  obtain ⟨m, hm, hx⟩ := h.cells
  have hl := length_proper hi
  have hjob := hb.job?_eq
  rw [hl] at hjob
  have hmach : r.server.machine? 0 = some m := by simp [Server.machine?, hm]
  unfold Phase.behind
  split
  next hlt =>
    have hp := List.getElem?_eq_getElem hlt
    rw [hp, Option.map_some] at hjob
    generalize s.steps[i] = p at hjob hp
    rw [ServerRun.act, hjob, hmach]
    dsimp only
    rw [go_call hmach (p.call_ne_close _)]
    refine ⟨st, .asked ⟨rfl, h.chores, h.transport, h.size, _, ?_, hx.call (p.call_ne_close _)⟩ hw hk
      ⟨ha.listener, ha.table, ha.spent⟩ hb hp⟩
    simp [Server.put, hm]
  next hge =>
    -- the chore that serves is dropped, and what stops closes the session
    obtain rfl : i = s.steps.length := Nat.le_antisymm hi (Nat.not_lt.1 hge)
    rw [List.getElem?_eq_none (Nat.le_refl _), Option.map_none] at hjob
    rw [ServerRun.act, hjob]
    have ha' : Attends peer { r.server with chores := [] } := ⟨ha.listener, ha.table, ha.spent⟩
    obtain ⟨hc, hm', hset, hf⟩ := go_stop ha' rfl hm
    dsimp only [ServerRun.stop]
    rw [go_cancel h.chores hw]
    have htr := (congrArg (·.transport) hset).trans h.transport
    have hsz := (congrArg (·.loops.buffersize) hset).trans h.size
    refine ⟨false, .leaving ⟨rfl, hc, htr, hsz, _, hm', hx.close⟩ (answer?_eq_none ?_)
      (hb.passes hs)⟩
    rw [hf]
    exact ha.spent

/-- A run begins with a server that waits for a peer. -/
theorem inPhase_new (hs : s.agent.buffersize ≠ 0) (host : Text) (here peer : Address) :
    ∃ r, ServerRun.new s host (.ok here) = .ok r ∧ InPhase s peer r .opening [] false := by
  have hv : Server.new (serverSettings s host) = .ok { settings := serverSettings s host } := by
    simp [Server.new, Server.Settings.validate, serverSettings, hs, bind, Except.bind, pure, Except.pure]
  exact ⟨_, by rw [ServerRun.new, hv]; rfl,
    .opening rfl rfl rfl rfl rfl rfl rfl rfl rfl (Nat.zero_lt_one)⟩

theorem begin_serve (h : Posed s peer r stage [⟨k, .serve, .starting, 0, none⟩] inbox x)
    (ha : Attends peer r.server) : ∃ l,
    Posed s peer { r with server := r.server.begin ⟨k, .serve, .starting, 0, none⟩ } stage
      [⟨k, .serve, .listening l, 0, none⟩] inbox x ∧
    Attends peer (r.server.begin ⟨k, .serve, .starting, 0, none⟩) ∧
    (r.server.begin ⟨k, .serve, .starting, 0, none⟩).answer? k = r.server.answer? k := by
  obtain ⟨l, hl⟩ := ha.listener
  have hb : r.server.begin ⟨k, .serve, .starting, 0, none⟩ =
      (r.server.emit .willAccept).update ⟨k, .serve, .listening l, 0, none⟩ := by
    simp [Server.begin, Server.beginAccept, hl]
  rw [hb]
  exact ⟨l, ⟨h.stage, by simp [Server.update, Server.emit, h.chores], h.transport, h.size, h.cells⟩,
    ⟨⟨l, hl⟩, ha.table, ha.spent⟩, rfl⟩

/-- A chore that serves hands a message of the peer to its session. -/
theorem Posed.hand (h : Posed s peer r stage [⟨k, .serve, wait, 0, none⟩] inbox x)
    (hx : x.isClosing = false) (ha : Attends peer r.server) {d : Bytes}
    (hd : Session.isExitToken d = false) (hl : d.length ≤ s.agent.buffersize)
    (hr : inbox.length < Server.inboxCapacity) : ∃ l,
    Posed s peer { r with server := r.server.datagram ⟨k, .serve, wait, 0, none⟩ peer d } stage
      [⟨k, .serve, .listening l, 0, none⟩] (inbox ++ [d]) x ∧
    Attends peer (r.server.datagram ⟨k, .serve, wait, 0, none⟩ peer d) ∧
    (r.server.datagram ⟨k, .serve, wait, 0, none⟩ peer d).answer? k = r.server.answer? k := by
  obtain ⟨m, hm, hs⟩ := h.cells
  obtain ⟨l, hli⟩ := ha.listener
  obtain ⟨hu, -⟩ := hs.inUse hx
  have hal : r.server.isAlive 0 = true := by
    simp [Server.isAlive, Server.machine?, hm, hu.orderly.alive_iff.2 hu.active]
  have hg : (r.server.table.get? peer).filter r.server.isAlive = some 0 := by
    simp [Server.Table.get?, ha.table, hal]
  have hlen : d.take r.server.settings.loops.buffersize = d :=
    List.take_of_length_le (h.size ▸ hl)
  have hw : r.server.datagram ⟨k, .serve, wait, 0, none⟩ peer d =
      ((r.server.hand 0 d).emit .willAccept).update ⟨k, .serve, .listening l, 0, none⟩ := by
    simp [Server.datagram, hg, hlen, Server.accepted, Server.isLasting, Server.beginAccept,
      Server.hand, hli]
  rw [hw]
  refine ⟨l, ⟨h.stage, ?_, h.transport, h.size, m.deliver r.server.settings.loops.buffersize d, ?_,
    hs.deliver _ hd⟩, ⟨⟨l, hli⟩, ha.table, ha.spent⟩, rfl⟩
  · simp [Server.update, Server.emit, Server.hand, h.chores]
  · simp [Server.update, Server.emit, Server.hand, hm, hr]

namespace InPhase

theorem within (h : InPhase s peer r a inbox st) : a.Within s.steps.length := by
  cases h with
  | asked _ _ _ _ _ hp | answered _ _ _ _ _ hp => exact (List.getElem?_eq_some_iff.1 hp).1
  | _ => trivial

theorem own_advance (h : InPhase s peer r a inbox st) (hs : Scripted s) (hq : r.advance = some q) :
    ∃ b st', a.next s.steps.length = some b ∧ InPhase s peer q b inbox st' := by
  cases h with
  | opening _ hst _ _ _ _ _ hf => simp [advance, hst, Server.answer?, hf] at hq
  | opened hsc h ha ho =>
    have hadd : r.server.go (.spawn .serve) = r.server.add .serve := rfl
    obtain rfl : ({ r with server := r.server.add .serve } : ServerRun).act 0 (.begin s)
        r.server.fresh = q := by simpa [advance, h.stage, ho, hadd, hsc] using hq
    have h' : Posed s peer { r with server := r.server.add .serve } r.stage
        [⟨r.server.fresh, .serve, .starting, 0, none⟩] inbox .ready :=
      ⟨rfl, by simp [Server.add, h.chores], h.transport, h.size, h.cells⟩
    have ha' : Attends peer (r.server.add .serve) :=
      ⟨ha.listener, ha.table, fun y hy => Nat.lt_succ_of_lt (ha.spent y hy)⟩
    have hb : Booked s (s.proper 0) (.begin s) := booked_begin s
    obtain ⟨st', hp⟩ := inPhase_act h' isServing_starting (answer?_eq_none ha.spent) ha' hs hb
      (Nat.zero_le _)
    exact ⟨_, st', rfl, hp⟩
  | asked h _ hk =>
    have ho := h.outcome?_eq fun m hm => hm.outcome?_working
    simp [advance, h.stage, ho, hk] at hq
  | answered h hw hk ha hb hp =>
    have ho := h.outcome?_eq fun m hm => hm.2.2
    obtain ⟨b, hab, hb⟩ := hb.proper hs hp
    obtain rfl : r.act 0 b _ = q := by simpa [advance, h.stage, ho, hab] using hq
    obtain ⟨m, hm, hx⟩ := h.cells
    have h' := h.put hx.of_told inbox rfl rfl hm
    obtain ⟨st', hp⟩ := inPhase_act h' hw hk ha hs hb (List.getElem?_eq_some_iff.1 hp).1
    exact ⟨_, st', rfl, hp⟩
  | leaving h ho | left h ho => simp [advance, h.stage, ho] at hq
  | @parted y c t inbox h ho hy =>
    obtain rfl : { r with stage := .ended (.ok y) } = q := by simpa [advance, h.stage, ho] using hq
    exact ⟨_, false, rfl, .ended ⟨rfl, h.chores, h.transport, h.size, h.cells⟩ hy⟩
  | ended h => simp [advance, h.stage] at hq

/-- The chores of a phase wait for peers, or for the session. -/
theorem wait_of_mem (h : InPhase s peer r a inbox st) {y : Chore} (hy : y ∈ r.server.chores) :
    (∃ l, y.wait = .listening l) ∨ (∃ t, y.wait = .draining 0 t []) ∨
      st = true ∧ y.wait = .starting := by
  have one {z : Chore} (hc : r.server.chores = [z]) : y = z := List.mem_singleton.1 (hc ▸ hy)
  cases h with
  | opening _ _ hc =>
    obtain rfl := one hc
    exact .inl ⟨_, rfl⟩
  | @asked e t k wait inbox st i p h hw | @answered e t k wait inbox st i p h hw =>
    obtain rfl := one h.chores
    cases wait with
    | listening l => exact .inl ⟨l, rfl⟩
    | starting => exact .inr (.inr ⟨hw, rfl⟩)
    | _ => exact hw.elim
  | leaving h | left h =>
    obtain rfl := one h.chores
    exact .inr (.inl ⟨_, rfl⟩)
  | opened _ h | parted h | ended h => simp [h.chores] at hy

theorem own_begin (h : InPhase s peer r a inbox st) {c : ChoreId} {w : Server}
    (hq : r.server.step (.begin c) = some w) :
    st = true ∧ InPhase s peer { r with server := w } a inbox false := by
  cases Server.turn_step hq with
  | @begin y hy hw =>
    obtain ⟨l, hl⟩ | ⟨t, ht⟩ | ⟨hst, -⟩ := h.wait_of_mem hy
    · simp [hw] at hl
    · simp [hw] at ht
    · refine ⟨hst, ?_⟩
      subst hst
      cases h with
      | @asked e t k wait _ _ i p h hsv hk ha hb hp =>
        obtain rfl := List.mem_singleton.1 (h.chores ▸ hy)
        obtain rfl : wait = .starting := hw
        obtain ⟨l, h', ha', hf⟩ := begin_serve h ha
        exact .asked h' (isServing_listening l) (hf.trans hk) ha' hb hp
      | @answered e t k wait _ _ i p h hsv hk ha hb hp =>
        obtain rfl := List.mem_singleton.1 (h.chores ▸ hy)
        obtain rfl : wait = .starting := hw
        obtain ⟨l, h', ha', hf⟩ := begin_serve h ha
        exact .answered h' (isServing_listening l) (hf.trans hk) ha' hb hp

theorem own_proceed (h : InPhase s peer r a inbox st) {c : ChoreId} {w : Server}
    (hq : r.server.step (.proceed c) = some w) :
    a = .left ∧ InPhase s peer { r with server := w } .parted inbox false := by
  obtain ⟨y, hf, hp⟩ := Option.bind_eq_some_iff.1 hq
  have hy := (Server.of_chore? hf).1
  cases h with
  | opened _ h | parted h | ended h => simp [h.chores] at hy
  | opening _ _ hc =>
    obtain rfl := List.mem_singleton.1 (hc ▸ hy)
    simp [Server.proceed] at hp
  | @asked e t k wait inbox st i p h hw | @answered e t k wait inbox st i p h hw =>
    obtain rfl := List.mem_singleton.1 (h.chores ▸ hy)
    cases wait with
    | starting | listening => simp [Server.proceed] at hp
    | _ => exact hw.elim
  | leaving h =>
    obtain rfl := List.mem_singleton.1 (h.chores ▸ hy)
    simp [Server.proceed, h.outcome?_eq fun m hm => hm.outcome?_shutting] at hp
  | @left z k t inbox h ho hz =>
    obtain rfl := List.mem_singleton.1 (h.chores ▸ hy)
    obtain rfl : (r.server.emit .didStop).stopped ⟨k, .stop, .draining 0 t [], 0, none⟩ = w := by
      simpa [Server.proceed, h.outcome?_eq fun m hm => hm.2, Server.drain] using hp
    refine ⟨rfl, .parted ⟨h.stage, ?_, h.transport, h.size, h.cells⟩ ?_ hz⟩
    · simp [Server.stopped, Server.settle, Server.emit, h.chores]
    · simp [Server.stopped, Server.settle, Server.answer?]

/-- What the run does by itself brings it to the next phase, or has serving begin. -/
theorem own (h : InPhase s peer r a inbox st) (hs : Scripted s) {v : ServerRun.Move}
    (hv : Meeting.isOfServer v = true) (hq : r.step v = some q) :
    (∃ b st', a.next s.steps.length = some b ∧ InPhase s peer q b inbox st') ∨
      st = true ∧ InPhase s peer q a inbox false := by
  cases v with
  | advance => exact .inl (h.own_advance hs hq)
  | server v =>
    obtain ⟨w, hw, rfl⟩ := server_of_step hq
    cases v with
    | begin c => exact .inr (h.own_begin hw)
    | proceed c =>
      obtain ⟨rfl, hp⟩ := h.own_proceed hw
      exact .inl ⟨_, false, rfl, hp⟩
    | wake c =>
      cases Server.turn_step hw with
      | @wake y d hy hwt =>
        obtain ⟨l, hl⟩ | ⟨t, ht⟩ | ⟨-, ht⟩ := h.wait_of_mem hy
        · simp [hwt] at hl
        · simp [hwt] at ht
        · simp [hwt] at ht
    | session i u =>
      cases h with
      | opening _ _ _ _ _ hm => simp [Server.step, Server.machine?, hm] at hw
      | opened _ h | asked h | answered h | leaving h | left h | parted h | ended h =>
        simp [h.step_inner hv] at hw
    | _ => simp [Meeting.isOfServer] at hv

/-- When there is a next phase, or serving is to begin, the run comes to it by itself. -/
theorem own_isSome (h : InPhase s peer r a inbox st)
    (hn : (a.next s.steps.length).isSome ∨ st = true) :
    ∃ v, Meeting.isOfServer v = true ∧ (r.step v).isSome := by
  cases h with
  | opening | leaving => simp [Phase.next] at hn
  | ended => simp [Phase.next] at hn
  | opened _ h ha ho =>
    exact ⟨.advance, rfl, by simp [ServerRun.step, advance, h.stage, ho]⟩
  | answered h =>
    have ho := h.outcome?_eq fun m hm => hm.2.2
    exact ⟨.advance, rfl, by simp [ServerRun.step, advance, h.stage, ho]⟩
  | parted h ho => exact ⟨.advance, rfl, by simp [ServerRun.step, advance, h.stage, ho]⟩
  | @left z k t inbox h =>
    have ho := h.outcome?_eq fun m hm => hm.2
    refine ⟨.server (.proceed k), rfl, ?_⟩
    simp [ServerRun.step, isOpen, Server.step, chore?_eq h.chores, Server.proceed, ho]
  | @asked e t k wait _ st i p h hw =>
    obtain rfl : st = true := by simpa [Phase.next] using hn
    obtain rfl : wait = .starting := by
      cases wait with
      | starting => rfl
      | listening => simp [IsServing] at hw
      | _ => exact hw.elim
    exact ⟨.server (.begin k), rfl,
      by simp [ServerRun.step, isOpen, Server.step, chore?_eq h.chores]⟩

theorem pass (h : InPhase s peer r a inbox st) (d : Duration) :
    ∃ q, r.step (.server (.pass d)) = some q ∧ InPhase s peer q a inbox st := by
  refine ⟨{ r with server := r.server.later d }, rfl, ?_⟩
  cases h with
  | opening hsc hst hc htr hsz hm ht hf hl hlt =>
    exact .opening hsc hst hc htr hsz (by simp [Server.later, hm]) ht hf hl hlt
  | opened hsc h ha ho => exact .opened hsc (h.later d) ⟨ha.listener, ha.table, ha.spent⟩ ho
  | asked h hw hk ha hb hp =>
    exact .asked (h.later d) hw hk ⟨ha.listener, ha.table, ha.spent⟩ hb hp
  | answered h hw hk ha hb hp =>
    exact .answered (h.later d) hw hk ⟨ha.listener, ha.table, ha.spent⟩ hb hp
  | leaving h ho hz => exact .leaving (h.later d) ho hz
  | left h ho hz => exact .left (h.later d) ho hz
  | parted h ho hz => exact .parted (h.later d) ho hz
  | ended h hz => exact .ended (h.later d) hz

theorem result?_ended (h : InPhase s peer r .ended inbox st) :
    ∃ y, r.result? = some (.ok y) ∧ Passes s y := by
  cases h with
  | ended h hy => exact ⟨_, by rw [result?, h.stage], hy⟩

theorem ended_of_result? (h : InPhase s peer r a inbox st) {z : Except Error Report}
    (hz : r.result? = some z) : a = .ended := by
  cases h with
  | ended => rfl
  | opening _ hst => simp [result?, hst] at hz
  | opened _ h | asked h | answered h | leaving h | left h | parted h =>
    simp [result?, h.stage] at hz

theorem transport (h : InPhase s peer r a inbox st) :
    r.server.settings.transport = s.agent.transport := by
  cases h with
  | opening _ _ _ htr => exact htr
  | opened _ h | asked h | answered h | leaving h | left h | parted h | ended h => exact h.transport

/-- While steps are left, the session is not closed. -/
theorem unreleased (h : InPhase s peer r a inbox st)
    (ha : a.done s.steps.length < s.steps.length) :
    (r.server.machine? 0).any (·.session.released) = false := by
  cases h with
  | opening _ _ _ _ _ hm => simp [Server.machine?, hm]
  | opened _ h | asked h | answered h => exact h.unreleased rfl
  | leaving | left | parted | ended => exact absurd ha (Nat.lt_irrefl _)

theorem exists_task (h : InPhase s peer r a inbox st) (ha : (∃ i, a = .asked i) ∨ a = .leaving) :
    ∃ u y, (r.server.machine? 0).bind (·.task? u) = some y := by
  cases h with
  | asked h => exact h.exists_task (.inl ⟨_, rfl⟩)
  | leaving h => exact h.exists_task (.inr rfl)
  | opening | opened | answered | left | parted | ended => simp at ha

/-! What the network does. -/

/-- The accept takes the peer, whose session is the first. -/
theorem greet (h : InPhase s peer r .opening [] st) {y : Chore} (hy : y ∈ r.server.chores)
    (hm : m.Stands .ready) {w : Server} (hw : w.cells = [⟨m, peer, inbox⟩])
    (ht : w.table = r.server.table.insert peer 0) (hset : w.settings = r.server.settings)
    (hc : w.chores = r.server.chores) (hf : w.finished = r.server.finished)
    (hl : w.fresh = r.server.fresh) (hli : w.listener = r.server.listener) :
    InPhase s peer { r with server := w.accepted y 0 true } .opened inbox false := by
  cases h with
  | @opening c l hsc hst hch htr hsz hcs hte hfi hlis hlt =>
    obtain rfl := List.mem_singleton.1 (hch ▸ hy)
    obtain ⟨t, ha⟩ := Server.accepted_eq 0 true w (x := ⟨c, .accept, .listening l, 0, none⟩) rfl
    rw [ha]
    refine .opened hsc ⟨hst, ?_, hset ▸ htr, hset ▸ hsz, m, hw, hm⟩ ⟨⟨l, hli.trans hlis⟩, ?_, ?_⟩ ?_
    · simp [Server.settle, hc, hch]
    · simp [Server.settle, ht, Server.Table.insert, Server.Table.erase, hte]
    · simp [Server.settle, hf, hfi, hl, hlt]
    · simp [Server.settle, Server.answer?]

theorem connect (h : InPhase s peer r .opening inbox st) {w : Server}
    (hq : r.server.step (.connected c peer) = some w) :
    InPhase s peer { r with server := w } .opened [] false := by
  cases Server.turn_step hq with
  | @connected y l _ hy =>
    have h' := h
    cases h with
    | opening _ _ _ _ _ hcs hte =>
      have hw : r.server.connected y peer = (r.server.enrol peer).accepted y 0 true := by
        simp [Server.connected, Server.Table.get?, hte, hcs]
      have hm : (r.server.newCell peer).machine.Stands .ready := Machine.stands_ready rfl rfl rfl
      rw [hw]
      exact h'.greet (w := r.server.enrol peer) hy hm (by simp [Server.enrol, hcs, Server.newCell])
        (by simp [Server.enrol, hcs]) rfl rfl rfl rfl rfl

theorem connect_isSome (h : InPhase s peer r .opening inbox st) (ht : s.agent.transport = .tcp) :
    ∃ c, (r.step (.server (.connected c peer))).isSome := by
  cases h with
  | @opening c l _ hst hch htr =>
    refine ⟨c, ?_⟩
    simp [ServerRun.step, isOpen, peer?, hst, Server.step, chore?_eq hch, htr, ht, Server.isListening]

theorem deliver (h : InPhase s peer r a inbox st) {d : Bytes} (hd : Session.isExitToken d = false)
    (hl : d.length ≤ s.agent.buffersize) (hr : inbox.length < Server.inboxCapacity) {w : Server}
    (hq : r.server.step (.datagram c peer d) = some w) :
    s.agent.transport = .udp ∧ ∃ b, (b = a ∨ a = .opening ∧ b = .opened) ∧
      InPhase s peer { r with server := w } b (inbox ++ [d]) false := by
  cases Server.turn_step hq with
  | @datagram y l _ _ hy hw htr =>
    have h' := h
    refine ⟨h.transport.symm.trans htr, ?_⟩
    cases h with
    | @opening c l _ _ hch _ hsz hcs hte =>
      have hlen : d.take r.server.settings.loops.buffersize = d :=
        List.take_of_length_le (hsz ▸ hl)
      have hw : r.server.datagram y peer d = ((r.server.enrol peer).hand 0 d).accepted y 0 true := by
        simp [Server.datagram, Server.Table.get?, hte, hcs, hlen]
      have hm : (r.server.newCell peer).machine.Stands .ready := Machine.stands_ready rfl rfl rfl
      rw [hw]
      refine ⟨_, .inr ⟨rfl, rfl⟩, h'.greet (w := (r.server.enrol peer).hand 0 d) hy
        (hm.deliver r.server.settings.loops.buffersize hd) ?_ ?_ rfl rfl rfl rfl rfl⟩
      · simp [Server.enrol, Server.hand, hcs, Server.newCell, Server.inboxCapacity]
      · simp [Server.enrol, Server.hand, hcs]
    | asked h hsv hk ha hb hp =>
      obtain rfl := List.mem_singleton.1 (h.chores ▸ hy)
      obtain ⟨l, h, ha, hf⟩ := h.hand rfl ha hd hl hr
      exact ⟨_, .inl rfl, .asked h (isServing_listening l) (hf.trans hk) ha hb hp⟩
    | answered h hsv hk ha hb hp =>
      obtain rfl := List.mem_singleton.1 (h.chores ▸ hy)
      obtain ⟨l, h, ha, hf⟩ := h.hand rfl ha hd hl hr
      exact ⟨_, .inl rfl, .answered h (isServing_listening l) (hf.trans hk) ha hb hp⟩
    | leaving h | left h =>
      obtain rfl := List.mem_singleton.1 (h.chores ▸ hy)
      simp at hw
    | opened _ h | parted h | ended h => simp [h.chores] at hy

theorem deliver_isSome (h : InPhase s peer r a inbox false)
    (ha : a = .opening ∨ ∃ i, a = .asked i) (ht : s.agent.transport = .udp) (d : Bytes) :
    ∃ c, (r.step (.server (.datagram c peer d))).isSome := by
  cases h with
  | @opening c l _ hst hch htr =>
    refine ⟨c, ?_⟩
    simp [ServerRun.step, isOpen, Server.step, chore?_eq hch, htr, ht, Server.isListening]
  | @asked e t k wait _ _ i p h hw =>
    cases wait with
    | listening l =>
      refine ⟨k, ?_⟩
      simp [ServerRun.step, isOpen, Server.step, chore?_eq h.chores, h.transport, ht,
        Server.isListening]
    | starting => simp [IsServing] at hw
    | _ => exact hw.elim
  | opened | answered | leaving | left | parted | ended => simp at ha

/-- The session has just one task, if any, and the answer to that brings the run further. Over UDP the
network does not answer receives. -/
theorem answer (h : InPhase s peer r a inbox st) (hs : Scripted s) {y : Session.Task}
    (hy : (r.server.machine? 0).bind (·.task? u) = some y) : ∃ rep, a.Awaits s y.wait rep ∧
      (r.server.isOutside 0 (.reply u rep) = true → ∃ q,
        r.step (.server (.session 0 (.reply u rep))) = some q ∧
        InPhase s peer q a.noted inbox st) := by
  cases h with
  | opening _ _ _ _ _ hm => simp [Server.machine?, hm] at hy
  | opened _ h | answered h | left h | parted h | ended h => exact (h.awaits hy).elim
  | asked h hsv hk ha hb hp =>
    obtain ⟨rfl, hw⟩ := h.awaits hy
    refine ⟨_, .step hp hw, fun ho => ?_⟩
    obtain ⟨n, hq, h⟩ := h.reply (fun m hm => stands_reply (hs _ (List.mem_of_getElem? hp)) hm) ho
    exact ⟨_, hq, .answered h hsv hk ⟨ha.listener, ha.table, ha.spent⟩ hb hp⟩
  | leaving h hk hz =>
    obtain ⟨rfl, hw⟩ := h.awaits hy
    refine ⟨_, .close hw, fun ho => ?_⟩
    obtain ⟨n, hq, h⟩ := h.reply (fun m hm => hm.closed) ho
    exact ⟨_, hq, .left h hk hz⟩

/-- The session takes the oldest message that waits for it. -/
theorem receive (h : InPhase s peer r a inbox st) (hs : Scripted s) {w : Server}
    (hq : r.server.step (.receive 0 u) = some w) : ∃ i p d rest, a = .asked i ∧
      s.steps[i]? = some p ∧ p.action = .recv ∧ inbox = d :: rest ∧
      (d = p.wire → d.length ≤ s.agent.buffersize →
        InPhase s peer { r with server := w } (.answered i) rest st) := by
  obtain ⟨-, hq⟩ := Option.ite_none_right_eq_some.1 hq
  obtain ⟨cell, hc, hq⟩ := Option.bind_eq_some_iff.1 hq
  obtain ⟨y, hy, hq⟩ := Option.bind_eq_some_iff.1 hq
  have awaits {stage : ServerStage} {chores : List Chore} {x : Stance}
      (h : Posed s peer r stage chores inbox x) : x.Awaits u y.wait ∧
        ∃ m, cell = ⟨m, peer, inbox⟩ ∧ m.Stands x := by
    obtain ⟨m, hm, hx⟩ := h.cells
    obtain rfl : ⟨m, peer, inbox⟩ = cell := by simpa [hm] using hc
    exact ⟨hx.awaits hy, m, rfl, hx⟩
  cases h with
  | opening _ _ _ _ _ hm => simp [hm] at hc
  | opened _ h | answered h | left h | parted h | ended h => exact (awaits h).1.elim
  | leaving h =>
    obtain ⟨-, hw⟩ := (awaits h).1
    simp [hw] at hq
  | @asked e t k wait _ _ i p h hsv hk ha hb hp =>
    obtain ⟨⟨rfl, hw⟩, m, rfl, hx⟩ := awaits h
    cases hact : p.action with
    | send =>
      obtain ⟨d, hw⟩ := Step.waitsAt_send hact hw
      simp [hw] at hq
    | recv =>
      obtain ⟨l, hw⟩ := Step.waitsAt_recv hact hw
      cases inbox with
      | nil =>
        obtain ⟨n, hm, -⟩ := h.cells
        have hf : r.server.isFed 0 = true := by
          simp [Server.isFed, hm, Server.Table.holds, Server.Table.get?, ha.table]
        simp [hw, hf] at hq
      | cons d rest =>
        refine ⟨i, p, d, rest, rfl, hp, hact, rfl, ?_⟩
        rintro rfl hl
        have hrep : p.reply = .received p.wire := by rw [Step.reply, hact]
        obtain ⟨n, hn, hx'⟩ := stands_reply (hs p (List.mem_of_getElem? hp)) hx
        rw [hrep] at hn
        simp only [hw, List.take_of_length_le hl, hn, bind, Option.bind_some, pure,
          Option.some.injEq] at hq
        obtain rfl := hq
        obtain ⟨m', hm', -⟩ := h.cells
        exact .answered (h.put hx' rest rfl rfl (by simp [hm'])) hsv hk
          ⟨ha.listener, ha.table, ha.spent⟩ hb hp

theorem receive_isSome (h : InPhase s peer r (.asked i) (p.wire :: rest) st) (hs : Scripted s)
    (hp : s.steps[i]? = some p) (hact : p.action = .recv) (hl : p.wire.length ≤ s.agent.buffersize)
    (ht : s.agent.transport = .udp) : ∃ u, (r.step (.server (.receive 0 u))).isSome := by
  cases h with
  | @asked e t k wait _ _ i p' h hsv hk ha hb hp' =>
    obtain rfl := Option.some.inj (hp.symm.trans hp')
    obtain ⟨m, hm, hx⟩ := h.cells
    obtain ⟨y, hy⟩ := hx.exists_task (.inl ⟨_, rfl⟩)
    obtain ⟨-, hw⟩ := hx.awaits hy
    obtain ⟨l, hw⟩ := Step.waitsAt_recv hact hw
    have hrep : p.reply = .received p.wire := by rw [Step.reply, hact]
    obtain ⟨n, hn, -⟩ := stands_reply (hs p (List.mem_of_getElem? hp)) hx
    rw [hrep] at hn
    refine ⟨t, ?_⟩
    simp [ServerRun.step, isOpen, Server.step, h.transport, ht, Server.receive, hm, hy, hw,
      List.take_of_length_le hl, hn]

end InPhase
end Switchboard.Realizer.ServerRun
