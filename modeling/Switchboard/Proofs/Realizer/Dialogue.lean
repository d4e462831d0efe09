import Switchboard.Proofs.Realizer.ClientPhases
import Switchboard.Proofs.Realizer.ServerPhases

/-! Two realizers that do the same scenario from its two ends. They do as many steps as there are
messages, and at any time one of them is ahead by at most one, with that message on its way. -/
namespace Switchboard.Realizer
open Session (Wait)

/-- Two scenarios over the same templates. The client sends the first message and is sent the second,
and so on; the server does the reverse. -/
structure Mirrored (ts : List Template) (c s : Scenario) : Prop where
  nonempty : ts ≠ []
  survive : ∀ t ∈ ts, t.Survives
  client : c.steps = Step.turns .send ts
  server : s.steps = Step.turns .recv ts
  transport : c.agent.transport = s.agent.transport
  fits : ∀ t ∈ ts, t.build.encodeBytes.length ≤ c.agent.buffersize ∧
    t.build.encodeBytes.length ≤ s.agent.buffersize

variable {ts : List Template} {t : Template} {c s : Scenario} {p : Step} {i : Nat}

namespace Mirrored

theorem client_step (h : Mirrored ts c s) (hp : c.steps[i]? = some p) :
    ts[i]? = some p.template ∧ p.action = if i % 2 = 0 then .send else .recv := by
  rw [h.client, Step.turns_getElem?] at hp
  obtain ⟨t, ht, rfl⟩ := Option.map_eq_some_iff.1 hp
  exact ⟨ht, rfl⟩

theorem server_step (h : Mirrored ts c s) (hp : s.steps[i]? = some p) :
    ts[i]? = some p.template ∧ p.action = if i % 2 = 0 then .recv else .send := by
  rw [h.server, Step.turns_getElem?] at hp
  obtain ⟨t, ht, rfl⟩ := Option.map_eq_some_iff.1 hp
  exact ⟨ht, rfl⟩

theorem length_client (h : Mirrored ts c s) : c.steps.length = ts.length :=
  h.client ▸ Step.length_turns _ _

theorem length_server (h : Mirrored ts c s) : s.steps.length = ts.length :=
  h.server ▸ Step.length_turns _ _

theorem scripted_client (h : Mirrored ts c s) : Scripted c := by
  intro p hp
  obtain ⟨i, hi⟩ := List.getElem?_of_mem hp
  exact h.survive _ (List.mem_of_getElem? (h.client_step hi).1)

theorem scripted_server (h : Mirrored ts c s) : Scripted s := by
  intro p hp
  obtain ⟨i, hi⟩ := List.getElem?_of_mem hp
  exact h.survive _ (List.mem_of_getElem? (h.server_step hi).1)

/-- No message is empty, so the buffers are not. -/
theorem buffersizes (h : Mirrored ts c s) : c.agent.buffersize ≠ 0 ∧ s.agent.buffersize ≠ 0 := by
  obtain ⟨t, ts, rfl⟩ := List.exists_cons_of_ne_nil h.nonempty
  have hl := List.length_pos_iff.2 (h.survive t List.mem_cons_self).ne_nil
  have hf := h.fits t List.mem_cons_self
  omega

end Mirrored

/-- What is on its way when the client has done `a` steps and the server `b`. Messages with an even
number go to the server. -/
inductive Flight (ts : List Template) : Nat → Nat → List Bytes → List Bytes → Prop where
  | none (a : Nat) : Flight ts a a [] []
  | up {b : Nat} {t : Template} : b % 2 = 0 → ts[b]? = some t →
      Flight ts (b + 1) b [t.build.encodeBytes] []
  | down {a : Nat} {t : Template} : a % 2 = 1 → ts[a]? = some t →
      Flight ts a (a + 1) [] [t.build.encodeBytes]

namespace Flight
variable {a b : Nat} {up down : List Bytes} {d : Bytes}

theorem client_sends (h : Flight ts a b up down) (ha : a % 2 = 0) (ht : ts[a]? = some t) :
    Flight ts (a + 1) b (up ++ [t.build.encodeBytes]) down := by
  cases h with
  | none => exact .up ha ht
  | up => omega
  | down => omega

theorem client_receives (h : Flight ts a b up (d :: down)) (ht : ts[a]? = some t) :
    d = t.build.encodeBytes ∧ Flight ts (a + 1) b up down := by
  cases h with
  | down _ ht' =>
    obtain rfl := Option.some.inj (ht.symm.trans ht')
    exact ⟨rfl, .none _⟩

theorem server_sends (h : Flight ts a b up down) (hb : b % 2 = 1) (ht : ts[b]? = some t) :
    Flight ts a (b + 1) up (down ++ [t.build.encodeBytes]) := by
  cases h with
  | none => exact .down hb ht
  | up => omega
  | down => omega

theorem server_receives (h : Flight ts a b (d :: up) down) (ht : ts[b]? = some t) :
    d = t.build.encodeBytes ∧ Flight ts a (b + 1) up down := by
  cases h with
  | up _ ht' =>
    obtain rfl := Option.some.inj (ht.symm.trans ht')
    exact ⟨rfl, .none _⟩

/-- Who waits for a message that has not been sent is not behind. -/
theorem le_of_down (h : Flight ts a b up []) : b ≤ a := by
  cases h <;> omega

theorem le_of_up (h : Flight ts a b [] down) : a ≤ b := by
  cases h <;> omega

/-- When the server is behind, its message is on its way. -/
theorem of_lt (h : Flight ts a b up down) (hlt : b < a) : ∃ d, up = [d] := by
  cases h with
  | none => exact absurd hlt (Nat.lt_irrefl _)
  | down => omega
  | up => exact ⟨_, rfl⟩

/-- The one message on its way to the server. -/
theorem of_up (h : Flight ts a b up down) (hd : d ∈ up) :
    up = [d] ∧ a = b + 1 ∧ ∃ t, ts[b]? = some t ∧ d = t.build.encodeBytes := by
  cases h with
  | none => simp at hd
  | down => simp at hd
  | up _ ht =>
    obtain rfl := List.mem_singleton.1 hd
    exact ⟨rfl, rfl, _, ht, rfl⟩

end Flight

namespace Meeting
variable {w z : Meeting} {a b : Phase} {inbox : List Bytes} {st : Bool} {v : Move}

structure At (ts : List Template) (c s : Scenario) (w : Meeting) (a b : Phase) (inbox : List Bytes)
    (st : Bool) : Prop where
  client : ClientRun.InPhase c w.client a
  server : ServerRun.InPhase s w.caller w.server b inbox st
  flight : Flight ts (a.done ts.length) (b.done ts.length) (inbox ++ w.up) w.down
  pending : w.pending = true ↔ s.agent.transport = .tcp ∧ a ≠ .opening ∧ b = .opening
  first : a = .opening → b = .opening
  stream : s.agent.transport = .tcp → inbox = []

/-- More than what can still be done. The client's sending adds to the way of its message, and the
server's going on may have it begin to serve, so their phases count twice. -/
def load (n : Nat) (a b : Phase) (w : Meeting) (st : Bool) : Nat :=
  2 * a.rank n + 2 * b.rank n + w.up.length + st.toNat

def Eases (ts : List Template) (c s : Scenario) (z : Meeting) (l : Nat) : Prop :=
  ∃ a b inbox st, At ts c s z a b inbox st ∧ load ts.length a b z st < l

theorem At.transport_eq (h : At ts c s w a b inbox st) : w.transport = s.agent.transport :=
  h.server.transport

theorem At.connect (h : At ts c s w a b inbox st) {here : Address}
    (hs : w.step (.connect here) = some z) : Eases ts c s z (load ts.length a b w st) := by
  obtain ⟨-, hs⟩ := Option.ite_none_right_eq_some.1 hs
  obtain ⟨r, hr, rfl⟩ := Option.map_eq_some_iff.1 hs
  obtain rfl := h.client.opening_of_opened hr
  obtain ⟨q, hq, hc⟩ := h.client.connect here
  obtain rfl := Option.some.inj (hr.symm.trans hq)
  have hb := h.first rfl
  refine ⟨.opened, b, inbox, st, ⟨hc, h.server, h.flight, ?_, by simp, h.stream⟩, ?_⟩
  · simp [h.transport_eq, hb]
  · simp only [load, Phase.rank]
    omega

theorem At.accept (h : At ts c s w a b inbox st) {k : Server.ChoreId}
    (hs : w.step (.accept k) = some z) : Eases ts c s z (load ts.length a b w st) := by
  obtain ⟨hp, hs⟩ := Option.ite_none_right_eq_some.1 hs
  obtain ⟨r, hr, rfl⟩ := Option.map_eq_some_iff.1 hs
  obtain ⟨x, hx, rfl⟩ := ServerRun.server_of_step hr
  obtain ⟨htr, ha, rfl⟩ := h.pending.1 hp
  obtain rfl := h.stream htr
  refine ⟨a, .opened, [], false, ⟨h.client, h.server.connect hx, h.flight, by simp,
    fun hc => absurd hc ha, fun _ => rfl⟩, ?_⟩
  simp only [load, Phase.rank, Bool.toNat_false]
  omega

theorem At.deliver (hm : Mirrored ts c s) (h : At ts c s w a b inbox st) {k : Server.ChoreId}
    (hs : w.step (.deliver k) = some z) : Eases ts c s z (load ts.length a b w st) := by
  rw [Meeting.step] at hs
  split at hs
  next => simp at hs
  next d ds hup =>
    obtain ⟨r, hr, rfl⟩ := Option.map_eq_some_iff.1 hs
    obtain ⟨x, hx, rfl⟩ := ServerRun.server_of_step hr
    obtain ⟨hone, hab, t, ht, rfl⟩ := h.flight.of_up (d := d) (by simp [hup])
    have hlen := congrArg List.length hone
    rw [hup, List.length_append, List.length_cons, List.length_singleton] at hlen
    -- this is the only message on its way, so no other one waits at the session
    obtain rfl : inbox = [] := List.eq_nil_of_length_eq_zero (by omega)
    obtain rfl : ds = [] := List.eq_nil_of_length_eq_zero (by omega)
    have hmem := List.mem_of_getElem? ht
    obtain ⟨htr, b', hb, hsv⟩ := h.server.deliver (hm.survive t hmem).not_exit (hm.fits t hmem).2
      (by simp [Server.inboxCapacity]) hx
    have hdone : b'.done ts.length = b.done ts.length := by
      obtain rfl | ⟨rfl, rfl⟩ := hb <;> rfl
    have hrank : b'.rank ts.length ≤ b.rank ts.length := by
      obtain rfl | ⟨rfl, rfl⟩ := hb <;> simp [Phase.rank]
    have ha : a ≠ .opening := by
      rintro rfl
      simp [Phase.done] at hab
    refine ⟨a, b', _, false, ⟨h.client, hsv, ?_, ?_, fun hc => absurd hc ha, by simp [htr]⟩, ?_⟩
    · simpa [hup, hdone] using h.flight
    · have hp := h.pending
      simp only [htr, reduceCtorEq, false_and, iff_false] at hp ⊢
      exact hp
    · simp only [load, hup, List.length_cons, List.length_nil, Bool.toNat_false]
      omega

/-! What the network answers. -/

theorem passage?_sends {x : Wait} (ha : p.action = .send) {size : Nat}
    (h : (p.call size).WaitsAt x) (here : List Bytes) (atEnd : Bool) :
    passage? x here atEnd = some ⟨p.reply, here, [p.wire]⟩ := by
  obtain ⟨d, rfl⟩ := Step.waitsAt_send ha h
  rw [Step.reply, ha]
  rfl

theorem passage?_receives {x : Wait} (ha : p.action = .recv) {size : Nat}
    (h : (p.call size).WaitsAt x) (hl : p.wire.length ≤ size) (rest : List Bytes) (atEnd : Bool) :
    passage? x (p.wire :: rest) atEnd = some ⟨p.reply, rest, []⟩ := by
  obtain ⟨d, rfl⟩ := Step.waitsAt_recv ha h
  rw [Step.reply, ha, passage?, List.take_of_length_le hl]

theorem passage?_starves {x : Wait} (ha : p.action = .recv) {size : Nat}
    (h : (p.call size).WaitsAt x) : passage? x [] false = none := by
  obtain ⟨d, rfl⟩ := Step.waitsAt_recv ha h
  rfl

/-- The network answers a step of the client, and the flight is that after the step. A client that is
to receive finds its message on the way, since the server has then done more. -/
theorem client_flight {up down : List Bytes} {n : Nat} {x : Wait} {atEnd : Bool} {g : Passage}
    (hm : Mirrored ts c s) (hf : Flight ts i n up down) (hp : c.steps[i]? = some p)
    (hw : (p.call c.agent.buffersize).WaitsAt x) (he : n < ts.length → atEnd = false)
    (hg : passage? x down atEnd = some g) :
    g.reply = p.reply ∧ Flight ts (i + 1) n (up ++ g.taken) g.rest ∧ g.taken.length ≤ 1 := by
  obtain ⟨ht, hact⟩ := hm.client_step hp
  obtain hi | hi := Nat.mod_two_eq_zero_or_one i
  · rw [hi, if_pos rfl] at hact
    obtain rfl := Option.some.inj ((passage?_sends hact hw _ _).symm.trans hg)
    exact ⟨rfl, hf.client_sends hi ht, Nat.le_refl 1⟩
  · rw [hi, if_neg (by decide)] at hact
    cases down with
    | nil =>
      have hn := Nat.lt_of_le_of_lt hf.le_of_down (List.getElem?_eq_some_iff.1 ht).1
      rw [he hn, passage?_starves hact hw] at hg
      simp at hg
    | cons d rest =>
      obtain ⟨rfl, hf'⟩ := hf.client_receives ht
      have hl := (hm.fits _ (List.mem_of_getElem? ht)).1
      obtain rfl := Option.some.inj ((passage?_receives hact hw hl _ _).symm.trans hg)
      exact ⟨rfl, by simpa using hf', Nat.zero_le 1⟩

/-- The network answers a step of the server. What an accept has handed to the session is not on the
network any more, so nothing of that is there when the network answers a receive. -/
theorem server_flight {inbox up down : List Bytes} {n : Nat} {x : Wait} {atEnd : Bool} {g : Passage}
    (hm : Mirrored ts c s) (hf : Flight ts n i (inbox ++ up) down) (hp : s.steps[i]? = some p)
    (hw : (p.call s.agent.buffersize).WaitsAt x) (hin : p.action = .recv → inbox = [])
    (he : n < ts.length → atEnd = false) (hg : passage? x up atEnd = some g) :
    g.reply = p.reply ∧ Flight ts n (i + 1) (inbox ++ g.rest) (down ++ g.taken) ∧
      g.rest.length ≤ up.length := by
  obtain ⟨ht, hact⟩ := hm.server_step hp
  obtain hi | hi := Nat.mod_two_eq_zero_or_one i
  · rw [hi, if_pos rfl] at hact
    obtain rfl := hin hact
    cases up with
    | nil =>
      have hn := Nat.lt_of_le_of_lt hf.le_of_up (List.getElem?_eq_some_iff.1 ht).1
      rw [he hn, passage?_starves hact hw] at hg
      simp at hg
    | cons d rest =>
      obtain ⟨rfl, hf'⟩ := hf.server_receives ht
      have hl := (hm.fits _ (List.mem_of_getElem? ht)).2
      obtain rfl := Option.some.inj ((passage?_receives hact hw hl _ _).symm.trans hg)
      exact ⟨rfl, by simpa using hf', Nat.le_succ _⟩
  · rw [hi, if_neg (by decide)] at hact
    obtain rfl := Option.some.inj ((passage?_sends hact hw _ _).symm.trans hg)
    exact ⟨rfl, hf.server_sends hi ht, Nat.le_refl _⟩

theorem of_answerClient {t : Session.TaskId} (h : w.answerClient t = some z) : ∃ x g r,
    (w.client.client.sessions[0]?).bind (·.task? t) = some x ∧
      passage? x.wait w.down w.endsDown = some g ∧
      w.client.step (.client (.session 0 (.reply t g.reply))) = some r ∧
      z = { w with client := r, down := g.rest, up := w.up ++ g.taken } := by
  obtain ⟨x, hx, h⟩ := Option.bind_eq_some_iff.1 h
  obtain ⟨g, hg, h⟩ := Option.bind_eq_some_iff.1 h
  obtain ⟨r, hr, h⟩ := Option.bind_eq_some_iff.1 h
  exact ⟨x, g, r, hx, hg, hr, (Option.some.inj h).symm⟩

theorem of_answerServer {t : Session.TaskId} (h : w.answerServer t = some z) : ∃ x g r,
    (w.server.server.machine? 0).bind (·.task? t) = some x ∧
      passage? x.wait w.up w.endsUp = some g ∧
      w.server.step (.server (.session 0 (.reply t g.reply))) = some r ∧
      z = { w with server := r, up := g.rest, down := w.down ++ g.taken } := by
  obtain ⟨x, hx, h⟩ := Option.bind_eq_some_iff.1 h
  obtain ⟨g, hg, h⟩ := Option.bind_eq_some_iff.1 h
  obtain ⟨r, hr, h⟩ := Option.bind_eq_some_iff.1 h
  exact ⟨x, g, r, hx, hg, hr, (Option.some.inj h).symm⟩

/-- A stream to the client does not end while the server has steps to do. -/
theorem At.endsDown (hm : Mirrored ts c s) (h : At ts c s w a b inbox st)
    (hb : b.done ts.length < ts.length) : w.endsDown = false := by
  have hr := h.server.unreleased (hm.length_server.symm ▸ hb)
  rw [Meeting.endsDown, hr, Bool.and_false]

theorem At.endsUp (hm : Mirrored ts c s) (h : At ts c s w a b inbox st)
    (ha : a.done ts.length < ts.length) : w.endsUp = false := by
  have hr := h.client.unreleased (hm.length_client.symm ▸ ha)
  rw [Meeting.endsUp, hr, Bool.and_false]

theorem At.answerClient (hm : Mirrored ts c s) (h : At ts c s w a b inbox st) {t : Session.TaskId}
    (hs : w.answerClient t = some z) : Eases ts c s z (load ts.length a b w st) := by
  obtain ⟨x, g, r, hx, hg, hr, rfl⟩ := of_answerClient hs
  obtain ⟨rep, q, haw, hq, hc⟩ := h.client.answer hm.scripted_client hx
  cases haw with
  | @step i p hp hw =>
    obtain ⟨hrep, hfl, hlen⟩ := client_flight hm h.flight hp hw (h.endsDown hm) hg
    rw [hrep] at hr
    obtain rfl := Option.some.inj (hr.symm.trans hq)
    refine ⟨.told i, b, inbox, st, ⟨hc, h.server, ?_, by simpa using h.pending, by simp, h.stream⟩, ?_⟩
    · rwa [List.append_assoc] at hfl
    · simp only [load, Phase.rank, List.length_append]
      omega
  | close hw =>
    rw [hw, passage?] at hg
    obtain rfl := Option.some.inj hg
    obtain rfl := Option.some.inj (hr.symm.trans hq)
    refine ⟨.left, b, inbox, st, ⟨hc, h.server, ?_, by simpa using h.pending, by simp, h.stream⟩, ?_⟩
    · simpa [Phase.done] using h.flight
    · simp only [load, Phase.rank, List.append_nil]
      omega

theorem At.answerServer (hm : Mirrored ts c s) (h : At ts c s w a b inbox st) {t : Session.TaskId}
    (hs : w.answerServer t = some z) : Eases ts c s z (load ts.length a b w st) := by
  obtain ⟨x, g, r, hx, hg, hr, rfl⟩ := of_answerServer hs
  obtain ⟨rep, haw, hrun⟩ := h.server.answer hm.scripted_server hx
  have ho : w.server.server.isOutside 0 (.reply t rep) = true := by
    obtain ⟨x, hx, -⟩ := ServerRun.server_of_step hr
    exact (Option.ite_none_right_eq_some.1 hx).1
  obtain ⟨q, hq, hsv⟩ := hrun ho
  cases haw with
  | @step i p hp hw =>
    -- over UDP the network answers no receive, and over TCP nothing waits at the session
    have hin (hact : p.action = .recv) : inbox = [] := by
      obtain ⟨d, hd⟩ := Step.waitsAt_recv hact hw
      obtain ht | ht := (ServerRun.isOutside_reply hx).1 ho
      · exact h.stream (h.server.transport.symm.trans ht)
      · exact absurd hd (ht _ _)
    obtain ⟨hrep, hfl, hlen⟩ := server_flight hm h.flight hp hw hin (h.endsUp hm) hg
    rw [hrep] at hr
    obtain rfl := Option.some.inj (hr.symm.trans hq)
    refine ⟨a, .answered i, inbox, st, ⟨h.client, hsv, hfl, by simpa using h.pending,
      by simpa using h.first, h.stream⟩, ?_⟩
    simp only [load, Phase.rank]
    omega
  | close hw =>
    rw [hw, passage?] at hg
    obtain rfl := Option.some.inj hg
    obtain rfl := Option.some.inj (hr.symm.trans hq)
    refine ⟨a, .left, inbox, st, ⟨h.client, hsv, ?_, by simpa using h.pending, by simpa using h.first,
      h.stream⟩, ?_⟩
    · simpa [Phase.done] using h.flight
    · simp only [load, Phase.rank]
      omega

theorem At.receive (hm : Mirrored ts c s) (h : At ts c s w a b inbox st) {t : Session.TaskId}
    (hs : w.step (.receive t) = some z) : Eases ts c s z (load ts.length a b w st) := by
  obtain ⟨r, hr, rfl⟩ := Option.map_eq_some_iff.1 hs
  obtain ⟨x, hx, rfl⟩ := ServerRun.server_of_step hr
  obtain ⟨i, p, d, rest, rfl, hp, hact, rfl, hsv⟩ := h.server.receive hm.scripted_server hx
  obtain ⟨ht, -⟩ := hm.server_step hp
  obtain ⟨rfl, hfl⟩ := h.flight.server_receives ht
  have hl := (hm.fits _ (List.mem_of_getElem? ht)).2
  refine ⟨a, .answered i, rest, st, ⟨h.client, hsv rfl hl, hfl, by simpa using h.pending,
    by simpa using h.first, fun htr => ?_⟩, ?_⟩
  · simpa using h.stream htr
  · simp only [load, Phase.rank]
    omega

/-! What the runs do by themselves. -/

theorem At.own_client (hm : Mirrored ts c s) (h : At ts c s w a b inbox st) {v : ClientRun.Move}
    (hs : w.step (.client v) = some z) : Eases ts c s z (load ts.length a b w st) := by
  obtain ⟨hv, hs⟩ := Option.ite_none_right_eq_some.1 hs
  obtain ⟨r, hr, rfl⟩ := Option.map_eq_some_iff.1 hs
  obtain ⟨a', ha, hc⟩ := h.client.own hm.scripted_client hv hr
  have hin := h.client.within
  rw [hm.length_client] at ha hin
  obtain ⟨hna, hna'⟩ := Phase.next_ne_opening ha
  have hrank := Phase.rank_next hin ha
  refine ⟨a', b, inbox, st, ⟨hc, h.server, ?_, ?_, fun hc => absurd hc hna', h.stream⟩, ?_⟩
  · rw [Phase.done_next hin ha]
    exact h.flight
  · simpa [hna, hna'] using h.pending
  · simp only [load]
    omega

theorem At.own_server (hm : Mirrored ts c s) (h : At ts c s w a b inbox st) {v : ServerRun.Move}
    (hs : w.step (.server v) = some z) : Eases ts c s z (load ts.length a b w st) := by
  obtain ⟨hv, hs⟩ := Option.ite_none_right_eq_some.1 hs
  obtain ⟨r, hr, rfl⟩ := Option.map_eq_some_iff.1 hs
  obtain ⟨b', st', hb, hsv⟩ | ⟨rfl, hsv⟩ := h.server.own hm.scripted_server hv hr
  · have hin := h.server.within
    rw [hm.length_server] at hb hin
    obtain ⟨hnb, hnb'⟩ := Phase.next_ne_opening hb
    have hrank := Phase.rank_next hin hb
    have ha : a ≠ .opening := fun ha => hnb (h.first ha)
    refine ⟨a, b', inbox, st', ⟨h.client, hsv, ?_, ?_, fun hc => absurd hc ha, h.stream⟩, ?_⟩
    · rw [Phase.done_next hin hb]
      exact h.flight
    · simpa [hnb, hnb'] using h.pending
    · have := Bool.toNat_le st'
      simp only [load]
      omega
  · refine ⟨a, b, inbox, false, ⟨h.client, hsv, h.flight, h.pending, h.first, h.stream⟩, ?_⟩
    simp [load]

theorem At.pass (h : At ts c s w a b inbox st) {d : Duration} (hs : w.step (.pass d) = some z) :
    At ts c s z a b inbox st ∧ load ts.length a b z st = load ts.length a b w st := by
  obtain ⟨q, hq, hc⟩ := h.client.pass d
  obtain ⟨r, hr, hsv⟩ := h.server.pass d
  obtain rfl : { w with client := q, server := r } = z := by simpa [Meeting.step, hq, hr] using hs
  exact ⟨⟨hc, hsv, h.flight, h.pending, h.first, h.stream⟩, rfl⟩

/-- Whatever is done, the runs come to other phases, and less remains to be done. -/
theorem At.step (hm : Mirrored ts c s) (h : At ts c s w a b inbox st) (hs : w.step v = some z)
    (hv : v.isBusy = true) : Eases ts c s z (load ts.length a b w st) := by
  cases v with
  | connect => exact h.connect hs
  | accept => exact h.accept hs
  | deliver => exact h.deliver hm hs
  | answerClient => exact h.answerClient hm hs
  | answerServer => exact h.answerServer hm hs
  | receive => exact h.receive hm hs
  | client => exact h.own_client hm hs
  | server => exact h.own_server hm hs
  | pass => simp [Move.isBusy] at hv

/-- Over a whole run so much is done at most. -/
theorem At.steps (hm : Mirrored ts c s) (vs : List Move) (h : At ts c s w a b inbox st)
    (hs : w.steps vs = some z) : ∃ a' b' inbox' st', At ts c s z a' b' inbox' st' ∧
      vs.countP Move.isBusy + load ts.length a' b' z st' ≤ load ts.length a b w st := by
  -- every busy move takes from the load and time leaves it, so the load bounds how many there are
  induction vs generalizing w a b inbox st with
  | nil =>
    obtain rfl := Option.some.inj hs
    exact ⟨a, b, inbox, st, h, by simp⟩
  | cons v vs ih =>
    obtain ⟨x, hx, hrest⟩ := Option.bind_eq_some_iff.1 hs
    by_cases hv : v.isBusy = true
    · obtain ⟨a', b', inbox', st', h', hl⟩ := h.step hm hx hv
      obtain ⟨a'', b'', inbox'', st'', h'', hl'⟩ := ih h' hrest
      exact ⟨a'', b'', inbox'', st'', h'', by rw [List.countP_cons_of_pos hv]; omega⟩
    · cases v with
      | pass d =>
        obtain ⟨h', hl⟩ := h.pass hx
        obtain ⟨a', b', inbox', st', h', hl'⟩ := ih h' hrest
        exact ⟨a', b', inbox', st', h', by rw [List.countP_cons_of_neg hv]; omega⟩
      | _ => simp [Move.isBusy] at hv

/-! What can be done next. -/

def Moves (w : Meeting) : Prop := ∃ v : Move, v.isBusy = true ∧ (w.step v).isSome

def Stalls (w : Meeting) (a : Phase) : Prop :=
  a = .ended ∨ ∃ i, a = .asked i ∧ i % 2 = 1 ∧ w.down = []

theorem moves_answerClient {t : Session.TaskId} {x : Session.Task} {g : Passage}
    (hx : (w.client.client.sessions[0]?).bind (·.task? t) = some x)
    (hg : passage? x.wait w.down w.endsDown = some g)
    (hr : (w.client.step (.client (.session 0 (.reply t g.reply)))).isSome) : w.Moves := by
  obtain ⟨r, hr⟩ := Option.isSome_iff_exists.1 hr
  exact ⟨.answerClient t, rfl, by simp [Meeting.step, Meeting.answerClient, hx, hg, hr]⟩

theorem moves_answerServer {t : Session.TaskId} {x : Session.Task} {g : Passage}
    (hx : (w.server.server.machine? 0).bind (·.task? t) = some x)
    (hg : passage? x.wait w.up w.endsUp = some g)
    (hr : (w.server.step (.server (.session 0 (.reply t g.reply)))).isSome) : w.Moves := by
  obtain ⟨r, hr⟩ := Option.isSome_iff_exists.1 hr
  exact ⟨.answerServer t, rfl, by simp [Meeting.step, Meeting.answerServer, hx, hg, hr]⟩

/-- A client that does not stall goes on. -/
theorem At.client_moves (hm : Mirrored ts c s) (h : At ts c s w a b inbox st) :
    w.Stalls a ∨ w.Moves := by
  have answers (ha : (∃ i, a = .asked i) ∨ a = .leaving) (hna : ¬w.Stalls a) : w.Moves := by
    obtain ⟨t, x, hx⟩ := h.client.exists_task ha
    obtain ⟨rep, q, haw, hq, -⟩ := h.client.answer hm.scripted_client hx
    cases haw with
    | close hw => exact moves_answerClient hx (by rw [hw]; rfl) (by rw [hq]; rfl)
    | @step i p hp hw =>
      obtain ⟨ht, hact⟩ := hm.client_step hp
      obtain hi | hi := Nat.mod_two_eq_zero_or_one i
      · rw [hi, if_pos rfl] at hact
        exact moves_answerClient hx (passage?_sends hact hw _ _) (by rw [hq]; rfl)
      · rw [hi, if_neg (by decide)] at hact
        have hfl := h.flight
        cases hd : w.down with
        | nil => exact absurd (.inr ⟨i, rfl, hi, hd⟩) hna
        | cons d rest =>
          rw [hd] at hfl
          obtain ⟨rfl, -⟩ := hfl.client_receives ht
          have hl := (hm.fits _ (List.mem_of_getElem? ht)).1
          exact moves_answerClient hx (by rw [hd]; exact passage?_receives hact hw hl rest _)
            (by rw [hq]; rfl)
  have own (hn : (a.next c.steps.length).isSome) : w.Moves := by
    obtain ⟨v, hv, hs⟩ := h.client.own_isSome hn
    exact ⟨.client v, rfl, by simpa [Meeting.step, hv] using hs⟩
  by_cases hst : w.Stalls a
  · exact .inl hst
  refine .inr ?_
  cases a with
  | opened | told | answered | left | parted => exact own rfl
  | asked i => exact answers (.inl ⟨i, rfl⟩) hst
  | leaving => exact answers (.inr rfl) hst
  | ended => exact absurd (.inl rfl) hst
  | opening =>
    obtain ⟨q, hq, -⟩ := h.client.connect w.caller
    have htr : w.client.client.settings.transport = w.transport := by
      rw [h.client.transport, h.transport_eq, hm.transport]
    exact ⟨.connect w.caller, rfl, by simp [Meeting.step, htr, hq]⟩

theorem At.moves_deliver (h : At ts c s w a b inbox false) (htr : s.agent.transport = .udp)
    (hb : b = .opening ∨ ∃ i, b = .asked i) {d : Bytes} {ds : List Bytes} (hd : w.up = d :: ds) :
    w.Moves := by
  obtain ⟨k, hk⟩ := h.server.deliver_isSome hb htr d
  exact ⟨.deliver k, rfl, by simpa [Meeting.step, hd] using hk⟩

/-- Until the server has done as much as the client, a message for it is on its way. -/
theorem Stalls.lt (ha : w.Stalls a) (hf : Flight ts (a.done ts.length) i (inbox ++ w.up) w.down)
    (hi : i < ts.length) (hi2 : i % 2 = 0) : i < a.done ts.length := by
  obtain rfl | ⟨j, rfl, hj, hd⟩ := ha
  · exact hi
  · rw [hd] at hf
    have := hf.le_of_down
    simp only [Phase.done] at this ⊢
    omega

/-- A server that has been asked for a message, or for nothing yet, goes on when the client stalls. -/
theorem At.moves_asked (hm : Mirrored ts c s) (h : At ts c s w a (.asked i) inbox st)
    (ha : w.Stalls a) : w.Moves := by
  cases st with
  | true =>
    obtain ⟨v, hv, hs⟩ := h.server.own_isSome (.inr rfl)
    exact ⟨.server v, rfl, by simpa [Meeting.step, hv] using hs⟩
  | false =>
    obtain ⟨t, x, hx⟩ := h.server.exists_task (.inl ⟨i, rfl⟩)
    obtain ⟨rep, haw, hrun⟩ := h.server.answer hm.scripted_server hx
    cases haw with
    | @step i p hp hw =>
      obtain ⟨ht, hact⟩ := hm.server_step hp
      obtain hi | hi := Nat.mod_two_eq_zero_or_one i
      · rw [hi, if_pos rfl] at hact
        have hl := (hm.fits _ (List.mem_of_getElem? ht)).2
        obtain ⟨d, hd⟩ := h.flight.of_lt (ha.lt h.flight (List.getElem?_eq_some_iff.1 ht).1 hi)
        have hfl := h.flight
        rw [hd] at hfl
        obtain ⟨rfl, -⟩ := hfl.server_receives ht
        -- the network hands the message over itself, or by an accept and then the inbox
        cases htr : s.agent.transport with
        | tcp =>
          obtain rfl := h.stream htr
          have hup : w.up = [p.wire] := hd
          obtain ⟨q, hq, -⟩ := hrun ((ServerRun.isOutside_reply hx).2 (.inl (h.server.transport.trans htr)))
          exact moves_answerServer hx (by rw [hup]; exact passage?_receives hact hw hl [] _)
            (by rw [hq]; rfl)
        | udp =>
          cases inbox with
          | nil => exact h.moves_deliver htr (.inr ⟨i, rfl⟩) hd
          | cons y ys =>
            obtain rfl : y = p.wire := (List.cons.inj hd).1
            obtain ⟨u, hu⟩ := h.server.receive_isSome hm.scripted_server hp hact hl htr
            exact ⟨.receive u, rfl, by simpa [Meeting.step] using hu⟩
      · rw [hi, if_neg (by decide)] at hact
        obtain ⟨d, hd⟩ := Step.waitsAt_send hact hw
        obtain ⟨q, hq, -⟩ := hrun ((ServerRun.isOutside_reply hx).2 (.inr (by simp [hd])))
        exact moves_answerServer hx (passage?_sends hact hw _ _) (by rw [hq]; rfl)

/-- When the client stalls, the server goes on, unless both have come to their end. -/
theorem At.server_moves (hm : Mirrored ts c s) (h : At ts c s w a b inbox st) (ha : w.Stalls a) :
    (a = .ended ∧ b = .ended) ∨ w.Moves := by
  have hlen : 0 < ts.length := List.length_pos_iff.2 hm.nonempty
  have own (hn : (b.next s.steps.length).isSome) : w.Moves := by
    obtain ⟨v, hv, hs⟩ := h.server.own_isSome (.inl hn)
    exact ⟨.server v, rfl, by simpa [Meeting.step, hv] using hs⟩
  cases b with
  | opened | told | answered | left | parted => exact .inr (own rfl)
  | asked i => exact .inr (h.moves_asked hm ha)
  | leaving =>
    obtain ⟨t, x, hx⟩ := h.server.exists_task (.inr rfl)
    obtain ⟨rep, haw, hrun⟩ := h.server.answer hm.scripted_server hx
    cases haw with
    | close hw =>
      obtain ⟨q, hq, -⟩ := hrun ((ServerRun.isOutside_reply hx).2 (.inr (by simp [hw])))
      exact .inr (moves_answerServer hx (by rw [hw]; rfl) (by rw [hq]; rfl))
  | ended =>
    obtain rfl | ⟨i, rfl, -, hd⟩ := ha
    · exact .inl ⟨rfl, rfl⟩
    · have hfl := h.flight
      rw [hd] at hfl
      have hi : i < ts.length := hm.length_client ▸ h.client.within
      exact absurd hi (Nat.not_lt.2 hfl.le_of_down)
  | opening =>
    have hna : a ≠ .opening := by
      obtain rfl | ⟨i, rfl, -⟩ := ha <;> simp
    cases htr : s.agent.transport with
    | tcp =>
      obtain ⟨k, hk⟩ := h.server.connect_isSome htr
      exact .inr ⟨.accept k, rfl, by simpa [Meeting.step, h.pending.2 ⟨htr, hna, rfl⟩] using hk⟩
    | udp =>
      obtain ⟨rfl, rfl⟩ : inbox = [] ∧ st = false := by
        cases h.server
        exact ⟨rfl, rfl⟩
      obtain ⟨d, hd⟩ := h.flight.of_lt (ha.lt h.flight hlen rfl)
      exact .inr (h.moves_deliver htr (.inl rfl) hd)

/-- Something can be done until both runs have come to their end. -/
theorem At.moves (hm : Mirrored ts c s) (h : At ts c s w a b inbox st) :
    (a = .ended ∧ b = .ended) ∨ w.Moves := by
  obtain ha | hw := h.client_moves hm
  · exact h.server_moves hm ha
  · exact .inr hw

end Meeting

def Succeeds (ts : List Template) (x : Except Error Report) : Prop :=
  ∃ y, x = .ok y ∧ y.outcomes.length = ts.length ∧ y.passed = true

/-- Whatever happens when, two realizers that do mirrored scenarios go on until both have ended, which
they do after so many moves at most, and both report that every step has passed. -/
theorem mirrored_runs_pass (hm : Mirrored ts c s) (ip host : Text) (timeout : Nat)
    (here caller : Address) :
    ∃ r q, ClientRun.new c ip timeout = .ok r ∧ ServerRun.new s host (.ok here) = .ok q ∧
      ∀ vs w, Meeting.steps vs { client := r, server := q, caller } = some w →
        vs.countP Meeting.Move.isBusy ≤ 12 * ts.length + 20 ∧
        ((∀ v : Meeting.Move, v.isBusy = true → w.step v = none) →
          w.client.result?.isSome ∧ w.server.result?.isSome) ∧
        (∀ x, w.client.result? = some x → Succeeds ts x) ∧
        ∀ x, w.server.result? = some x → Succeeds ts x := by
  obtain ⟨hcb, hsb⟩ := hm.buffersizes
  obtain ⟨r, hr, hc⟩ := ClientRun.inPhase_new hcb ip timeout
  obtain ⟨q, hq, hs⟩ := ServerRun.inPhase_new hsb host here caller
  refine ⟨r, q, hr, hq, fun vs w hw => ?_⟩
  have h₀ : Meeting.At ts c s { client := r, server := q, caller } .opening .opening [] false :=
    ⟨hc, hs, .none 0, by simp, fun _ => rfl, fun _ => rfl⟩
  obtain ⟨a, b, inbox, st, h, hl⟩ := h₀.steps hm vs hw
  refine ⟨?_, fun hn => ?_, fun x hx => ?_, fun x hx => ?_⟩
  · simp only [Meeting.load, Phase.rank, List.length_nil, Bool.toNat_false] at hl
    omega
  · obtain ⟨rfl, rfl⟩ | ⟨v, hv, hs⟩ := h.moves hm
    · obtain ⟨y, hy, -⟩ := h.client.result?_ended
      obtain ⟨z, hz, -⟩ := h.server.result?_ended
      simp [hy, hz]
    · simp [hn v hv] at hs
  · obtain rfl := h.client.ended_of_result? hx
    obtain ⟨y, hy, hp⟩ := h.client.result?_ended
    exact ⟨y, Option.some.inj (hx.symm.trans hy), hp.length.trans hm.length_client, hp.passed⟩
  · obtain rfl := h.server.ended_of_result? hx
    obtain ⟨y, hy, hp⟩ := h.server.result?_ended
    exact ⟨y, Option.some.inj (hx.symm.trans hy), hp.length.trans hm.length_server, hp.passed⟩

/-- A question and its answer; the question has a body that the codec does not keep as it is. -/
def question : List Template :=
  [⟨.request "OPTIONS".toList "sip:b".toList "SIP/2.0".toList, [⟨"To".toList, "b".toList⟩],
      "a\nb\n".toList⟩,
    ⟨.response "SIP/2.0".toList 200 "OK".toList, [], []⟩]

def asker (tr : Transport) : Scenario :=
  ⟨⟨tr, 5060, 64, .client "127.0.0.1".toList 5⟩, Step.turns .send question⟩

def answerer (tr : Transport) : Scenario := ⟨⟨tr, 5060, 64, .server⟩, Step.turns .recv question⟩

theorem mirrored_question (tr : Transport) : Mirrored question (asker tr) (answerer tr) where
  nonempty := by simp [question]
  survive t ht := by
    obtain rfl | rfl : t = question[0] ∨ t = question[1] := by simpa [question] using ht
    · exact ⟨"a\r\nb\r\n".toList, by decide +kernel⟩
    · exact ⟨[], by decide +kernel⟩
  client := rfl
  server := rfl
  transport := rfl
  fits t ht := by
    have hl : ∀ t ∈ question, t.build.encodeBytes.length ≤ 64 := by decide +kernel
    exact ⟨hl t ht, hl t ht⟩

def loopback : Address := ⟨.v4 [127, 0, 0, 1], 5060⟩

def exchange : Transport → List Meeting.Move
  | .udp => [.connect loopback, .client .advance, .answerClient 0, .client (.client .proceed),
      .client .advance, .deliver 0, .server .advance, .receive 0, .server .advance, .answerServer 2,
      .server .advance, .answerServer 4, .server (.server (.proceed 2)), .server .advance,
      .answerClient 2, .client (.client .proceed), .client .advance, .answerClient 4,
      .client (.client .proceed), .client .advance]
  | .tcp => [.connect loopback, .accept 0, .client .advance, .answerClient 0,
      .client (.client .proceed), .client .advance, .server .advance, .answerServer 0,
      .server (.server (.begin 1)), .server .advance, .answerServer 2, .pass (.ofSeconds 1),
      .answerClient 2, .client (.client .proceed), .client .advance, .answerClient 4,
      .client (.client .proceed), .client .advance, .server .advance, .answerServer 4,
      .server (.server (.proceed 2)), .server .advance]

def exchanged (tr : Transport) : Option Meeting := do
  let r ← (ClientRun.new (asker tr) "127.0.0.1".toList 5).toOption
  let q ← (ServerRun.new (answerer tr) bindHost (.ok loopback)).toOption
  Meeting.steps (exchange tr) { client := r, server := q, caller := loopback }

theorem mirrored_runs_pass_question :
    (∃ w x y, exchanged .udp = some w ∧ w.client.result? = some x ∧ Succeeds question x ∧
      w.server.result? = some y ∧ Succeeds question y) ∧
    ∃ w x y, exchanged .tcp = some w ∧ w.client.result? = some x ∧ Succeeds question x ∧
      w.server.result? = some y ∧ Succeeds question y := by
  have passes (tr : Transport) (h : (exchanged tr).map (fun w =>
      w.client.result?.isSome && w.server.result?.isSome) = some true) :
      ∃ w x y, exchanged tr = some w ∧ w.client.result? = some x ∧ Succeeds question x ∧
        w.server.result? = some y ∧ Succeeds question y := by
    obtain ⟨w, hw, he⟩ := Option.map_eq_some_iff.1 h
    obtain ⟨hx, hy⟩ := (Bool.and_eq_true _ _).mp he
    obtain ⟨x, hx⟩ := Option.isSome_iff_exists.1 hx
    obtain ⟨y, hy⟩ := Option.isSome_iff_exists.1 hy
    obtain ⟨r, q, hr, hq, hrun⟩ := mirrored_runs_pass (mirrored_question tr) "127.0.0.1".toList
      bindHost 5 loopback loopback
    have hs := hw
    rw [exchanged, hr, hq] at hs
    obtain ⟨-, -, hc, hsv⟩ := hrun (exchange tr) w hs
    exact ⟨w, x, y, hw, hx, hc x hx, hy, hsv y hy⟩
  exact ⟨passes .udp (by decide +kernel), passes .tcp (by decide +kernel)⟩

end Switchboard.Realizer
