import Switchboard.Proofs.Server.Cells
import Switchboard.Proofs.Server.Errands
import Switchboard.Proofs.Server.Reuse
import Switchboard.Proofs.Session.Telling

/-! What the receives on a session over UDP get. Its observers are told of each datagram that an accept
hands over and of each one that a receive takes; from that alone it follows what the receives have got,
and what they have still to get. -/
namespace Switchboard.Server
open Session.Machine

inductive Parcel where
  | handed (data : Bytes)
  | taken (size : Nat) (data : Bytes)

def parcel? (k : Session.Mark) : Option Parcel :=
  match k.event, k.task with
  | .recvSuccess _ data, none => some (.handed data)
  | .recvSuccess size data, some _ => some (.taken size data)
  | _, _ => none

def parcels (m : Session.Machine) : List Parcel := m.trace.filterMap parcel?

def arrived : List Parcel → List Bytes
  | [] => []
  | .handed d :: l => arrived l ++ [d]
  | .taken .. :: l => arrived l

def taken : List Parcel → List (Nat × Bytes)
  | [] => []
  | .handed _ :: l => taken l
  | .taken size d :: l => taken l ++ [(size, d)]

/-- The datagrams that are not dropped: at their arrival fewer than 64 of those before are not yet
taken. -/
def kept : List Parcel → List Bytes
  | [] => []
  | .handed d :: l => if (kept l).length < (taken l).length + 64 then kept l ++ [d] else kept l
  | .taken .. :: l => kept l

/-- Receives have got the first of the datagrams that are kept, each cut to the size that was asked
for, and the others wait in the inbox. -/
def Stored (l : List Parcel) (inbox : List Bytes) : Prop :=
  ∃ k, kept l = k ++ inbox ∧ List.Forall₂ (fun x d => x.2 = d.take x.1) (taken l) k

variable {l : List Parcel} {inbox rest : List Bytes} {d : Bytes} {c : Cell} {size : Nat}
  {ds : List Bytes} {w a : Server} {v : Move} {i : Nat} {m n : Session.Machine} {u : Session.Move}
  {t : Session.TaskId}

theorem stored_nil : Stored [] [] := ⟨[], rfl, .nil⟩

/-- There is room in the inbox when fewer than 64 are not yet taken. -/
theorem Stored.room_iff (h : Stored l inbox) :
    inbox.length < inboxCapacity ↔ (kept l).length < (taken l).length + 64 := by
  obtain ⟨k, hk, ht⟩ := h
  rw [hk, List.length_append, ht.length_eq, Nat.add_lt_add_iff_left]
  rfl

theorem length_kept_le (l : List Parcel) : (kept l).length ≤ (taken l).length + 64 := by
  induction l with
  | nil => exact Nat.zero_le _
  | cons x l ih =>
    cases x with
    | handed d =>
      rw [kept, taken]
      split
      next h =>
        rw [List.length_append]
        exact h
      next => exact ih
    | taken size d =>
      rw [kept, taken, List.length_append]
      exact Nat.le_trans ih (by omega)

theorem Stored.length_le (h : Stored l inbox) : inbox.length ≤ 64 := by
  obtain ⟨k, hk, ht⟩ := h
  have hle := length_kept_le l
  rw [hk, List.length_append, ht.length_eq] at hle
  omega

theorem Stored.handed (h : Stored l inbox) (d : Bytes) :
    Stored (.handed d :: l) (if inbox.length < inboxCapacity then inbox ++ [d] else inbox) := by
  have hroom := h.room_iff
  obtain ⟨k, hk, ht⟩ := h
  by_cases hfull : inbox.length < inboxCapacity
  · refine ⟨k, ?_, ht⟩
    rw [if_pos hfull, kept, if_pos (hroom.1 hfull), hk, List.append_assoc]
  · refine ⟨k, ?_, ht⟩
    rw [if_neg hfull, kept, if_neg (mt hroom.2 hfull), hk]

theorem Stored.taken (h : Stored l (d :: rest)) (size : Nat) :
    Stored (.taken size (d.take size) :: l) rest := by
  obtain ⟨k, hk, ht⟩ := h
  refine ⟨k ++ [d], ?_, List.rel_append ht (.cons rfl .nil)⟩
  rw [kept, hk, List.append_assoc]
  rfl

/-! What moves tell of, and what they leave in the inbox. -/

theorem parcels_step (h : m.step u = some n) :
    parcels n = ((m.news? u).bind parcel?).toList ++ parcels m := by
  obtain ⟨new, hn, hf⟩ := trace_step h
  have hnone : new.filterMap parcel? = [] := by
    refine List.filterMap_eq_nil_iff.2 fun k hk => ?_
    have hk := hf k hk
    unfold parcel?
    cases he : k.event <;> first | rfl | simp [he, Session.isFraming] at hk
  rw [parcels, hn, List.filterMap_append, hnone, List.filterMap_append]
  cases m.news? u with
  | none => rfl
  | some k => cases hk : parcel? k <;> simp [parcels, hk]

structure Delivers (size : Nat) (ds : List Bytes) (c : Cell) : Prop where
  sound : c.machine.Sound
  made : c.machine.session.state ≠ .created
  arrived : arrived (parcels c.machine) = ds.map (·.take size)
  stored : c.machine.session.state = .active → Stored (parcels c.machine) c.inbox

/-- A move with which no parcel comes or goes. -/
theorem Delivers.own (h : Delivers size ds c) (hs : c.machine.step u = some n)
    (hu : (c.machine.news? u).bind parcel? = none) :
    Delivers size ds { c with machine := n } := by
  have hp : parcels n = parcels c.machine := by
    rw [parcels_step hs, hu]
    rfl
  refine ⟨h.sound.step hs, state_ne_created h.sound.orderly hs h.made, by rw [hp, h.arrived],
    fun ha => ?_⟩
  rw [hp]
  exact h.stored (active_of_step h.sound.orderly hs h.made ha)

theorem Delivers.hand (h : Delivers size ds c) (data : Bytes) :
    Delivers size (ds ++ [data]) { c with
      machine := c.machine.deliver size (data.take size)
      inbox := if c.inbox.length < inboxCapacity then c.inbox ++ [data.take size] else c.inbox } := by
  have hs : c.machine.step (.deliver size (data.take size)) =
      some (c.machine.deliver size (data.take size)) := rfl
  have hp : parcels (c.machine.deliver size (data.take size)) =
      .handed (data.take size) :: parcels c.machine := parcels_step hs
  refine ⟨h.sound.step hs, state_ne_created h.sound.orderly hs h.made, ?_, fun ha => ?_⟩
  · rw [hp, Server.arrived, h.arrived, List.map_append]
    rfl
  · rw [hp]
    exact (h.stored (active_of_step h.sound.orderly hs h.made ha)).handed _

section Reply
variable {x : Session.Task} {dl : Option Duration} {data : Bytes}

/-- A receive that gets nothing is the end of the session. -/
theorem not_active_of_nil (hx : m.task? t = some x) (hw : x.wait = .receiving size dl)
    (hs : m.step (.reply t (.received [])) = some n) : n.session.state ≠ .active := by
  obtain rfl : m.recvFailed x.id size .peerClosed = n := by
    simpa [Session.Machine.step, hx, Session.Machine.reply, hw] using hs
  show (if m.session.state = .active then Session.State.closing else m.session.state) ≠ .active
  split
  · simp
  next h => exact h

theorem news?_reply (hx : m.task? t = some x) (hw : x.wait = .receiving size dl) (hd : data ≠ []) :
    m.news? (.reply t (.received data)) = some ⟨m.now, x.id, .recvSuccess size data⟩ := by
  cases data with
  | nil => exact absurd rfl hd
  | cons b data => simp [news?, hx, hw]

/-- A receive that gets something goes on, and whoever asked for it is given that. -/
theorem reply_received (hx : m.task? t = some x) (hw : x.wait = .receiving size dl)
    (hd : data ≠ []) :
    ∃ n, m.step (.reply t (.received data)) = some n ∧
      ((∀ k, x.job ≠ .loop k) → n.outcome? t = some (.received data)) := by
  refine ⟨m.recvDone x size data, ?_, fun hj => ?_⟩
  · cases data with
    | nil => exact absurd rfl hd
    | cons b data => simp [Session.Machine.step, hx, Session.Machine.reply, hw]
  · obtain ⟨-, rfl⟩ := eq_of_task? hx
    unfold recvDone afterRecv
    split
    next k hk => exact absurd hk (hj k)
    next => simp [Session.Machine.outcome?, Session.Machine.settle]

end Reply

/-- A receive takes the first datagram that waits, or reads the end when none does and none comes. -/
theorem receive_cases (h : w.receive i t = some a) :
    ∃ c x size dl n, w.cells[i]? = some c ∧ c.machine.task? t = some x ∧
      x.wait = .receiving size dl ∧
      ((∃ d rest, c.inbox = d :: rest ∧
          c.machine.step (.reply t (.received (d.take size))) = some n ∧
          a = { w with cells := w.cells.modify i fun _ => { c with machine := n, inbox := rest } }) ∨
        c.inbox = [] ∧ c.machine.step (.reply t (.received [])) = some n ∧ a = w.put i n) := by
  obtain ⟨c, hc, h⟩ := Option.bind_eq_some_iff.1 h
  obtain ⟨x, hx, h⟩ := Option.bind_eq_some_iff.1 h
  split at h
  next size dl d rest hw hin =>
    obtain ⟨n, hn, h⟩ := Option.bind_eq_some_iff.1 h
    obtain rfl := Option.some.inj h
    exact ⟨c, x, size, dl, n, hc, hx, hw, .inl ⟨d, rest, hin, hn, by rw [List.set_eq_modify]⟩⟩
  next size dl hw hin =>
    split at h
    next => simp at h
    next =>
      obtain ⟨n, hn, h⟩ := Option.bind_eq_some_iff.1 h
      obtain rfl := Option.some.inj h
      exact ⟨c, x, size, dl, n, hc, hx, hw, .inr ⟨hin, hn, rfl⟩⟩
  next => simp at h

/-- A move behind which the session is not active leaves nothing to say of its inbox. -/
theorem Delivers.ended (h : Delivers size ds c) (hs : c.machine.step u = some n)
    (hu : (c.machine.news? u).bind parcel? = none) (hn : n.session.state ≠ .active)
    (inbox : List Bytes) : Delivers size ds { c with machine := n, inbox } := by
  have ho := h.own hs hu
  exact ⟨ho.sound, ho.made, ho.arrived, fun ha => absurd ha hn⟩

theorem Delivers.take (h : Delivers size ds c) {x : Session.Task} {k : Nat} {dl : Option Duration}
    (hx : c.machine.task? t = some x) (hw : x.wait = .receiving k dl) (hin : c.inbox = d :: rest)
    (hs : c.machine.step (.reply t (.received (d.take k))) = some n) :
    Delivers size ds { c with machine := n, inbox := rest } := by
  by_cases hd : d.take k = []
  · rw [hd] at hs
    have hu : c.machine.news? (.reply t (.received [])) = none := by simp [news?, hx]
    exact h.ended hs (by rw [hu]; rfl) (not_active_of_nil hx hw hs) rest
  · have hp : parcels n = .taken k (d.take k) :: parcels c.machine := by
      rw [parcels_step hs, news?_reply hx hw hd]
      rfl
    refine ⟨h.sound.step hs, state_ne_created h.sound.orderly hs h.made, ?_, fun ha => ?_⟩
    · rw [hp, Server.arrived, h.arrived]
    · have hst := h.stored (active_of_step h.sound.orderly hs h.made ha)
      rw [hin] at hst
      rw [hp]
      exact hst.taken k

/-! What runs hand over. -/

def delivery? (w : Server) (i : Nat) : Move → Option Bytes
  | .datagram _ p data => if (w.pick p).1 = i then some data else none
  | _ => none

def deliveries (i : Nat) : List Move → Server → List Bytes
  | [], _ => []
  | v :: vs, w => ((w.step v).map fun a => (w.delivery? i v).toList ++ deliveries i vs a).getD []

theorem delivers_newCell (size : Nat) (p : Address) (w : Server) :
    Delivers size [] (w.newCell p) :=
  ⟨(sound_newCell p w).1, (sound_newCell p w).2, rfl, fun _ => stored_nil⟩

theorem endures_delivers (size : Nat) (ds : Nat → List Bytes) :
    Endures fun i c => Delivers size (ds i) c where
  call job h := h.own (u := .call job) rfl rfl
  cancel h hs := h.own hs rfl

/-- A move of a session itself: no receive is answered so. -/
theorem parcel?_of_outside {v : Session.Move} (hu : w.settings.transport = .udp)
    (ho : w.isOutside i v = true) (hm : w.machine? i = some m) (hs : m.step v = some n) :
    (m.news? v).bind parcel? = none := by
  cases v with
  | deliver => simp [isOutside] at ho
  | reply t r =>
    obtain ⟨x, hx, -⟩ := Option.bind_eq_some_iff.1 hs
    have hr : w.isReceiving i t = false := by simpa [isOutside, hu] using ho
    rw [news?, hx, Option.bind_some]
    split
    next => rfl
    next size dl b data hw =>
      rw [isReceiving, hm, Option.bind_some, hx] at hr
      obtain ⟨id, job, parent, wait, stamp⟩ := x
      obtain rfl : wait = .receiving size dl := hw
      simp at hr
    next => rfl
  | _ => rfl

theorem delivers_receive {ds : Nat → List Bytes} (h : All (fun i c => Delivers size (ds i) c) w)
    (hs : w.receive i t = some a) : All (fun i c => Delivers size (ds i) c) a := by
  obtain ⟨c, x, k, dl, n, hc, hx, hw, ⟨d, rest, hin, hn, rfl⟩ | ⟨-, hn, rfl⟩⟩ := receive_cases hs
  · refine h.modify _ (fun b hb hp => ?_) fun _ _ _ hp => hp
    obtain rfl := Option.some.inj (hc.symm.trans hb)
    exact hp.take hx hw hin hn
  · refine h.put (machine?_of_cell hc) fun b hp hb => ?_
    rw [← hb] at hx hn
    exact hp.ended hn (by simp [news?, hx]) (not_active_of_nil hx hw hn) b.inbox

/-- One move of the server. A session that is still to come has been handed nothing. -/
theorem delivers_step {ds : Nat → List Bytes} (hu : w.settings.transport = .udp)
    (hn : ∀ j, w.cells.length ≤ j → ds j = [])
    (h : All (fun i c => Delivers w.settings.loops.buffersize (ds i) c) w)
    (hs : w.step v = some a) :
    All (fun i c => Delivers w.settings.loops.buffersize (ds i ++ (w.delivery? i v).toList) c) a := by
  have plain (hv : ∀ i, w.delivery? i v = none)
      (ha : All (fun i c => Delivers w.settings.loops.buffersize (ds i) c) a) :
      All (fun i c => Delivers w.settings.loops.buffersize (ds i ++ (w.delivery? i v).toList) c) a := by
    simpa only [hv, Option.toList_none, List.append_nil] using ha
  cases v with
  | datagram k p data =>
    obtain ⟨x, -, rfl⟩ := of_step_datagram hs
    refine h.datagram x p data (fun _ => ?_) (fun c hc => ?_) fun j c hj hc => ?_
    · rw [hn _ (Nat.le_refl _)]
      exact delivers_newCell _ p w
    · simpa [delivery?] using hc.hand data
    · simpa [delivery?, Ne.symm hj] using hc
  | connected k p =>
    cases turn_step hs with
    | connected p _ _ ht => simp [hu] at ht
  | pass d =>
    obtain rfl := Option.some.inj hs
    exact plain (fun _ => rfl) (h.pass d fun i c hc => hc.own (u := .pass d) rfl rfl)
  | session i u =>
    cases turn_step hs with
    | session ho hm hs =>
      refine plain (fun _ => rfl) (h.put hm fun c hc hcm => ?_)
      subst hcm
      exact hc.own hs (parcel?_of_outside hu ho hm hs)
  | receive i t =>
    obtain ⟨-, hs⟩ := Option.ite_none_right_eq_some.1 hs
    exact plain (fun _ => rfl) (delivers_receive h hs)
  | _ => exact plain (fun _ => rfl) (h.chore (endures_delivers _ ds) rfl hs)

/-- What is handed over goes to a session that is there by then, and sessions stay where they are. -/
theorem delivery?_lt {k : List Admission} (hk : Kept k w) (hs : w.step v = some a) :
    w.cells.length ≤ a.cells.length ∧ ∀ i d, w.delivery? i v = some d → i < a.cells.length := by
  refine ⟨(shape_step hs).length ▸ Nat.le_add_right _ _, fun i d hd => ?_⟩
  cases v with
  | datagram c p data =>
    obtain ⟨rfl, -⟩ := Option.ite_none_right_eq_some.1 hd
    obtain ⟨x, -, rfl⟩ := of_step_datagram hs
    have hi := (List.getElem?_eq_some_iff.1 (newest_ready hk p).1).1
    rw [(datagram_same x p data w).1, Server.hand, List.length_modify]
    simpa [peers] using hi
  | _ => simp [delivery?] at hd

/-- What a run makes of the sessions, with what it hands to each. -/
theorem delivers_steps {k : List Admission} (ds : Nat → List Bytes) (hk : Kept k w)
    (hn : ∀ j, w.cells.length ≤ j → ds j = [])
    (h : All (fun i c => Delivers w.settings.loops.buffersize (ds i) c) w) (vs : List Move)
    (hs : w.steps vs = some a) :
    All (fun i c => Delivers w.settings.loops.buffersize (ds i ++ deliveries i vs w) c) a := by
  induction vs generalizing w ds k with
  | nil =>
    obtain rfl := Option.some.inj hs
    simpa [deliveries] using h
  | cons v vs ih =>
    obtain ⟨b, hb, hs⟩ := Option.bind_eq_some_iff.1 hs
    obtain ⟨hkb, hset⟩ := hk.step hb
    obtain ⟨hle, hlt⟩ := delivery?_lt hk hb
    have hstep := delivers_step hk.udp hn h hb
    rw [← hset] at hstep
    have hnb (j : Nat) (hj : b.cells.length ≤ j) : ds j ++ (w.delivery? j v).toList = [] := by
      rw [hn j (Nat.le_trans hle hj), List.nil_append, Option.toList_eq_nil_iff,
        Option.eq_none_iff_forall_ne_some]
      exact fun d hd => Nat.not_lt.2 hj (hlt j d hd)
    simpa [deliveries, hb, hset, List.append_assoc] using ih _ hkb hnb hstep hs

/-- A receive with nothing to get waits as long as something may come. -/
theorem receive_of_nil {x : Session.Task} {dl : Option Duration} (hc : w.cells[i]? = some c)
    (hx : c.machine.task? t = some x) (hw : x.wait = .receiving size dl) (hin : c.inbox = [])
    (hf : w.isFed i = true) : w.receive i t = none := by
  simp [receive, hc, hx, hw, hin, hf]

/-- The next receive gets the first datagram that waits. -/
theorem receive_of_cons {x : Session.Task} {dl : Option Duration} (hc : w.cells[i]? = some c)
    (hx : c.machine.task? t = some x) (hw : x.wait = .receiving size dl) (hin : c.inbox = d :: rest)
    (hd : d.take size ≠ []) :
    ∃ a b, w.receive i t = some a ∧ a.cells[i]? = some b ∧ b.inbox = rest ∧
      parcels b.machine = .taken size (d.take size) :: parcels c.machine ∧
      ((∀ l, x.job ≠ .loop l) → a.outcome? i t = some (.received (d.take size))) := by
  obtain ⟨n, hn, ho⟩ := reply_received hx hw hd
  have hi : i < w.cells.length := (List.getElem?_eq_some_iff.1 hc).1
  have hcell : (w.cells.set i { c with machine := n, inbox := rest })[i]? =
      some { c with machine := n, inbox := rest } := by
    rw [List.getElem?_set_self hi]
  refine ⟨{ w with cells := w.cells.set i { c with machine := n, inbox := rest } }, _, ?_, hcell, rfl,
    ?_, fun hj => ?_⟩
  · simp [receive, hc, hx, hw, hin, hn]
  · rw [parcels_step hn, news?_reply hx hw hd]
    rfl
  · rw [outcome?, machine?, hcell]
    exact ho hj

/-- What a server over UDP hands to a session, cut to the size of its buffer, is kept unless 64 are not
yet taken when it comes. While the session is active, its receives have got what is kept, in order,
each cut to the size of its own buffer; the rest waits, the first of it for the next receive, and a
receive with nothing to get waits as well. -/
theorem datagrams_delivered (s : Settings) (w₀ : Server) (hu : s.transport = .udp)
    (h : new s = .ok w₀) (vs : List Move) (w : Server) (hw : w₀.steps vs = some w) (i : Nat) (c : Cell)
    (hc : w.cells[i]? = some c) (ha : c.machine.session.state = .active) :
    arrived (parcels c.machine) = (deliveries i vs w₀).map (·.take s.loops.buffersize) ∧
    (∃ k, kept (parcels c.machine) = k ++ c.inbox ∧
      List.Forall₂ (fun x d => x.2 = d.take x.1) (taken (parcels c.machine)) k) ∧
    c.inbox.length ≤ 64 ∧
    ∀ t x size dl, c.machine.task? t = some x → x.wait = .receiving size dl →
      (c.inbox = [] → w.isFed i = true → w.step (.receive i t) = none) ∧
      ∀ d rest, c.inbox = d :: rest → d.take size ≠ [] →
        ∃ a b, w.step (.receive i t) = some a ∧ a.cells[i]? = some b ∧ b.inbox = rest ∧
          parcels b.machine = .taken size (d.take size) :: parcels c.machine ∧
          ((∀ l, x.job ≠ .loop l) → a.outcome? i t = some (.received (d.take size))) := by
  have hk := kept_new hu h
  obtain rfl := new_eq h
  have hall := delivers_steps (fun _ => []) hk (fun _ _ => rfl) (fun i c hi => by simp at hi) vs hw
  have hdel := hall i c hc
  have hst := hdel.stored ha
  refine ⟨hdel.arrived, hst, hst.length_le, fun t x size dl hx hwait => ?_⟩
  have hudp : w.settings.transport = .udp := (hk.steps vs hw).udp
  have hstep : w.step (.receive i t) = w.receive i t := if_pos hudp
  rw [hstep]
  exact ⟨fun hin hf => receive_of_nil hc hx hwait hin hf,
    fun d rest hin hd => receive_of_cons hc hx hwait hin hd⟩

def letters : List Move :=
  [.start (.ok ⟨.v4 [127, 0, 0, 1], 5060⟩), .call .accept, .datagram 0 alice greeting, .call .accept,
    .session 0 (.call (.recv 1)), .datagram 1 alice greeting, .receive 0 0,
    .session 0 (.call (.recv 1024))]

theorem datagrams_delivered_letters :
    ∃ w₀ w a c b, hall.transport = .udp ∧ new hall = .ok w₀ ∧ w₀.steps letters = some w ∧
      w.cells[0]? = some c ∧ c.machine.session.state = .active ∧
      arrived (parcels c.machine) = [greeting, greeting] ∧
      taken (parcels c.machine) = [(1, greeting.take 1)] ∧
      w.step (.receive 0 2) = some a ∧ a.cells[0]? = some b ∧
      taken (parcels b.machine) = [(1, greeting.take 1), (1024, greeting)] ∧
      a.outcome? 0 2 = some (.received greeting) := by
  have h : (({ settings := hall } : Server).steps letters).bind (fun w => (w.cells[0]?).map fun c =>
      (c.machine.session.state, taken (parcels c.machine), c.inbox)) =
      some (.active, [(1, greeting.take 1)], [greeting]) := by
    decide +kernel
  have hx : (({ settings := hall } : Server).steps letters).bind (fun w => (w.cells[0]?).bind fun c =>
      (c.machine.task? 2).map fun x => (x.job, x.wait)) =
      some (.recv 1024, .receiving 1024 none) := by
    decide +kernel
  obtain ⟨w, hw, h⟩ := Option.bind_eq_some_iff.1 h
  obtain ⟨c, hc, h⟩ := Option.map_eq_some_iff.1 h
  simp only [Prod.mk.injEq] at h
  obtain ⟨ha, ht, hin⟩ := h
  rw [hw, Option.bind_some, hc, Option.bind_some] at hx
  obtain ⟨x, hx, hxw⟩ := Option.map_eq_some_iff.1 hx
  obtain ⟨hj, hwait⟩ := Prod.mk.inj hxw
  obtain ⟨harr, -, -, hrec⟩ := datagrams_delivered hall _ rfl rfl letters w hw 0 c hc ha
  obtain ⟨a, b, hs, hb, -, hp, ho⟩ := (hrec 2 x 1024 none hx hwait).2 greeting [] hin (by decide)
  refine ⟨_, w, a, c, b, rfl, rfl, hw, hc, ha, ?_, ht, hs, hb, ?_, ?_⟩
  · rw [harr]
    decide +kernel
  · rw [hp, taken, ht]
    rfl
  · exact ho (by simp [hj])

end Switchboard.Server
