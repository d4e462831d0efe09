import Switchboard.Proofs.Server.Admission
import Switchboard.Proofs.Server.Turns

/-! What all sessions of a server have in common. Chores do nothing with a session but ask it for jobs
and drop tasks of it; so what lasts through that lasts through every move of the server that is not one
of a session, of a peer or of the clock. -/
namespace Switchboard.Server

def All (P : Nat → Cell → Prop) (w : Server) : Prop := ∀ i c, w.cells[i]? = some c → P i c

structure Endures (P : Nat → Cell → Prop) : Prop where
  call : ∀ {i c} (job : Session.Job), P i c → P i { c with machine := c.machine.call job }
  cancel : ∀ {i c t n}, P i c → c.machine.step (.cancel t) = some n → P i { c with machine := n }

def Move.isOfChore : Move → Bool
  | .connected .. | .datagram .. | .session .. | .receive .. | .pass _ => false
  | _ => true

def newcomer? (w : Server) : Move → Option Address
  | .connected _ p => some p
  | .datagram _ p _ => if (w.pick p).2 then some p else none
  | _ => none

def births : List Move → Server → List Duration
  | [], _ => []
  | v :: vs, w =>
    ((w.step v).map fun a => ((w.newcomer? v).map fun _ => w.now).toList ++ births vs a).getD []

def Goes (v : Move) (c d : Cell) : Prop :=
  ∃ us, c.machine.steps us = some d.machine ∧
    ∀ e, Session.Move.pass e ∈ us → v = .pass e ∧ us = [.pass e]

def Came (v : Move) (w : Server) (i : Nat) (d : Cell) : Prop :=
  (∃ c, w.cells[i]? = some c ∧ Goes v c d) ∨
    ∃ p, w.newcomer? v = some p ∧ i = w.cells.length ∧ Goes v (w.newCell p) d

variable {P : Nat → Cell → Prop} {w a : Server} {x : Chore} {v : Move} {i : Nat}

/-- What a move leaves as it is: the settings, and who the sessions are for. A new session comes behind
the others, and is the only one that goes on the table. -/
structure Shape (v : Move) (w a : Server) : Prop where
  settings : a.settings = w.settings
  peers : a.peers = w.peers ++ (w.newcomer? v).toList
  entries : ∀ e ∈ a.table.entries,
    e ∈ w.table.entries ∨ ∃ p, w.newcomer? v = some p ∧ e = (p, w.cells.length)

theorem settings_accepted (x : Chore) (i : Nat) (fresh : Bool) (w : Server) :
    (w.accepted x i fresh).settings = w.settings := by
  obtain ⟨t, h, -⟩ := accepted_told x i fresh w
  rw [h]
  split
  · split
    · exact ((quiet_add _ _).trans (quiet_beginAccept _ _)).settings
    · exact (quiet_beginAccept _ _).settings
  · rfl

namespace Shape

theorem of_quiet (hn : w.newcomer? v = none) (h : Quiet w a) : Shape v w a where
  settings := h.settings
  peers := by
    rw [hn, Option.toList_none, List.append_nil]
    exact h.peers
  entries _ he := .inl (h.table.subset he)

/-- The accept of a session goes on from where it has been put in place. -/
theorem accepted (h : Shape v w a) (x : Chore) (i : Nat) (fresh : Bool) :
    Shape v w (a.accepted x i fresh) where
  settings := (settings_accepted x i fresh a).trans h.settings
  peers := by
    rw [Server.peers, (accepted_same x i fresh a).1]
    exact h.peers
  entries e he := h.entries e ((accepted_same x i fresh a).2 ▸ he)

theorem quiet {b : Server} (h : Shape v w a) (hq : Quiet a b) : Shape v w b where
  settings := hq.settings.trans h.settings
  peers := hq.peers.trans h.peers
  entries e he := h.entries e (hq.table.subset he)

theorem enrol {p : Address} (hn : w.newcomer? v = some p) : Shape v w (w.enrol p) where
  settings := rfl
  peers := by rw [hn, peers_enrol, Option.toList_some]
  entries _ he := (Table.mem_insert he).imp_right fun h => ⟨p, hn, h⟩

theorem connected (c : ChoreId) (x : Chore) (p : Address) (w : Server) :
    Shape (.connected c p) w (w.connected x p) := by
  have h : Shape (.connected c p) w (w.enrol p) := enrol rfl
  unfold Server.connected
  dsimp only
  split
  · exact h.accepted _ _ _
  next stale _ =>
    have hk := h.quiet (quiet_ask stale .close _)
    exact ⟨hk.settings, hk.peers, hk.entries⟩

theorem datagram (c : ChoreId) (x : Chore) (p : Address) (data : Bytes) (w : Server) :
    Shape (.datagram c p data) w (w.datagram x p data) := by
  have h : Shape (.datagram c p data) w (w.ready p) := by
    unfold Server.ready
    split
    next hf => exact enrol (if_pos hf)
    next hf => exact of_quiet (if_neg hf) (Quiet.refl w)
  rw [datagram_eq]
  exact (h.quiet (quiet_hand _ _ _)).accepted _ _ _

theorem length (h : Shape v w a) :
    a.cells.length = w.cells.length + (w.newcomer? v).toList.length := by
  simpa [Server.peers] using congrArg List.length h.peers

end Shape

theorem shape_step (hs : w.step v = some a) : Shape v w a := by
  cases turn_step hs with
  | start bound => exact .of_quiet rfl (quiet_start bound w)
  | call => exact .of_quiet rfl ((quiet_add _ w).trans (quiet_begin _ _))
  | run bound down => exact .of_quiet rfl (quiet_callRun bound down w)
  | spawn => exact .of_quiet rfl (quiet_add _ w)
  | begin => exact .of_quiet rfl (quiet_begin _ w)
  | connected p => exact .connected _ _ p w
  | datagram p data => exact .datagram _ _ p data w
  | acceptFailed e => exact .of_quiet rfl (quiet_acceptFailed _ e w)
  | wake => exact .of_quiet rfl (quiet_beginAccept _ w)
  | replaced => exact Shape.accepted (.of_quiet rfl (Quiet.refl w)) _ _ _
  | tended =>
    exact .of_quiet rfl ((quiet_table w (withoutOwn_sublist w _)).trans (quiet_settle _ _ _))
  | closed => exact .of_quiet rfl (quiet_settle _ _ w)
  | drained => exact .of_quiet rfl (quiet_drain _ _ w)
  | shutDown => exact .of_quiet rfl ((quiet_release _ w).trans (quiet_beginStop _ _))
  | @cancel x =>
    have hk := Shape.of_quiet (v := .cancel x.id) rfl (quiet_release x w)
    exact ⟨hk.settings, hk.peers, hk.entries⟩
  | session _ hm hn =>
    exact .of_quiet rfl (quiet_put [_] hm (by rw [Session.Machine.steps, hn]; rfl))
  | receive rest _ hc hn =>
    refine .of_quiet rfl (quiet_modify _ _ w fun b hb => ?_)
    obtain rfl := Option.some.inj (hc.symm.trans hb)
    exact ⟨rfl, [_], by rw [Session.Machine.steps, hn]; rfl⟩
  | remove => exact .of_quiet rfl (quiet_table w List.filter_sublist)
  | removeIf => exact .of_quiet rfl (quiet_table w (sublist_eraseIf _ _ _))
  | pass d =>
    have hp : (w.later d).peers = w.peers := by simp [peers, later, Cell.later]
    exact ⟨rfl, hp.trans (List.append_nil _).symm, fun _ he => .inl he⟩

theorem births_cons (hs : w.step v = some a) (vs : List Move) :
    births (v :: vs) w = ((w.newcomer? v).map fun _ => w.now).toList ++ births vs a := by
  rw [births, hs, Option.map_some, Option.getD_some]

def Placed (w : Server) : Prop :=
  ∀ e ∈ w.table.entries, ∃ c, w.cells[e.2]? = some c ∧ c.peer = e.1

theorem Placed.step (h : Placed w) (hs : w.step v = some a) : Placed a := by
  have hsh := shape_step hs
  intro e he
  suffices a.peers[e.2]? = some e.1 by rwa [peers, List.getElem?_map, Option.map_eq_some_iff] at this
  rw [hsh.peers]
  obtain he | ⟨p, hp, rfl⟩ := hsh.entries e he
  · obtain ⟨c, hc, hcp⟩ := h e he
    have hi : w.peers[e.2]? = some e.1 := by rw [peers, List.getElem?_map, hc, Option.map_some, hcp]
    rwa [List.getElem?_append_left (List.getElem?_eq_some_iff.1 hi).1]
  · have hl : w.cells.length = w.peers.length := (List.length_map _).symm
    rw [hp, hl, Option.toList_some, List.getElem?_concat_length]

theorem Placed.steps (h : Placed w) (vs : List Move) (hs : w.steps vs = some a) : Placed a :=
  steps_induction vs (fun _ _ _ _ hb hd => hb.step hd) h hs

theorem placed_steps (s : Settings) (vs : List Move)
    (hs : ({ settings := s } : Server).steps vs = some w) : Placed w :=
  Placed.steps (by simp [Placed]) vs hs

theorem settings_steps (s : Settings) (vs : List Move)
    (hs : ({ settings := s } : Server).steps vs = some w) : w.settings = s :=
  steps_induction (P := fun b => b.settings = s) vs
    (fun _ _ _ _ hb hd => (shape_step hd).settings.trans hb) rfl hs

namespace All

theorem same (h : All P w) (hc : a.cells = w.cells) : All P a := fun i c hi => h i c (hc ▸ hi)

/-- What is said of one session afterwards may be something else than before. -/
theorem modify {Q : Nat → Cell → Prop} (h : All P w) (f : Cell → Cell)
    (hf : ∀ c, w.cells[i]? = some c → P i c → Q i (f c)) (ho : ∀ j c, j ≠ i → P j c → Q j c) :
    All Q { w with cells := w.cells.modify i f } := by
  intro j c hj
  simp only [List.getElem?_modify] at hj
  obtain ⟨b, hb, rfl⟩ := Option.map_eq_some_iff.1 hj
  split
  next hij =>
    subst hij
    exact hf b hb (h i b hb)
  next hij => exact ho j b (Ne.symm hij) (h j b hb)

theorem put (h : All P w) {m n : Session.Machine} (hm : w.machine? i = some m)
    (hn : ∀ c, P i c → c.machine = m → P i { c with machine := n }) : All P (w.put i n) := by
  refine h.modify _ (fun c hc hp => hn c hp ?_) fun _ _ _ hp => hp
  exact Option.some.inj ((machine?_of_cell hc).symm.trans hm)

theorem ask (h : All P w) (hP : Endures P) (i : Nat) (job : Session.Job) :
    All P (w.ask i job).1 := by
  unfold Server.ask
  split
  next m hm =>
    refine h.put hm fun c hc hcm => ?_
    subst hcm
    exact hP.call job hc
  next => exact h

theorem drain (h : All P w) (hP : Endures P) (x : Chore) (l : List Nat) : All P (w.drain x l) := by
  cases l with
  | nil => exact h.same (stopped_same x (w.emit .didStop)).1
  | cons i rest => exact (h.ask hP i .close).same rfl

theorem beginStop (h : All P w) (hP : Endures P) (x : Chore) : All P (w.beginStop x) := by
  unfold Server.beginStop
  split
  · exact h.same (stopped_same x w).1
  · have hk : All P { { w with listener := none }.emit .willStop with table := {} } := h.same rfl
    exact hk.drain hP x _

theorem acceptFailed (h : All P w) (hP : Endures P) (x : Chore) (e : Error) :
    All P (w.acceptFailed x e) := by
  unfold Server.acceptFailed
  split
  · exact h.same rfl
  · split
    · split
      · exact h.beginStop hP _
      · exact h.same rfl
    · exact h.same rfl

theorem start (h : All P w) (bound : Except Error Address) : All P (w.start bound).1 := by
  unfold Server.start
  split
  · exact h
  · cases bound <;> exact h.same rfl

theorem begin (h : All P w) (hP : Endures P) (x : Chore) : All P (w.begin x) := by
  unfold Server.begin
  split
  · exact h.same (beginAccept_same x w).1
  · exact h.same (beginAccept_same x w).1
  · exact h.same (beginAccept_same x w).1
  · exact h.beginStop hP x
  · exact (h.ask hP _ _).same rfl
  next p _ =>
    split
    · exact h.same rfl
    · have hk : All P { w with table := w.table.erase p } := h.same rfl
      exact (hk.ask hP _ _).same rfl

theorem callRun (h : All P w) (hP : Endures P) (bound : Except Error Address) (down : Bool) :
    All P (w.callRun bound down) := by
  have hk : All P ((w.emit .willRun).add .run) := h.same rfl
  have hs := hk.start bound
  unfold Server.callRun
  dsimp only
  split
  next hb =>
    rw [hb] at hs
    split
    · exact hs.beginStop hP _
    · exact hs.begin hP _
  next hb =>
    rw [hb] at hs
    exact hs.same rfl

theorem release (h : All P w) (hP : Endures P) (x : Chore) : All P (w.release x) := by
  unfold Server.release
  split
  next i t _ =>
    split
    next n hn =>
      obtain ⟨m, hm, hs⟩ := Option.bind_eq_some_iff.1 hn
      refine h.put hm fun c hc hcm => ?_
      subst hcm
      exact hP.cancel hc hs
    next => exact h
  next => exact h

theorem enrol (h : All P w) (p : Address) (hp : P w.cells.length (w.newCell p)) :
    All P (w.enrol p) := by
  intro i c hi
  rw [Server.enrol, List.getElem?_append] at hi
  split at hi
  next => exact h i c hi
  next hlt =>
    rw [List.getElem?_singleton] at hi
    split at hi
    next hz =>
      obtain rfl : w.newCell p = c := Option.some.inj hi
      obtain rfl : i = w.cells.length := by omega
      exact hp
    next => simp at hi

theorem connected (h : All P w) (hP : Endures P) (x : Chore) (p : Address)
    (hp : P w.cells.length (w.newCell p)) : All P (w.connected x p) := by
  unfold Server.connected
  dsimp only
  split
  · exact (h.enrol p hp).same (accepted_same _ _ _ _).1
  · exact ((h.enrol p hp).ask hP _ _).same rfl

/-- A datagram is for one session alone, be it a new one. -/
theorem datagram {Q : Nat → Cell → Prop} (h : All P w) (x : Chore) (p : Address) (data : Bytes)
    (hp : (w.pick p).2 = true → P w.cells.length (w.newCell p))
    (hd : ∀ c, P (w.pick p).1 c → Q (w.pick p).1 { c with
      machine := c.machine.deliver w.settings.loops.buffersize
        (data.take w.settings.loops.buffersize)
      inbox := if c.inbox.length < inboxCapacity
        then c.inbox ++ [data.take w.settings.loops.buffersize] else c.inbox })
    (ho : ∀ j c, j ≠ (w.pick p).1 → P j c → Q j c) : All Q (w.datagram x p data) := by
  have hr : All P (w.ready p) := by
    unfold ready
    split
    next hf => exact h.enrol p (hp hf)
    next => exact h
  refine All.same ?_ (datagram_same x p data w).1
  refine hr.modify _ (fun c _ hc => ?_) ho
  rw [settings_ready]
  exact hd c hc

theorem pass (h : All P w) (d : Duration) (hd : ∀ i c, P i c → P i (c.later d)) :
    All P (w.later d) := by
  intro i c hi
  rw [later, List.getElem?_map] at hi
  obtain ⟨b, hb, rfl⟩ := Option.map_eq_some_iff.1 hi
  exact hd i b (h i b hb)

/-- A chore goes on, by itself or because somebody asks for it. -/
theorem chore (h : All P w) (hP : Endures P) (hv : v.isOfChore = true) (hs : w.step v = some a) :
    All P a := by
  cases turn_step hs with
  | start bound => exact h.start bound
  | @call job =>
    have hk : All P (w.add job) := h.same rfl
    exact hk.begin hP _
  | run bound down => exact h.callRun hP bound down
  | begin => exact h.begin hP _
  | acceptFailed e => exact h.acceptFailed hP _ e
  | @wake x => exact h.same (beginAccept_same x w).1
  | replaced => exact h.same (accepted_same _ _ _ _).1
  | drained => exact h.drain hP _ _
  | @shutDown x => exact (h.release hP x).beginStop hP x
  | @cancel x => exact (h.release hP x).same rfl
  | spawn | tended | closed | remove | removeIf => exact h.same rfl
  | connected | datagram | session | receive | pass => simp [Move.isOfChore] at hv

end All

/-! What a server does with a session are moves of the session. -/
section Came
variable {c d : Cell} {m : Session.Machine} {u : Session.Move}

theorem Goes.refl (v : Move) (c : Cell) : Goes v c c := ⟨[], rfl, by simp⟩

theorem Goes.step (h : Goes v c d) (hs : d.machine.step u = some m) (hv : ∀ e, v ≠ .pass e)
    (hu : ∀ e, u ≠ .pass e) (inbox : List Bytes) : Goes v c { d with machine := m, inbox } := by
  obtain ⟨us, h, hus⟩ := h
  refine ⟨us ++ [u], ?_, fun e he => ?_⟩
  · rw [Session.Machine.steps_append, h, Option.bind_some, Session.Machine.steps, hs]
    rfl
  · obtain he | he := List.mem_append.1 he
    · exact absurd (hus e he).1 (hv e)
    · exact absurd (List.mem_singleton.1 he).symm (hu e)

theorem Came.step (h : Came v w i d) (hs : d.machine.step u = some m) (hv : ∀ e, v ≠ .pass e)
    (hu : ∀ e, u ≠ .pass e) (inbox : List Bytes) : Came v w i { d with machine := m, inbox } := by
  obtain ⟨c, hc, h⟩ | ⟨p, hn, hi, h⟩ := h
  · exact .inl ⟨c, hc, h.step hs hv hu inbox⟩
  · exact .inr ⟨p, hn, hi, h.step hs hv hu inbox⟩

theorem came_step (hs : w.step v = some a) : All (Came v w) a := by
  have base : All (Came v w) w := fun i c hc => .inl ⟨c, hc, .refl v c⟩
  have hen (hv : ∀ e, v ≠ .pass e) : Endures (Came v w) :=
    ⟨fun job h => h.step (u := .call job) rfl hv (by simp) _, fun h hs => h.step hs hv (by simp) _⟩
  cases v with
  | connected k p =>
    cases turn_step hs with
    | connected => exact base.connected (hen (by simp)) _ p (.inr ⟨p, rfl, rfl, .refl _ _⟩)
  | datagram k p data =>
    obtain ⟨x, -, rfl⟩ := of_step_datagram hs
    refine base.datagram x p data (fun hf => ?_) (fun c hc => ?_) fun _ _ _ hc => hc
    · exact .inr ⟨p, if_pos hf, rfl, .refl _ _⟩
    · exact hc.step (u := .deliver _ _) rfl (by simp) (by simp) _
  | session i u =>
    cases turn_step hs with
    | session ho hm hn =>
      refine base.put hm fun c hc hcm => ?_
      subst hcm
      refine hc.step hn (by simp) ?_ _
      rintro d rfl
      simp [isOutside] at ho
  | receive i t =>
    cases turn_step hs with
    | receive rest _ hc hn =>
      refine base.modify _ (fun b hb hp => ?_) fun _ _ _ hc => hc
      obtain rfl := Option.some.inj (hc.symm.trans hb)
      exact hp.step hn (by simp) (by simp) rest
  | pass e =>
    obtain rfl : w.later e = a := Option.some.inj hs
    intro i d hi
    rw [later, List.getElem?_map] at hi
    obtain ⟨c, hc, rfl⟩ := Option.map_eq_some_iff.1 hi
    exact .inl ⟨c, hc, [.pass e], rfl, by simp⟩
  | _ => exact base.chore (hen (by simp)) rfl hs

theorem goes_step (hs : w.step v = some a) (hc : w.cells[i]? = some c) :
    ∃ d, a.cells[i]? = some d ∧ Goes v c d := by
  have hi := (List.getElem?_eq_some_iff.1 hc).1
  have hlt : i < a.cells.length := Nat.lt_of_lt_of_le hi ((shape_step hs).length ▸ Nat.le_add_right _ _)
  obtain ⟨d, hd⟩ : ∃ d, a.cells[i]? = some d := ⟨_, List.getElem?_eq_getElem hlt⟩
  obtain ⟨b, hb, hg⟩ | ⟨p, -, rfl, -⟩ := came_step hs i d hd
  · obtain rfl := Option.some.inj (hc.symm.trans hb)
    exact ⟨d, hd, hg⟩
  · exact absurd hi (Nat.lt_irrefl _)

end Came
end Switchboard.Server
