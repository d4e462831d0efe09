import Switchboard.Proofs.Server.Chores
import Switchboard.Proofs.Server.Reuse

/-! The peers of a server over UDP do not disturb each other. Out of a run in which many peers send,
and are received from and closed, one takes all that is done with other peers; what is left is a run,
and the sessions of the one peer come out of it as they come out of the whole. -/
namespace Switchboard.Server

/-- The place of a session among those of a peer, where `l` has the peers of all sessions. -/
def rank (l : List Address) (p : Address) (i : Nat) : Nat := (l.take i).count p

/-- Moves with accepts, with sessions, with the table and with the clock. Nobody is served in the
background. -/
def isPlain : Move → Bool
  | .session .. | .receive .. | .remove _ | .removeIf .. => true
  | v => isAccepting v

def only? (p : Address) (w : Server) : Move → Option Move
  | .datagram c q data => if q = p then some (.datagram c q data) else none
  | .session i v => if w.peers[i]? = some p then some (.session (rank w.peers p i) v) else none
  | .receive i t => if w.peers[i]? = some p then some (.receive (rank w.peers p i) t) else none
  | .remove q => if q = p then some (.remove q) else none
  | .removeIf q i =>
    if q = p ∧ w.peers[i]? = some p then some (.removeIf q (rank w.peers p i)) else none
  | v => some v

def only (p : Address) : List Move → Server → List Move
  | [], _ => []
  | v :: vs, w => ((w.step v).map fun a => (w.only? p v).toList ++ only p vs a).getD []

/-- What is left of an answer: the accept of another peer's datagram has none. -/
def Answer.only? (p : Address) (l : List Address) : Answer → Option Answer
  | .accepted i fresh => if l[i]? = some p then some (.accepted (rank l p i) fresh) else none
  | o => some o

def answersOnly (p : Address) (l : List Address) (rs : List (ChoreId × Answer)) :
    List (ChoreId × Answer) :=
  rs.filterMap fun r => (r.2.only? p l).map (r.1, ·)

section Rank
variable {cs : List Cell} {l : List Address} {p q : Address} {i j : Nat} {c : Cell}

theorem modify_append_cons {α : Type*} (f : α → α) (l : List α) (c : α) (r : List α) :
    (l ++ c :: r).modify l.length f = l ++ f c :: r := by
  induction l with
  | nil => rfl
  | cons a l ih => simpa using ih

/-- Among the cells of its peer a cell has its rank for a place. -/
theorem filter_at (h : cs[i]? = some c) (hc : c.peer = p) :
    cs.filter (·.peer = p) = (cs.take i).filter (·.peer = p) ++
      c :: (cs.drop (i + 1)).filter (·.peer = p) ∧
    ((cs.take i).filter (·.peer = p)).length = rank (cs.map (·.peer)) p i := by
  refine ⟨?_, ?_⟩
  · conv_lhs => rw [(split_at id h).1]
    rw [List.filter_append, List.filter_cons_of_pos (by simp [hc])]
  · rw [rank, List.count, ← List.map_take, List.countP_map, ← List.countP_eq_length_filter]
    rfl

theorem getElem?_filter_rank (h : cs[i]? = some c) (hc : c.peer = p) :
    (cs.filter (·.peer = p))[rank (cs.map (·.peer)) p i]? = some c := by
  obtain ⟨hf, hr⟩ := filter_at h hc
  rw [hf, ← hr, List.getElem?_append_right (Nat.le_refl _), Nat.sub_self]
  rfl

theorem filter_modify_rank (f : Cell → Cell) (h : cs[i]? = some c) (hc : c.peer = p)
    (hf : (f c).peer = p) :
    (cs.modify i f).filter (·.peer = p) =
      (cs.filter (·.peer = p)).modify (rank (cs.map (·.peer)) p i) f := by
  obtain ⟨hs, hr⟩ := filter_at h hc
  rw [hs, ← hr, modify_append_cons, (split_at f h).2, List.filter_append,
    List.filter_cons_of_pos (by simp [hf])]

theorem filter_modify_other (f : Cell → Cell) (h : cs[i]? = some c) (hc : c.peer ≠ p)
    (hf : (f c).peer ≠ p) :
    (cs.modify i f).filter (·.peer = p) = cs.filter (·.peer = p) := by
  conv_rhs => rw [(split_at id h).1]
  rw [(split_at f h).2, List.filter_append, List.filter_append,
    List.filter_cons_of_neg (by simp [hf]), List.filter_cons_of_neg (by simp [hc])]

theorem peers_modify (f : Cell → Cell) (h : cs[i]? = some c) (hf : (f c).peer = c.peer) :
    (cs.modify i f).map (·.peer) = cs.map (·.peer) := by
  conv_rhs => rw [(split_at id h).1]
  rw [(split_at f h).2, List.map_append, List.map_append, List.map_cons, List.map_cons, hf]

theorem rank_length (cs : List Cell) (p : Address) :
    rank (cs.map (·.peer)) p cs.length = (cs.filter (·.peer = p)).length := by
  rw [rank, List.take_of_length_le (by simp), List.count, List.countP_map,
    ← List.countP_eq_length_filter]
  rfl

theorem rank_append (hi : i ≤ l.length) (r : List Address) : rank (l ++ r) p i = rank l p i := by
  rw [rank, rank, List.take_append_of_le_length hi]

theorem rank_lt (hi : l[i]? = some p) (hij : i < j) : rank l p i < rank l p j :=
  calc rank l p i < rank l p (i + 1) := by simp [rank, List.take_add_one, hi]
    _ ≤ rank l p j := (List.take_sublist_take_left hij).count_le p

/-- Two sessions of a peer have not one rank. -/
theorem rank_inj (hi : l[i]? = some p) (hj : l[j]? = some p) : rank l p i = rank l p j ↔ i = j := by
  refine ⟨fun h => ?_, congrArg _⟩
  obtain hlt | rfl | hlt := Nat.lt_trichotomy i j
  · exact absurd h (Nat.ne_of_lt (rank_lt hi hlt))
  · rfl
  · exact absurd h.symm (Nat.ne_of_lt (rank_lt hj hlt))

/-- Sessions made later change nothing in what is left of answers given before. -/
theorem answersOnly_append {rs : List (ChoreId × Answer)}
    (h : ∀ r ∈ rs, ∀ i fresh, r.2 = .accepted i fresh → i < l.length) (k : List Address) :
    answersOnly p (l ++ k) rs = answersOnly p l rs := by
  refine List.filterMap_congr fun r hr => ?_
  cases ho : r.2 with
  | accepted i fresh =>
    have hi := h r hr i fresh ho
    simp only [Answer.only?, List.getElem?_append_left hi, rank_append (Nat.le_of_lt hi)]
  | done | closed | failed => rfl

end Rank

/-- `u` stands as `w` does for the peer `p`: it has the sessions of that peer only, and the same
chores wait in it, besides others perhaps, which in `w` have got a datagram from somebody else. -/
structure Mirror (p : Address) (w u : Server) : Prop where
  settings : u.settings = w.settings
  now : u.now = w.now
  listener : u.listener = w.listener
  listeners : u.listeners = w.listeners
  fresh : u.fresh = w.fresh
  cells : u.cells = w.cells.filter (·.peer = p)
  entry : u.table.get? p = (w.table.get? p).map (rank w.peers p)
  chores : w.chores ⊆ u.chores
  answers : u.finished = answersOnly p w.peers w.finished
  valid : ∀ r ∈ w.finished, ∀ i fresh, r.2 = .accepted i fresh → i < w.peers.length

structure Tidy (w : Server) : Prop where
  kept : ∃ l, Kept l w
  rolled : Rolled w
  accepts : AcceptsOnly w

variable {w u a : Server} {x : Chore} {p q : Address} {c : ChoreId} {i : Nat} {v : Move}

theorem Tidy.step (h : Tidy w) (hv : isPlain v = true) (hs : w.step v = some a) : Tidy a := by
  obtain ⟨l, hk⟩ := h.kept
  refine ⟨⟨_, (hk.step hs).1⟩, h.rolled.step hs, ?_⟩
  by_cases ha : isAccepting v = true
  · by_cases hd : ∃ c q data, v = .datagram c q data
    · obtain ⟨c, q, data, rfl⟩ := hd
      obtain ⟨x, hx, rfl⟩ := of_step_datagram hs
      exact h.accepts.datagram (of_chore? hx).1 q data
    · simp only [not_exists] at hd
      exact (still_step h.accepts ha hd hs).accepts
  · cases turn_step hs with
    | session | receive | remove | removeIf => exact h.accepts
    | _ => exact absurd hv ha

namespace Mirror

theorem empty (s : Settings) (p : Address) : Mirror p { settings := s } { settings := s } :=
  ⟨rfl, rfl, rfl, rfl, rfl, rfl, rfl, List.Subset.refl _, rfl, by simp⟩

theorem settle (h : Mirror p w u) (c : ChoreId) {o r : Answer} (hr : o.only? p w.peers = some r)
    (ho : ∀ i fresh, o = .accepted i fresh → i < w.peers.length) :
    Mirror p (w.settle c o) (u.settle c r) :=
  { h with
    chores := List.filter_subset _ h.chores
    answers := by
      have hc : answersOnly p w.peers ((c, o) :: w.finished) =
          (c, r) :: answersOnly p w.peers w.finished :=
        List.filterMap_cons_some (by rw [hr, Option.map_some])
      exact (congrArg _ h.answers).trans hc.symm
    valid := fun r hr => by
      obtain rfl | hr := List.mem_cons.1 hr
      · exact ho
      · exact h.valid r hr }

/-- The chore that got another peer's datagram is done, and waits on where that never came. -/
theorem settle_left (h : Mirror p w u) (c : ChoreId) {o : Answer} (hr : o.only? p w.peers = none)
    (ho : ∀ i fresh, o = .accepted i fresh → i < w.peers.length) : Mirror p (w.settle c o) u :=
  { h with
    chores := fun x hx => h.chores (List.mem_filter.1 hx).1
    answers := by
      have hc : answersOnly p w.peers ((c, o) :: w.finished) =
          answersOnly p w.peers w.finished :=
        List.filterMap_cons_none (by rw [hr, Option.map_none])
      exact h.answers.trans hc.symm
    valid := fun r hr => by
      obtain rfl | hr := List.mem_cons.1 hr
      · exact ho
      · exact h.valid r hr }

theorem add (h : Mirror p w u) (job : Job) : Mirror p (w.add job) (u.add job) :=
  { h with
    fresh := congrArg (· + 1) h.fresh
    chores := fun x hx => by
      obtain hx | rfl := mem_add hx
      · exact List.mem_append_left _ (h.chores hx)
      · exact List.mem_append_right _ (by simp [h.fresh]) }

theorem beginAccept (h : Mirror p w u) (hx : x.job = .accept) :
    Mirror p (w.beginAccept x) (u.beginAccept x) := by
  unfold Server.beginAccept
  rw [h.listener]
  split
  · rw [acceptFailed_eq _ _ hx, acceptFailed_eq _ _ hx]
    exact h.settle _ rfl (by simp)
  · exact { h with chores := List.map_subset _ h.chores }

theorem start (h : Mirror p w u) (bound : Except Error Address) :
    Mirror p (w.start bound).1 (u.start bound).1 := by
  unfold Server.start
  rw [h.listener]
  split
  · exact h
  · cases bound with
    | ok here => exact { h with
        listener := congrArg some h.listeners, listeners := congrArg (· + 1) h.listeners }
    | error e => exact { h with }

theorem cell (h : Mirror p w u) {c : Cell} (hc : w.cells[i]? = some c) (hp : c.peer = p) :
    u.cells[rank w.peers p i]? = some c := by
  rw [h.cells]
  exact getElem?_filter_rank hc hp

/-- The sessions go on, each with the peer that it has. -/
theorem recell (h : Mirror p w u) {cs ds : List Cell} (hd : ds = cs.filter (·.peer = p))
    (hc : cs.map (·.peer) = w.peers) : Mirror p { w with cells := cs } { u with cells := ds } := by
  have hpeers : ({ w with cells := cs } : Server).peers = w.peers := hc
  refine { h with cells := hd, entry := ?_, answers := ?_, valid := ?_ }
  · rw [hpeers]
    exact h.entry
  · rw [hpeers]
    exact h.answers
  · rw [hpeers]
    exact h.valid

theorem modify (h : Mirror p w u) (f : Cell → Cell) {c : Cell} (hc : w.cells[i]? = some c)
    (hp : c.peer = p) (hf : (f c).peer = p) :
    Mirror p { w with cells := w.cells.modify i f }
      { u with cells := u.cells.modify (rank w.peers p i) f } := by
  refine h.recell ?_ (peers_modify f hc (hf.trans hp.symm))
  rw [h.cells]
  exact (filter_modify_rank f hc hp hf).symm

theorem modify_left (h : Mirror p w u) (f : Cell → Cell) {c : Cell} (hc : w.cells[i]? = some c)
    (hp : c.peer ≠ p) (hf : (f c).peer = c.peer) :
    Mirror p { w with cells := w.cells.modify i f } u := by
  refine h.recell ?_ (peers_modify f hc hf)
  rw [h.cells]
  exact (filter_modify_other f hc hp (hf ▸ hp)).symm

theorem newCell (h : Mirror p w u) : u.newCell p = w.newCell p := by
  simp only [Server.newCell, h.settings, h.now]

theorem enrol (h : Mirror p w u) : Mirror p (w.enrol p) (u.enrol p) := by
  have hpeers := peers_enrol p w
  have hlen : w.cells.length = w.peers.length := (List.length_map _).symm
  refine { h with cells := ?_, entry := ?_, answers := ?_, valid := ?_ }
  · simp only [Server.enrol, h.newCell, h.cells, List.filter_append]
    simp [Server.newCell]
  · rw [hpeers]
    simp only [Server.enrol, Table.get?_insert_self, Option.map_some]
    rw [hlen, rank_append (Nat.le_refl _), ← hlen, peers, rank_length, ← h.cells]
  · rw [hpeers]
    exact h.answers.trans (answersOnly_append h.valid _).symm
  · rw [hpeers]
    exact fun r hr i fresh ho => List.length_append ▸ Nat.lt_add_right _ (h.valid r hr i fresh ho)

theorem enrol_left {l : List Admission} (h : Mirror p w u) (hk : Kept l w) (hq : q ≠ p) :
    Mirror p (w.enrol q) u := by
  have hpeers : (w.enrol q).peers = w.peers ++ [q] := by simp [peers, Server.enrol, Server.newCell]
  refine { h with cells := ?_, entry := ?_, answers := ?_, valid := ?_ }
  · rw [h.cells]
    simp [Server.enrol, Server.newCell, hq]
  · rw [hpeers, h.entry]
    simp only [Server.enrol, Table.get?_insert_of_ne hq.symm]
    cases hg : w.table.get? p with
    | none => rfl
    | some i =>
      have hi := (List.getElem?_eq_some_iff.1 (hk.newest _ (Table.mem_of_get? hg)).1).1
      rw [Option.map_some, Option.map_some, rank_append (Nat.le_of_lt hi)]
  · rw [hpeers]
    exact h.answers.trans (answersOnly_append h.valid _).symm
  · rw [hpeers]
    exact fun r hr i fresh ho => List.length_append ▸ Nat.lt_add_right _ (h.valid r hr i fresh ho)

/-- A datagram of the peer goes to the same session, or opens one, on both sides. -/
theorem pick {l : List Admission} (h : Mirror p w u) (hk : Kept l w) :
    u.pick p = (rank w.peers p (w.pick p).1, (w.pick p).2) := by
  have hnew : u.cells.length = rank w.peers p w.cells.length := by
    rw [h.cells, peers, rank_length]
  cases hg : w.table.get? p with
  | none =>
    have hw : (w.table.get? p).filter w.isAlive = none := by rw [hg]; rfl
    have hu : (u.table.get? p).filter u.isAlive = none := by rw [h.entry, hg]; rfl
    rw [pick_of_none hw, pick_of_none hu, hnew]
  | some i =>
    have hi := (hk.newest _ (Table.mem_of_get? hg)).1
    rw [peers, List.getElem?_map] at hi
    obtain ⟨c, hc, hp⟩ := Option.map_eq_some_iff.1 hi
    have ha : u.isAlive (rank w.peers p i) = w.isAlive i := by
      rw [isAlive, isAlive, machine?, machine?, h.cell hc hp, hc]
    cases hb : w.isAlive i with
    | true =>
      rw [pick_of_get? (Option.filter_eq_some_iff.2 ⟨hg, hb⟩),
        pick_of_get? (Option.filter_eq_some_iff.2 ⟨by rw [h.entry, hg, Option.map_some],
          ha.trans hb⟩)]
    | false =>
      have hw : (w.table.get? p).filter w.isAlive = none := by simp [hg, hb]
      have hu : (u.table.get? p).filter u.isAlive = none := by simp [h.entry, hg, ha, hb]
      rw [pick_of_none hw, pick_of_none hu, hnew]

end Mirror

theorem accepted_eq (i : Nat) (fresh : Bool) (w : Server) (hx : x.job = .accept) :
    ∃ t, w.accepted x i fresh = { w with trace := t }.settle x.id (.accepted i fresh) := by
  obtain ⟨t, ht, -⟩ := accepted_told x i fresh w
  exact ⟨t ++ w.trace, by rw [ht, hx]; rfl⟩

/-- The session that a datagram goes to is there when it comes. -/
theorem cell_ready {l : List Admission} (hk : Kept l w) (q : Address) :
    ∃ c, (w.ready q).cells[(w.pick q).1]? = some c ∧ c.peer = q := by
  have h := (newest_ready hk q).1
  rw [peers, List.getElem?_map] at h
  exact Option.map_eq_some_iff.1 h

theorem peers_hand (i : Nat) (data : Bytes) (w : Server) : (w.hand i data).peers = w.peers :=
  (quiet_hand i data w).peers

namespace Mirror

theorem hand (h : Mirror p w u) {c : Cell} (hc : w.cells[i]? = some c) (hp : c.peer = p)
    (data : Bytes) : Mirror p (w.hand i data) (u.hand (rank w.peers p i) data) := by
  have hu (j : Nat) : u.hand j data =
      { u with cells := u.cells.modify j (Cell.hear w.settings.loops.buffersize data) } := by
    rw [← h.settings]
    rfl
  rw [hu]
  exact h.modify (Cell.hear w.settings.loops.buffersize data) hc hp hp

theorem hand_left (h : Mirror p w u) {c : Cell} (hc : w.cells[i]? = some c) (hp : c.peer ≠ p)
    (data : Bytes) : Mirror p (w.hand i data) u :=
  h.modify_left (Cell.hear w.settings.loops.buffersize data) hc hp rfl

theorem accepted (h : Mirror p w u) (hx : x.job = .accept) (hi : w.peers[i]? = some p)
    (fresh : Bool) :
    Mirror p (w.accepted x i fresh) (u.accepted x (rank w.peers p i) fresh) := by
  obtain ⟨t, ht⟩ := accepted_eq i fresh w hx
  obtain ⟨s, hs⟩ := accepted_eq (rank w.peers p i) fresh u hx
  have hm : Mirror p { w with trace := t } { u with trace := s } := { h with }
  rw [ht, hs]
  refine hm.settle x.id (if_pos hi) fun j _ hj => ?_
  obtain ⟨rfl, -⟩ := Answer.accepted.inj hj
  exact (List.getElem?_eq_some_iff.1 hi).1

theorem accepted_left (h : Mirror p w u) (hx : x.job = .accept) (hi : w.peers[i]? = some q)
    (hq : q ≠ p) (fresh : Bool) : Mirror p (w.accepted x i fresh) u := by
  obtain ⟨t, ht⟩ := accepted_eq i fresh w hx
  have hm : Mirror p { w with trace := t } u := { h with }
  have hn : w.peers[i]? ≠ some p := by simpa [hi] using hq
  rw [ht]
  refine hm.settle_left x.id (if_neg hn) fun j _ hj => ?_
  obtain ⟨rfl, -⟩ := Answer.accepted.inj hj
  exact (List.getElem?_eq_some_iff.1 hi).1

theorem datagram {l : List Admission} (h : Mirror p w u) (hk : Kept l w) (hx : x.job = .accept)
    (data : Bytes) : Mirror p (w.datagram x p data) (u.datagram x p data) := by
  have hpk := h.pick hk
  have hr : Mirror p (w.ready p) (u.ready p) := by
    unfold ready
    rw [hpk]
    split
    · exact h.enrol
    · exact h
  obtain ⟨c, hc, hp⟩ := cell_ready hk p
  have hi := (newest_ready hk p).1
  -- new or not, the session has the same rank before and after
  have hrank : rank w.peers p (w.pick p).1 = rank (w.ready p).peers p (w.pick p).1 := by
    have hlt := (List.getElem?_eq_some_iff.1 hi).1
    unfold ready at hlt ⊢
    split at hlt
    next hf =>
      have hpeers := peers_enrol p w
      rw [hpeers, List.length_append] at hlt
      rw [if_pos hf, hpeers, rank_append (Nat.le_of_lt_succ hlt)]
    next hf => rw [if_neg hf]
  have hh := hr.hand hc hp (data.take w.settings.loops.buffersize)
  have ha := hh.accepted hx (by rw [peers_hand, hi]) (w.pick p).2
  rw [datagram_eq, datagram_eq, hpk, h.settings, hrank]
  rwa [peers_hand] at ha

theorem datagram_left {l : List Admission} (h : Mirror p w u) (hk : Kept l w)
    (hx : x.job = .accept) (hq : q ≠ p) (data : Bytes) : Mirror p (w.datagram x q data) u := by
  have hr : Mirror p (w.ready q) u := by
    unfold ready
    split
    · exact h.enrol_left hk hq
    · exact h
  obtain ⟨c, hc, hp⟩ := cell_ready hk q
  have hh := hr.hand_left hc (hp ▸ hq) (data.take w.settings.loops.buffersize)
  rw [datagram_eq]
  exact hh.accepted_left hx (by rw [peers_hand, (newest_ready hk q).1]) hq _

/-- The peer's session is the one on the table on both sides or on none. -/
theorem holds {l : List Admission} (h : Mirror p w u) (hk : Kept l w)
    (hi : w.peers[i]? = some p) : u.table.holds p (rank w.peers p i) = w.table.holds p i := by
  unfold Table.holds
  rw [h.entry]
  cases hg : w.table.get? p with
  | none => rfl
  | some j =>
    have hj := (hk.newest _ (Table.mem_of_get? hg)).1
    simp [rank_inj hj hi]

end Mirror

def Cell.receive (t : Session.TaskId) (fed : Bool) (c : Cell) : Option Cell :=
  (c.machine.task? t).bind fun x =>
    match x.wait, c.inbox with
    | .receiving size _, d :: rest =>
      (c.machine.step (.reply t (.received (d.take size)))).map fun m =>
        { c with machine := m, inbox := rest }
    | .receiving _ _, [] =>
      if fed then none
      else (c.machine.step (.reply t (.received []))).map fun m => { c with machine := m }
    | _, _ => none

theorem receive_eq {c : Cell} (hc : w.cells[i]? = some c) (t : Session.TaskId) :
    w.receive i t = (c.receive t (w.table.holds c.peer i)).map fun d =>
      { w with cells := w.cells.modify i fun _ => d } := by
  have hf : w.isFed i = w.table.holds c.peer i := by rw [isFed, hc, Option.any_some]
  unfold receive Cell.receive
  rw [hc, hf]
  simp only [Option.bind_eq_bind, Option.bind_some]
  cases c.machine.task? t with
  | none => rfl
  | some x =>
    rw [Option.bind_some, Option.bind_some]
    cases x.wait with
    | receiving size deadline =>
      cases hi : c.inbox with
      | cons d rest =>
        dsimp only
        cases c.machine.step (.reply t (.received (d.take size))) with
        | none => rfl
        | some m => exact congrArg some (by rw [List.set_eq_modify])
      | nil =>
        dsimp only
        split
        · rfl
        · cases c.machine.step (.reply t (.received [])) with
          | none => rfl
          | some m => simp [put_eq_modify hc, hi]
    | _ => rfl

theorem peer_receive {c d : Cell} {t : Session.TaskId} {fed : Bool}
    (h : c.receive t fed = some d) : d.peer = c.peer := by
  obtain ⟨x, -, h⟩ := Option.bind_eq_some_iff.1 h
  split at h
  · obtain ⟨m, -, rfl⟩ := Option.map_eq_some_iff.1 h
    rfl
  · obtain ⟨-, h⟩ := Option.ite_none_left_eq_some.1 h
    obtain ⟨m, -, rfl⟩ := Option.map_eq_some_iff.1 h
    rfl
  · simp at h

theorem steps_toList (h : u.step v = some a) : u.steps (some v).toList = some a := by
  rw [Option.toList_some, steps, h]
  rfl

namespace Mirror

theorem retable (h : Mirror p w u) {s t : Table} (ht : t.get? p = (s.get? p).map (rank w.peers p)) :
    Mirror p { w with table := s } { u with table := t } :=
  { h with entry := ht }

theorem remove (h : Mirror p w u) (q : Address) :
    ∃ b, u.steps (w.only? p (.remove q)).toList = some b ∧
      Mirror p { w with table := w.table.erase q } b := by
  by_cases hq : q = p
  · refine ⟨_, by rw [only?, if_pos hq]; exact steps_toList rfl, h.retable ?_⟩
    rw [Table.get?_erase, Table.get?_erase, if_pos hq, if_pos hq]
    rfl
  · refine ⟨u, by rw [only?, if_neg hq]; rfl, h.retable (t := u.table) ?_⟩
    rw [Table.get?_erase, if_neg hq, h.entry]

theorem removeIf {l : List Admission} (h : Mirror p w u) (hk : Kept l w) (q : Address) (i : Nat) :
    ∃ b, u.steps (w.only? p (.removeIf q i)).toList = some b ∧
      Mirror p { w with table := w.table.eraseIf q i } b := by
  by_cases hq : q = p ∧ w.peers[i]? = some p
  · obtain ⟨rfl, hi⟩ := hq
    refine ⟨_, by rw [only?, if_pos ⟨rfl, hi⟩]; exact steps_toList rfl, h.retable ?_⟩
    unfold Table.eraseIf
    rw [h.holds hk hi]
    split
    · rw [Table.get?_erase, Table.get?_erase, if_pos rfl, if_pos rfl]
      rfl
    · exact h.entry
  · refine ⟨u, by rw [only?, if_neg hq]; rfl, h.retable (t := u.table) ?_⟩
    -- the entry of the peer is not that of the session, so it stays
    unfold Table.eraseIf
    split
    next hh =>
      have hne : q ≠ p := fun he => by
        subst he
        exact hq ⟨rfl, (hk.newest _ (Table.mem_of_get? (by simpa [Table.holds] using hh))).1⟩
      rw [Table.get?_erase, if_neg hne, h.entry]
    next => exact h.entry

theorem pass (h : Mirror p w u) (d : Duration) : Mirror p (w.later d) (u.later d) := by
  have hm : Mirror p { w with cells := w.cells.map (Cell.later d) }
      { u with cells := u.cells.map (Cell.later d) } :=
    h.recell (by rw [h.cells, List.filter_map]; rfl) (by rw [List.map_map]; rfl)
  exact { hm with now := congrArg (· + d) h.now }

/-- A task that nobody waits for on one side has nobody waiting for it on the other. -/
theorem isOutside (h : Mirror p w u) (hu : AcceptsOnly u) {c : Cell} (hc : w.cells[i]? = some c)
    (hp : c.peer = p) {v : Session.Move} (ho : w.isOutside i v = true) :
    u.isOutside (rank w.peers p i) v = true := by
  have hm : u.machine? (rank w.peers p i) = w.machine? i := by
    rw [machine?, machine?, h.cell hc hp, hc]
  cases v with
  | cancel t =>
    have hn : ∀ x ∈ u.chores, x.task? ≠ some (rank w.peers p i, t) := fun x hx => by
      simp [(hu x hx).2]
    simpa [Server.isOutside] using hn
  | reply t r =>
    unfold Server.isOutside isReceiving at ho ⊢
    rw [hm, h.settings]
    exact ho
  | call job => cases job <;> exact ho
  | _ => exact ho

theorem session (h : Mirror p w u) (hu : AcceptsOnly u) {v : Session.Move}
    {m n : Session.Machine} (ho : w.isOutside i v = true) (hm : w.machine? i = some m)
    (hs : m.step v = some n) :
    ∃ b, u.steps (w.only? p (.session i v)).toList = some b ∧ Mirror p (w.put i n) b := by
  obtain ⟨c, hc, rfl⟩ := Option.map_eq_some_iff.1 hm
  have hi : w.peers[i]? = some c.peer := by rw [peers, List.getElem?_map, hc, Option.map_some]
  by_cases hp : c.peer = p
  · refine ⟨_, ?_, h.modify _ hc hp hp⟩
    rw [only?, if_pos (hi.trans (congrArg _ hp))]
    refine steps_toList ?_
    rw [Server.step, if_pos (h.isOutside hu hc hp ho), machine?, h.cell hc hp, Option.map_some,
      Option.bind_some, hs]
    rfl
  · refine ⟨u, ?_, h.modify_left _ hc hp rfl⟩
    rw [only?, if_neg (by simpa [hi] using hp)]
    rfl

theorem receive {l : List Admission} (h : Mirror p w u) (hk : Kept l w) {t : Session.TaskId}
    (hs : w.receive i t = some a) :
    ∃ b, u.steps (w.only? p (.receive i t)).toList = some b ∧ Mirror p a b := by
  obtain ⟨c, hc, -⟩ := Option.bind_eq_some_iff.1 hs
  have hi : w.peers[i]? = some c.peer := by rw [peers, List.getElem?_map, hc, Option.map_some]
  rw [receive_eq hc] at hs
  obtain ⟨d, hd, rfl⟩ := Option.map_eq_some_iff.1 hs
  have hpeer := peer_receive hd
  by_cases hp : c.peer = p
  · refine ⟨_, ?_, h.modify _ hc hp (hpeer.trans hp)⟩
    rw [only?, if_pos (hi.trans (congrArg _ hp))]
    refine steps_toList ?_
    rw [Server.step, if_pos (by rw [h.settings, hk.udp]), receive_eq (h.cell hc hp), hp,
      h.holds hk (hi.trans (congrArg _ hp)), ← hp, hd]
    rfl
  · refine ⟨u, ?_, h.modify_left _ hc hp hpeer⟩
    rw [only?, if_neg (by simpa [hi] using hp)]
    rfl

/-- What is left of a move is a move, and behind it the peer finds the same. -/
theorem step (h : Mirror p w u) (hw : Tidy w) (hu : Tidy u) (hv : isPlain v = true)
    (hs : w.step v = some a) :
    ∃ b, u.steps (w.only? p v).toList = some b ∧ Mirror p a b := by
  obtain ⟨l, hk⟩ := hw.kept
  have job {x : Chore} (hx : x ∈ w.chores) : x.job = .accept := (hw.accepts x hx).1
  have known {x : Chore} (hx : x ∈ w.chores) : u.chore? x.id = some x :=
    hu.rolled.chore?_eq_some_iff.2 ⟨h.chores hx, rfl⟩
  cases turn_step hs with
  | start bound => exact ⟨_, steps_toList rfl, h.start bound⟩
  | @call j =>
    obtain rfl : j = .accept := by
      cases j <;> simp_all [isPlain, isAccepting]
    have hb := (h.add .accept).beginAccept (x := ⟨w.fresh, .accept, .starting, 0, none⟩) rfl
    refine ⟨u.call .accept, steps_toList rfl, ?_⟩
    unfold Server.call
    rw [h.fresh]
    exact hb
  | @spawn j =>
    obtain rfl : j = .accept := by
      cases j <;> simp_all [isPlain, isAccepting]
    exact ⟨_, steps_toList rfl, h.add .accept⟩
  | begin hx hw =>
    rw [begin_eq w (job hx)]
    refine ⟨_, steps_toList ?_, h.beginAccept (job hx)⟩
    rw [Server.step, known hx, Option.bind_some, if_pos hw, begin_eq u (job hx)]
  | @datagram x _ q data hx hl hudp =>
    by_cases hq : q = p
    · subst hq
      refine ⟨_, ?_, h.datagram hk (job hx) data⟩
      rw [only?, if_pos rfl]
      refine steps_toList ?_
      have hl : isListening x = true := by rw [isListening, hl]
      rw [Server.step, known hx, Option.bind_some, if_pos (by simp [h.settings, hudp, hl])]
    · refine ⟨u, ?_, h.datagram_left hk (job hx) hq data⟩
      rw [only?, if_neg hq]
      rfl
  | @acceptFailed x _ e hx hl =>
    rw [acceptFailed_eq e w (job hx)]
    refine ⟨_, steps_toList ?_, h.settle x.id rfl (by simp)⟩
    have hl : isListening x = true := by rw [isListening, hl]
    rw [Server.step, known hx, Option.bind_some, if_pos hl, acceptFailed_eq e u (job hx)]
  | @cancel x hx =>
    have hr (b : Server) : b.release x = b := by rw [release, (hw.accepts x hx).2]
    rw [hr w]
    refine ⟨{ u with chores := u.chores.filter (·.id ≠ x.id) }, steps_toList ?_,
      { h with chores := List.filter_subset _ h.chores }⟩
    rw [Server.step, known hx, Option.bind_some, if_pos (by simp [job hx, isPublic]), hr u]
  | session ho hm hn => exact h.session hu.accepts ho hm hn
  | receive rest hudp hc hn =>
    obtain ⟨-, hr⟩ := Option.ite_none_right_eq_some.1 hs
    exact h.receive hk hr
  | remove q => exact h.remove q
  | removeIf q i => exact h.removeIf hk q i
  | pass d =>
    exact ⟨u.later d, steps_toList rfl, h.pass d⟩
  | run | connected | wake | replaced | tended | closed | drained | shutDown =>
    simp [isPlain, isAccepting] at hv

/-- What is left of a plain move is plain. -/
theorem isPlain_only {v' : Move} (hv : isPlain v = true) (h : w.only? p v = some v') :
    isPlain v' = true := by
  cases v <;> simp only [only?, Option.ite_none_right_eq_some, Option.some.injEq] at h <;>
    first | (obtain ⟨-, rfl⟩ := h; rfl) | (subst h; exact hv)

theorem steps (h : Mirror p w u) (hw : Tidy w) (hu : Tidy u) (vs : List Move)
    (hv : ∀ v ∈ vs, isPlain v = true) (hs : w.steps vs = some a) :
    ∃ b, u.steps (only p vs w) = some b ∧ Mirror p a b := by
  induction vs generalizing w u with
  | nil =>
    obtain rfl := Option.some.inj hs
    exact ⟨u, rfl, h⟩
  | cons v vs ih =>
    obtain ⟨b, hb, hs⟩ := Option.bind_eq_some_iff.1 hs
    have hvp := hv v List.mem_cons_self
    obtain ⟨d, hd, hm⟩ := h.step hw hu hvp hb
    have hdt : Tidy d := by
      cases ho : w.only? p v with
      | none =>
        rw [ho] at hd
        obtain rfl := Option.some.inj hd
        exact hu
      | some v' =>
        rw [ho, Option.toList_some] at hd
        obtain ⟨e, he, hd⟩ := Option.bind_eq_some_iff.1 hd
        obtain rfl := Option.some.inj hd
        exact hu.step (isPlain_only hvp ho) he
    obtain ⟨e, he, hm⟩ := ih hm (hw.step hvp hb) hdt
      (fun v hm => hv v (List.mem_cons_of_mem _ hm)) hs
    refine ⟨e, ?_, hm⟩
    rw [only, hb, Option.map_some, Option.getD_some, steps_append, hd, Option.bind_some, he]

end Mirror

theorem tidy_new {s : Settings} (hu : s.transport = .udp) (h : new s = .ok w) : Tidy w := by
  have hk := kept_new hu h
  obtain rfl := new_eq h
  exact ⟨⟨[], hk⟩, rolled_empty s, fun x hx => by simp at hx⟩

/-- Over UDP, what other peers send and what is done with their sessions is lost on a peer. Take it
out of a run, and what is left is a run in which the sessions of the peer have come to the same state,
with the same events, answers and datagrams still waiting; and the accepts that got a datagram of the
peer have given the same session, counted among those of the peer, and said the same of whether it
was new. -/
theorem peers_isolated (s : Settings) (w₀ : Server) (hu : s.transport = .udp) (h : new s = .ok w₀)
    (vs : List Move) (hv : ∀ v ∈ vs, isPlain v = true) (w : Server) (hw : w₀.steps vs = some w)
    (p : Address) :
    ∃ u, w₀.steps (only p vs w₀) = some u ∧ u.now = w.now ∧
      u.cells = w.cells.filter (·.peer = p) ∧
      u.finished = answersOnly p w.peers w.finished := by
  have ht := tidy_new hu h
  have hm : Mirror p w₀ w₀ := by
    obtain rfl := new_eq h
    exact .empty s p
  obtain ⟨u, hu, hm⟩ := hm.steps ht ht vs hv hw
  exact ⟨u, hu, hm.now, hm.cells, hm.answers⟩

def crowd : List Move :=
  [.start (.ok ⟨.v4 [127, 0, 0, 1], 5060⟩), .call .accept, .datagram 0 alice greeting,
    .call .accept, .datagram 1 bob greeting, .session 1 (.call (.recv 64)), .receive 1 0,
    .session 0 (.call .close), .session 0 (.reply 0 .closed), .call .accept,
    .datagram 2 alice greeting, .remove alice, .call .accept, .datagram 3 bob farewell,
    .call .accept, .datagram 4 bob greeting, .session 3 (.call (.recv 2)), .pass 1000]

theorem peers_isolated_crowd :
    ∃ w₀ w u, new hall = .ok w₀ ∧ (∀ v ∈ crowd, isPlain v = true) ∧ w₀.steps crowd = some w ∧
      w₀.steps (only bob crowd w₀) = some u ∧ u.now = w.now ∧
      u.cells = w.cells.filter (·.peer = bob) ∧
      u.finished = answersOnly bob w.peers w.finished ∧
      u.finished = [(4, .accepted 1 true), (3, .accepted 0 false), (1, .accepted 0 true)] := by
  have hv : ∀ v ∈ crowd, isPlain v = true := by decide
  have h : ((({ settings := hall } : Server).steps crowd).map fun w =>
      answersOnly bob w.peers w.finished) =
        some [(4, .accepted 1 true), (3, .accepted 0 false), (1, .accepted 0 true)] := by
    decide
  obtain ⟨w, hw, hf⟩ := Option.map_eq_some_iff.1 h
  obtain ⟨u, hu, hn, hc, ha⟩ := peers_isolated hall _ rfl rfl crowd hv w hw bob
  exact ⟨_, w, u, rfl, hv, hw, hu, hn, hc, ha, ha.trans hf⟩

end Switchboard.Server
