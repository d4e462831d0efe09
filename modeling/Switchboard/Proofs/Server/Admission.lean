import Switchboard.Proofs.Server.Behind
import Switchboard.Proofs.Session.Lifecycle

/-! Who is accepted over UDP. A datagram goes to the session that stands on the table for its sender
as long as that one is active, and else to a new one. The entry that stands for a sender is always
that of the last session made for it. -/
namespace Switchboard.Server

namespace Table
variable {t : Table} {p q : Address} {i : Nat}

theorem mem_of_get? (h : t.get? p = some i) : (p, i) ∈ t.entries := by
  obtain ⟨e, he, rfl⟩ := Option.map_eq_some_iff.1 h
  obtain rfl : e.1 = p := by simpa using List.find?_some he
  exact List.mem_of_find?_eq_some he

theorem get?_insert_self (t : Table) (p : Address) (i : Nat) : (t.insert p i).get? p = some i := by
  have hn : (t.erase p).entries.find? (·.1 = p) = none := by simp [erase]
  rw [get?, insert, List.find?_append, hn]
  simp

theorem get?_insert_of_ne (h : q ≠ p) : (t.insert p i).get? q = t.get? q := by
  have hp : (t.erase p).entries.find? (·.1 = q) = t.entries.find? (·.1 = q) := by
    rw [erase, List.find?_filter]
    congr 1
    funext e
    by_cases he : e.1 = q <;> simp [he, h]
  simp [get?, insert, hp, h.symm]

theorem mem_insert {e : Address × Nat} (h : e ∈ (t.insert p i).entries) :
    e ∈ t.entries ∨ e = (p, i) := by
  obtain h | h := List.mem_append.1 h
  · exact .inl (List.mem_filter.1 h).1
  · exact .inr (List.mem_singleton.1 h)

theorem get?_erase (t : Table) (p q : Address) :
    (t.erase q).get? p = if q = p then none else t.get? p := by
  rw [get?, get?, erase, List.find?_filter]
  split
  next h =>
    rw [Option.map_eq_none_iff, List.find?_eq_none]
    simp [h]
  next h =>
    congr 2
    funext e
    by_cases he : e.1 = p <;> simp [he, Ne.symm h]

theorem filter_insert_self (t : Table) (p : Address) (i : Nat) :
    (t.insert p i).entries.filter (·.1 = p) = [(p, i)] := by
  simp [insert, erase, List.filter_filter]

theorem filter_insert_ne (t : Table) (p : Address) (i : Nat) :
    (t.insert p i).entries.filter (·.1 ≠ p) = t.entries.filter (·.1 ≠ p) := by
  simp [insert, erase, List.filter_filter]

end Table

def pick (w : Server) (p : Address) : Nat × Bool :=
  match (w.table.get? p).filter w.isAlive with
  | some i => (i, false)
  | none => (w.cells.length, true)

def ready (w : Server) (p : Address) : Server := if (w.pick p).2 then w.enrol p else w

variable {w a : Server} {x : Chore} {p : Address} {c : ChoreId} {data : Bytes}

theorem pick_of_get? {i : Nat} (h : (w.table.get? p).filter w.isAlive = some i) :
    w.pick p = (i, false) := by
  rw [pick, h]

theorem pick_of_none (h : (w.table.get? p).filter w.isAlive = none) :
    w.pick p = (w.cells.length, true) := by
  rw [pick, h]

theorem datagram_eq (x : Chore) (p : Address) (data : Bytes) (w : Server) :
    w.datagram x p data =
      ((w.ready p).hand (w.pick p).1 (data.take w.settings.loops.buffersize)).accepted x
        (w.pick p).1 (w.pick p).2 := by
  unfold datagram
  dsimp only
  split
  next h => rw [ready, pick_of_get? h, if_neg Bool.false_ne_true]
  next h => rw [ready, pick_of_none h, if_pos rfl]

theorem of_step_datagram (h : w.step (.datagram c p data) = some a) :
    ∃ x, w.chore? c = some x ∧ w.datagram x p data = a := by
  obtain ⟨x, hx, h⟩ := Option.bind_eq_some_iff.1 h
  obtain ⟨-, h⟩ := Option.ite_none_right_eq_some.1 h
  exact ⟨x, hx, Option.some.inj h⟩

theorem stopped_same (x : Chore) (w : Server) :
    (w.stopped x).cells = w.cells ∧ (w.stopped x).table = w.table := by
  unfold stopped
  dsimp only
  split <;> exact ⟨rfl, rfl⟩

/-- Who has lost the listener changes nothing but what is told. -/
theorem beginAccept_same (x : Chore) (w : Server) :
    (w.beginAccept x).cells = w.cells ∧ (w.beginAccept x).table = w.table := by
  unfold beginAccept
  split
  next hl =>
    unfold acceptFailed beginStop
    simp only [hl]
    split
    · exact ⟨rfl, rfl⟩
    · split
      · split
        · exact stopped_same _ w
        · exact ⟨rfl, rfl⟩
      · exact ⟨rfl, rfl⟩
  next => exact ⟨rfl, rfl⟩

theorem accepted_same (x : Chore) (i : Nat) (fresh : Bool) (w : Server) :
    (w.accepted x i fresh).cells = w.cells ∧ (w.accepted x i fresh).table = w.table := by
  unfold accepted
  dsimp only
  split
  · rw [(beginAccept_same _ _).1, (beginAccept_same _ _).2]
    cases fresh with
    | false => exact ⟨rfl, rfl⟩
    | true => cases (w.cells[i]?).map (·.peer) <;> exact ⟨rfl, rfl⟩
  · cases fresh <;> cases (w.cells[i]?).map (·.peer) <;> exact ⟨rfl, rfl⟩

structure Admission where
  peer : Address
  session : Nat
  fresh : Bool

def admission? (w : Server) : Move → Option Admission
  | .datagram _ p _ => some ⟨p, (w.pick p).1, (w.pick p).2⟩
  | _ => none

def admissions : List Move → Server → List Admission
  | [], _ => []
  | v :: vs, w => ((w.step v).map fun a => (w.admission? v).toList ++ admissions vs a).getD []

def latestFresh (p : Address) (l : List Admission) : Option Nat :=
  (l.reverse.find? fun x => x.peer = p && x.fresh).map (·.session)

theorem latestFresh_concat (q p : Address) (l : List Admission) (i : Nat) (fresh : Bool) :
    latestFresh q (l ++ [⟨p, i, fresh⟩]) =
      if p = q ∧ fresh = true then some i else latestFresh q l := by
  simp only [latestFresh, List.reverse_append, List.reverse_singleton, List.singleton_append,
    List.find?_cons]
  by_cases h : p = q ∧ fresh = true
  · simp [h]
  · have hf : (decide (p = q) && fresh) = false := by simpa using h
    rw [hf, if_neg h]

def peers (w : Server) : List Address := w.cells.map (·.peer)

def IsNewest (l : List Address) (p : Address) (i : Nat) : Prop :=
  l[i]? = some p ∧ ∀ j, i < j → l[j]? ≠ some p

theorem isNewest_concat (l : List Address) (p : Address) : IsNewest (l ++ [p]) p l.length := by
  refine ⟨by simp, fun j hj => ?_⟩
  rw [List.getElem?_eq_none (by simp; omega)]
  simp

theorem IsNewest.concat {l : List Address} {i : Nat} {q : Address} (h : IsNewest l p i)
    (hq : q ≠ p) : IsNewest (l ++ [q]) p i := by
  have hi : i < l.length := (List.getElem?_eq_some_iff.1 h.1).1
  refine ⟨by rw [List.getElem?_append_left hi, h.1], fun j hj => ?_⟩
  rw [List.getElem?_append]
  split
  · exact h.2 j hj
  · rw [List.getElem?_singleton]
    split
    · simpa using hq
    · simp

structure Kept (l : List Admission) (w : Server) : Prop where
  udp : w.settings.transport = .udp
  steady : ∀ x ∈ w.chores, x.isReplacing = false
  orderly : ∀ i m, w.machine? i = some m → m.Orderly
  newest : ∀ e ∈ w.table.entries, IsNewest w.peers e.1 e.2
  latest : ∀ e ∈ w.table.entries, latestFresh e.1 l = some e.2

variable {l : List Admission}

theorem Kept.quiet (hw : Kept l w) (h : Quiet w a) : Kept l a where
  udp := by rw [h.settings, hw.udp]
  steady x hx := by
    by_contra hr
    obtain ⟨y, hy, hr⟩ := h.replacing x hx (by simpa using hr)
    rw [hw.steady y hy] at hr
    exact Bool.false_ne_true hr
  orderly i m hm := by
    obtain ⟨n, us, hn, hs⟩ := h.machines i m hm
    exact (hw.orderly i n hn).steps us hs
  newest e he := by
    rw [peers, h.peers]
    exact hw.newest e (h.table.subset he)
  latest e he := hw.latest e (h.table.subset he)

theorem orderly_newCell (p : Address) (w : Server) : (w.newCell p).machine.Orderly :=
  ⟨by simp [newCell], by simp [newCell], by simp [newCell], by simp [newCell]⟩

theorem peers_enrol (p : Address) (w : Server) : (w.enrol p).peers = w.peers ++ [p] := by
  simp [peers, enrol, newCell]

/-- A new session is put on the table for its peer and for nobody else. -/
theorem Kept.enrol (hw : Kept l w) (p : Address) :
    Kept (l ++ [⟨p, w.cells.length, true⟩]) (w.enrol p) := by
  have hp := peers_enrol p w
  have hl : w.peers.length = w.cells.length := List.length_map _
  have he : ∀ e ∈ (w.enrol p).table.entries,
      e = (p, w.cells.length) ∨ e ∈ w.table.entries ∧ e.1 ≠ p := by
    intro e he
    obtain he | he := List.mem_append.1 he
    · obtain ⟨he, hn⟩ := List.mem_filter.1 he
      exact .inr ⟨he, by simpa using hn⟩
    · exact .inl (List.mem_singleton.1 he)
  refine ⟨hw.udp, hw.steady, fun i m hm => ?_, fun e h => ?_, fun e h => ?_⟩
  · simp only [machine?, Server.enrol, List.getElem?_append] at hm
    split at hm
    · exact hw.orderly i m hm
    · rw [List.getElem?_singleton] at hm
      split at hm
      · obtain rfl := Option.some.inj hm
        exact orderly_newCell p w
      · simp at hm
  · rw [hp]
    obtain rfl | ⟨he, hn⟩ := he e h
    · rw [← hl]
      exact isNewest_concat _ _
    · exact (hw.newest e he).concat hn.symm
  · rw [latestFresh_concat]
    obtain rfl | ⟨he, hn⟩ := he e h
    · rw [if_pos ⟨rfl, rfl⟩]
    · rw [if_neg fun hp => hn hp.1.symm, hw.latest e he]

theorem Kept.again (hw : Kept l w) (p : Address) (i : Nat) : Kept (l ++ [⟨p, i, false⟩]) w :=
  { hw with latest := fun e he => by rw [latestFresh_concat, if_neg (by simp), hw.latest e he] }

theorem Kept.ready (hw : Kept l w) (p : Address) :
    Kept (l ++ [⟨p, (w.pick p).1, (w.pick p).2⟩]) (w.ready p) := by
  unfold Server.ready pick
  split
  · exact hw.again p _
  · exact hw.enrol p

theorem Kept.emit (hw : Kept l w) (e : Event) : Kept l (w.emit e) := { hw with }

theorem quiet_hand (i : Nat) (data : Bytes) (w : Server) : Quiet w (w.hand i data) :=
  quiet_modify i _ w fun _ _ => ⟨rfl, [.deliver w.settings.loops.buffersize data], rfl⟩

theorem get?_ready (w : Server) (p : Address) :
    (w.ready p).table.get? p = some (w.pick p).1 := by
  unfold ready pick
  split
  next h => exact (Option.filter_eq_some_iff.1 h).1
  next => exact Table.get?_insert_self _ _ _

/-- The session that a datagram goes to is the last that was made for its sender. -/
theorem newest_ready (hw : Kept l w) (p : Address) :
    IsNewest (w.ready p).peers p (w.pick p).1 :=
  (hw.ready p).newest _ (Table.mem_of_get? (get?_ready w p))

def handed (w : Server) (p : Address) (data : Bytes) : Server :=
  let u := (w.ready p).hand (w.pick p).1 (data.take w.settings.loops.buffersize)
  if (w.pick p).2 then u.emit (.didAccept p) else u

theorem Kept.handed (hw : Kept l w) (p : Address) (data : Bytes) :
    Kept (l ++ [⟨p, (w.pick p).1, (w.pick p).2⟩]) (w.handed p data) := by
  have h := (hw.ready p).quiet
    (quiet_hand (w.pick p).1 (data.take w.settings.loops.buffersize) (w.ready p))
  unfold Server.handed
  dsimp only
  split
  · exact h.emit _
  · exact h

theorem quiet_datagram (hw : Kept l w) (x : Chore) (p : Address) (data : Bytes) :
    Quiet (w.handed p data) (w.datagram x p data) := by
  have hq := quiet_hand (w.pick p).1 (data.take w.settings.loops.buffersize) (w.ready p)
  have hp := (newest_ready hw p).1
  rw [peers, ← hq.peers, List.getElem?_map] at hp
  rw [datagram_eq, handed]
  cases hf : (w.pick p).2 with
  | false => exact (quiet_accepted x _ _).1
  | true => exact (quiet_accepted x _ _).2 p hp

theorem Kept.datagram (hw : Kept l w) (x : Chore) (p : Address) (data : Bytes) :
    Kept (l ++ [⟨p, (w.pick p).1, (w.pick p).2⟩]) (w.datagram x p data) :=
  (hw.handed p data).quiet (quiet_datagram hw x p data)

theorem admission?_eq_none {v : Move} (hv : ∀ c p data, v ≠ .datagram c p data) :
    w.admission? v = none := by
  unfold admission?
  split
  · exact absurd rfl (hv _ _ _)
  · rfl

theorem settings_ready (w : Server) (p : Address) : (w.ready p).settings = w.settings := by
  unfold ready
  split <;> rfl

theorem settings_handed (w : Server) (p : Address) (data : Bytes) :
    (w.handed p data).settings = w.settings := by
  unfold handed
  dsimp only
  split <;> exact settings_ready w p

theorem Kept.step (hw : Kept l w) {v : Move} (h : w.step v = some a) :
    Kept (l ++ (w.admission? v).toList) a ∧ a.settings = w.settings := by
  by_cases hv : ∃ c p data, v = .datagram c p data
  · obtain ⟨c, p, data, rfl⟩ := hv
    obtain ⟨x, -, rfl⟩ := of_step_datagram h
    exact ⟨hw.datagram x p data, (quiet_datagram hw x p data).settings.trans (settings_handed ..)⟩
  · simp only [not_exists] at hv
    have hq := quiet_step hw.udp hw.steady hv h
    rw [admission?_eq_none hv, Option.toList_none, List.append_nil]
    exact ⟨hw.quiet hq, hq.settings⟩

theorem Kept.steps (hw : Kept l w) (vs : List Move) (h : w.steps vs = some a) :
    Kept (l ++ admissions vs w) a := by
  induction vs generalizing l w with
  | nil =>
    obtain rfl := Option.some.inj h
    simpa [admissions] using hw
  | cons v vs ih =>
    obtain ⟨b, hb, h⟩ := Option.bind_eq_some_iff.1 h
    rw [admissions, hb, Option.map_some, Option.getD_some, ← List.append_assoc]
    exact ih (hw.step hb).1 h

theorem new_eq {s : Settings} (h : new s = .ok w) : w = { settings := s } := by
  unfold new at h
  cases hv : s.validate <;> simp_all [bind, Except.bind, pure, Except.pure]

theorem kept_new {s : Settings} (hs : s.transport = .udp) (h : new s = .ok w) : Kept [] w := by
  obtain rfl := new_eq h
  exact ⟨hs, by simp, by simp [machine?], by simp, by simp⟩

structure Admits (c : ChoreId) (p : Address) (data : Bytes) (w a : Server) (i : Nat)
    (fresh : Bool) : Prop where
  /-- It is new when the peer has no session on the table, or one that is not active. -/
  fresh_iff : fresh = true ↔ w.table.get? p = none ∨
    ∃ j m, w.table.get? p = some j ∧ w.machine? j = some m ∧ m.session.state ≠ .active
  answer : ∀ x, w.chore? c = some x → x.job = .accept → a.answer? c = some (.accepted i fresh)
  served : a.machine? i = ((if fresh then some (w.newCell p).machine else w.machine? i).map
    (·.deliver w.settings.loops.buffersize (data.take w.settings.loops.buffersize)))
  others : ∀ j, j ≠ i → a.machine? j = w.machine? j
  reused : fresh = false → w.table.get? p = some i ∧ a.table = w.table
  enrolled : fresh = true → i = w.cells.length ∧
    a.table.entries.filter (·.1 = p) = [(p, i)] ∧
    a.table.entries.filter (·.1 ≠ p) = w.table.entries.filter (·.1 ≠ p)
  told : ∃ new, a.trace = new ++ w.trace ∧
    (new.map (·.2)).filter isDidAccept = if fresh then [.didAccept p] else []

theorem isAlive_iff (hw : Kept l w) (i : Nat) :
    w.isAlive i = true ↔ ∃ m, w.machine? i = some m ∧ m.session.state = .active := by
  unfold isAlive
  cases hm : w.machine? i with
  | none => simp
  | some m => simp [(hw.orderly i m hm).alive_iff]

theorem machine?_enrol (p : Address) (w : Server) (j : Nat) :
    (w.enrol p).machine? j =
      if j = w.cells.length then some (w.newCell p).machine else w.machine? j := by
  simp only [machine?, enrol, List.getElem?_append, List.getElem?_singleton]
  split
  next h => simp [h.ne]
  next h =>
    by_cases hj : j = w.cells.length
    · simp [hj]
    · have hne : j - w.cells.length ≠ 0 := by omega
      simp [hj, hne, List.getElem?_eq_none (Nat.not_lt.1 h)]

theorem machine?_ready (w : Server) (p : Address) (j : Nat) :
    (w.ready p).machine? j = if j = (w.pick p).1 ∧ (w.pick p).2 = true
      then some (w.newCell p).machine else w.machine? j := by
  unfold ready pick
  split
  · simp
  · simp [machine?_enrol]

theorem machine?_hand (i j : Nat) (data : Bytes) (w : Server) :
    (w.hand i data).machine? j = if j = i
      then (w.machine? i).map (·.deliver w.settings.loops.buffersize data) else w.machine? j := by
  simp only [machine?, hand, List.getElem?_modify]
  by_cases hj : j = i
  · subst hj
    cases w.cells[j]? <;> simp
  · simp [hj, Ne.symm hj]

/-- An accept touches no session and no entry but those it is for. -/
theorem datagram_same (x : Chore) (p : Address) (data : Bytes) (w : Server) :
    (w.datagram x p data).cells = ((w.ready p).hand (w.pick p).1
      (data.take w.settings.loops.buffersize)).cells ∧
    (w.datagram x p data).table = (w.ready p).table := by
  rw [datagram_eq]
  exact accepted_same _ _ _ _

theorem trace_ready (w : Server) (p : Address) : (w.ready p).trace = w.trace := by
  unfold ready
  split <;> rfl

theorem machine?_datagram (x : Chore) (p : Address) (data : Bytes) (w : Server) (j : Nat) :
    (w.datagram x p data).machine? j = if j = (w.pick p).1
      then ((if (w.pick p).2 then some (w.newCell p).machine else w.machine? j).map
        (·.deliver w.settings.loops.buffersize (data.take w.settings.loops.buffersize)))
      else w.machine? j := by
  rw [machine?, (datagram_same x p data w).1, ← machine?, machine?_hand, settings_ready]
  by_cases hj : j = (w.pick p).1
  · simp [hj, machine?_ready]
  · simp [hj, machine?_ready]

theorem pick_fresh_iff (hw : Kept l w) (p : Address) :
    (w.pick p).2 = true ↔ w.table.get? p = none ∨
      ∃ j m, w.table.get? p = some j ∧ w.machine? j = some m ∧ m.session.state ≠ .active := by
  cases hp : w.table.get? p with
  | none =>
    rw [pick_of_none (by rw [hp]; rfl)]
    simp
  | some i =>
    obtain ⟨m, hm⟩ : ∃ m, w.machine? i = some m := by
      have hi := (hw.newest _ (Table.mem_of_get? hp)).1
      rw [peers, List.getElem?_map] at hi
      obtain ⟨c, hc, -⟩ := Option.map_eq_some_iff.1 hi
      exact ⟨c.machine, machine?_of_cell hc⟩
    have ha : w.isAlive i = true ↔ m.session.state = .active := by
      simpa [hm] using isAlive_iff hw i
    cases hi : w.isAlive i with
    | true =>
      rw [pick_of_get? (Option.filter_eq_some_iff.2 ⟨hp, hi⟩)]
      simp [hm, ha.1 hi]
    | false =>
      rw [pick_of_none (by simp [hp, hi])]
      have hs : m.session.state ≠ .active := fun hs => by simp [ha.2 hs] at hi
      simp [hm, hs]

theorem answer?_accepted (i : Nat) (fresh : Bool) (w : Server) (hx : x.job = .accept) :
    (w.accepted x i fresh).answer? x.id = some (.accepted i fresh) := by
  unfold accepted
  simp [hx, isLasting, answer?, settle]

theorem filter_didAccept_eq_nil {t : List (Duration × Event)}
    (h : ∀ e ∈ t, isDidAccept e.2 = false) : (t.map (·.2)).filter isDidAccept = [] := by
  refine List.filter_eq_nil_iff.2 fun e he => ?_
  obtain ⟨y, hy, rfl⟩ := List.mem_map.1 he
  simp [h y hy]

theorem told_datagram (hw : Kept l w) (x : Chore) (p : Address) (data : Bytes) :
    ∃ new, (w.datagram x p data).trace = new ++ w.trace ∧
      (new.map (·.2)).filter isDidAccept = if (w.pick p).2 then [.didAccept p] else [] := by
  obtain ⟨new, hn, hq⟩ := (quiet_datagram hw x p data).told
  have hk := filter_didAccept_eq_nil hq
  unfold handed at hn
  cases hf : (w.pick p).2 with
  | false =>
    refine ⟨new, ?_, hk⟩
    rw [hn, hf]
    exact congrArg _ (trace_ready w p)
  | true =>
    refine ⟨new ++ [((w.ready p).now, .didAccept p)], ?_, ?_⟩
    · rw [hn, hf, List.append_assoc]
      exact congrArg (fun t => new ++ (_ :: t)) (trace_ready w p)
    · rw [List.map_append, List.filter_append, hk]
      rfl

theorem admits_step (hw : Kept l w) (h : w.step (.datagram c p data) = some a) :
    Admits c p data w a (w.pick p).1 (w.pick p).2 := by
  obtain ⟨x, hx, rfl⟩ := of_step_datagram h
  have hxc : x.id = c := by simpa using List.find?_some hx
  refine ⟨pick_fresh_iff hw p, fun y hy hj => ?_, ?_, fun j hj => ?_, fun hf => ?_, fun hf => ?_,
    ?_⟩
  · obtain rfl := Option.some.inj (hx.symm.trans hy)
    rw [datagram_eq, ← hxc]
    exact answer?_accepted _ _ _ hj
  · rw [machine?_datagram, if_pos rfl]
  · rw [machine?_datagram, if_neg hj]
  · have ht : (w.datagram x p data).table = w.table := by
      rw [(datagram_same x p data w).2, ready, hf, if_neg Bool.false_ne_true]
    refine ⟨?_, ht⟩
    unfold pick at hf ⊢
    split at hf
    next i hi => exact (Option.filter_eq_some_iff.1 hi).1
    next => simp at hf
  · have ht : (w.datagram x p data).table = w.table.insert p w.cells.length := by
      rw [(datagram_same x p data w).2, ready, hf, if_pos rfl, enrol]
    have hi : (w.pick p).1 = w.cells.length := by
      unfold pick at hf ⊢
      split at hf
      next => simp at hf
      next => rfl
    rw [ht, hi]
    exact ⟨rfl, Table.filter_insert_self _ _ _, Table.filter_insert_ne _ _ _⟩
  · exact told_datagram hw x p data

/-- The peers of new sessions are told of, each once, and nobody else. -/
theorem told_step (hw : Kept l w) {v : Move} (h : w.step v = some a) :
    ∃ new, a.trace = new ++ w.trace ∧ (new.map (·.2)).filter isDidAccept =
      ((w.admission? v).toList.filter (·.fresh)).map fun x => .didAccept x.peer := by
  by_cases hv : ∃ c p data, v = .datagram c p data
  · obtain ⟨c, p, data, rfl⟩ := hv
    obtain ⟨x, -, rfl⟩ := of_step_datagram h
    obtain ⟨new, hn, hk⟩ := told_datagram hw x p data
    refine ⟨new, hn, hk.trans ?_⟩
    cases hf : (w.pick p).2 <;> simp [admission?, hf]
  · simp only [not_exists] at hv
    obtain ⟨new, hn, hk⟩ := (quiet_step hw.udp hw.steady hv h).told
    refine ⟨new, hn, ?_⟩
    rw [admission?_eq_none hv, filter_didAccept_eq_nil hk]
    rfl

theorem told_steps (hw : Kept l w) (vs : List Move) (h : w.steps vs = some a) :
    ∃ new, a.trace = new ++ w.trace ∧ (new.reverse.map (·.2)).filter isDidAccept =
      ((admissions vs w).filter (·.fresh)).map fun x => .didAccept x.peer := by
  induction vs generalizing l w with
  | nil =>
    obtain rfl := Option.some.inj h
    exact ⟨[], rfl, rfl⟩
  | cons v vs ih =>
    obtain ⟨b, hb, h⟩ := Option.bind_eq_some_iff.1 h
    obtain ⟨late, hl, hlk⟩ := ih (hw.step hb).1 h
    obtain ⟨early, he, hek⟩ := told_step hw hb
    refine ⟨late ++ early, by rw [hl, he, List.append_assoc], ?_⟩
    have hr : (early.reverse.map (·.2)).filter isDidAccept =
        ((w.admission? v).toList.filter (·.fresh)).map fun x => .didAccept x.peer := by
      rw [List.map_reverse, List.filter_reverse, hek]
      cases w.admission? v with
      | none => rfl
      | some x => cases hx : x.fresh <;> simp [hx]
    rw [admissions, hb, Option.map_some, Option.getD_some, List.reverse_append, List.map_append,
      List.filter_append, hr, hlk, List.filter_append, List.map_append]

end Switchboard.Server
