import Mathlib.Data.List.SplitBy
import Switchboard.Proofs.Server.Admission

/-! Which datagrams a session serves. While a server over UDP does nothing but accept, what comes
from one peer is cut right behind each exit token, and each piece has a session of its own. -/
namespace Switchboard.Server

def cut (l : List Bytes) : List (List Bytes) := l.splitBy fun d _ => !Session.isExitToken d

theorem cut_concat_new {l : List Bytes} (d : Bytes)
    (h : ∀ e ∈ l.getLast?, Session.isExitToken e = true) : cut (l ++ [d]) = cut l ++ [[d]] :=
  List.splitBy_append_cons [] fun e he => by simp [h e he]

theorem cut_concat_same {l g : List Bytes} {gs : List (List Bytes)} (d : Bytes)
    (hc : cut l = gs ++ [g]) (h : ∀ e ∈ l.getLast?, Session.isExitToken e = false) :
    cut (l ++ [d]) = gs ++ [g ++ [d]] := by
  obtain ⟨hl, hn, hg, hb⟩ := List.splitBy_eq_iff.1 hc
  have hne : g ≠ [] := fun he => hn (by simp [he])
  have hlast : l.getLast? = g.getLast? := by
    rw [hl, List.flatten_concat, List.getLast?_append_of_ne_nil _ hne]
  have hd : ∀ e ∈ g.getLast?, (!Session.isExitToken e) = true := fun e he => by
    simp [h e (hlast ▸ he)]
  -- there is one cut only that has exit tokens at the ends of its pieces and nowhere else
  refine List.splitBy_eq_iff.2 ⟨by simp [hl], ?_, fun k hk => ?_, ?_⟩
  · simpa using fun he => hn (List.mem_append_left _ he)
  · obtain hk | hk := List.mem_append.1 hk
    · exact hg k (List.mem_append_left _ hk)
    · obtain rfl := List.mem_singleton.1 hk
      refine List.isChain_append.2 ⟨hg g (by simp), List.isChain_singleton _, fun e he _ _ => ?_⟩
      exact hd e he
  · obtain ⟨hgs, -, hj⟩ := List.isChain_append.1 hb
    refine List.isChain_append.2 ⟨hgs, List.isChain_singleton _, fun k hk y hy => ?_⟩
    obtain rfl : g ++ [d] = y := by simpa using hy
    obtain ⟨hk0, -, hr⟩ := hj k hk g (by simp)
    exact ⟨hk0, by simp, hr⟩

def heard (m : Session.Machine) : List Bytes :=
  m.trace.reverse.filterMap fun x =>
    match x.event with
    | .recvSuccess _ data => some data
    | _ => none

theorem heard_deliver (size : Nat) (data : Bytes) (m : Session.Machine) :
    heard (m.deliver size data) = heard m ++ [data] := by
  have h : (m.deliver size data).trace = ⟨m.now, none, .recvSuccess size data⟩ :: m.trace := rfl
  rw [heard, h, List.reverse_cons, List.filterMap_append]
  rfl

theorem state_deliver {m : Session.Machine} (size : Nat) (data : Bytes)
    (hm : m.session.state = .active) :
    (m.deliver size data).session.state ≠ .active ↔ Session.isExitToken data = true := by
  simp only [Session.Machine.deliver, Session.Machine.modify, Session.Machine.emit,
    Session.obeyExit]
  split
  next h => simp [h, Session.beginClosing, Session.touch, hm]
  next h => simp [h, Session.touch, hm]

/-- A move of nothing but accepts: somebody waits for datagrams, or one comes. -/
def isAccepting : Move → Bool
  | .start _ | .call .accept | .spawn .accept | .begin _ | .datagram .. | .acceptFailed ..
  | .cancel _ | .pass _ => true
  | _ => false

def arrivals (size : Nat) (p : Address) (vs : List Move) : List Bytes :=
  vs.filterMap fun
    | .datagram _ q data => if q = p then some (data.take size) else none
    | _ => none

def view (c : Cell) : Address × List Bytes × Bool :=
  (c.peer, heard c.machine, c.machine.session.alive)

def AcceptsOnly (w : Server) : Prop := ∀ x ∈ w.chores, x.job = .accept ∧ x.task? = none

variable {w a : Server} {x : Chore} {p q : Address} {c : ChoreId} {data : Bytes}
  {l : List Admission} {ds : List Bytes}

structure Still (w a : Server) : Prop where
  table : a.table = w.table
  views : a.cells.map view = w.cells.map view
  accepts : AcceptsOnly a

theorem AcceptsOnly.settle (hw : AcceptsOnly w) (c : ChoreId) (o : Answer) :
    AcceptsOnly (w.settle c o) := fun x hx => hw x (List.mem_filter.1 hx).1

theorem AcceptsOnly.add (hw : AcceptsOnly w) : AcceptsOnly (w.add .accept) := by
  intro x hx
  obtain hx | hx := List.mem_append.1 hx
  · exact hw x hx
  · obtain rfl := List.mem_singleton.1 hx
    exact ⟨rfl, rfl⟩

theorem acceptFailed_eq (e : Error) (w : Server) (hx : x.job = .accept) :
    w.acceptFailed x e = w.settle x.id (.failed e) := by
  simp [acceptFailed, hx, isLasting]

theorem begin_eq (w : Server) (hx : x.job = .accept) : w.begin x = w.beginAccept x := by
  simp [begin, hx]

theorem still_beginAccept (hw : AcceptsOnly w) (hx : x.job = .accept) :
    Still w (w.beginAccept x) := by
  obtain ⟨hc, ht⟩ := beginAccept_same x w
  refine ⟨ht, by rw [hc], ?_⟩
  unfold beginAccept
  split
  next =>
    rw [acceptFailed_eq _ _ hx]
    exact hw.settle _ _
  next =>
    intro y hy
    obtain ⟨z, hz, rfl⟩ := List.mem_map.1 hy
    split
    · exact ⟨hx, rfl⟩
    · exact hw z hz

theorem still_start (hw : AcceptsOnly w) (bound : Except Error Address) :
    Still w (w.start bound).1 := by
  unfold start
  split
  · exact ⟨rfl, rfl, hw⟩
  · cases bound with
    | ok here => exact ⟨rfl, rfl, hw⟩
    | error e => exact ⟨rfl, rfl, hw⟩

theorem still_step {v : Move} (hw : AcceptsOnly w) (hv : isAccepting v = true)
    (hd : ∀ c p data, v ≠ .datagram c p data) (h : w.step v = some a) : Still w a := by
  unfold isAccepting at hv
  split at hv
  next bound =>
    obtain rfl := Option.some.inj h
    exact still_start hw bound
  next =>
    obtain rfl := Option.some.inj h
    exact { still_beginAccept (x := ⟨w.fresh, .accept, .starting, 0, none⟩) hw.add rfl with }
  next =>
    obtain rfl := Option.some.inj h
    exact ⟨rfl, rfl, hw.add⟩
  next c =>
    obtain ⟨x, hx, h⟩ := Option.bind_eq_some_iff.1 h
    obtain ⟨-, h⟩ := Option.ite_none_right_eq_some.1 h
    obtain rfl := Option.some.inj h
    have hj := (hw x (List.mem_of_find?_eq_some hx)).1
    rw [begin_eq w hj]
    exact still_beginAccept hw hj
  next => exact absurd rfl (hd _ _ _)
  next c e =>
    obtain ⟨x, hx, h⟩ := Option.bind_eq_some_iff.1 h
    obtain ⟨-, h⟩ := Option.ite_none_right_eq_some.1 h
    obtain rfl := Option.some.inj h
    rw [acceptFailed_eq e w (hw x (List.mem_of_find?_eq_some hx)).1]
    exact ⟨rfl, rfl, hw.settle _ _⟩
  next c =>
    obtain ⟨x, hx, h⟩ := Option.bind_eq_some_iff.1 h
    obtain ⟨-, h⟩ := Option.ite_none_right_eq_some.1 h
    obtain rfl := Option.some.inj h
    have hr : w.release x = w := by
      rw [release, (hw x (List.mem_of_find?_eq_some hx)).2]
    rw [hr]
    exact ⟨rfl, rfl, fun y hy => hw y (List.mem_filter.1 hy).1⟩
  next d =>
    obtain rfl := Option.some.inj h
    exact ⟨rfl, by simp [view, heard, Function.comp_def], hw⟩
  next => simp at hv

/-- The sessions of a peer, in the order in which they were made, have heard its datagrams piece by
piece, and the next one opens a session when the last was an exit token. -/
structure Serving (p : Address) (ds : List Bytes) (w : Server) : Prop where
  groups : (w.cells.filter (·.peer = p)).map (heard ·.machine) = cut ds
  opens : (w.pick p).2 = true ↔ ∀ d ∈ ds.getLast?, Session.isExitToken d = true

theorem Serving.still (hw : Serving p ds w) (h : Still w a) : Serving p ds a := by
  have hg : ∀ b : Server, (b.cells.filter (·.peer = p)).map (heard ·.machine) =
      ((b.cells.map view).filter (·.1 = p)).map (·.2.1) := fun b => by
    rw [List.filter_map, List.map_map]
    rfl
  have ha : ∀ b : Server, b.isAlive = fun i => ((b.cells.map view)[i]?).any (·.2.2) := fun b => by
    funext i
    simp only [isAlive, machine?, List.getElem?_map, Option.any_map]
    rfl
  have hp : (a.pick p).2 = (w.pick p).2 := by
    unfold pick
    rw [h.table, ha a, h.views, ← ha w]
    split <;> rfl
  exact ⟨by rw [hg, h.views, ← hg, hw.groups], by rw [hp, hw.opens]⟩

theorem split_at {cs : List Cell} {i : Nat} {c : Cell} (f : Cell → Cell) (h : cs[i]? = some c) :
    cs = cs.take i ++ c :: cs.drop (i + 1) ∧
      cs.modify i f = cs.take i ++ f c :: cs.drop (i + 1) := by
  obtain ⟨hi, rfl⟩ := List.getElem?_eq_some_iff.1 h
  exact ⟨by rw [List.getElem_cons_drop, List.take_append_drop],
    List.modify_eq_take_cons_drop hi⟩

def Cell.hear (size : Nat) (data : Bytes) (c : Cell) : Cell where
  machine := c.machine.deliver size data
  peer := c.peer
  inbox := if c.inbox.length < inboxCapacity then c.inbox ++ [data] else c.inbox

theorem cells_hand (i : Nat) (data : Bytes) (w : Server) :
    (w.hand i data).cells = w.cells.modify i (Cell.hear w.settings.loops.buffersize data) := rfl

/-- What comes to the newest session of a peer comes to the last of its sessions. -/
theorem filter_hand_newest {i : Nat} (hi : IsNewest w.peers p i) (data : Bytes) :
    ∃ cs c, w.cells.filter (·.peer = p) = cs ++ [c] ∧
      ((w.hand i data).cells.filter (·.peer = p)).map (heard ·.machine) =
        cs.map (heard ·.machine) ++ [heard c.machine ++ [data]] := by
  obtain ⟨hp, hn⟩ := hi
  rw [peers, List.getElem?_map] at hp
  obtain ⟨c, hc, hp⟩ := Option.map_eq_some_iff.1 hp
  have hd : (w.cells.drop (i + 1)).filter (·.peer = p) = [] := by
    refine List.filter_eq_nil_iff.2 fun y hy hyp => ?_
    obtain ⟨k, hk⟩ := List.mem_iff_getElem?.1 hy
    rw [List.getElem?_drop] at hk
    refine hn (i + 1 + k) (by omega) ?_
    rw [peers, List.getElem?_map, hk, Option.map_some, of_decide_eq_true hyp]
  obtain ⟨hs, hm⟩ := split_at (Cell.hear w.settings.loops.buffersize data) hc
  refine ⟨(w.cells.take i).filter (·.peer = p), c, ?_, ?_⟩
  · conv_lhs => rw [hs]
    rw [List.filter_append, List.filter_cons_of_pos (by simp [hp]), hd]
  · rw [cells_hand, hm, List.filter_append,
      List.filter_cons_of_pos (by simp [Cell.hear, hp]), hd, List.map_append,
      List.map_singleton, Cell.hear, heard_deliver]

theorem filter_hand_other {i : Nat} (hi : w.peers[i]? = some q) (hq : q ≠ p) (data : Bytes) :
    (w.hand i data).cells.filter (·.peer = p) = w.cells.filter (·.peer = p) := by
  rw [peers, List.getElem?_map] at hi
  obtain ⟨c, hc, rfl⟩ := Option.map_eq_some_iff.1 hi
  obtain ⟨hs, hm⟩ := split_at (Cell.hear w.settings.loops.buffersize data) hc
  rw [cells_hand, hm, List.filter_append, List.filter_cons_of_neg (by simp [Cell.hear, hq])]
  conv_rhs => rw [hs]
  rw [List.filter_append, List.filter_cons_of_neg (by simp [hq])]

theorem filter_ready (w : Server) (p q : Address) :
    (w.ready q).cells.filter (·.peer = p) = w.cells.filter (·.peer = p) ++
      if (w.pick q).2 = true ∧ q = p then [w.newCell q] else [] := by
  unfold ready
  cases (w.pick q).2 with
  | true => by_cases h : q = p <;> simp [enrol, newCell, h]
  | false => simp

/-- The session that a datagram goes to is active when it comes. -/
theorem active_ready (hw : Kept l w) (p : Address) :
    ∃ m, (w.ready p).machine? (w.pick p).1 = some m ∧ m.session.state = .active := by
  rw [machine?_ready]
  unfold pick
  split
  next i h =>
    obtain ⟨m, hm, hs⟩ := (isAlive_iff hw i).1 (Option.filter_eq_some_iff.1 h).2
    exact ⟨m, by simpa using hm, hs⟩
  next => exact ⟨_, if_pos ⟨rfl, rfl⟩, rfl⟩

/-- Another datagram of the peer lengthens the last piece, or begins one behind an exit token. -/
theorem Serving.datagram (hk : Kept l w) (hw : Serving p ds w) (x : Chore) (data : Bytes) :
    Serving p (ds ++ [data.take w.settings.loops.buffersize]) (w.datagram x p data) := by
  obtain ⟨hcells, htable⟩ := datagram_same x p data w
  refine ⟨?_, ?_⟩
  · obtain ⟨cs, c, hf, hh⟩ := filter_hand_newest (newest_ready hk p)
      (data.take w.settings.loops.buffersize)
    rw [hcells, hh]
    -- the session is the newest of its peer, so what it hears ends the last piece
    rw [filter_ready] at hf
    have ho := hw.opens
    cases hp : (w.pick p).2 with
    | true =>
      rw [hp, if_pos ⟨rfl, rfl⟩] at hf
      obtain ⟨rfl, rfl⟩ := List.append_singleton_inj.1 hf
      rw [hw.groups, cut_concat_new _ (ho.1 hp)]
      rfl
    | false =>
      rw [hp, if_neg (by simp), List.append_nil] at hf
      have hg := hw.groups
      rw [hf, List.map_append, List.map_singleton] at hg
      refine (cut_concat_same _ hg.symm fun e he => ?_).symm
      by_contra hne
      refine Bool.false_ne_true (hp.symm.trans (ho.2 fun d hd => ?_))
      obtain rfl := Option.some.inj (he.symm.trans hd)
      simpa using hne
  · obtain ⟨m, hm, hs⟩ := active_ready hk p
    have hd : (w.datagram x p data).machine? (w.pick p).1 = some
        (m.deliver (w.ready p).settings.loops.buffersize
          (data.take w.settings.loops.buffersize)) := by
      rw [machine?, hcells, ← machine?, machine?_hand, if_pos rfl, hm, Option.map_some]
    rw [pick_fresh_iff (hk.datagram x p data), htable, get?_ready]
    simp [hd, state_deliver _ _ hs]

/-- What comes from another peer leaves the sessions of this one alone. -/
theorem Serving.datagram_other (hk : Kept l w) (hw : Serving p ds w) (hq : q ≠ p) (x : Chore)
    (data : Bytes) : Serving p ds (w.datagram x q data) := by
  obtain ⟨hcells, htable⟩ := datagram_same x q data w
  have hi := newest_ready hk q
  have hget : (w.ready q).table.get? p = w.table.get? p := by
    unfold ready
    split
    · exact Table.get?_insert_of_ne hq.symm
    · rfl
  have hm : ∀ j, w.table.get? p = some j →
      (w.datagram x q data).machine? j = w.machine? j := by
    intro j hj
    have hp := (hk.ready q).newest _ (Table.mem_of_get? (hget.trans hj))
    rw [machine?_datagram, if_neg]
    -- one session cannot be the newest of both
    rintro rfl
    exact hq (Option.some.inj (hi.1.symm.trans hp.1))
  refine ⟨?_, ?_⟩
  · rw [hcells, filter_hand_other hi.1 hq, filter_ready, if_neg fun h => hq h.2, List.append_nil,
      hw.groups]
  · rw [← hw.opens, pick_fresh_iff (hk.datagram x q data), pick_fresh_iff hk, htable, hget]
    refine or_congr_right (exists_congr fun j => exists_congr fun m => and_congr_right fun hj => ?_)
    rw [hm j hj]

theorem AcceptsOnly.datagram (hw : AcceptsOnly w) (hx : x ∈ w.chores) (p : Address)
    (data : Bytes) : AcceptsOnly (w.datagram x p data) := by
  have hr : (w.ready p).chores = w.chores := by
    unfold ready
    split <;> rfl
  intro y hy
  rw [datagram_eq] at hy
  simp only [accepted, (hw x hx).1, isLasting, Bool.false_eq_true, if_false, Server.settle] at hy
  refine hw y (hr ▸ ?_)
  split at hy <;> exact (List.mem_filter.1 hy).1

theorem Serving.step {v : Move} (hk : Kept l w) (hc : AcceptsOnly w) (hw : Serving p ds w)
    (hv : isAccepting v = true) (h : w.step v = some a) :
    AcceptsOnly a ∧ Serving p (ds ++ arrivals w.settings.loops.buffersize p [v]) a := by
  by_cases hd : ∃ c q data, v = .datagram c q data
  · obtain ⟨c, q, data, rfl⟩ := hd
    obtain ⟨x, hx, rfl⟩ := of_step_datagram h
    refine ⟨hc.datagram (List.mem_of_find?_eq_some hx) q data, ?_⟩
    by_cases hq : q = p
    · subst hq
      simpa [arrivals] using hw.datagram hk x data
    · simpa [arrivals, hq] using hw.datagram_other hk hq x data
  · simp only [not_exists] at hd
    have hs := still_step hc hv hd h
    have hn : arrivals w.settings.loops.buffersize p [v] = [] := by
      unfold arrivals
      cases v with
      | datagram c q data => exact absurd rfl (hd c q data)
      | _ => rfl
    rw [hn, List.append_nil]
    exact ⟨hs.accepts, hw.still hs⟩

theorem Serving.steps (hk : Kept l w) (hc : AcceptsOnly w) (hw : Serving p ds w) (vs : List Move)
    (hv : ∀ v ∈ vs, isAccepting v = true) (h : w.steps vs = some a) :
    Serving p (ds ++ arrivals w.settings.loops.buffersize p vs) a := by
  induction vs generalizing l w ds with
  | nil =>
    obtain rfl := Option.some.inj h
    simpa [arrivals] using hw
  | cons v vs ih =>
    obtain ⟨b, hb, h⟩ := Option.bind_eq_some_iff.1 h
    obtain ⟨hkb, hset⟩ := hk.step hb
    obtain ⟨hcb, hwb⟩ := hw.step hk hc (hv v (by simp)) hb
    have hb := ih hkb hcb hwb (fun u hu => hv u (by simp [hu])) h
    rw [hset, List.append_assoc] at hb
    rwa [← List.singleton_append, arrivals, List.filterMap_append]

/-- Over UDP a datagram goes to the session that its sender has, and to a new one when it has none or
that one is not active; the table then has that session for it, and the peer is told of once for each
session. While nothing but accepts happens, the sessions of a peer hear its datagrams piece by piece,
cut right behind each exit token. -/
theorem udp_sessions_reused (s : Settings) (w₀ : Server) (hu : s.transport = .udp)
    (h : new s = .ok w₀) :
    (∀ vs w c p data a, w₀.steps vs = some w → w.step (.datagram c p data) = some a →
      Admits c p data w a (w.pick p).1 (w.pick p).2 ∧
      ((w.pick p).2 = false → latestFresh p (admissions vs w₀) = some (w.pick p).1)) ∧
    (∀ vs w, w₀.steps vs = some w → (w.trace.reverse.map (·.2)).filter isDidAccept =
      ((admissions vs w₀).filter (·.fresh)).map fun x => .didAccept x.peer) ∧
    ∀ vs w p, (∀ v ∈ vs, isAccepting v = true) → w₀.steps vs = some w →
      (w.cells.filter (·.peer = p)).map (heard ·.machine) =
        cut (arrivals s.loops.buffersize p vs) := by
  have hk := kept_new hu h
  refine ⟨fun vs w c p data a hw ha => ?_, fun vs w hw => ?_, fun vs w p hv hw => ?_⟩
  · have hkw := hk.steps vs hw
    have hadm := admits_step hkw ha
    refine ⟨hadm, fun hf => ?_⟩
    exact hkw.latest _ (Table.mem_of_get? (hadm.reused hf).1)
  · obtain ⟨new, hn, ht⟩ := told_steps hk vs hw
    obtain rfl := new_eq h
    rw [hn, List.append_nil, ht]
  · obtain rfl := new_eq h
    have h0 : Serving p [] ({ settings := s } : Server) := ⟨rfl, by simp [pick, Table.get?]⟩
    exact (h0.steps hk (fun x hx => by simp at hx) vs hv hw).groups

def alice : Address := ⟨.v4 [127, 0, 0, 1], 4001⟩

def bob : Address := ⟨.v4 [127, 0, 0, 1], 4002⟩

def greeting : Bytes := Utf8.encode "hi".toList

def farewell : Bytes := Utf8.encode Session.exitToken

def hall : Settings := { transport := .udp }

/-- One takes leave and comes again, is taken off the table and comes again; the session of the other
is closed by hand. -/
def visits : List Move :=
  [.start (.ok ⟨.v4 [127, 0, 0, 1], 5060⟩), .call .accept, .datagram 0 alice greeting,
    .call .accept, .datagram 1 bob greeting, .call .accept, .datagram 2 alice farewell,
    .session 1 (.call .close), .call .accept, .datagram 3 alice greeting, .remove alice,
    .call .accept, .datagram 4 alice greeting, .call (.closeSession bob), .call .accept]

def knocks : List Move :=
  [.start (.ok ⟨.v4 [127, 0, 0, 1], 5060⟩), .spawn .accept, .call .accept, .begin 0,
    .datagram 1 alice greeting, .datagram 0 bob greeting, .call .accept, .call .accept,
    .datagram 3 alice farewell, .datagram 2 alice greeting]

theorem udp_sessions_reused_hall :
    ∃ w₀, new hall = .ok w₀ ∧
      (∃ w a, w₀.steps visits = some w ∧ w.step (.datagram 6 alice farewell) = some a ∧
        w.pick alice = (3, false) ∧ Admits 6 alice farewell w a 3 false ∧
        latestFresh alice (admissions visits w₀) = some 3) ∧
      ∃ w, w₀.steps knocks = some w ∧
        (w.cells.filter (·.peer = alice)).map (heard ·.machine) =
          [[greeting, farewell], [greeting]] := by
  refine ⟨{ settings := hall }, rfl, ?_, ?_⟩
  · have h : ((({ settings := hall } : Server).steps visits).bind fun w =>
        (w.step (.datagram 6 alice farewell)).map fun _ => w.pick alice) = some (3, false) := by
      decide
    obtain ⟨w, hw, h⟩ := Option.bind_eq_some_iff.1 h
    obtain ⟨a, ha, hp⟩ := Option.map_eq_some_iff.1 h
    obtain ⟨hadm, hl⟩ := (udp_sessions_reused hall _ rfl rfl).1 visits w 6 alice farewell a hw ha
    rw [hp] at hadm hl
    exact ⟨w, a, hw, ha, hp, hadm, hl rfl⟩
  · have h : ((({ settings := hall } : Server).steps knocks).isSome) = true := by decide
    obtain ⟨w, hw⟩ := Option.isSome_iff_exists.1 h
    refine ⟨w, hw, ?_⟩
    rw [(udp_sessions_reused hall _ rfl rfl).2.2 knocks w alice (by decide) hw]
    decide

end Switchboard.Server
