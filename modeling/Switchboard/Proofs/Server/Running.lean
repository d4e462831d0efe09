import Mathlib.Data.List.ReduceOption
import Switchboard.Proofs.Server.Beside
import Switchboard.Proofs.Server.Brisk

/-! What a run of a server tells. It begins to run and starts the server; when that has failed, it
is over. Then it accepts, again and again, and tells of each new session that an accept is completed
with. At the end it stops the server. Whatever else goes on meanwhile, and wherever the shutdown cuts
in, this order holds. -/
namespace Switchboard.Server

def opening (here : Address) : List Event := [.willRun, .willStart, .didStart here]

def group : Option Address → List Event
  | none => [.willAccept]
  | some p => [.willAccept, .didAccept p]

def ending : List Event := [.willStop, .didStop, .didRun]

def Wait.lately : Wait → List Event
  | .listening _ | .replacing .. => [.willAccept]
  | .draining .. => [.willStop]
  | _ => []

def Wait.isDraining : Wait → Bool
  | .draining .. => true
  | _ => false

def Wait.next (k : Wait) (w : Server) : Nat :=
  match k with
  | .replacing i _ _ => i
  | _ => w.cells.length

/-- Behind its opening a run has told of the accepts `gs`, and then `l`. The new sessions are `ns`,
and all of them come before the number `n`. -/
structure Books (here : Address) (gs : List (Option Address)) (ns : List (Address × Nat))
    (l : List Event) (n : Nat) (w : Server) : Prop where
  told : w.told = opening here ++ gs.flatMap group ++ l
  welcomed : gs.reduceOption = ns.map (·.1)
  order : (ns.map (·.2) ++ [n]).Pairwise (· < ·)

structure Held (c : ChoreId) (here : Address) (gs : List (Option Address))
    (ns : List (Address × Nat)) (l : List Event) (n : Nat) (w : Server) : Prop
    extends Books here gs ns l n w where
  known : c < w.fresh
  minor : ∀ x ∈ w.chores, x.id ≠ c → x.isMinor = true
  present : ∃ x ∈ w.chores, x.id = c
  unanswered : w.answer? c = none

inductive Course (c : ChoreId) (here : Address) (gs : List (Option Address))
    (ns : List (Address × Nat)) (w : Server) : Prop where
  | going {x : Chore} : Held c here gs ns x.wait.lately (x.wait.next w) w → x ∈ w.chores →
      x.id = c → x.isRunning = true → w.listener.isNone = x.wait.isDraining → Course c here gs ns w
  | past {l : List Event} {n : Nat} : Books here gs ns l n w → c < w.fresh →
      (∀ x ∈ w.chores, x.id ≠ c ∧ x.isMinor = true) →
      l = [.willAccept] ∨ l <+: ending → (w.answer? c).isSome = decide (l = ending) →
      Course c here gs ns w

variable {w a b : Server} {x : Chore} {c : ChoreId} {v : Move} {here : Address}
  {gs : List (Option Address)} {ns : List (Address × Nat)} {l : List Event} {n m : Nat}

theorem told_emit (e : Event) (w : Server) : (w.emit e).told = w.told ++ [e] := by
  simp [told, emit]

theorem Books.same (h : Books here gs ns l n w) (ht : a.told = w.told) : Books here gs ns l n a :=
  ⟨ht.trans h.told, h.welcomed, h.order⟩

theorem Books.emit (h : Books here gs ns l n w) (e : Event) :
    Books here gs ns (l ++ [e]) n (w.emit e) :=
  ⟨by rw [told_emit, h.told, List.append_assoc], h.welcomed, h.order⟩

theorem Books.raise (h : Books here gs ns l n w) (hn : n ≤ m) : Books here gs ns l m w := by
  refine ⟨h.told, h.welcomed, ?_⟩
  have ho := List.pairwise_append.1 h.order
  refine List.pairwise_append.2 ⟨ho.1, List.pairwise_singleton _ _, fun j hj k hk => ?_⟩
  obtain rfl := List.mem_singleton.1 hk
  exact Nat.lt_of_lt_of_le (ho.2.2 j hj n (List.mem_singleton_self n)) hn

/-- An accept is over without a new session. -/
theorem Books.close (h : Books here gs ns [.willAccept] n w) :
    Books here (gs ++ [none]) ns [] n w := by
  refine ⟨?_, ?_, h.order⟩
  · rw [h.told]
    simp [group]
  · rw [List.reduceOption_append, h.welcomed]
    simp

/-- An accept is over with a new session. -/
theorem Books.welcome {p : Address} (h : Books here gs ns [.willAccept] n w) :
    Books here (gs ++ [some p]) (ns ++ [(p, n)]) [] (n + 1) (w.emit (.didAccept p)) := by
  refine ⟨?_, ?_, ?_⟩
  · rw [told_emit, h.told]
    simp [group]
  · rw [List.reduceOption_append, h.welcomed]
    simp
  · rw [List.map_append]
    refine List.pairwise_append.2 ⟨h.order, List.pairwise_singleton _ _, fun j hj k hk => ?_⟩
    obtain rfl := List.mem_singleton.1 hk
    obtain hj | hj := List.mem_append.1 hj
    · have hlt := (List.pairwise_append.1 h.order).2.2 j hj n (List.mem_singleton_self n)
      exact Nat.lt_succ_of_lt hlt
    · obtain rfl := List.mem_singleton.1 hj
      exact Nat.lt_succ_self _

namespace Held

theorem same (h : Held c here gs ns l n w) (ht : a.trace = w.trace) (hx : a.chores = w.chores)
    (hf : a.fresh = w.fresh) (ha : a.finished = w.finished) : Held c here gs ns l n a where
  toBooks := h.toBooks.same (by rw [Server.told, ht, Server.told])
  known := hf ▸ h.known
  minor := hx ▸ h.minor
  present := hx ▸ h.present
  unanswered := by
    rw [answer?, ha]
    exact h.unanswered

theorem books {gs' : List (Option Address)} {ns' : List (Address × Nat)} {l' : List Event}
    (h : Held c here gs ns l n w) (hb : Books here gs' ns' l' m w) : Held c here gs' ns' l' m w :=
  { h with toBooks := hb }

theorem emit (h : Held c here gs ns l n w) (e : Event) :
    Held c here gs ns (l ++ [e]) n (w.emit e) where
  toBooks := h.toBooks.emit e
  known := h.known
  minor := h.minor
  present := h.present
  unanswered := h.unanswered

theorem add (h : Held c here gs ns l n w) (i : Nat) : Held c here gs ns l n (w.add (.tend i)) where
  toBooks := h.toBooks.same rfl
  known := Nat.lt_succ_of_lt h.known
  minor y hy hi := by
    obtain hy | rfl := mem_add hy
    · exact h.minor y hy hi
    · rfl
  present := by
    obtain ⟨y, hy, hi⟩ := h.present
    exact ⟨y, List.mem_append_left _ hy, hi⟩
  unanswered := h.unanswered

theorem update (h : Held c here gs ns x.wait.lately (x.wait.next w) w) (hi : x.id = c)
    (hr : x.isRunning = true) (hl : w.listener.isNone = x.wait.isDraining) :
    Course c here gs ns (w.update x) := by
  obtain ⟨y, hy, hyi⟩ := h.present
  have hm := mem_update_self hy (hyi.trans hi.symm)
  refine .going ⟨h.toBooks.same rfl, h.known, fun z hz hz' => ?_, ⟨x, hm, hi⟩, h.unanswered⟩ hm hi
    hr hl
  obtain rfl | ⟨hz, -⟩ := mem_update hz
  · exact absurd hi hz'
  · exact h.minor z hz hz'

theorem stopped (h : Held c here gs ns [.willStop, .didStop] n w) (hi : x.id = c)
    (hj : x.job = .run) : Course c here gs ns (w.stopped x) := by
  have hs : w.stopped x = (w.emit .didRun).settle c (x.fault.elim .done Answer.failed) := by
    rw [Server.stopped, if_pos hj, hi]
  rw [hs]
  refine .past (l := ending) ((h.toBooks.emit .didRun).same rfl) h.known (fun y hy => ?_)
    (.inr (List.prefix_refl _)) (by simp [answer?, settle])
  obtain ⟨hy, hyi⟩ := mem_settle hy
  exact ⟨hyi, h.minor y hy hyi⟩

theorem drain (h : Held c here gs ns [.willStop] n w) (hn : n ≤ w.cells.length) (hi : x.id = c)
    (hj : x.job = .run) (hl : w.listener = none) (r : List Nat) :
    Course c here gs ns (w.drain x r) := by
  cases r with
  | nil => exact (h.emit .didStop).stopped hi hj
  | cons i r =>
    obtain ⟨cs, hask, hlen⟩ := ask_eq i .close w
    have hk : Held c here gs ns [.willStop] cs.length { w with cells := cs } :=
      (h.books (h.toBooks.raise (by omega))).same rfl rfl rfl rfl
    rw [Server.drain]
    dsimp only
    rw [hask]
    exact Held.update (x := { x with wait := .draining i _ r }) hk hi
      (by simp [Chore.isRunning, hj]) (by simp [hl, Wait.isDraining])

theorem beginStop (h : Held c here gs ns [] n w) (hn : n ≤ w.cells.length) (hi : x.id = c)
    (hj : x.job = .run) (hl : w.listener.isSome = true) : Course c here gs ns (w.beginStop x) := by
  obtain ⟨k, hk⟩ := Option.isSome_iff_exists.1 hl
  rw [Server.beginStop, hk]
  have hs := (h.same (a := { w with listener := none }) rfl rfl rfl rfl).emit .willStop
  have ht : Held c here gs ns [.willStop] n
      { { w with listener := none }.emit .willStop with table := {} } := hs.same rfl rfl rfl rfl
  exact ht.drain hn hi hj rfl _

theorem beginAccept (h : Held c here gs ns [] n w) (hn : n ≤ w.cells.length) (hi : x.id = c)
    (hj : x.job = .run) (hl : w.listener.isSome = true) :
    Course c here gs ns (w.beginAccept x) := by
  obtain ⟨k, hk⟩ := Option.isSome_iff_exists.1 hl
  have hb := (h.emit .willAccept).books ((h.emit .willAccept).toBooks.raise hn)
  rw [Server.beginAccept, hk]
  exact Held.update (x := { x with wait := .listening k }) hb hi (by simp [Chore.isRunning, hj])
    (by simp [Server.emit, hk, Wait.isDraining])

/-- An accept of the run fails. It is tried again later, or the run stops. -/
theorem acceptFailed (h : Held c here gs ns [.willAccept] n w) (hn : n ≤ w.cells.length)
    (hi : x.id = c) (hj : x.job = .run) (hl : w.listener.isSome = true) (e : Error) :
    Course c here (gs ++ [none]) ns (w.acceptFailed x e) := by
  have hc := h.books h.toBooks.close
  have hlast : (!isLasting x.job) = false := by rw [hj]; rfl
  rw [Server.acceptFailed, hlast, if_neg Bool.false_ne_true]
  split
  · exact Held.beginStop (x := { x with fault := some e }) hc hn hi hj hl
  · obtain ⟨k, hk⟩ := Option.isSome_iff_exists.1 hl
    exact Held.update (x := { x with failures := x.failures + 1, wait := .resting _ })
      (hc.books (hc.toBooks.raise hn)) hi (by simp [Chore.isRunning, hj])
      (by simp [hk, Wait.isDraining])

theorem again (h : Held c here gs ns [.willAccept] n w) (hn : n ≤ w.cells.length)
    (hi : x.id = c) (hj : x.job = .run) (hl : w.listener.isSome = true) (i : Nat) :
    Course c here (gs ++ [none]) ns (w.accepted x i false) := by
  have hlast : isLasting x.job = true := by rw [hj]; rfl
  have hs : w.accepted x i false = w.beginAccept { x with failures := 0 } := by
    simp [Server.accepted, hlast]
  rw [hs]
  exact Held.beginAccept (x := { x with failures := 0 }) (h.books h.toBooks.close) hn hi hj hl

theorem accepted {p : Address} (h : Held c here gs ns [.willAccept] n w) (hn : n < w.cells.length)
    (hp : (w.cells[n]?).map (·.peer) = some p) (hi : x.id = c) (hj : x.job = .run)
    (hl : w.listener.isSome = true) :
    Course c here (gs ++ [some p]) (ns ++ [(p, n)]) (w.accepted x n true) := by
  have hlast : isLasting x.job = true := by rw [hj]; rfl
  have hs : w.accepted x n true =
      ((w.emit (.didAccept p)).add (.tend n)).beginAccept { x with failures := 0 } := by
    simp [Server.accepted, hlast, hp]
  have hk := (h.emit (.didAccept p)).books h.toBooks.welcome
  rw [hs]
  exact Held.beginAccept (x := { x with failures := 0 }) (hk.add n) hn hi hj hl

/-- The shutdown comes while the run serves. An accept under way is over by that. -/
theorem interrupted (h : Held c here gs ns x.wait.lately n w)
    (hw : (∃ l, x.wait = .listening l) ∨ (∃ i stale t, x.wait = .replacing i stale t) ∨
      (∃ d, x.wait = .resting d)) :
    (∃ gs', Held c here gs' ns [] n w) ∧ x.wait.isDraining = false := by
  obtain ⟨l, hw⟩ | ⟨i, stale, t, hw⟩ | ⟨d, hw⟩ := hw <;> rw [hw] at h ⊢
  · exact ⟨⟨gs ++ [none], h.books h.toBooks.close⟩, rfl⟩
  · exact ⟨⟨gs ++ [none], h.books h.toBooks.close⟩, rfl⟩
  · exact ⟨⟨gs, h⟩, rfl⟩

end Held

theorem next_le (he : Errands [] w) (hx : x ∈ w.chores) : x.wait.next w ≤ w.cells.length := by
  cases hw : x.wait with
  | replacing i stale t => exact (he.pending x hx i (by simp [Chore.pending, hw])).le
  | _ => exact Nat.le_refl _

namespace Course

theorem manned (h : Course c here gs ns w) (he : Errands [] w) : Manned c w := by
  cases h with
  | going h hx hi hr =>
    exact ⟨he, h.known, fun y hy hyi => he.rolled.eq_of_id hx hy (hi.trans hyi.symm) ▸ hr, h.minor⟩
  | past _ hk hm =>
    exact ⟨he, hk, fun y hy hyi => absurd hyi (hm y hy).1, fun y hy _ => (hm y hy).2⟩

/-- While the chore of the run is on the roll, its wait says how far the run is. -/
theorem held (h : Course c here gs ns w) (hr : Rolled w) (hx : x ∈ w.chores) (hi : x.id = c) :
    Held c here gs ns x.wait.lately (x.wait.next w) w ∧ x.job = .run ∧
      w.listener.isNone = x.wait.isDraining := by
  cases h with
  | @going y h hy hyi hyr hl =>
    obtain rfl := hr.eq_of_id hx hy (hi.trans hyi.symm)
    exact ⟨h, job_of_isRunning hyr, hl⟩
  | past _ _ hm => exact absurd hi (hm x hx).1

theorem aside (h : Course c here gs ns w) (ha : Aside c w a) : Course c here gs ns a := by
  cases h with
  | @going x h hx hi hr hl =>
    have hm := (ha.run x hi).2 hx
    have hnext : x.wait.next a = x.wait.next w := by
      unfold Wait.next
      rw [ha.length]
    refine .going ⟨hnext ▸ h.toBooks.same ha.told, h.known.trans_le ha.fresh, fun y hy hyi => ?_,
      ⟨x, hm, hi⟩, ha.answer.trans h.unanswered⟩ hm hi hr (ha.listener ▸ hl)
    obtain hy | hy := ha.minor y hy
    · exact h.minor y hy hyi
    · exact hy
  | past hb hk hm hl hans =>
    refine .past (hb.same ha.told) (hk.trans_le ha.fresh) (fun y hy => ?_) hl (ha.answer ▸ hans)
    by_cases hyi : y.id = c
    · exact absurd hyi (hm y ((ha.run y hyi).1 hy)).1
    · exact ⟨hyi, (ha.minor y hy).elim (fun hy => (hm y hy).2) id⟩

/-- A move beside the run, or of it, keeps the order, and tells of a new session when an accept is
completed with one. -/
theorem stir (h : Course c here gs ns w) (he : Errands [] w) (hs : Stir c w v a) :
    ∃ gs', Course c here gs' (ns ++ (w.welcome? v).toList) a := by
  have hr := he.rolled
  cases hs with
  | aside ha hv =>
    rw [hv]
    exact ⟨gs, by simpa using h.aside ha⟩
  | @welcomed _ x cs t i p hx hi hw hlt hp hv =>
    obtain ⟨hh, hj, hl⟩ := h.held hr hx hi
    have hat : x.wait.lately = [.willAccept] ∧ x.wait.next w = i ∧ x.wait.isDraining = false := by
      obtain ⟨⟨l, hw⟩, rfl⟩ | ⟨stale, k, hw⟩ := hw <;>
        simp [hw, Wait.lately, Wait.next, Wait.isDraining]
    obtain ⟨h1, h2, h3⟩ := hat
    rw [h1, h2] at hh
    rw [hv]
    refine ⟨_, Held.accepted (hh.same rfl rfl rfl rfl) hlt hp hi hj ?_⟩
    simpa [h3] using hl
  | @again _ x cs i l hx hi hw hlen hv =>
    obtain ⟨hh, hj, hl⟩ := h.held hr hx hi
    rw [hw] at hh hl
    rw [hv]
    refine ⟨gs ++ [none], ?_⟩
    rw [Option.toList_none, List.append_nil]
    have hk : Held c here gs ns [.willAccept] cs.length { w with cells := cs } :=
      hlen ▸ hh.same rfl rfl rfl rfl
    exact hk.again (Nat.le_refl _) hi hj (by simpa [Wait.isDraining] using hl) i
  | @replacing _ x cs t l stale k hx hi hw hlen hv =>
    obtain ⟨hh, hj, hl⟩ := h.held hr hx hi
    rw [hw] at hh hl
    rw [hv]
    refine ⟨gs, ?_⟩
    rw [Option.toList_none, List.append_nil]
    exact Held.update (x := { x with wait := .replacing _ _ _ }) (hh.same rfl rfl rfl rfl) hi
      (by simp [Chore.isRunning, hj]) (by simpa [Wait.isDraining] using hl)
  | @failed x l e hx hi hw =>
    obtain ⟨hh, hj, hl⟩ := h.held hr hx hi
    rw [hw] at hh hl
    refine ⟨gs ++ [none], ?_⟩
    rw [show w.welcome? _ = none from rfl, Option.toList_none, List.append_nil]
    exact hh.acceptFailed (Nat.le_refl _) hi hj (by simpa [Wait.isDraining] using hl) e
  | @woken x d hx hi hw =>
    obtain ⟨hh, hj, hl⟩ := h.held hr hx hi
    rw [hw] at hh hl
    refine ⟨gs, ?_⟩
    rw [show w.welcome? _ = none from rfl, Option.toList_none, List.append_nil]
    exact hh.beginAccept (Nat.le_refl _) hi hj (by simpa [Wait.isDraining] using hl)
  | @stopped x cs hx hi hw hlen =>
    obtain ⟨hh, hj, hl⟩ := h.held hr hx hi
    obtain ⟨⟨gs', hk⟩, hd⟩ := hh.interrupted hw
    rw [show w.welcome? _ = none from rfl, Option.toList_none, List.append_nil]
    refine ⟨gs', Held.beginStop (hk.same rfl rfl rfl rfl) ?_ hi hj (by simpa [hd] using hl)⟩
    exact hlen ▸ next_le he hx
  | @drained x i t rest fault hx hi hw =>
    obtain ⟨hh, hj, hl⟩ := h.held hr hx hi
    rw [hw] at hh hl
    have hv : w.welcome? (.proceed c) = none := by
      simp [welcome?, hr.chore?_eq_some_iff.2 ⟨hx, hi⟩, hw]
    rw [hv, Option.toList_none, List.append_nil]
    exact ⟨gs, Held.drain (x := { x with fault }) hh (Nat.le_refl _) hi hj
      (by simpa [Wait.isDraining] using hl) rest⟩
  | @dropped x cs hx hi hlen =>
    obtain ⟨hh, hj, hl⟩ := h.held hr hx hi
    refine ⟨gs, ?_⟩
    rw [show w.welcome? _ = none from rfl, Option.toList_none, List.append_nil]
    refine .past (hh.toBooks.same rfl) hh.known (fun y hy => ?_) ?_ ?_
    · obtain ⟨hy, hyi⟩ := List.mem_filter.1 hy
      exact ⟨by simpa using hyi, hh.minor y hy (by simpa using hyi)⟩
    · cases x.wait <;> simp [Wait.lately, ending]
    · have hun : ({ w with cells := cs, chores := w.chores.filter (·.id ≠ c) } : Server).answer? c =
          none := hh.unanswered
      rw [hun]
      cases x.wait <;> simp [Wait.lately, ending]

end Course

/-- Behind a start that succeeds, a fresh server accepts, or stops when the shutdown is there. -/
theorem course_callRun (s : Settings) (here : Address) (down : Bool) :
    Course 0 here [] [] (({ settings := s } : Server).callRun (.ok here) down) := by
  have h : Held 0 here [] [] [] 0
      (((({ settings := s } : Server).emit .willRun).add .run).start (.ok here)).1 :=
    ⟨⟨rfl, rfl, List.pairwise_singleton _ _⟩, Nat.one_pos, by simp [start, emit, add],
      ⟨⟨0, .run, .starting, 0, none⟩, by simp [start, emit, add], rfl⟩, rfl⟩
  cases down with
  | false => exact h.beginAccept (x := ⟨0, .run, .starting, 0, none⟩) (Nat.le_refl _) rfl rfl rfl
  | true => exact h.beginStop (x := ⟨0, .run, .starting, 0, none⟩) (Nat.le_refl _) rfl rfl rfl

theorem Course.steps (h : Course c here gs ns w) (he : Errands [] w) (vs : List Move)
    (hv : ∀ v ∈ vs, isBesideRun v = true) (hs : w.steps vs = some a) :
    ∃ gs', Course c here gs' (ns ++ welcomes vs w) a := by
  induction vs generalizing w gs ns with
  | nil =>
    obtain rfl := Option.some.inj hs
    exact ⟨gs, by simpa [welcomes] using h⟩
  | cons v vs ih =>
    obtain ⟨b, hb, hs⟩ := Option.bind_eq_some_iff.1 hs
    obtain ⟨hv, hvs⟩ := List.forall_mem_cons.1 hv
    obtain ⟨gs', h'⟩ := h.stir he (stir_step (h.manned he) hv hb)
    rw [welcomes, hb, Option.map_some, Option.getD_some, ← List.append_assoc]
    exact ih h' (he.step hb) hvs hs

/-- What a run has told, with an accept under way as one that has come to nothing. -/
theorem Course.books (h : Course c here gs ns w) : ∃ gs' l n, Books here gs' ns l n w ∧
    l <+: ending ∧ (w.answer? c).isSome = decide (l = ending) := by
  cases h with
  | @going x h hx hi hr =>
    have hu : (w.answer? c).isSome = false := by rw [h.unanswered]; rfl
    rw [hu]
    cases hw : x.wait with
    | listening _ | replacing _ _ _ =>
      rw [hw] at h
      exact ⟨_, _, _, h.toBooks.close, List.nil_prefix, rfl⟩
    | draining _ _ _ =>
      rw [hw] at h
      exact ⟨_, _, _, h.toBooks, ⟨[.didStop, .didRun], rfl⟩, rfl⟩
    | starting | resting _ | tending _ | closing _ _ =>
      rw [hw] at h
      exact ⟨_, _, _, h.toBooks, List.nil_prefix, rfl⟩
  | past hb _ _ hl ha =>
    obtain rfl | hl := hl
    · rw [ha]
      exact ⟨_, _, _, hb.close, List.nil_prefix, rfl⟩
    · exact ⟨_, _, _, hb, hl, ha⟩

/-! A run that could not start the server. -/

/-- Once the run is over, whatever happens leaves it alone. -/
theorem Stir.aside_of_gone (hs : Stir c w v a) (hc : ∀ x ∈ w.chores, x.id ≠ c) :
    Aside c w a ∧ w.welcome? v = none := by
  cases hs with
  | aside ha hv => exact ⟨ha, hv⟩
  | welcomed hx hi | again hx hi | replacing hx hi | failed _ hx hi | woken hx hi | stopped hx hi
  | drained _ hx hi | dropped hx hi => exact absurd hi (hc _ hx)

structure Failed (c : ChoreId) (l : List Event) (o : Answer) (w : Server) : Prop where
  errands : Errands [] w
  known : c < w.fresh
  gone : ∀ x ∈ w.chores, x.id ≠ c ∧ x.isMinor = true
  told : w.told = l
  answer : w.answer? c = some o

theorem failed_callRun (s : Settings) (e : Error) (down : Bool) :
    Failed 0 [.willRun, .willStart] (.failed e)
      (({ settings := s } : Server).callRun (.error e) down) where
  errands := (errands_empty s).callRun _ _
  known := Nat.one_pos
  gone := by simp [callRun, start, emit, add, settle]
  told := rfl
  answer := by simp [callRun, start, settle, emit, add, answer?]

theorem Failed.steps {o : Answer} (h : Failed c l o w) (vs : List Move)
    (hv : ∀ v ∈ vs, isBesideRun v = true) (hs : w.steps vs = some a) :
    Failed c l o a ∧ welcomes vs w = [] := by
  induction vs generalizing w with
  | nil =>
    obtain rfl := Option.some.inj hs
    exact ⟨h, rfl⟩
  | cons v vs ih =>
    obtain ⟨b, hb, hs⟩ := Option.bind_eq_some_iff.1 hs
    obtain ⟨hv, hvs⟩ := List.forall_mem_cons.1 hv
    have hm : Manned c w :=
      ⟨h.errands, h.known, fun x hx hi => absurd hi (h.gone x hx).1, fun x hx _ => (h.gone x hx).2⟩
    obtain ⟨hk, hn⟩ := (stir_step hm hv hb).aside_of_gone fun x hx => (h.gone x hx).1
    have hg (x : Chore) (hx : x ∈ b.chores) : x.id ≠ c ∧ x.isMinor = true := by
      by_cases hi : x.id = c
      · exact absurd hi (h.gone x ((hk.run x hi).1 hx)).1
      · exact ⟨hi, (hk.minor x hx).elim (fun hx => (h.gone x hx).2) id⟩
    obtain ⟨hf, hw⟩ := ih ⟨h.errands.step hb, h.known.trans_le hk.fresh, hg, hk.told.trans h.told,
      hk.answer.trans h.answer⟩ hvs hs
    rw [welcomes, hb, Option.map_some, Option.getD_some, hn, hw]
    exact ⟨hf, rfl⟩

end Switchboard.Server
