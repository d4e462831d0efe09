import Mathlib.Data.List.Chain
import Mathlib.Order.Basic
import Switchboard.Proofs.Session.Phase

/-! The life of a session. In every order of moves the state goes forward one place at a time, and
the flag that loops and watchers look at never disagrees with it. -/
namespace Switchboard.Session

def State.next : State → List State
  | created => [active, closing]
  | active => [closing]
  | closing => [closed]
  | closed => []

def State.rank : State → Nat
  | created => 0
  | active => 1
  | closing => 2
  | closed => 3

theorem State.rank_injective : Function.Injective State.rank := by
  intro a b h
  cases a <;> cases b <;> simp_all [rank]

theorem State.rank_lt_of_mem_next (a b : State) (h : b ∈ a.next) : a.rank < b.rank := by
  cases a <;> cases b <;> simp_all [next, rank]

/-- From one session of a run to the one behind it: the state stays or goes one step on, and a link
that is let go stays so. -/
def Leads (s r : Session) : Prop :=
  (r.state = s.state ∨ r.state ∈ s.state.next) ∧ (s.released = true → r.released = true)

theorem Leads.rank_le {s r : Session} (h : s.Leads r) : s.state.rank ≤ r.state.rank := by
  obtain h | h := h.1
  · rw [h]
  · exact (State.rank_lt_of_mem_next _ _ h).le

theorem pairwise_rank_le {l : List Session} (h : l.IsChain Leads) :
    (l.map (·.state)).Pairwise (·.rank ≤ ·.rank) := by
  induction l with
  | nil => simp
  | cons s l ih =>
    cases l with
    | nil => simp
    | cons r l =>
      obtain ⟨hs, h⟩ := List.isChain_cons_cons.1 h
      have hl := ih h
      refine List.pairwise_cons.2 ⟨?_, hl⟩
      intro x hx
      obtain rfl | hx := List.mem_cons.1 hx
      · exact hs.rank_le
      · exact hs.rank_le.trans ((List.pairwise_cons.1 hl).1 x hx)

/-- How often a row of states comes to `s` from another state. -/
def entries (s : State) : List State → Nat
  | a :: b :: r => (if a ≠ s ∧ b = s then 1 else 0) + entries s (b :: r)
  | _ => 0

theorem entries_eq_zero (s a : State) (r : List State)
    (h : (a :: r).Pairwise (·.rank ≤ ·.rank)) (ha : s.rank ≤ a.rank) : entries s (a :: r) = 0 := by
  induction r generalizing a with
  | nil => rfl
  | cons b r ih =>
    obtain ⟨hab, h⟩ := List.pairwise_cons.1 h
    have hb : a.rank ≤ b.rank := hab b (by simp)
    have hn : ¬(a ≠ s ∧ b = s) := by
      rintro ⟨hne, rfl⟩
      exact hne (State.rank_injective (le_antisymm hb ha))
    rw [entries, if_neg hn, ih b h (ha.trans hb)]

/-- Where states never go back, each is come to once at most. -/
theorem entries_le_one (s : State) (l : List State) (h : l.Pairwise (·.rank ≤ ·.rank)) :
    entries s l ≤ 1 := by
  induction l with
  | nil => simp [entries]
  | cons a l ih =>
    cases l with
    | nil => simp [entries]
    | cons b r =>
      obtain ⟨-, h⟩ := List.pairwise_cons.1 h
      rw [entries]
      split
      next hb =>
        obtain ⟨-, rfl⟩ := hb
        rw [entries_eq_zero b b r h le_rfl]
      next =>
        rw [Nat.zero_add]
        exact ih h

namespace Machine
variable {m a : Machine}

/-- The cells that the life of a session is kept in agree with one another, and only who has let the
link go waits for its end. -/
structure Orderly (m : Machine) : Prop where
  alive_iff : m.session.alive = true ↔ m.session.state = .active
  released_of_closed : m.session.state = .closed → m.session.released = true
  over_of_released : m.session.released = true →
    m.session.state = .closing ∨ m.session.state = .closed
  released_of_shutting : ∀ x ∈ m.tasks, x.wait = .shutting → m.session.released = true

theorem Orderly.of_calm (hm : Orderly m) (h : Calm m a) : Orderly a := by
  obtain ⟨hs, ha, hr⟩ : a.session.state = m.session.state ∧ a.session.alive = m.session.alive ∧
      a.session.released = m.session.released := by simpa [phase] using h.phase
  refine ⟨?_, ?_, ?_, ?_⟩
  · rw [hs, ha]; exact hm.alive_iff
  · rw [hs, hr]; exact hm.released_of_closed
  · rw [hs, hr]; exact hm.over_of_released
  · intro x hx hw
    obtain ⟨y, hy, hw⟩ := h.shutting x hx hw
    rw [hr]
    exact hm.released_of_shutting y hy hw

theorem Orderly.activate (hm : Orderly m) {s : Session} (h : m.session.activate = .ok s) :
    Orderly { m with session := s } := by
  unfold Session.activate at h
  split at h
  next hc =>
    obtain rfl := Except.ok.inj h
    have hr : m.session.released ≠ true := fun hr => by simpa [hc] using hm.over_of_released hr
    exact ⟨by simp, by simp, fun h => absurd h hr, fun x hx hw => hm.released_of_shutting x hx hw⟩
  next => simp at h

theorem Orderly.beginClosing (hm : Orderly m) : Orderly (m.modify beginClosing) := by
  refine ⟨?_, ?_, ?_, hm.released_of_shutting⟩
  · simp only [modify, Session.beginClosing]
    split <;> simp_all
  · simp only [modify, Session.beginClosing]
    split
    · simp
    · exact hm.released_of_closed
  · simp only [modify, Session.beginClosing]
    split
    · simp
    · exact hm.over_of_released

theorem Orderly.of_released (h : m.session.phase = (.closing, false, true)) : Orderly m := by
  obtain ⟨hs, ha, hr⟩ : m.session.state = .closing ∧ m.session.alive = false ∧
      m.session.released = true := by simpa [phase] using h
  exact ⟨by simp [hs, ha], by simp [hs], by simp [hs], fun _ _ _ => hr⟩

theorem Orderly.of_finish (hr : m.session.released = true) : Orderly (m.modify finish) :=
  ⟨by simp [modify, Session.finish], fun _ => hr, by simp [modify, Session.finish], fun _ _ _ => hr⟩

theorem Orderly.advance (hm : Orderly m) (h : Advance m a) : Orderly a := by
  cases h with
  | calm h => exact hm.of_calm h
  | activate h => exact hm.activate h
  | fade h k => exact (hm.of_calm h).beginClosing.of_calm k
  | release _ h => exact Orderly.of_released h
  | finish hx hw h => exact (Orderly.of_finish (hm.released_of_shutting _ hx hw)).of_calm h

theorem Calm.state (h : Calm m a) : a.session.state = m.session.state := congrArg (·.1) h.phase

/-- No move skips a state or goes back. -/
theorem state_advance (hm : Orderly m) (h : Advance m a) :
    a.session.state = m.session.state ∨ a.session.state ∈ m.session.state.next := by
  cases h with
  | calm h => exact .inl h.state
  | @activate s h =>
    unfold Session.activate at h
    split at h
    next hc =>
      obtain rfl := Except.ok.inj h
      simp [hc, State.next]
    next => simp at h
  | fade h k =>
    rw [k.state, ← h.state]
    simp only [modify, Session.beginClosing]
    split
    next ha => simp [ha, State.next]
    next => exact .inl rfl
  | release hr h =>
    have hs : a.session.state = .closing := congrArg (·.1) h
    have hc : m.session.state ≠ .closed := fun hc => by simp [hm.released_of_closed hc] at hr
    rw [hs]
    cases h : m.session.state with
    | created | active | closing => simp [State.next]
    | closed => exact absurd h hc
  | finish hx hw h =>
    rw [h.state]
    have hr := hm.over_of_released (hm.released_of_shutting _ hx hw)
    obtain hs | hs := hr <;> simp [modify, Session.finish, hs, State.next]

def opened (settings : LoopSettings) (timeout : Option Duration) (now : Duration) : Machine where
  session := { settings, timeout, lastActivity := now }
  now := now

theorem orderly_opened (settings : LoopSettings) (timeout : Option Duration) (now : Duration) :
    Orderly (opened settings timeout now) :=
  ⟨by simp [opened], by simp [opened], by simp [opened], by simp [opened]⟩

theorem Orderly.steps (hm : Orderly m) (vs : List Move) (h : m.steps vs = some a) : Orderly a := by
  induction vs generalizing m with
  | nil =>
    obtain rfl := Option.some.inj h
    exact hm
  | cons v vs ih =>
    obtain ⟨b, hb, h⟩ := Option.bind_eq_some_iff.1 h
    exact ih (hm.advance (advance_step v hb)) h

def trail : List Move → Machine → List Session
  | [], m => [m.session]
  | v :: vs, m => m.session :: ((m.step v).map (trail vs)).getD []

theorem released_advance (h : Advance m a) (hr : m.session.released = true) :
    a.session.released = true := by
  cases h with
  | calm h => rw [h.released, hr]
  | @activate s h =>
    unfold Session.activate at h
    split at h
    next =>
      obtain rfl := Except.ok.inj h
      exact hr
    next => simp at h
  | fade h k =>
    rw [k.released]
    exact h.released.trans hr
  | release _ h => exact congrArg (·.2.2) h
  | finish _ _ h =>
    rw [h.released]
    exact hr

theorem trail_cons (v : Move) (vs : List Move) (h : m.step v = some a) :
    trail (v :: vs) m = m.session :: trail vs a := by
  simp [trail, h]

theorem trail_eq_cons (vs : List Move) (m : Machine) : ∃ r, trail vs m = m.session :: r := by
  cases vs with
  | nil => exact ⟨[], rfl⟩
  | cons v vs => exact ⟨_, rfl⟩

theorem isChain_trail (hm : Orderly m) (vs : List Move) : (trail vs m).IsChain Leads := by
  induction vs generalizing m with
  | nil => simp [trail]
  | cons v vs ih =>
    cases h : m.step v with
    | none => simp [trail, h]
    | some a =>
      have ha := advance_step v h
      have hl : Leads m.session a.session := ⟨state_advance hm ha, released_advance ha⟩
      obtain ⟨r, hr⟩ := trail_eq_cons vs a
      have hc := ih (hm.advance ha)
      rw [hr] at hc
      rw [trail_cons v vs h, hr]
      exact List.isChain_cons_cons.2 ⟨hl, hc⟩

theorem trail_getLast (vs : List Move) (h : m.steps vs = some a) :
    (trail vs m).getLast? = some a.session := by
  induction vs generalizing m with
  | nil =>
    obtain rfl := Option.some.inj h
    rfl
  | cons v vs ih =>
    obtain ⟨b, hb, h⟩ := Option.bind_eq_some_iff.1 h
    obtain ⟨r, hr⟩ := trail_eq_cons vs b
    have hl := ih h
    rw [hr] at hl
    rw [trail_cons v vs hb, hr, List.getLast?_cons_cons, hl]

/-- However the moves on a session come, the flag is up in `active` alone, the state goes forward
one place at a time and comes to `active` once at most, and the session is over from the moment
somebody has begun to close it. -/
theorem lifecycle (settings : LoopSettings) (timeout : Option Duration) (now : Duration)
    (vs : List Move) (h : (opened settings timeout now).steps vs = some m) :
    (m.session.alive = true ↔ m.session.state = .active) ∧
    (m.session.state = .closed → m.session.released = true) ∧
    (m.session.released = true → m.session.state = .closing ∨ m.session.state = .closed) ∧
    (trail vs (opened settings timeout now)).getLast? = some m.session ∧
    (trail vs (opened settings timeout now)).IsChain Leads ∧
    ((trail vs (opened settings timeout now)).map (·.state)).Pairwise (·.rank ≤ ·.rank) ∧
    entries .active ((trail vs (opened settings timeout now)).map (·.state)) ≤ 1 := by
  have hm := (orderly_opened settings timeout now).steps vs h
  have hc := isChain_trail (orderly_opened settings timeout now) vs
  have hp := pairwise_rank_le hc
  exact ⟨hm.alive_iff, hm.released_of_closed, hm.over_of_released,
    trail_getLast vs h, hc, hp, entries_le_one _ _ hp⟩

/-- Two receives wait while a close begins; one of them is dropped, the other gets an exit token
before the link has answered the close. -/
def crossing : List Move :=
  [.activate, .call (.recv 8), .call (.recv 4), .call .close, .cancel 2,
    .reply 0 (.received (Utf8.encode exitToken)), .call .close, .reply 4 .closed]

theorem lifecycle_crossing :
    ∃ m, (opened .client none 0).steps crossing = some m ∧ m.session.state = .closed ∧
      (m.session.alive = true ↔ m.session.state = .active) ∧
      (m.session.state = .closed → m.session.released = true) ∧
      (m.session.released = true → m.session.state = .closing ∨ m.session.state = .closed) ∧
      (trail crossing (opened .client none 0)).getLast? = some m.session ∧
      (trail crossing (opened .client none 0)).IsChain Leads ∧
      ((trail crossing (opened .client none 0)).map (·.state)).Pairwise (·.rank ≤ ·.rank) ∧
      entries .active ((trail crossing (opened .client none 0)).map (·.state)) ≤ 1 := by
  have h : ((opened .client none 0).steps crossing).map (·.session.state) = some .closed := by
    decide
  obtain ⟨m, hm, hs⟩ := Option.map_eq_some_iff.1 h
  exact ⟨m, hm, hs, lifecycle .client none 0 crossing hm⟩

end Machine
end Switchboard.Session
