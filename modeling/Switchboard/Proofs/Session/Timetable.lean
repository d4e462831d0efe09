import Mathlib.Algebra.BigOperators.Intervals
import Switchboard.Session.Scripted

/-! What a loop does over a link that takes all it is asked, and when, if nobody stops it. A round
begins when the one before is over and a period has passed. -/
namespace Switchboard.Session

def Act.Succeeds (a : Act) : Prop := a.hang = false ∧ a.error = none

/-- The link gives something, and it is not the payload that ends a session. -/
def Act.Brings (a : Act) (size : Nat) : Prop :=
  a.Succeeds ∧ a.data.take size ≠ [] ∧ isExitToken (a.data.take size) = false

instance (a : Act) : Decidable a.Succeeds := inferInstanceAs (Decidable (_ ∧ _))

instance (a : Act) (size : Nat) : Decidable (a.Brings size) := inferInstanceAs (Decidable (_ ∧ _))

structure Timetable where
  loop : Loop
  settings : LoopSettings
  sends : List Act
  recvs : List Act

namespace Timetable
variable (p : Timetable) (i : Nat)

def message : Bytes := Utf8.encode p.settings.message
def sendLag : Duration := (p.sends.getD i {}).delay
def recvLag : Duration := (p.recvs.getD i {}).delay

def gift : Bytes := (p.recvs.getD i {}).data.take p.settings.buffersize

def lag : Duration :=
  match p.loop with
  | .send => p.sendLag i
  | .recv => p.recvLag i
  | .sendrecv => p.sendLag i + p.recvLag i

def onset : Duration := ∑ j ∈ Finset.range i, (p.lag j + p.settings.period p.loop)

def round : List (Duration × Event) :=
  match p.loop with
  | .send => [(p.onset i, .sending p.message), (p.onset i + p.lag i, .sendSuccess p.message)]
  | .recv =>
    [(p.onset i, .receiving p.settings.buffersize),
      (p.onset i + p.lag i, .recvSuccess p.settings.buffersize (p.gift i))]
  | .sendrecv =>
    [(p.onset i, .sending p.message), (p.onset i + p.sendLag i, .sendSuccess p.message),
      (p.onset i + p.sendLag i, .receiving p.settings.buffersize),
      (p.onset i + p.lag i, .recvSuccess p.settings.buffersize (p.gift i))]

def mark (start : Duration) (t : TaskId) (e : Duration × Event) : Mark := ⟨start + e.1, some t, e.2⟩

def rounds (n : Nat) : List (Duration × Event) := (List.range n).flatMap p.round

def Succeeds : Prop :=
  (p.loop ≠ .recv → (p.sends.getD i {}).Succeeds) ∧
    (p.loop ≠ .send → (p.recvs.getD i {}).Brings p.settings.buffersize)

instance : Decidable (p.Succeeds i) := inferInstanceAs (Decidable (_ ∧ _))

variable {p i}

theorem onset_succ : p.onset (i + 1) = p.onset i + p.lag i + p.settings.period p.loop := by
  rw [onset, Finset.sum_range_succ, ← onset, Nat.add_assoc]

theorem onset_mono : Monotone p.onset :=
  monotone_nat_of_le_succ fun _ => by
    rw [onset_succ, Nat.add_assoc]
    exact Nat.le_add_right _ _

theorem rounds_succ (n : Nat) : p.rounds (n + 1) = p.rounds n ++ p.round n := by
  simp [rounds, List.range_succ]

theorem mem_round {e : Duration × Event} (he : e ∈ p.round i) :
    p.onset i ≤ e.1 ∧ e.1 ≤ p.onset i + p.lag i := by
  unfold round at he
  cases hk : p.loop <;> simp only [hk, lag, List.mem_cons, List.not_mem_nil, or_false] at he ⊢ <;>
    grind

theorem exists_rest {n : Nat} (h : i ≤ n) :
    ∃ rest, p.rounds n = p.rounds i ++ rest ∧ ∀ e ∈ rest, p.onset i ≤ e.1 := by
  induction n, h using Nat.le_induction with
  | base => exact ⟨[], by simp, by simp⟩
  | succ n hn ih =>
    obtain ⟨rest, hr, hd⟩ := ih
    refine ⟨rest ++ p.round n, by simp [rounds_succ, hr], fun e he => ?_⟩
    obtain he | he := List.mem_append.1 he
    · exact hd e he
    · exact (onset_mono hn).trans (mem_round he).1

end Timetable

inductive Stage where
  | ready (i : Nat)
  | sending (i : Nat)
  | receiving (i : Nat)
  deriving DecidableEq, Repr

namespace Stage
variable (p : Timetable)

def IsOf (k : Loop) : Stage → Prop
  | ready _ => True
  | sending _ => k ≠ .recv
  | receiving _ => k ≠ .send

def round : Stage → Nat
  | ready i | sending i | receiving i => i

def rank : Stage → Nat
  | ready i => 3 * i
  | sending i => 3 * i + 1
  | receiving i => 3 * i + 2

def next (k : Loop) : Stage → Stage
  | ready i => if k = .recv then receiving i else sending i
  | sending i => if k = .sendrecv then receiving i else ready (i + 1)
  | receiving i => ready (i + 1)

def due : Stage → Duration
  | ready i => p.onset i
  | sending i => p.onset i + p.sendLag i
  | receiving i => p.onset i + p.lag i

def tells : Stage → List Event
  | ready _ => if p.loop = .recv then [.receiving p.settings.buffersize] else [.sending p.message]
  | sending _ =>
    .sendSuccess p.message ::
      if p.loop = .sendrecv then [.receiving p.settings.buffersize] else []
  | receiving i => [.recvSuccess p.settings.buffersize (p.gift i)]

def told : Stage → List (Duration × Event)
  | ready i => p.rounds i
  | sending i => p.rounds i ++ (p.round i).take 1
  | receiving i => p.rounds i ++ (p.round i).dropLast

variable {p} {st : Stage}

theorem rank_lt_next (st : Stage) (k : Loop) : st.rank < (st.next k).rank := by
  cases st <;> cases k <;> simp [next, rank] <;> omega

theorem told_next (h : st.IsOf p.loop) :
    (st.next p.loop).told p = st.told p ++ (st.tells p).map (st.due p, ·) := by
  cases st <;> cases hk : p.loop <;>
    simp_all [next, told, tells, due, IsOf, Timetable.rounds, Timetable.round, Timetable.lag,
      List.range_succ]

theorem onset_le_due : p.onset st.round ≤ st.due p := by
  cases st with
  | ready i => exact Nat.le_refl _
  | sending i | receiving i => exact Nat.le_add_right _ _

/-- Before the rounds are over, the next stage is one of them, or the end. -/
theorem rank_next_le {n : Nat} (k : Loop) (h : st.due p < p.onset n) :
    (st.next k).rank ≤ 3 * n := by
  have hr : st.round < n := Timetable.onset_mono.reflect_lt (Nat.lt_of_le_of_lt onset_le_due h)
  cases st <;> cases k <;> simp_all [next, rank, round] <;> omega

theorem due_le_next (h : st.IsOf p.loop) : st.due p ≤ (st.next p.loop).due p := by
  cases st <;> cases hk : p.loop <;>
    simp_all [next, due, IsOf, Timetable.lag, Timetable.onset_succ]

theorem rest_of_next (h : st.IsOf p.loop) {n : Nat}
    (hr : ∃ rest, p.rounds n = (st.next p.loop).told p ++ rest ∧
      ∀ e ∈ rest, (st.next p.loop).due p ≤ e.1) :
    ∃ rest, p.rounds n = st.told p ++ rest ∧ ∀ e ∈ rest, st.due p ≤ e.1 := by
  obtain ⟨rest, hr, hd⟩ := hr
  refine ⟨(st.tells p).map (st.due p, ·) ++ rest, by rw [hr, told_next h, List.append_assoc], ?_⟩
  intro e he
  obtain he | he := List.mem_append.1 he
  · obtain ⟨_, _, rfl⟩ := List.mem_map.1 he
    exact Nat.le_refl _
  · exact (due_le_next h).trans (hd e he)

/-- What is still to be told is not told before the stage is over. -/
theorem exists_rest (h : st.IsOf p.loop) {n : Nat} (hn : st.rank ≤ 3 * n) :
    ∃ rest, p.rounds n = st.told p ++ rest ∧ ∀ e ∈ rest, st.due p ≤ e.1 := by
  have hready (i : Nat) (hi : 3 * i ≤ 3 * n) : ∃ rest, p.rounds n = (ready i).told p ++ rest ∧
      ∀ e ∈ rest, (ready i).due p ≤ e.1 := Timetable.exists_rest (by omega)
  have hlast (i : Nat) (hi : 3 * (i + 1) ≤ 3 * n) (hp : p.loop ≠ .send) :
      ∃ rest, p.rounds n = (receiving i).told p ++ rest ∧ ∀ e ∈ rest, (receiving i).due p ≤ e.1 :=
    rest_of_next (show (receiving i).IsOf p.loop from hp) (hready (i + 1) hi)
  cases st with
  | ready i => exact hready i hn
  | sending i =>
    have hi : 3 * (i + 1) ≤ 3 * n := by simp only [rank] at hn; omega
    refine rest_of_next h ?_
    by_cases hk : p.loop = .sendrecv
    · rw [next, if_pos hk]
      exact hlast i hi (by simp [hk])
    · rw [next, if_neg hk]
      exact hready (i + 1) hi
  | receiving i => exact hlast i (by simp only [rank] at hn; omega) h

/-- What has been told by a time at which the loop waits. -/
theorem filter_rounds (h : st.IsOf p.loop) {n : Nat} (hn : st.rank ≤ 3 * n) {T : Duration}
    (ht : ∀ e ∈ st.told p, e.1 < T) (hT : T ≤ st.due p) :
    (p.rounds n).filter (·.1 < T) = st.told p := by
  obtain ⟨rest, hr, hd⟩ := exists_rest h hn
  have hno : rest.filter (·.1 < T) = [] := by
    refine List.filter_eq_nil_iff.2 fun e he hlt => ?_
    exact absurd (of_decide_eq_true hlt) (Nat.not_lt.2 (hT.trans (hd e he)))
  have hall : (st.told p).filter (·.1 < T) = st.told p :=
    List.filter_eq_self.2 fun e he => decide_eq_true (ht e he)
  rw [hr, List.filter_append, hno, hall, List.append_nil]

end Stage

namespace Timetable
variable {p : Timetable} {i : Nat}

end Timetable
end Switchboard.Session
