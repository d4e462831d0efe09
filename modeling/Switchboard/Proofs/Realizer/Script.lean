import Switchboard.Proofs.Realizer.Account
import Switchboard.Proofs.Scenario.Transmission
import Switchboard.Proofs.Session.Stance

/-! A scenario that goes as it is written: what its steps give, and the phases of a run that does
them, which are the same in either role. -/
namespace Switchboard
open Session (Call Machine Reply TaskId Wait)

def Action.other : Action → Action
  | .send => .recv
  | .recv => .send

namespace Step

/-- The steps of one of two who take turns; `a` is what this one does first. -/
def turns : Action → List Template → List Step
  | _, [] => []
  | a, t :: ts => ⟨a, t⟩ :: turns a.other ts

theorem length_turns (a : Action) (ts : List Template) : (turns a ts).length = ts.length := by
  induction ts generalizing a with
  | nil => rfl
  | cons t ts ih => exact congrArg (· + 1) (ih a.other)

theorem turns_getElem? (a : Action) (ts : List Template) (i : Nat) :
    (turns a ts)[i]? = ts[i]?.map fun t => ⟨if i % 2 = 0 then a else a.other, t⟩ := by
  induction ts generalizing a i with
  | nil => rfl
  | cons t ts ih =>
    cases i with
    | zero => rfl
    | succ i =>
      rw [turns, List.getElem?_cons_succ, List.getElem?_cons_succ, ih]
      have ha : a.other.other = a := by cases a <;> rfl
      obtain h | h := Nat.mod_two_eq_zero_or_one i
      · simp [h, Nat.succ_mod_two_eq_one_iff.2 h]
      · simp [h, Nat.succ_mod_two_eq_zero_iff.2 h, ha]

def wire (p : Step) : Bytes := p.template.build.encodeBytes

def reply (p : Step) : Reply :=
  match p.action with
  | .send => .sent p.wire.length
  | .recv => .received p.wire

def proper (p : Step) : Session.Outcome :=
  match p.action with
  | .send => .sent p.wire.length
  | .recv => .received p.wire

variable {p : Step}

theorem waitsAt_send (ha : p.action = .send) {size : Nat} {w : Wait}
    (h : (p.call size).WaitsAt w) : ∃ d, w = .sending p.wire d := by
  rw [call, ha] at h
  cases h with
  | send _ d => exact ⟨d, rfl⟩

theorem waitsAt_recv (ha : p.action = .recv) {size : Nat} {w : Wait}
    (h : (p.call size).WaitsAt w) : ∃ d, w = .receiving size d := by
  rw [call, ha] at h
  cases h with
  | recv _ d => exact ⟨d, rfl⟩

theorem call_gives_proper (h : p.template.Survives) (size : Nat) : (p.call size).Gives p.proper := by
  unfold call proper
  cases p.action with
  | send => exact .sent _ _
  | recv => exact .received size h.ne_nil

theorem proper_ne_failed (p : Step) (f : Error) : p.proper ≠ .failed f := by
  unfold proper
  cases p.action <;> simp

end Step

def Scenario.proper (s : Scenario) (i : Nat) : List Session.Outcome := (s.steps.take i).map Step.proper

namespace Realizer

structure Passes (s : Scenario) (r : Report) : Prop where
  length : r.outcomes.length = s.steps.length
  passed : r.passed = true

def Scripted (s : Scenario) : Prop := ∀ p ∈ s.steps, p.template.Survives

variable {s : Scenario} {e : Enactment} {p : Step} {i : Nat}

theorem length_proper (h : i ≤ s.steps.length) : (s.proper i).length = i := by
  simp [Scenario.proper, h]

theorem proper_succ (hp : s.steps[i]? = some p) : s.proper (i + 1) = s.proper i ++ [p.proper] := by
  simp [Scenario.proper, List.take_add_one, hp]

/-- The step is written down, and the next one follows. -/
theorem Booked.proper (h : Booked s (s.proper i) e) (hs : Scripted s) (hp : s.steps[i]? = some p) :
    ∃ b, e.absorb p.proper = .ok b ∧ Booked s (s.proper (i + 1)) b := by
  have hl := length_proper (Nat.le_of_lt (List.getElem?_eq_some_iff.1 hp).1)
  rw [proper_succ hp]
  exact h.absorb (hl.symm ▸ hp) (Step.call_gives_proper (hs p (List.mem_of_getElem? hp)) _)
    p.proper_ne_failed

/-- The session of a step that goes well is answered. -/
theorem stands_reply {m : Machine} {t : TaskId} {size : Nat} (hp : p.template.Survives)
    (h : m.Stands (.working t (p.call size))) :
    ∃ a, m.step (.reply t p.reply) = some a ∧ a.Stands (.told t p.proper) := by
  unfold Step.call at h
  unfold Step.reply Step.proper
  cases ha : p.action with
  | send =>
    rw [ha] at h
    exact h.sent _
  | recv =>
    rw [ha] at h
    exact h.received hp.ne_nil hp.not_exit

/-- The line about a step that has gone well. -/
theorem Records.passed {l : Outcome} (h : Records i p p.proper l) (hp : p.template.Survives) :
    l.passed = true := by
  suffices hl : l.mismatches = [] by simp [Outcome.passed, hl]
  cases ha : p.action with
  | send => exact (h.sent ha).2.1
  | recv =>
    obtain ⟨data, hd, hok, -⟩ := h.received ha
    obtain rfl : p.wire = data := by simpa [Step.proper, ha] using hd
    obtain ⟨m, hm, hs, hh, hb⟩ := hp.decode
    rw [(hok m hm).1, Template.mismatches_eq_nil hs hh hb]
    rfl

theorem Booked.passes (h : Booked s (s.proper s.steps.length) e) (hs : Scripted s) :
    Passes s e.report where
  length := by rw [h.report.length, length_proper (Nat.le_refl _)]
  passed := by
    rw [Report.passed, List.all_eq_true]
    intro l hl
    obtain ⟨i, hi⟩ := List.getElem?_of_mem hl
    obtain ⟨p, o, hp, ho, hr⟩ := h.report.line i l hi
    obtain rfl : p.proper = o := by simpa [Scenario.proper, hp] using ho
    exact hr.passed (hs p (List.mem_of_getElem? hp))

inductive Phase where
  | opening
  | opened
  | asked (i : Nat)
  | told (i : Nat)
  | answered (i : Nat)
  | leaving
  | left
  | parted
  | ended
  deriving DecidableEq

namespace Phase

def done (n : Nat) : Phase → Nat
  | .opening | .opened => 0
  | .asked i => i
  | .told i | .answered i => i + 1
  | .leaving | .left | .parted | .ended => n

def behind (n i : Nat) : Phase := if i < n then .asked i else .leaving

def next (n : Nat) : Phase → Option Phase
  | .opened => some (behind n 0)
  | .told i => some (.answered i)
  | .answered i => some (behind n (i + 1))
  | .left => some .parted
  | .parted => some .ended
  | .opening | .asked _ | .leaving | .ended => none

def rank (n : Nat) : Phase → Nat
  | .opening => 3 * n + 5
  | .opened => 3 * n + 4
  | .asked i => 3 * (n - i) + 3
  | .told i => 3 * (n - i) + 2
  | .answered i => 3 * (n - i) + 1
  | .leaving => 3
  | .left => 2
  | .parted => 1
  | .ended => 0

def heard : Phase → Phase
  | .asked i => .told i
  | .leaving => .left
  | a => a

def noted : Phase → Phase
  | .asked i => .answered i
  | .leaving => .left
  | a => a

inductive Awaits (s : Scenario) (w : Wait) : Phase → Reply → Prop where
  | step {i : Nat} {p : Step} : s.steps[i]? = some p → (p.call s.agent.buffersize).WaitsAt w →
      Awaits s w (.asked i) p.reply
  | close : w = .shutting → Awaits s w .leaving .closed

def Within (n : Nat) : Phase → Prop
  | .asked i | .told i | .answered i => i < n
  | _ => True

variable {n : Nat} {a b : Phase}

theorem done_behind (h : i ≤ n) : (behind n i).done n = i := by
  unfold behind
  split
  next => rfl
  next hn => exact Nat.le_antisymm (Nat.not_lt.1 hn) h

theorem rank_behind (n i : Nat) : (behind n i).rank n ≤ 3 * (n - i) + 3 := by
  unfold behind
  split <;> simp [rank]

theorem done_next (ha : a.Within n) (h : a.next n = some b) : b.done n = a.done n := by
  cases a with
  | opened =>
    obtain rfl := Option.some.inj h
    exact done_behind (Nat.zero_le n)
  | answered i =>
    obtain rfl := Option.some.inj h
    exact done_behind ha
  | told | left | parted =>
    obtain rfl := Option.some.inj h
    rfl
  | opening | asked | leaving | ended => simp [next] at h

theorem next_ne_opening (h : a.next n = some b) : a ≠ .opening ∧ b ≠ .opening := by
  have hb (i : Nat) : behind n i ≠ .opening := by
    unfold behind
    split <;> simp
  cases a with
  | opened | answered =>
    obtain rfl := Option.some.inj h
    exact ⟨by simp, hb _⟩
  | told | left | parted =>
    obtain rfl := Option.some.inj h
    simp
  | opening | asked | leaving | ended => simp [next] at h

theorem rank_next (ha : a.Within n) (h : a.next n = some b) : b.rank n < a.rank n := by
  cases a with
  | opened =>
    obtain rfl := Option.some.inj h
    exact Nat.lt_succ_of_le (rank_behind n 0)
  | answered i =>
    obtain rfl := Option.some.inj h
    have hi : i < n := ha
    have hr := rank_behind n (i + 1)
    change (behind n (i + 1)).rank n < 3 * (n - i) + 1
    omega
  | told | left | parted =>
    obtain rfl := Option.some.inj h
    simp [rank]
  | opening | asked | leaving | ended => simp [next] at h

end Phase
end Realizer
end Switchboard
