import Mathlib.Order.Lattice.Nat
import Mathlib.Order.MinMax
import Mathlib.Order.WithBot
import Switchboard.Proofs.Session.Closing
import Switchboard.Proofs.Session.Frame

/-! A run against the clock: which move each machine of the run makes, when something is first so,
and when a run is on time. -/
namespace Switchboard.Session.Machine
variable {m a b : Machine} {t : TaskId}

def walk : List Move → Machine → List (Machine × Move)
  | [], _ => []
  | v :: vs, m => (m, v) :: ((m.step v).map (walk vs)).getD []

/-- No time passes while a task can go on at once. -/
def isPunctual : Machine × Move → Bool
  | (m, .pass d) => d = 0 || m.tasks.all (m.prompt · = none)
  | _ => true

/-- At the time of a change of a flag comes neither another one behind it nor an answer of the
link. -/
def isApart (p q : Machine × Move) : Bool :=
  !(p.2.isFlag && (q.2.isFlag || q.2.isAnswer)) || p.1.now ≠ q.1.now

def joinsAt (t : TaskId) (l : List (Machine × Move)) : List Duration :=
  l.filterMap fun p => if p.2 = .join t then some p.1.now else none

theorem walk_append {us : List Move} (h : m.steps us = some b) (ws : List Move) :
    walk (us ++ ws) m = walk us m ++ walk ws b := by
  induction us generalizing m with
  | nil =>
    obtain rfl := Option.some.inj h
    rfl
  | cons u us ih =>
    obtain ⟨c, hc, h⟩ := Option.bind_eq_some_iff.1 h
    simp [walk, hc, ih h]

theorem joinsAt_concat (t : TaskId) (l : List (Machine × Move)) (m : Machine) (v : Move) :
    joinsAt t (l ++ [(m, v)]) = joinsAt t l ++ if v = .join t then [m.now] else [] := by
  rw [joinsAt, List.filterMap_append, joinsAt]
  split <;> simp [*]

theorem mem_joinsAt {l : List (Machine × Move)} {d : Duration} :
    d ∈ joinsAt t l ↔ ∃ p ∈ l, p.2 = .join t ∧ p.1.now = d := by
  simp [joinsAt]

end Switchboard.Session.Machine
