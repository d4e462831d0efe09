import Mathlib.Data.List.Infix
import Switchboard.Client.Machine
import Switchboard.Proofs.Session.Custody

/-! What the observers of a client hear of its sessions: each as it comes, and the end of each close,
before the next attempt to connect. -/
namespace Switchboard.Client
open Session (Machine endsClose begins)
open Session.Machine

variable {l : List Machine} {m a : Machine} {i : Nat} {trace : List (Duration × Event)}

def isDidConnect : Event → Bool
  | .didConnect _ => true
  | _ => false

def isOwn : Event → Bool
  | .willConnect _ | .didConnect _ => true
  | _ => false

theorem isDidConnect_of_not_own {e : Event} (h : isOwn e = false) : isDidConnect e = false := by
  cases e <;> first | rfl | simp [isOwn] at h

/-- A session tells of no event of its client. -/
theorem not_own_of_told (hm : Whole m) {k : Session.Mark} (hk : k ∈ m.trace) :
    isOwn k.event = false := by
  have ht := hm.begins_or_ends hk
  generalize k.event = e at ht
  obtain hb | ⟨f, hf⟩ := ht
  · cases e <;> first | rfl | simp [begins] at hb
  · cases hf <;> rfl

/-- Every session has been told of once, and so has the end of every one that is `closed`; before
each attempt to connect there have been as many ends as sessions. -/
structure Account (l : List Machine) (trace : List (Duration × Event)) : Prop where
  connects : trace.countP (isDidConnect ·.2) = l.length
  closes : trace.countP (endsClose ·.2) = l.countP (·.session.state = .closed)
  ordered : ∀ d k older, (d, Event.willConnect k) :: older <:+ trace →
    older.countP (isDidConnect ·.2) = older.countP (endsClose ·.2)

def told (m a : Machine) : List (Duration × Event) :=
  (a.trace.take (a.trace.length - m.trace.length)).map fun x => (x.time, x.event)

theorem put_eq {c : Client} (hm : c.sessions[i]? = some m) (a : Machine) :
    c.put i a = { c with sessions := c.sessions.set i a, trace := told m a ++ c.trace } := by
  rw [put, hm]
  rfl

namespace Account

/-- What is told without an attempt to connect comes before none. -/
theorem ordered_append (h : Account l trace) (new : List (Duration × Event))
    (hn : ∀ x ∈ new, ∀ k, x.2 ≠ .willConnect k) :
    ∀ d k older, (d, Event.willConnect k) :: older <:+ new ++ trace →
      older.countP (isDidConnect ·.2) = older.countP (endsClose ·.2) := by
  induction new with
  | nil => exact h.ordered
  | cons x new ih =>
    intro d k older hs
    obtain hx | hs := List.suffix_cons_iff.1 hs
    · obtain ⟨rfl, -⟩ := List.cons.inj hx
      exact absurd rfl (hn _ List.mem_cons_self k)
    · exact ih (fun y hy => hn y (List.mem_cons_of_mem _ hy)) d k older hs

/-- An attempt begins when every session is `closed`. -/
theorem attempt (h : Account l trace) (hl : ∀ m ∈ l, m.session.state = .closed) (d : Duration)
    (k : UInt32) : Account l ((d, .willConnect k) :: trace) where
  connects := h.connects
  closes := h.closes
  ordered e j older hs := by
    obtain hx | hs := List.suffix_cons_iff.1 hs
    · obtain ⟨-, rfl⟩ := List.cons.inj hx
      rw [h.connects, h.closes, List.countP_eq_length.2 (by simpa using hl)]
    · exact h.ordered e j older hs

theorem push (h : Account l trace) (hm : m.session.state ≠ .closed) (d : Duration)
    (peer : Address) : Account (l ++ [m]) ((d, .didConnect peer) :: trace) where
  connects := by
    rw [List.countP_cons, h.connects, List.length_append]
    rfl
  closes := by
    rw [List.countP_cons, h.closes, List.countP_append]
    simp [endsClose, hm]
  ordered := h.ordered_append [(d, .didConnect peer)] (by simp)

theorem move {v : Session.Move} (h : Account l trace) (hi : l[i]? = some m) (hm : Whole m)
    (ha : Whole a) (hs : m.step v = some a) : Account (l.set i a) (told m a ++ trace) := by
  obtain ⟨new, hn, -⟩ := opens_step hm.sound.roster hs
  have htold : told m a = new.map fun x => (x.time, x.event) := by
    rw [told, hn, List.length_append, Nat.add_sub_cancel, List.take_left]
  have hown : ∀ k ∈ new, isOwn k.event = false := fun k hk =>
    not_own_of_told ha (hn ▸ List.mem_append_left _ hk)
  obtain ⟨hlt, rfl⟩ := List.getElem?_eq_some_iff.1 hi
  rw [htold]
  refine ⟨?_, ?_, h.ordered_append _ fun x hx k hk => ?_⟩
  · have hz : new.countP (isDidConnect ·.event) = 0 :=
      List.countP_eq_zero.2 fun k hk => by simp [isDidConnect_of_not_own (hown k hk)]
    simpa [List.countP_map, Function.comp_def, hz] using h.connects
  · -- the session tells of the end of its close when it becomes `closed`
    have hc := ha.countP_endsClose
    rw [hn, List.countP_append, hm.countP_endsClose] at hc
    have hset := List.countP_set (p := fun m : Machine => decide (m.session.state = .closed))
      (a := a) hlt
    have hle := List.boole_getElem_le_countP
      (p := fun m : Machine => decide (m.session.state = .closed)) hlt
    simp only [decide_eq_true_eq] at hset hle
    rw [hset, List.countP_append, List.countP_map, h.closes]
    simp only [Function.comp_def]
    omega
  · obtain ⟨k', hk', rfl⟩ := List.mem_map.1 hx
    have ho := hown k' hk'
    rw [show k'.event = .willConnect k from hk] at ho
    simp [isOwn] at ho

theorem pass (h : Account l trace) (d : Duration) :
    Account (l.map fun m => { m with now := m.now + d }) trace where
  connects := by rw [h.connects, List.length_map]
  closes := by rw [h.closes, List.countP_map]; rfl
  ordered := h.ordered

end Account
end Switchboard.Client
