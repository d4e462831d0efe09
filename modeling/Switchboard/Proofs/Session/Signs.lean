import Mathlib.Order.Bounds.Basic
import Switchboard.Proofs.Session.Telling
import Switchboard.Proofs.Session.Tending

/-! Signs of life of a session, and when it is idle. The session itself keeps the last of them. -/
namespace Switchboard.Session.Machine
variable {m a : Machine} {v : Move} {limit made start e : Duration} {l : List Duration}

/-- The times of the signs of life of a session made at `made`, the latest first: that, and whenever
data have gone out or come in. -/
def signs (made : Duration) (m : Machine) : List Duration :=
  (m.trace.filter (isNews ·.event)).map (·.time) ++ [made]

/-- At the time `e` the last sign of life until then is `limit` ago, or longer. -/
def IsIdle (limit : Duration) (l : List Duration) (e : Duration) : Prop :=
  ∃ s, IsGreatest {s | s ∈ l ∧ s ≤ e} s ∧ s + limit ≤ e

instance (limit : Duration) (l : List Duration) (e : Duration) : Decidable (IsIdle limit l e) :=
  decidable_of_iff (∃ s ∈ l, (s ≤ e ∧ ∀ r ∈ l, r ≤ e → r ≤ s) ∧ s + limit ≤ e) <| by
    constructor
    · rintro ⟨s, hs, ⟨he, hm⟩, hl⟩
      exact ⟨s, ⟨⟨hs, he⟩, fun r hr => hm r hr.1 hr.2⟩, hl⟩
    · rintro ⟨s, ⟨⟨hs, he⟩, hm⟩, hl⟩
      exact ⟨s, hs, ⟨he, fun r hr hre => hm ⟨hr, hre⟩⟩, hl⟩

/-- What comes later makes no difference. -/
theorem isIdle_append {new : List Duration} (h : ∀ s ∈ new, e < s) :
    IsIdle limit (new ++ l) e ↔ IsIdle limit l e := by
  have hs : {s | s ∈ new ++ l ∧ s ≤ e} = {s | s ∈ l ∧ s ≤ e} := by
    ext s
    simp only [List.mem_append, Set.mem_ofPred_eq]
    refine ⟨fun ⟨hs, he⟩ => ⟨hs.resolve_left fun hn => ?_, he⟩, fun ⟨hs, he⟩ => ⟨.inr hs, he⟩⟩
    exact absurd (h s hn) (Nat.not_lt.2 he)
  rw [IsIdle, hs, IsIdle]

theorem isLeast_append {P : Duration → Prop} {new : List Duration} (hn : ∀ s ∈ new, e < s)
    (h : IsLeast {e | P e ∧ IsIdle limit l e} e) :
    IsLeast {e | P e ∧ IsIdle limit (new ++ l) e} e := by
  refine ⟨⟨h.1.1, (isIdle_append hn).2 h.1.2⟩, fun d ⟨hp, hd⟩ => Nat.le_of_not_lt fun hlt => ?_⟩
  have hi : IsIdle limit l d := (isIdle_append fun s hs => Nat.lt_trans hlt (hn s hs)).1 hd
  exact absurd (h.2 ⟨hp, hi⟩) (Nat.not_le.2 hlt)

/-- Who is idle at a time has been so since the limit was over, or since `start`. -/
theorem IsIdle.since (h : IsIdle limit l e) (hs : start ≤ e) :
    ∃ s ∈ l, max start (s + limit) ≤ e ∧ IsIdle limit l (max start (s + limit)) := by
  obtain ⟨s, ⟨⟨hsl, -⟩, hm⟩, hle⟩ := h
  have hmax : max start (s + limit) ≤ e := max_le hs hle
  refine ⟨s, hsl, hmax, s, ⟨⟨hsl, ?_⟩, fun r hr => hm ⟨hr.1, Nat.le_trans hr.2 hmax⟩⟩, le_max_right _ _⟩
  exact Nat.le_trans (Nat.le_add_right s limit) (le_max_right _ _)

theorem signs_step (made : Duration) (h : m.step v = some a) :
    signs made a = if (m.news? v).isSome then m.now :: signs made m else signs made m := by
  obtain ⟨new, hn, hf⟩ := trace_step h
  have hnone : new.filter (isNews ·.event) = [] :=
    List.filter_eq_nil_iff.2 fun k hk => by simp [not_isNews (hf k hk)]
  rw [signs, hn, List.filter_append, hnone, List.nil_append]
  cases hk : m.news? v with
  | none => rfl
  | some k =>
    obtain ⟨hnews, ht⟩ := isNews_of_news? hk
    simp [signs, hnews, ht]

structure Dated (made : Duration) (m : Machine) : Prop where
  latest : (signs made m).head? = some m.session.lastActivity
  sorted : (signs made m).Pairwise (· ≥ ·)
  past : m.session.lastActivity ≤ m.now

theorem dated_opened (settings : LoopSettings) (timeout : Option Duration) (made : Duration) :
    Dated made (opened settings timeout made) where
  latest := rfl
  sorted := List.pairwise_singleton _ _
  past := Nat.le_refl _

/-- Time goes by with `pass` alone. -/
theorem now_eq_of_step (hr : Roster m.tasks m.fresh) (hs : m.step v = some a)
    (hv : ∀ d, v ≠ .pass d) : a.now = m.now := by
  obtain ⟨d, rfl, -⟩ | ⟨k, on, -, rfl⟩ | rfl | ho := step_outside hs
  · exact absurd rfl (hv d)
  · rfl
  · cases deed_step _ hs with
    | activate => rfl
    | sendFailed _ _ _ hv | recvFailed _ _ _ hv => simp at hv
  · exact (frame_deed hr (deed_step v hs) ho).now

namespace Dated

theorem eq_cons (h : Dated made m) : ∃ l, signs made m = m.session.lastActivity :: l :=
  List.head?_eq_some_iff.1 h.latest

theorem le (h : Dated made m) : ∀ s ∈ signs made m, s ≤ m.session.lastActivity := by
  intro s hs
  have hp := h.sorted
  obtain ⟨l, hl⟩ := h.eq_cons
  rw [hl] at hp hs
  obtain rfl | hs := List.mem_cons.1 hs
  · exact Nat.le_refl _
  · exact (List.pairwise_cons.1 hp).1 s hs

theorem step (hm : Sound m) (h : Dated made m) (hs : m.step v = some a) : Dated made a := by
  have hn := now_step hm.roster hs
  have hl := signs_step made hs
  have ha := lastActivity_step hs
  split at hl
  next hk =>
    rw [if_pos hk] at ha
    refine ⟨by rw [hl, ha, List.head?_cons], ?_, ha ▸ hn⟩
    rw [hl]
    exact List.pairwise_cons.2 ⟨fun s hs => Nat.le_trans (h.le s hs) h.past, h.sorted⟩
  next hk =>
    rw [if_neg hk] at ha
    exact ⟨by rw [hl, ha, h.latest], hl ▸ h.sorted, ha ▸ Nat.le_trans h.past hn⟩

theorem steps (hm : Sound m) (h : Dated made m) (vs : List Move) (hs : m.steps vs = some a) :
    Dated made a := by
  refine (steps_induction (P := fun m => Sound m ∧ Dated made m) ?_ ⟨hm, h⟩ vs hs).2
  rintro m a v ⟨hm, h⟩ hs
  exact ⟨hm.step hs, h.step hm hs⟩

/-- So it is idle at a time behind the last of them when that is long enough ago. -/
theorem isIdle_iff (h : Dated made m) (he : m.session.lastActivity ≤ e) :
    IsIdle limit (signs made m) e ↔ m.session.lastActivity + limit ≤ e := by
  have hg : IsGreatest {s | s ∈ signs made m ∧ s ≤ e} m.session.lastActivity :=
    ⟨⟨List.mem_of_head? h.latest, he⟩, fun s hs => h.le s hs.1⟩
  exact ⟨fun ⟨s, hs, hl⟩ => hs.unique hg ▸ hl, fun hl => ⟨_, hg, hl⟩⟩

end Dated

/-- Those that come later are later. -/
theorem signs_steps (hm : Sound m) (made : Duration) (vs : List Move) (hs : m.steps vs = some a) :
    ∃ new, signs made a = new ++ signs made m ∧ ∀ s ∈ new, m.now ≤ s := by
  induction vs generalizing m with
  | nil =>
    obtain rfl := Option.some.inj hs
    exact ⟨[], rfl, by simp⟩
  | cons v vs ih =>
    obtain ⟨b, hb, hs⟩ := Option.bind_eq_some_iff.1 hs
    obtain ⟨new, hn, hle⟩ := ih (hm.step hb) hs
    have hle : ∀ s ∈ new, m.now ≤ s := fun s h => Nat.le_trans (now_step hm.roster hb) (hle s h)
    have hl := signs_step made hb
    split at hl
    · refine ⟨new ++ [m.now], by rw [hn, hl, List.append_assoc, List.singleton_append], fun s h => ?_⟩
      obtain h | h := List.mem_append.1 h
      · exact hle s h
      · exact Nat.le_of_eq (List.mem_singleton.1 h).symm
    · exact ⟨new, by rw [hn, hl], hle⟩

end Switchboard.Session.Machine
