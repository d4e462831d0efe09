import Switchboard.Proofs.Message.ExitToken
import Switchboard.Proofs.Session.Single
import Switchboard.Realizer.Enactment

/-! The steps of a scenario against the session that they are done on: what the session is asked, what
that comes to, and what is written down about it. Nothing here knows who does the steps. -/
namespace Switchboard
open Session (Machine TaskId Call isExitToken)

def Step.call (size : Nat) (p : Step) : Call :=
  match p.action with
  | .send => .send p.template.build.encodeBytes
  | .recv => .recv size

theorem Step.call_ne_close (size : Nat) (p : Step) : p.call size ≠ .close := by
  unfold call
  split <;> simp

def Scenario.calls (s : Scenario) : List Call := s.steps.map (Step.call s.agent.buffersize)

namespace Realizer

def refusal : Session.Outcome := .failed (.sessionInactive .closing)

structure Records (i : Nat) (p : Step) (o : Session.Outcome) (l : Outcome) : Prop where
  index : l.index = i
  action : l.action = p.action
  kind : l.kind = p.template.kind
  sent : p.action = .send → (∃ n, o = .sent n) ∧ l.mismatches = [] ∧ l.received = none
  received : p.action = .recv → ∃ data, o = .received data ∧
    (∀ m, Message.decodeBytes data = .ok m →
      l.mismatches = (p.template.mismatches m).map Mismatch.message ∧ l.received = some m) ∧
    ∀ e, Message.decodeBytes data = .error e → l.mismatches = [e.message] ∧ l.received = none
  exit : ∀ data, o = .received data → isExitToken data = true → l.passed = false

structure Reports (s : Scenario) (gs : List Session.Outcome) (r : Report) : Prop where
  length : r.outcomes.length = gs.length
  line : ∀ i l, r.outcomes[i]? = some l →
    ∃ p o, s.steps[i]? = some p ∧ gs[i]? = some o ∧ Records i p o l

structure InOrder (s : Scenario) (m : Machine) : Prop where
  asked : m.asked <+: s.calls
  /-- The tasks that have asked are those that have ended, but for the one under way, or for one that
  was refused. -/
  turns : (∃ t, m.calls.map (·.1) = t :: m.finished.map (·.1)) ∨
    m.calls.map (·.1) = m.finished.map (·.1) ∨
    ∃ t, m.finished.map (·.1) = t :: m.calls.map (·.1) ∧ m.given.getLast? = some refusal
  /-- Behind an exit token nothing is done any more. -/
  exits : ∀ i data o, m.given[i]? = some (.received data) → isExitToken data = true →
    m.given[i + 1]? = some o → o = refusal

structure Acts (s : Scenario) (e : Enactment) (m : Machine) : Prop where
  order : InOrder s m
  report : Reports s (m.given.take e.report.outcomes.length) e.report
  more : e.report.outcomes.length < s.steps.length
  /-- At most one step is done and not yet written down. -/
  ahead : m.given.length = e.report.outcomes.length ∨
    m.given.length = e.report.outcomes.length + 1
  /-- Behind an exit token that is written down, the next step is refused at once. -/
  heeds : ∀ i data, m.given[i]? = some (.received data) → isExitToken data = true →
    i < e.report.outcomes.length → m.given[i + 1]? = some refusal

structure Goes (s : Scenario) (e : Enactment) (m : Machine) (b : Enactment) : Prop where
  report : Reports s m.given b.report
  length : m.given.length = e.report.outcomes.length + 1

/-- What the steps come to: a report about all of them, or the error of the first that failed. -/
def Ends (s : Scenario) (m : Machine) : Except Error Report → Prop
  | .ok r => InOrder s m ∧ Reports s m.given r ∧ r.outcomes.length = s.steps.length
  | .error e => InOrder s m ∧ ∃ gs, m.given = gs ++ [.failed e] ∧ ∀ f, .failed f ∉ gs

variable {s : Scenario} {gs : List Session.Outcome} {o : Session.Outcome} {e : Enactment} {p : Step}
  {i : Nat}

/-! Writing down. -/

theorem passed_of_exit {data : Bytes} (h : isExitToken data = true) (i : Nat) (a : Action) (k : Kind)
    (t : Template) :
    (⟨i, a, k, (Enactment.judge t data).1, (Enactment.judge t data).2⟩ : Outcome).passed = false := by
  obtain ⟨f, hf⟩ := Session.decodeBytes_of_isExitToken h
  simp [Enactment.judge, hf, Outcome.passed]

theorem records_sent (i : Nat) (n : Nat) (h : p.action = .send) :
    Records i p (.sent n) ⟨i, p.action, p.template.kind, [], none⟩ :=
  ⟨rfl, rfl, rfl, fun _ => ⟨⟨n, rfl⟩, rfl, rfl⟩, fun hr => by simp [h] at hr, by simp⟩

theorem records_received (i : Nat) (data : Bytes) (h : p.action = .recv) :
    Records i p (.received data) ⟨i, p.action, p.template.kind,
      (Enactment.judge p.template data).1, (Enactment.judge p.template data).2⟩ where
  index := rfl
  action := rfl
  kind := rfl
  sent hs := by simp [h] at hs
  received _ := by
    refine ⟨data, rfl, fun m hm => ?_, fun f hf => ?_⟩
    · simp [Enactment.judge, hm]
    · simp [Enactment.judge, hf]
  exit d hd hx := by
    obtain rfl := Session.Outcome.received.inj hd
    exact passed_of_exit hx i _ _ _

theorem Reports.append {r : Report} {l : Outcome} (h : Reports s gs r)
    (hp : s.steps[gs.length]? = some p) (hl : Records gs.length p o l) :
    Reports s (gs ++ [o]) ⟨r.outcomes ++ [l]⟩ where
  length := by simp [h.length]
  line i k hk := by
    obtain hlt | rfl | hgt := Nat.lt_trichotomy i r.outcomes.length
    · rw [List.getElem?_append_left hlt] at hk
      rw [List.getElem?_append_left (h.length ▸ hlt)]
      exact h.line i k hk
    · rw [List.getElem?_concat_length] at hk
      obtain rfl := Option.some.inj hk
      rw [h.length]
      exact ⟨p, o, hp, List.getElem?_concat_length, hl⟩
    · rw [List.getElem?_eq_none (by simp; omega)] at hk
      simp at hk

theorem Reports.not_failed {r : Report} (h : Reports s gs r) (f : Error) :
    Session.Outcome.failed f ∉ gs := by
  intro hf
  obtain ⟨i, hi⟩ := List.getElem?_of_mem hf
  have hlt : i < r.outcomes.length := h.length ▸ (List.getElem?_eq_some_iff.1 hi).1
  obtain ⟨p, o, -, ho, hl⟩ := h.line i _ (List.getElem?_eq_getElem hlt)
  obtain rfl := Option.some.inj (hi.symm.trans ho)
  cases ha : p.action with
  | send => obtain ⟨⟨n, hn⟩, -⟩ := hl.sent ha; simp at hn
  | recv => obtain ⟨data, hd, -⟩ := hl.received ha; simp at hd

structure Booked (s : Scenario) (gs : List Session.Outcome) (e : Enactment) : Prop where
  size : e.buffersize = s.agent.buffersize
  rest : e.rest = s.steps.drop gs.length
  le : gs.length ≤ s.steps.length
  report : Reports s gs e.report

theorem booked_begin (s : Scenario) : Booked s [] (.begin s) :=
  ⟨rfl, rfl, Nat.zero_le _, rfl, by simp [Enactment.begin]⟩

namespace Booked

theorem job?_eq (h : Booked s gs e) :
    e.job? = s.steps[gs.length]?.map fun p => (p.call s.agent.buffersize).job := by
  rw [Enactment.job?, h.rest, List.head?_drop, h.size]
  congr 1
  funext p
  unfold Step.call
  cases p.action <;> rfl

theorem absorb_failed (e : Enactment) (f : Error) : e.absorb (.failed f) = .error f := by
  unfold Enactment.absorb
  cases e.rest <;> rfl

/-- A step that has not failed is written down, and the next one follows. -/
theorem absorb (h : Booked s gs e) (hp : s.steps[gs.length]? = some p)
    (ho : (p.call s.agent.buffersize).Gives o) (hf : ∀ f, o ≠ .failed f) :
    ∃ a, e.absorb o = .ok a ∧ Booked s (gs ++ [o]) a := by
  obtain ⟨hlt, hget⟩ := List.getElem?_eq_some_iff.1 hp
  have hr : e.rest = p :: s.steps.drop (gs.length + 1) := by
    rw [h.rest, List.drop_eq_getElem_cons hlt, hget]
  have book {ms : List Text} {m : Option Message}
      (hl : Records gs.length p o ⟨gs.length, p.action, p.template.kind, ms, m⟩) :
      Booked s (gs ++ [o]) (e.note p (s.steps.drop (gs.length + 1)) ms m) := by
    refine ⟨h.size, by simp [Enactment.note], by rw [List.length_append]; exact hlt, ?_⟩
    rw [Enactment.note, h.report.length]
    exact h.report.append hp hl
  unfold Step.call at ho
  unfold Enactment.absorb
  rw [hr]
  cases ha : p.action with
  | send =>
    rw [ha] at ho
    cases ho with
    | sent _ n => exact ⟨_, rfl, book (records_sent _ n ha)⟩
    | failed _ f => exact absurd rfl (hf f)
  | recv =>
    rw [ha] at ho
    cases ho with
    | received _ _ => exact ⟨_, rfl, book (records_received _ _ ha)⟩
    | failed _ f => exact absurd rfl (hf f)

end Booked

/-! Doing. -/

def Clean (gs : List Session.Outcome) : Prop :=
  ∀ data, .received data ∈ gs → isExitToken data = false

structure Rested (s : Scenario) (gs : List Session.Outcome) (m : Machine) : Prop where
  idle : m.Idle
  given : m.given = gs
  asked : m.asked = s.calls.take gs.length
  tasks : m.calls.map (·.1) = m.finished.map (·.1)
  clean : Clean gs.dropLast
  heeds : ∀ data, gs.getLast? = some (.received data) → isExitToken data = true →
    m.session.state = .closing

inductive Turn (s : Scenario) (gs : List Session.Outcome) (c : Call) (t : TaskId) (m : Machine) :
    Prop where
  | busy : m.Busy t c → m.given = gs → m.asked = s.calls.take (gs.length + 1) →
      m.calls.map (·.1) = t :: m.finished.map (·.1) → Clean gs → Turn s gs c t m
  | answered (o : Session.Outcome) : Rested s (gs ++ [o]) m → m.outcome? t = some o → c.Gives o →
      Turn s gs c t m
  | refused : m.Idle → m.given = gs ++ [refusal] → m.asked = s.calls.take gs.length →
      m.outcome? t = some refusal → m.finished.map (·.1) = t :: m.calls.map (·.1) →
      Clean gs.dropLast → Turn s gs c t m

variable {m a : Machine} {t : TaskId} {c : Call} {v : Session.Move}

theorem given_of_lull (h : m.Lull a) : a.given = m.given ∧ a.asked = m.asked := by
  rw [Machine.given, Machine.asked, h.finished, h.calls]
  exact ⟨rfl, rfl⟩

theorem given_of_settled (h : m.Settled t o a) : a.given = m.given ++ [o] ∧ a.asked = m.asked := by
  rw [Machine.given, Machine.asked, h.finished, h.calls]
  exact ⟨by simp [Machine.given], rfl⟩

theorem clean_append (h : Clean gs) (ho : ∀ data, o = .received data → isExitToken data = false) :
    Clean (gs ++ [o]) := by
  intro data hd
  obtain hd | hd := List.mem_append.1 hd
  · exact h data hd
  · exact ho data (List.mem_singleton.1 hd).symm

theorem clean_of_dropLast (h : Clean gs.dropLast)
    (hl : ∀ data, gs.getLast? = some (.received data) → isExitToken data = false) : Clean gs := by
  cases hg : gs.getLast? with
  | none =>
    obtain rfl := List.getLast?_eq_none_iff.1 hg
    exact h
  | some o =>
    rw [← List.dropLast_append_getLast? o hg]
    exact clean_append h fun data hd => hl data (hd ▸ hg)

/-- A session that has just been made has no step behind it. -/
theorem rested_new (s : Scenario) (hs : Session.Held m.session) (ht : m.tasks = [])
    (hc : m.calls = []) (hf : m.finished = []) : Rested s [] m where
  idle := ⟨hs, ht, by simp [hf]⟩
  given := by simp [Machine.given, hf]
  asked := by simp [Machine.asked, hc]
  tasks := by rw [hc, hf]; rfl
  clean := by simp [Clean]
  heeds := by simp

namespace Rested

theorem step (h : Rested s gs m) (hv : v.isPassive = true) (hs : m.step v = some a) :
    Rested s gs a := by
  obtain ⟨hi, hl, ha⟩ := h.idle.step hv hs
  obtain ⟨hg, hq⟩ := given_of_lull hl
  refine ⟨hi, hg.trans h.given, hq.trans h.asked, ?_, h.clean, fun data hd hx => ?_⟩
  · rw [hl.calls, hl.finished]
    exact h.tasks
  · rw [ha, h.heeds data hd hx]
    unfold Session.stateBehind
    split <;> rfl

/-- The next step begins, and is over at once when the session has seen its end. -/
theorem ask (h : Rested s gs m) (hp : s.steps[gs.length]? = some p) :
    Turn s gs (p.call s.agent.buffersize) m.fresh (m.call (p.call s.agent.buffersize).job) := by
  have hc := p.call_ne_close s.agent.buffersize
  have hn : s.calls[gs.length]? = some (p.call s.agent.buffersize) := by
    rw [Scenario.calls, List.getElem?_map, hp]
    rfl
  obtain hs | hs := h.idle.held.open_
  · obtain ⟨hb, ha, -⟩ := h.idle.call_active hc hs
    refine .busy hb ?_ ?_ ?_ ?_
    · rw [Machine.given, ha.finished]
      exact h.given
    · rw [List.take_add_one, hn, ← h.asked, Machine.asked, ha.calls]
      simp [Machine.asked]
    · rw [ha.calls, ha.finished, List.map_cons, h.tasks]
    · refine clean_of_dropLast h.clean fun data hd => ?_
      -- behind an exit token the session would not be active
      by_contra hx
      have hcl := h.heeds data hd (by simpa using hx)
      simp [hs] at hcl
  · obtain ⟨hi, ha, -⟩ := h.idle.call_closing hc hs
    obtain ⟨hg, hq⟩ := given_of_settled ha
    refine .refused hi (hg.trans (by rw [h.given, refusal])) (hq.trans h.asked)
      (Machine.outcome?_settled ha) ?_ h.clean
    rw [ha.calls, ha.finished, List.map_cons, h.tasks]

end Rested

theorem Turn.step (h : Turn s gs c t m) (hv : v.isPassive = true) (hs : m.step v = some a) :
    Turn s gs c t a := by
  cases h with
  | busy hb hg hq ht hc =>
    obtain ⟨hb', hl, -⟩ | ⟨hi, o, ho, hgo, hx⟩ := hb.step hv hs
    · obtain ⟨hg', hq'⟩ := given_of_lull hl
      refine .busy hb' (hg'.trans hg) (hq'.trans hq) ?_ hc
      rw [hl.calls, hl.finished]
      exact ht
    · obtain ⟨hg', hq'⟩ := given_of_settled ho
      refine .answered o ⟨hi, hg'.trans (by rw [hg]), ?_, ?_, by simpa using hc, fun data hd he => ?_⟩
        (Machine.outcome?_settled ho) hgo
      · rw [hq', hq, List.length_append]
        rfl
      · rw [ho.calls, ho.finished, ht]
        rfl
      · have hd : o = .received data := by simpa using hd
        rw [hx data hd, Session.stateBehind, if_pos he]
  | answered o hr ho hgo =>
    obtain ⟨-, hl, -⟩ := hr.idle.step hv hs
    refine .answered o (hr.step hv hs) ?_ hgo
    rw [Machine.outcome?, hl.finished]
    exact ho
  | refused hi hg hq ho ht hc =>
    obtain ⟨hi', hl, -⟩ := hi.step hv hs
    obtain ⟨hg', hq'⟩ := given_of_lull hl
    refine .refused hi' (hg'.trans hg) (hq'.trans hq) ?_ ?_ hc
    · rw [Machine.outcome?, hl.finished]
      exact ho
    · rw [hl.calls, hl.finished]
      exact ht

/-- What the operation has come to stays. -/
theorem Turn.outcome?_step (h : Turn s gs c t m) (hv : v.isPassive = true) (hs : m.step v = some a)
    (ho : m.outcome? t = some o) : a.outcome? t = some o := by
  have hi : m.Idle := by
    cases h with
    | busy hb => simp [hb.outcome?_eq_none] at ho
    | answered o hr => exact hr.idle
    | refused hi => exact hi
  obtain ⟨-, hl, -⟩ := hi.step hv hs
  rw [Machine.outcome?, hl.finished]
  exact ho

/-! What is said of it. -/

/-- Where only the last may be one, an exit token is the last. -/
theorem last_of_exit (hc : Clean gs.dropLast) {data : Bytes} (hd : gs[i]? = some (.received data))
    (hx : isExitToken data = true) : i + 1 = gs.length := by
  have hlt := (List.getElem?_eq_some_iff.1 hd).1
  by_contra hn
  have hm : .received data ∈ gs.dropLast := by
    refine List.mem_of_getElem? (i := i) ?_
    rw [List.dropLast_eq_take, List.getElem?_take_of_lt (by omega), hd]
  simp [hc data hm] at hx

theorem inOrder_of_clean (hq : ∃ n, m.asked = s.calls.take n)
    (ht : (∃ t, m.calls.map (·.1) = t :: m.finished.map (·.1)) ∨
      m.calls.map (·.1) = m.finished.map (·.1))
    (hc : Clean m.given.dropLast) : InOrder s m where
  asked := by
    obtain ⟨n, hn⟩ := hq
    rw [hn]
    exact List.take_prefix n _
  turns := by
    obtain ht | ht := ht
    · exact .inl ht
    · exact .inr (.inl ht)
  exits i data o hd hx ho := by
    have hlt := (List.getElem?_eq_some_iff.1 ho).1
    have := last_of_exit hc hd hx
    omega

theorem Rested.inOrder (h : Rested s gs m) : InOrder s m :=
  inOrder_of_clean ⟨_, h.asked⟩ (.inr h.tasks) (h.given ▸ h.clean)

namespace Turn

theorem inOrder (h : Turn s gs c t m) : InOrder s m := by
  cases h with
  | busy hb hg hq ht hc =>
    refine inOrder_of_clean ⟨_, hq⟩ (.inl ⟨t, ht⟩) ?_
    rw [hg]
    exact fun data hd => hc data (List.dropLast_subset gs hd)
  | answered o hr => exact hr.inOrder
  | refused hi hg hq ho ht hc =>
    refine ⟨hq ▸ List.take_prefix _ _, .inr (.inr ⟨t, ht, by rw [hg]; simp⟩), ?_⟩
    intro i data o hd hx ho
    rw [hg] at hd ho
    have hlt := (List.getElem?_eq_some_iff.1 ho).1
    rw [List.length_append, List.length_singleton] at hlt
    rw [List.getElem?_append_left (by omega)] at hd
    rw [last_of_exit hc hd hx, List.getElem?_concat_length] at ho
    exact (Option.some.inj ho).symm

/-- What the operation has come to comes behind what was given before, and nothing else has. -/
theorem given (h : Turn s gs c t m) :
    (m.outcome? t = none ∧ m.given = gs ∧ Clean gs) ∨
      ∃ o, m.outcome? t = some o ∧ m.given = gs ++ [o] := by
  cases h with
  | busy hb hg hq ht hc => exact .inl ⟨hb.outcome?_eq_none, hg, hc⟩
  | answered o hr ho => exact .inr ⟨o, ho, hr.given⟩
  | refused hi hg hq ho => exact .inr ⟨refusal, ho, hg⟩

theorem acts (h : Turn s gs c t m) (hb : Booked s gs e) (hp : s.steps[gs.length]? = some p) :
    Acts s e m := by
  have hlt := (List.getElem?_eq_some_iff.1 hp).1
  have hn := hb.report.length
  obtain ⟨-, hg, hc⟩ | ⟨o, -, hg⟩ := h.given
  · refine ⟨h.inOrder, by rw [hg, hn, List.take_length]; exact hb.report, by omega,
      .inl (by rw [hg, hn]), fun i data hd hx _ => ?_⟩
    rw [hg] at hd
    simp [hc data (List.mem_of_getElem? hd)] at hx
  · refine ⟨h.inOrder, by rw [hg, hn, List.take_left' rfl]; exact hb.report, by omega,
      .inr (by rw [hg, hn]; simp), fun i data hd hx hi => ?_⟩
    have hi' : i + 1 < m.given.length := by
      rw [hg, List.length_append, List.length_singleton]
      omega
    rw [List.getElem?_eq_getElem hi']
    exact congrArg some (h.inOrder.exits i data _ hd hx (List.getElem?_eq_getElem hi'))

/-- When the operation is over, the steps have failed, or they go on. -/
theorem absorb (h : Turn s gs c t m) (hb : Booked s gs e) (hp : s.steps[gs.length]? = some p)
    (hc : c = p.call s.agent.buffersize) (ho : m.outcome? t = some o) :
    (∃ f, e.absorb o = .error f ∧ Ends s m (.error f)) ∨
      ∃ b, e.absorb o = .ok b ∧ Booked s (gs ++ [o]) b ∧ Rested s (gs ++ [o]) m := by
  have failed (f : Error) (hf : o = .failed f) :
      ∃ f, e.absorb o = .error f ∧ Ends s m (.error f) := by
    subst hf
    obtain ⟨hn, -⟩ | ⟨o, ho', hg⟩ := h.given
    · simp [hn] at ho
    · obtain rfl := Option.some.inj (ho.symm.trans ho')
      exact ⟨f, Booked.absorb_failed e f, h.inOrder, gs, hg, hb.report.not_failed⟩
  cases h with
  | busy hy => simp [hy.outcome?_eq_none] at ho
  | answered o' hr ho' hg =>
    obtain rfl := Option.some.inj (ho.symm.trans ho')
    by_cases hf : ∃ f, o = .failed f
    · obtain ⟨f, hf⟩ := hf
      exact .inl (failed f hf)
    · obtain ⟨b, hb, hk⟩ := hb.absorb hp (hc ▸ hg) fun f h => hf ⟨f, h⟩
      exact .inr ⟨b, hb, hk, hr⟩
  | refused hi hg hq ho' =>
    obtain rfl := Option.some.inj (ho.symm.trans ho')
    exact .inl (failed _ rfl)

end Turn

theorem Rested.goes {b : Enactment} (h : Rested s (gs ++ [o]) m) (he : Booked s gs e)
    (hb : Booked s (gs ++ [o]) b) : Goes s e m b :=
  ⟨h.given ▸ hb.report, by rw [h.given, he.report.length, List.length_append]; rfl⟩

/-- Behind the last step there is a line for each. -/
theorem Rested.ends (h : Rested s gs m) (hb : Booked s gs e) (hn : s.steps[gs.length]? = none) :
    Ends s m (.ok e.report) := by
  refine ⟨h.inOrder, h.given ▸ hb.report, ?_⟩
  have := List.getElem?_eq_none_iff.1 hn
  rw [hb.report.length]
  exact Nat.le_antisymm hb.le this

end Realizer
end Switchboard
