import Switchboard.Proofs.Realizer.ClientCourse
import Switchboard.Proofs.Realizer.ServerCourse

/-! The doing of a scenario, in either role and whatever links, peers and the clock do. -/
namespace Switchboard.Realizer
open Session (Machine)

variable {s : Scenario}

/-- The run of a client asks its session for the steps, and ends as they do. -/
structure ClientRun.Conducts (s : Scenario) (r : ClientRun) : Prop where
  begins : r.stage = .connecting → ∀ q, r.advance = some q →
    (∃ f, r.client.result = some (.failed f) ∧ q.stage = .ended (.error f)) ∨
    ∃ m, r.client.session? = some m ∧ m.given = [] ∧ m.asked = [] ∧
      ((∃ e, q.stage = .acting e) ∨ ∃ x, q.stage = .leaving x ∧ Ends s m x)
  acts : ∀ e, r.stage = .acting e → ∃ m, r.client.session? = some m ∧ Acts s e m ∧
    /- When the step under way is over, the run goes on, and in one of two ways. -/
    (m.given.length = e.report.outcomes.length + 1 →
      (r.step .advance).isSome ∨ (r.step (.client .proceed)).isSome) ∧
    ∀ q, r.advance = some q → (∃ b, q.stage = .acting b ∧ Goes s e m b) ∨
      ∃ x, q.stage = .leaving x ∧ Ends s m x
  /-- What the steps came to is the result, unless the client cannot disconnect. -/
  ends : ∀ x, r.stage = .leaving x → ∀ q, r.advance = some q → q.stage = .ended x ∨
    ∃ f, r.client.result = some (.failed f) ∧ q.stage = .ended (.error f)

structure ServerRun.Conducts (s : Scenario) (r : ServerRun) : Prop where
  begins : ∀ c, r.stage = .accepting c → ∀ q, r.advance = some q →
    (∃ f d, r.server.answer? c = some (.failed f) ∧ q.stage = .stopping d (.error f)) ∨
    ∃ m, r.server.machine? 0 = some m ∧ m.given = [] ∧ m.asked = [] ∧
      ((∃ t e k, q.stage = .acting 0 t e k) ∨ ∃ d x, q.stage = .stopping d x ∧ Ends s m x)
  acts : ∀ i t e k, r.stage = .acting i t e k → ∃ m, r.server.machine? i = some m ∧ Acts s e m ∧
    (m.given.length = e.report.outcomes.length + 1 → (r.step .advance).isSome) ∧
    ∀ q, r.advance = some q → (∃ u b, q.stage = .acting i u b k ∧ Goes s e m b) ∨
      (∃ d x, q.stage = .stopping d x ∧ Ends s m x) ∨
      ∃ d f, q.stage = .stopping d (.error f) ∧ r.server.answer? k = some (.failed f) ∧
        m.given.length = e.report.outcomes.length
  ends : ∀ c x, r.stage = .stopping c x → ∀ q, r.advance = some q → q.stage = .ended x ∨
    ∃ f, r.server.answer? c = some (.failed f) ∧ q.stage = .ended (.error f)

/-- Whoever does a scenario does its steps in order, one operation after the other, writes down what
they give, and ends with the report or with the first error. -/
theorem steps_in_order (s : Scenario) :
    (∀ ip timeout r₀ vs r, ClientRun.new s ip timeout = .ok r₀ → r₀.steps vs = some r →
      r.Conducts s) ∧
    ∀ host bound r₀ vs r, ServerRun.new s host bound = .ok r₀ → r₀.steps vs = some r →
      r.Conducts s := by
  constructor
  · intro ip timeout r₀ vs r hn hs
    obtain ⟨h₀, hsc₀⟩ := ClientRun.stands_new hn
    obtain ⟨h, hsc⟩ := h₀.steps hsc₀ vs hs
    refine ⟨fun hst q hq => (h.advance_connecting hsc hst hq).2, fun e hst => ?_,
      fun x hst q hq => ClientRun.advance_leaving hst hq⟩
    obtain ⟨m, hm, ha, hn⟩ := h.acts hst
    refine ⟨m, hm, ha, hn, fun q hq => ?_⟩
    obtain ⟨-, n, hn, hgo⟩ := h.advance_acting hst hq
    obtain rfl := Option.some.inj (hm.symm.trans hn)
    exact hgo
  · intro host bound r₀ vs r hn hs
    obtain ⟨h₀, hsc₀⟩ := ServerRun.stands_new hn
    obtain ⟨h, hsc⟩ := h₀.steps hsc₀ vs hs
    refine ⟨fun c hst q hq => (h.advance_accepting hsc hst hq).2, fun i t e k hst => ?_,
      fun c x hst q hq => ServerRun.advance_stopping hst hq⟩
    obtain ⟨m, hm, ha, hn⟩ := h.acts hst
    refine ⟨m, hm, ha, hn, fun q hq => ?_⟩
    obtain ⟨-, n, hn, hgo⟩ := h.advance_acting hst hq
    obtain rfl := Option.some.inj (hm.symm.trans hn)
    exact hgo

def farewell : Scenario where
  agent := ⟨.tcp, 5060, 64, .server⟩
  steps := [⟨.recv, ⟨.request "BYE".toList "sip:b".toList "SIP/2.0".toList, [], []⟩⟩,
    ⟨.send, ⟨.response "SIP/2.0".toList 200 "OK".toList, [], []⟩⟩]

def neighbour : Address := ⟨.v4 [127, 0, 0, 1], 5061⟩

def exitPayload : Bytes := Utf8.encode Session.exitToken

def farewellCall : List ClientRun.Move :=
  [.client (.opened (.ok neighbour)), .advance, .client (.session 0 (.reply 0 (.received exitPayload))),
    .client .proceed, .advance]

def farewellVisit : List ServerRun.Move :=
  [.server (.connected 0 neighbour), .advance,
    .server (.session 0 (.reply 0 (.received exitPayload))), .advance]

theorem steps_in_order_farewell :
    (∃ r₀ r, ClientRun.new farewell "127.0.0.1".toList 5 = .ok r₀ ∧
      r₀.steps farewellCall = some r ∧
      r.client.session?.map (·.given) = some [.received exitPayload, refusal] ∧
      r.Conducts farewell) ∧
    ∃ r₀ r, ServerRun.new farewell bindHost (.ok neighbour) = .ok r₀ ∧
      r₀.steps farewellVisit = some r ∧
      (r.server.machine? 0).map (·.given) = some [.received exitPayload, refusal] ∧
      r.Conducts farewell := by
  constructor
  · exact ⟨_, _, rfl, rfl, by decide, (steps_in_order farewell).1 _ _ _ farewellCall _ rfl rfl⟩
  · have hr : ∃ r, ((ServerRun.new farewell bindHost (.ok neighbour)).toOption.bind
        (·.steps farewellVisit)) = some r ∧
        (r.server.machine? 0).map (·.given) = some [.received exitPayload, refusal] :=
      Option.map_eq_some_iff.1 (by decide +kernel)
    obtain ⟨r, hr, hg⟩ := hr
    obtain ⟨r₀, hn, hs⟩ := Option.bind_eq_some_iff.1 hr
    cases hn' : ServerRun.new farewell bindHost (.ok neighbour) with
    | error e => simp [hn', Except.toOption] at hn
    | ok r₁ =>
      obtain rfl : r₁ = r₀ := by simpa [hn', Except.toOption] using hn
      exact ⟨r₁, r, rfl, hs, hg, (steps_in_order farewell).2 _ _ r₁ farewellVisit r hn' hs⟩

end Switchboard.Realizer
