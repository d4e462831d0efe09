import Switchboard.Proofs.Message.RoundTrip
import Switchboard.Proofs.Scenario.Field

/-! What the check of a scenario document guarantees, and what the wire makes of its messages. -/
namespace Switchboard

namespace Step
open Message (IsToken HeaderWellFormed)

theorem headerWellFormed_headerOfJson (path : Text) (j : Json) (h : Header)
    (hj : headerOfJson path j = .ok h) : HeaderWellFormed h := by
  obtain ⟨r, -, hj⟩ := bind_eq_ok.1 hj
  obtain ⟨name, hname, hj⟩ := bind_eq_ok.1 hj
  have ht := r.isToken_of_token "name" name hname
  split at hj
  next => exact absurd hj (r.fault_ne_ok _ _ _)
  next hc =>
    obtain ⟨value, hvalue, hj⟩ := bind_eq_ok.1 hj
    have hl := r.feed_not_mem_of_line "value" value hvalue
    obtain rfl := pure_eq_ok.1 hj
    refine ⟨Text.trim_of_isToken name ht, Text.trim_trim value, ?_, ?_, hc⟩
    · exact fun h => absurd (ht.2 _ h) (by decide)
    · exact fun h => hl (Text.mem_of_mem_trim _ _ h)

/-- Whatever reading an item guarantees holds of all items that were read. -/
theorem each_forall {α : Type} {read : Nat → Json → Except Error α} {P : α → Prop}
    (hread : ∀ i j a, read i j = .ok a → P a) (js : List Json) (i : Nat) (as : List α)
    (h : each read i js = .ok as) : ∀ a ∈ as, P a := by
  induction js generalizing i as with
  | nil =>
    obtain rfl : [] = as := by simpa [each] using h
    simp
  | cons j js ih =>
    obtain ⟨a, ha, h⟩ := bind_eq_ok.1 h
    obtain ⟨rest, hrest, h⟩ := bind_eq_ok.1 h
    obtain rfl := pure_eq_ok.1 h
    have ih := ih (i + 1) rest hrest
    simpa using ⟨hread i j a ha, ih⟩

def StartChecked (s : StartLine) : Prop :=
  s.HasTokens ∧ (s.kind = .response → '/' ∈ s.version)

theorem startChecked_startOf (r : Record) (kind version : Text) (s : StartLine)
    (hv : IsToken version) (h : startOf r kind version = .ok s) : StartChecked s := by
  unfold startOf at h
  split at h
  next =>
    obtain ⟨m, hm, h⟩ := bind_eq_ok.1 h
    obtain ⟨u, hu, h⟩ := bind_eq_ok.1 h
    obtain rfl := pure_eq_ok.1 h
    exact ⟨⟨r.isToken_of_token _ m hm, r.isToken_of_token _ u hu, hv⟩, by simp [StartLine.kind]⟩
  next =>
    split at h
    next =>
      split at h
      next hs =>
        obtain ⟨c, -, h⟩ := bind_eq_ok.1 h
        obtain ⟨w, hw, h⟩ := bind_eq_ok.1 h
        obtain rfl := pure_eq_ok.1 h
        exact ⟨⟨hv, Text.isToken_decimal _, r.isToken_of_token _ w hw⟩, fun _ => hs⟩
      next => exact absurd h (r.fault_ne_ok _ _ _)
    next => simp at h

def Checked (p : Step) : Prop :=
  StartChecked p.template.start ∧ ∀ h ∈ p.template.headers, HeaderWellFormed h

theorem checked_ofJson (i : Nat) (j : Json) (p : Step) (h : ofJson i j = .ok p) : p.Checked := by
  obtain ⟨r, -, h⟩ := bind_eq_ok.1 h
  obtain ⟨kind, -, h⟩ := bind_eq_ok.1 h
  obtain ⟨name, -, h⟩ := bind_eq_ok.1 h
  obtain ⟨action, -, h⟩ := bind_eq_ok.1 h
  obtain ⟨version, hv, h⟩ := bind_eq_ok.1 h
  obtain ⟨start, hs, h⟩ := bind_eq_ok.1 h
  obtain ⟨items, -, h⟩ := bind_eq_ok.1 h
  obtain ⟨headers, hh, h⟩ := bind_eq_ok.1 h
  obtain ⟨content, -, h⟩ := bind_eq_ok.1 h
  obtain rfl := pure_eq_ok.1 h
  have ht := r.isToken_of_token "version" version hv
  exact ⟨startChecked_startOf r kind version start ht hs,
    each_forall (fun k => headerWellFormed_headerOfJson _) _ 0 headers hh⟩

end Step

namespace Scenario

theorem checked_of_ofJson (j : Json) (s : Scenario) (h : ofJson j = .ok s) :
    ∀ p ∈ s.steps, p.Checked := by
  obtain ⟨r, -, h⟩ := bind_eq_ok.1 h
  obtain ⟨a, -, h⟩ := bind_eq_ok.1 h
  obtain ⟨agent, -, h⟩ := bind_eq_ok.1 h
  obtain ⟨items, -, h⟩ := bind_eq_ok.1 h
  obtain ⟨steps, hs, h⟩ := bind_eq_ok.1 h
  obtain rfl := pure_eq_ok.1 h
  exact Step.each_forall Step.checked_ofJson items 0 steps hs

/-- The wire keeps the headers of every scripted message, and it keeps the kind and the start line
but for a request that looks like a response, which is read as one. -/
theorem step_on_wire (j : Json) (s : Scenario) (h : ofJson j = .ok s) (p : Step) (hp : p ∈ s.steps) :
    ∃ m, Message.decode p.template.build.encode = some m ∧ m.headers = p.template.headers ∧
      ((m.kind = p.template.kind ∧ m.start = p.template.start) ↔
        ¬p.template.start.LooksLikeResponse) ∧
      (p.template.start.LooksLikeResponse → m.kind = .response) := by
  obtain ⟨⟨ht, hs⟩, hh⟩ := checked_of_ofJson j s h p hp
  refine ⟨_, Message.decode_encode_of_hasTokens p.template.build ht hh, rfl, ?_, ?_⟩
  · rw [← p.template.start.reread_eq_self_iff hs]
    constructor
    · exact fun hm => hm.2
    · exact fun hm => ⟨congrArg StartLine.kind hm, hm⟩
  · exact p.template.start.kind_reread

def slashedRequest : Json :=
  .obj [("agent".toList, .obj [("type".toList, .str "server".toList),
      ("protocol".toList, .str "tcp".toList), ("port".toList, .nat 5060)]),
    ("messages".toList, .arr [.obj [("type".toList, .str "request".toList),
      ("action".toList, .str "send".toList), ("version".toList, .str "SIP/2.0".toList),
      ("method".toList, .str "A/".toList), ("uri".toList, .str "200".toList)]])]

def slashedScenario : Scenario where
  agent := ⟨.tcp, 5060, 1024, .server⟩
  steps := [⟨.send, ⟨.request "A/".toList "200".toList "SIP/2.0".toList, [], []⟩⟩]

theorem ofJson_slashedRequest : ofJson slashedRequest = .ok slashedScenario := by rfl

theorem step_on_wire_slashedRequest :
    ofJson slashedRequest = .ok slashedScenario ∧ ∃ p ∈ slashedScenario.steps,
      ∃ m, Message.decode p.template.build.encode = some m ∧ m.headers = p.template.headers ∧
        ((m.kind = p.template.kind ∧ m.start = p.template.start) ↔
          ¬p.template.start.LooksLikeResponse) ∧
        (p.template.start.LooksLikeResponse → m.kind = .response) := by
  refine ⟨ofJson_slashedRequest, _, List.mem_singleton_self _, ?_⟩
  exact step_on_wire slashedRequest slashedScenario ofJson_slashedRequest _
    (List.mem_singleton_self _)

/-- The check of a document lets such a request pass, and the wire makes a response of it. -/
theorem slashed_request_read_as_response :
    ∃ s, ofJson slashedRequest = .ok s ∧ ∃ p ∈ s.steps, p.template.kind = .request ∧
      Message.decode p.template.build.encode =
        some ⟨.response "A/".toList 200 "SIP/2.0".toList, [], []⟩ := by
  refine ⟨_, ofJson_slashedRequest, _, List.mem_singleton_self _, rfl, ?_⟩
  decide

end Scenario
end Switchboard
