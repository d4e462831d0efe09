import Mathlib.Data.List.Forall2
import Switchboard.Proofs.Scenario.Field

/-! The schema of scenario documents. For each part of a scenario it says which values spell it. The
check of a document accepts just these values, and gives what they spell. Fields that are not named
here do not count, whatever they hold. -/
namespace Switchboard

/-- The value counts without the blanks around it. -/
def Header.IsSpelled (h : Header) : Json → Prop
  | .obj fs => GivesToken fs "name" h.name ∧ ':' ∉ h.name ∧
    ∃ t, Gives fs "value" (.str t) ∧ '\r' ∉ t ∧ '\n' ∉ t ∧ h.value = Text.trim t
  | _ => False

inductive StartLine.IsSpelled (fs : List (Text × Json)) : StartLine → Prop where
  | request {method uri version : Text} : Gives fs "type" (.str "request".toList) →
      GivesToken fs "method" method → GivesToken fs "uri" uri → GivesToken fs "version" version →
      IsSpelled fs (.request method uri version)
  | response {version reason : Text} {code : UInt16} : Gives fs "type" (.str "response".toList) →
      GivesToken fs "version" version → '/' ∈ version → GivesNat fs "code" 65535 code.toNat →
      GivesToken fs "reason" reason → IsSpelled fs (.response version code reason)

def Step.IsSpelled (p : Step) : Json → Prop
  | .obj fs => p.template.start.IsSpelled fs ∧ Gives fs "action" (.str p.action.name) ∧
    (Lacks fs "headers" ∧ p.template.headers = [] ∨
      ∃ js, Gives fs "headers" (.arr js) ∧ List.Forall₂ Header.IsSpelled p.template.headers js) ∧
    (Lacks fs "content" ∧ p.template.content = [] ∨ Gives fs "content" (.str p.template.content))
  | _ => False

inductive Role.IsSpelled (fs : List (Text × Json)) : Role → Prop where
  | client {ip : Text} {timeout : Nat} : Gives fs "type" (.str "client".toList) →
      GivesToken fs "ip" ip → GivesNat fs "timeout" (Nat.pow 2 64 - 1) timeout → 0 < timeout →
      IsSpelled fs (.client ip timeout)
  | server : Gives fs "type" (.str "server".toList) → IsSpelled fs .server

def Agent.IsSpelled (a : Agent) : Json → Prop
  | .obj fs => a.role.IsSpelled fs ∧
    (∃ t, Gives fs "protocol" (.str t) ∧ Text.lower t = a.transport.name) ∧
    GivesNat fs "port" 65535 a.port ∧
    (Lacks fs "buffersize" ∧ a.buffersize = 1024 ∨
      GivesNat fs "buffersize" (Nat.pow 2 64 - 1) a.buffersize ∧ 0 < a.buffersize)
  | _ => False

def Scenario.IsSpelled (s : Scenario) : Json → Prop
  | .obj fs => (∃ j, Gives fs "agent" j ∧ s.agent.IsSpelled j) ∧
    ∃ js, Gives fs "messages" (.arr js) ∧ List.Forall₂ Step.IsSpelled s.steps js
  | _ => False

variable {r : Record} {fs : List (Text × Json)} {key : String} {j : Json} {t : Text}

theorem Transport.parse_eq_ok_iff {x : Transport} : parse t = .ok x ↔ Text.lower t = x.name := by
  unfold parse
  constructor
  · intro h
    split at h
    next hu =>
      obtain rfl := Except.ok.inj h
      exact hu
    next =>
      split at h
      next ht =>
        obtain rfl := Except.ok.inj h
        exact ht
      next => simp at h
  · intro h
    cases x with
    | udp => exact if_pos h
    | tcp => rw [if_neg (by rw [h]; decide), if_pos (show Text.lower t = "tcp".toList from h)]

theorem Action.parse_eq_ok_iff {a : Action} : parse t = .ok a ↔ t = a.name := by
  unfold parse
  constructor
  · intro h
    split at h
    next hs =>
      obtain rfl := Except.ok.inj h
      exact hs
    next =>
      split at h
      next hr =>
        obtain rfl := Except.ok.inj h
        exact hr
      next => simp at h
  · rintro rfl
    cases a <;> rfl

namespace Step

/-- Items are read one by one, and the number of an item is a matter of its errors alone. -/
theorem each_eq_ok_iff {α : Type} {read : Nat → Json → Except Error α} {R : α → Json → Prop}
    (hread : ∀ i j a, read i j = .ok a ↔ R a j) {i : Nat} {js : List Json} {as : List α} :
    each read i js = .ok as ↔ List.Forall₂ R as js := by
  induction js generalizing i as with
  | nil => simp [each, eq_comm]
  | cons j js ih =>
    constructor
    · intro h
      obtain ⟨a, ha, h⟩ := bind_eq_ok.1 h
      obtain ⟨rest, hrest, h⟩ := bind_eq_ok.1 h
      obtain rfl := pure_eq_ok.1 h
      exact .cons ((hread i j a).1 ha) (ih.1 hrest)
    · intro h
      cases h with
      | cons ha hrest =>
        exact bind_eq_ok.2 ⟨_, (hread i j _).2 ha, bind_eq_ok.2 ⟨_, ih.2 hrest, rfl⟩⟩

theorem headerOfJson_eq_ok_iff {path : Text} {h : Header} :
    headerOfJson path j = .ok h ↔ h.IsSpelled j := by
  constructor
  · intro hj
    obtain ⟨r, hr, hj⟩ := bind_eq_ok.1 hj
    obtain ⟨fs, rfl, rfl⟩ := Record.ofJson_eq_ok_iff.1 hr
    obtain ⟨name, hname, hj⟩ := bind_eq_ok.1 hj
    split at hj
    next => exact absurd hj (Record.fault_ne_ok _ _ _ _)
    next hc =>
      obtain ⟨value, hvalue, hj⟩ := bind_eq_ok.1 hj
      obtain rfl := pure_eq_ok.1 hj
      obtain ⟨hg, hcr, hlf⟩ := Record.line_eq_ok_iff.1 hvalue
      exact ⟨Record.token_eq_ok_iff.1 hname, hc, value, hg, hcr, hlf, rfl⟩
  · intro hj
    cases j with
    | obj fs =>
      obtain ⟨hname, hc, t, hg, hcr, hlf, hv⟩ := hj
      refine bind_eq_ok.2 ⟨⟨path, fs⟩, rfl, bind_eq_ok.2 ⟨_, Record.token_eq_ok_iff.2 hname, ?_⟩⟩
      rw [if_neg hc]
      refine bind_eq_ok.2 ⟨t, Record.line_eq_ok_iff.2 ⟨hg, hcr, hlf⟩, ?_⟩
      rw [← hv]
      rfl
    | _ => exact hj.elim

theorem headers_eq_ok_iff (path : Nat → Text) {i : Nat} {js : List Json} {hs : List Header} :
    each (fun k => headerOfJson (path k)) i js = .ok hs ↔ List.Forall₂ Header.IsSpelled hs js := by
  refine each_eq_ok_iff fun k j h => ?_
  exact headerOfJson_eq_ok_iff

/-- The kind and the version are read before the rest of a start line. -/
theorem startOf_eq_ok_iff {s : StartLine} :
    (∃ kind version, r.text "type" = .ok kind ∧ r.token "version" = .ok version ∧
      startOf r kind version = .ok s) ↔ s.IsSpelled r.fields := by
  constructor
  · rintro ⟨kind, version, hk, hv, h⟩
    have hk := Record.text_eq_ok_iff.1 hk
    have hv := Record.token_eq_ok_iff.1 hv
    unfold startOf at h
    split at h
    next hkind =>
      obtain ⟨method, hm, h⟩ := bind_eq_ok.1 h
      obtain ⟨uri, hu, h⟩ := bind_eq_ok.1 h
      obtain rfl := pure_eq_ok.1 h
      exact .request (hkind ▸ hk) (Record.token_eq_ok_iff.1 hm) (Record.token_eq_ok_iff.1 hu) hv
    next =>
      split at h
      next hkind =>
        split at h
        next hs =>
          obtain ⟨code, hc, h⟩ := bind_eq_ok.1 h
          obtain ⟨reason, hr, h⟩ := bind_eq_ok.1 h
          obtain rfl := pure_eq_ok.1 h
          obtain ⟨hg, hle⟩ := (Record.nat_eq_ok_iff (by decide)).1 hc
          have hto : code.toUInt16.toNat = code := UInt16.toNat_ofNat_of_lt' (Nat.lt_succ_of_le hle)
          exact .response (hkind ▸ hk) hv hs (by rw [hto]; exact ⟨hg, hle⟩)
            (Record.token_eq_ok_iff.1 hr)
        next => exact absurd h (r.fault_ne_ok _ _ _)
      next => simp at h
  · intro h
    cases h with
    | @request method uri version hk hm hu hv =>
      refine ⟨_, version, Record.text_eq_ok_iff.2 hk, Record.token_eq_ok_iff.2 hv, ?_⟩
      exact bind_eq_ok.2 ⟨method, Record.token_eq_ok_iff.2 hm,
        bind_eq_ok.2 ⟨uri, Record.token_eq_ok_iff.2 hu, rfl⟩⟩
    | @response version reason code hk hv hs hc hr =>
      refine ⟨_, version, Record.text_eq_ok_iff.2 hk, Record.token_eq_ok_iff.2 hv, ?_⟩
      unfold startOf
      rw [if_neg (by decide), if_pos rfl, if_pos hs]
      refine bind_eq_ok.2 ⟨code.toNat, (Record.nat_eq_ok_iff (by decide)).2 hc,
        bind_eq_ok.2 ⟨reason, Record.token_eq_ok_iff.2 hr, ?_⟩⟩
      exact congrArg (fun c => Except.ok (StartLine.response version c reason)) UInt16.ofNat_toNat

theorem ofJson_eq_ok_iff {i : Nat} {p : Step} : ofJson i j = .ok p ↔ p.IsSpelled j := by
  have hlist (r : Record) (o : Option (List Json)) : r.optional "headers" Record.list = .ok o ↔
      Lacks r.fields "headers" ∧ o = none ∨
        ∃ js, Gives r.fields "headers" (.arr js) ∧ o = some js :=
    Record.optional_eq_ok_iff (fun _ => Record.list_eq_ok_iff) fun _ h => h.not_lacks (by simp)
  have htext (r : Record) (o : Option Text) : r.optional "content" Record.text = .ok o ↔
      Lacks r.fields "content" ∧ o = none ∨
        ∃ t, Gives r.fields "content" (.str t) ∧ o = some t :=
    Record.optional_eq_ok_iff (fun _ => Record.text_eq_ok_iff) fun _ h => h.not_lacks (by simp)
  constructor
  · intro h
    obtain ⟨r, hr, h⟩ := bind_eq_ok.1 h
    obtain ⟨fs, rfl, rfl⟩ := Record.ofJson_eq_ok_iff.1 hr
    obtain ⟨kind, hk, h⟩ := bind_eq_ok.1 h
    obtain ⟨name, hn, h⟩ := bind_eq_ok.1 h
    obtain ⟨action, ha, h⟩ := bind_eq_ok.1 h
    obtain ⟨version, hv, h⟩ := bind_eq_ok.1 h
    obtain ⟨start, hs, h⟩ := bind_eq_ok.1 h
    obtain ⟨items, hi, h⟩ := bind_eq_ok.1 h
    obtain ⟨headers, hh, h⟩ := bind_eq_ok.1 h
    obtain ⟨content, hc, h⟩ := bind_eq_ok.1 h
    obtain rfl := pure_eq_ok.1 h
    have hh := (headers_eq_ok_iff _).1 hh
    obtain rfl := Action.parse_eq_ok_iff.1 ha
    refine ⟨startOf_eq_ok_iff.1 ⟨kind, version, hk, hv, hs⟩, Record.text_eq_ok_iff.1 hn, ?_, ?_⟩
    · obtain ⟨hl, rfl⟩ | ⟨js, hg, rfl⟩ := (hlist _ _).1 hi
      · exact .inl ⟨hl, List.forall₂_nil_right_iff.1 hh⟩
      · exact .inr ⟨js, hg, hh⟩
    · obtain ⟨hl, rfl⟩ | ⟨t, hg, rfl⟩ := (htext _ _).1 hc
      · exact .inl ⟨hl, rfl⟩
      · exact .inr hg
  · intro h
    cases j with
    | obj fs =>
      obtain ⟨hs, ha, hh, hc⟩ := h
      obtain ⟨kind, version, hk, hv, hs⟩ := (startOf_eq_ok_iff
        (r := ⟨indexed "messages" i, fs⟩)).2 hs
      have hitems : ∃ o, Record.optional ⟨indexed "messages" i, fs⟩ "headers" Record.list = .ok o ∧
          List.Forall₂ Header.IsSpelled p.template.headers (o.getD []) := by
        obtain ⟨hl, he⟩ | ⟨js, hg, hf⟩ := hh
        · exact ⟨none, (hlist _ _).2 (.inl ⟨hl, rfl⟩), by rw [he]; exact .nil⟩
        · exact ⟨some js, (hlist _ _).2 (.inr ⟨js, hg, rfl⟩), hf⟩
      have hbody : ∃ o, Record.optional ⟨indexed "messages" i, fs⟩ "content" Record.text = .ok o ∧
          o.getD [] = p.template.content := by
        obtain ⟨hl, he⟩ | hg := hc
        · exact ⟨none, (htext _ _).2 (.inl ⟨hl, rfl⟩), he.symm⟩
        · exact ⟨some _, (htext _ _).2 (.inr ⟨_, hg, rfl⟩), rfl⟩
      obtain ⟨items, hi, hf⟩ := hitems
      obtain ⟨content, hc, hb⟩ := hbody
      have hf := (headers_eq_ok_iff (i := 0) fun k =>
        (⟨indexed "messages" i, fs⟩ : Record).pathOf (indexed "headers" k)).2 hf
      have hn := Record.text_eq_ok_iff (r := ⟨indexed "messages" i, fs⟩).2 ha
      have hact : Action.parse p.action.name = .ok p.action := Action.parse_eq_ok_iff.2 rfl
      simp only [ofJson, Record.ofJson, ok_bind, hk, hn, hact, hv, hs, hi, hf, hc, hb]
      rfl
    | _ => exact h.elim

theorem steps_eq_ok_iff {i : Nat} {js : List Json} {ps : List Step} :
    each ofJson i js = .ok ps ↔ List.Forall₂ IsSpelled ps js := by
  refine each_eq_ok_iff fun k j p => ?_
  exact ofJson_eq_ok_iff

end Step

namespace Agent

theorem positive_eq_ok_iff (r : Record) (key : String) {m n : Nat} :
    positive r key m = .ok n ↔ m = n ∧ 0 < n := by
  unfold positive
  split
  next h =>
    subst h
    refine ⟨fun h => absurd h (r.fault_ne_ok _ _ _), fun ⟨h, hn⟩ => absurd hn (by simp [← h])⟩
  next h =>
    refine ⟨fun hm => ?_, fun ⟨hm, _⟩ => hm ▸ rfl⟩
    obtain rfl := Except.ok.inj hm
    exact ⟨rfl, Nat.pos_of_ne_zero h⟩

/-- The size of the buffer is 1024 when the document does not give it. -/
theorem buffersize_eq_ok_iff {n : Nat} :
    (∃ o, r.optional "buffersize" (fun r k => r.nat k maxWord) = .ok o ∧
      positive r "buffersize" (o.getD defaultBuffersize) = .ok n) ↔
      Lacks r.fields "buffersize" ∧ n = 1024 ∨
        GivesNat r.fields "buffersize" (Nat.pow 2 64 - 1) n ∧ 0 < n := by
  have hnat (m : Nat) : r.nat "buffersize" maxWord = .ok m ↔
      GivesNat r.fields "buffersize" (Nat.pow 2 64 - 1) m := Record.nat_eq_ok_iff (Nat.le_refl _)
  have hopt (o : Option Nat) : r.optional "buffersize" (fun r k => r.nat k maxWord) = .ok o ↔
      Lacks r.fields "buffersize" ∧ o = none ∨
        ∃ m, GivesNat r.fields "buffersize" (Nat.pow 2 64 - 1) m ∧ o = some m :=
    Record.optional_eq_ok_iff hnat fun _ h => h.1.not_lacks (by simp [Json.nat])
  simp only [hopt, positive_eq_ok_iff]
  constructor
  · rintro ⟨o, ⟨hl, rfl⟩ | ⟨m, hm, rfl⟩, hn, hpos⟩
    · exact .inl ⟨hl, hn.symm⟩
    · obtain rfl : m = n := hn
      exact .inr ⟨hm, hpos⟩
  · rintro (⟨hl, rfl⟩ | ⟨hn, hpos⟩)
    · exact ⟨none, .inl ⟨hl, rfl⟩, rfl, by decide⟩
    · exact ⟨some n, .inr ⟨n, hn, rfl⟩, rfl, hpos⟩

theorem ofJson_eq_ok_iff {a : Agent} : ofJson j = .ok a ↔ a.IsSpelled j := by
  have hport (r : Record) (n : Nat) : r.nat "port" maxPort = .ok n ↔
      GivesNat r.fields "port" 65535 n := Record.nat_eq_ok_iff (by decide)
  have htimeout (r : Record) (n : Nat) : r.nat "timeout" maxWord = .ok n ↔
      GivesNat r.fields "timeout" (Nat.pow 2 64 - 1) n := Record.nat_eq_ok_iff (Nat.le_refl _)
  constructor
  · intro h
    obtain ⟨r, hr, h⟩ := bind_eq_ok.1 h
    obtain ⟨fs, rfl, rfl⟩ := Record.ofJson_eq_ok_iff.1 hr
    obtain ⟨kind, hk, h⟩ := bind_eq_ok.1 h
    obtain ⟨t, ht, h⟩ := bind_eq_ok.1 h
    obtain ⟨transport, hx, h⟩ := bind_eq_ok.1 h
    obtain ⟨port, hp, h⟩ := bind_eq_ok.1 h
    obtain ⟨o, ho, h⟩ := bind_eq_ok.1 h
    obtain ⟨size, hs, h⟩ := bind_eq_ok.1 h
    have hk := Record.text_eq_ok_iff.1 hk
    have ht := Record.text_eq_ok_iff.1 ht
    have hx := Transport.parse_eq_ok_iff.1 hx
    have hp := (hport _ _).1 hp
    have hs := buffersize_eq_ok_iff.1 ⟨o, ho, hs⟩
    dsimp only at h
    split at h
    next hkind =>
      obtain ⟨ip, hip, h⟩ := bind_eq_ok.1 h
      obtain ⟨m, hm, h⟩ := bind_eq_ok.1 h
      obtain ⟨n, hn, h⟩ := bind_eq_ok.1 h
      obtain rfl := pure_eq_ok.1 h
      obtain ⟨rfl, hpos⟩ := (positive_eq_ok_iff _ _).1 hn
      exact ⟨.client (hkind ▸ hk) (Record.token_eq_ok_iff.1 hip) ((htimeout _ _).1 hm) hpos,
        ⟨t, ht, hx⟩, hp, hs⟩
    next =>
      split at h
      next hkind =>
        obtain rfl := pure_eq_ok.1 h
        exact ⟨.server (hkind ▸ hk), ⟨t, ht, hx⟩, hp, hs⟩
      next =>
        obtain ⟨_, h, -⟩ := bind_eq_ok.1 h
        simp at h
  · intro h
    cases j with
    | obj fs =>
      obtain ⟨hrole, ⟨t, ht, hx⟩, hp, hs⟩ := h
      have ht := Record.text_eq_ok_iff (r := ⟨"agent".toList, fs⟩).2 ht
      have hx := Transport.parse_eq_ok_iff.2 hx
      have hp := (hport ⟨"agent".toList, fs⟩ _).2 hp
      obtain ⟨o, ho, hs⟩ := buffersize_eq_ok_iff (r := ⟨"agent".toList, fs⟩).2 hs
      obtain ⟨transport, port, size, role⟩ := a
      cases hrole with
      | client hk hip hn hpos =>
        have hk := Record.text_eq_ok_iff (r := ⟨"agent".toList, fs⟩).2 hk
        have hip := Record.token_eq_ok_iff (r := ⟨"agent".toList, fs⟩).2 hip
        have hn := (htimeout ⟨"agent".toList, fs⟩ _).2 hn
        have hpos := (positive_eq_ok_iff ⟨"agent".toList, fs⟩ "timeout").2 ⟨rfl, hpos⟩
        simp only [ofJson, Record.ofJson, ok_bind, hk, ht, hx, hp, ho, hs, hip, hn, hpos]
        rfl
      | server hk =>
        have hk := Record.text_eq_ok_iff (r := ⟨"agent".toList, fs⟩).2 hk
        simp only [ofJson, Record.ofJson, ok_bind, hk, ht, hx, hp, ho, hs]
        rfl
    | _ => exact h.elim

end Agent

/-- The check of a document accepts a value just when it spells a scenario, and gives that scenario:
an agent and its messages, in order, with what was left out filled in, and the values of headers
trimmed. -/
theorem Scenario.ofJson_eq_ok_iff_isSpelled (j : Json) (s : Scenario) :
    ofJson j = .ok s ↔ s.IsSpelled j := by
  constructor
  · intro h
    obtain ⟨r, hr, h⟩ := bind_eq_ok.1 h
    obtain ⟨fs, rfl, rfl⟩ := Record.ofJson_eq_ok_iff.1 hr
    obtain ⟨a, ha, h⟩ := bind_eq_ok.1 h
    obtain ⟨agent, hagent, h⟩ := bind_eq_ok.1 h
    obtain ⟨js, hjs, h⟩ := bind_eq_ok.1 h
    obtain ⟨steps, hsteps, h⟩ := bind_eq_ok.1 h
    obtain rfl := pure_eq_ok.1 h
    exact ⟨⟨a, (Record.require_eq_ok_iff.1 ha).1, Agent.ofJson_eq_ok_iff.1 hagent⟩, js,
      Record.list_eq_ok_iff.1 hjs, Step.steps_eq_ok_iff.1 hsteps⟩
  · intro h
    cases j with
    | obj fs =>
      obtain ⟨⟨a, ha, hagent⟩, js, hjs, hsteps⟩ := h
      have hne : a ≠ .null := by
        rintro rfl
        exact hagent.elim
      have ha := Record.require_eq_ok_iff (r := ⟨[], fs⟩).2 ⟨ha, hne⟩
      have hagent := Agent.ofJson_eq_ok_iff.2 hagent
      have hjs := Record.list_eq_ok_iff (r := ⟨[], fs⟩).2 hjs
      have hsteps := Step.steps_eq_ok_iff (i := 0).2 hsteps
      simp only [ofJson, Record.ofJson, ok_bind, ha, hagent, hjs, hsteps]
      rfl
    | _ => exact h.elim

/-- A server has no use for a timeout, so that may be anything. -/
example : Scenario.ofJson (.obj [("messages".toList, .arr [.obj [
      ("type".toList, .str "response".toList), ("action".toList, .str "recv".toList),
      ("version".toList, .str "SIP/2.0".toList), ("code".toList, .nat 200),
      ("reason".toList, .str "OK".toList), ("headers".toList, .arr [.obj [
        ("name".toList, .str "Via".toList), ("value".toList, .str " here ".toList)]])]]),
    ("agent".toList, .obj [("type".toList, .str "server".toList), ("port".toList, .nat 5060),
      ("protocol".toList, .str "UdP".toList), ("buffersize".toList, .null),
      ("timeout".toList, .bool true)])]) =
    .ok ⟨⟨.udp, 5060, 1024, .server⟩, [⟨.recv, ⟨.response "SIP/2.0".toList 200 "OK".toList,
      [⟨"Via".toList, "here".toList⟩], []⟩⟩]⟩ := by
  rfl

end Switchboard
