import Switchboard.Proofs.Json.Path
import Switchboard.Proofs.Scenario.Fault

/-! The rules of all fields of a document, and the places where a document can be wrong. Nothing is
wrong anywhere in a document that spells a scenario. -/
namespace Switchboard
open Json (Path Hop)

def kind? (fs : List (Text × Json)) : Option Text :=
  match Json.field? "type".toList fs with
  | some (.str t) => some t
  | _ => none

theorem kind?_of_gives {fs : List (Text × Json)} {t : Text} (h : Gives fs "type" (.str t)) :
    kind? fs = some t := by
  rw [kind?, h]

def Agent.commonRules : List FieldRule :=
  [⟨"type", .text, true⟩, ⟨"protocol", .text, true⟩, ⟨"port", .nat maxPort, true⟩,
    ⟨"buffersize", .positive maxWord, false⟩]

def Agent.fieldRules (fs : List (Text × Json)) : List FieldRule :=
  commonRules ++
    if kind? fs = some "client".toList then
      [⟨"ip", .token, true⟩, ⟨"timeout", .positive maxWord, true⟩]
    else []

def Step.commonRules : List FieldRule :=
  [⟨"type", .text, true⟩, ⟨"action", .text, true⟩, ⟨"headers", .list, false⟩,
    ⟨"content", .text, false⟩]

def Step.fieldRules (fs : List (Text × Json)) : List FieldRule :=
  commonRules ++
    if kind? fs = some "request".toList then
      [⟨"version", .token, true⟩, ⟨"method", .token, true⟩, ⟨"uri", .token, true⟩]
    else if kind? fs = some "response".toList then
      [⟨"version", .version, true⟩, ⟨"code", .nat 65535, true⟩, ⟨"reason", .token, true⟩]
    else [⟨"version", .token, true⟩]

def Header.fieldRules : List FieldRule := [⟨"name", .name, true⟩, ⟨"value", .line, true⟩]

namespace Scenario

def fieldRules : List FieldRule := [⟨"agent", .object, true⟩, ⟨"messages", .list, true⟩]

def agentPath : Path := [.field "agent".toList]

def messagePath (i : Nat) : Path := [.field "messages".toList, .item i]

def headerPath (i k : Nat) : Path := messagePath i ++ [.field "headers".toList, .item k]

inductive Asks : Path → List (Text × Json) → FieldRule → Prop where
  | root {fs : List (Text × Json)} {f : FieldRule} : f ∈ fieldRules → Asks [] fs f
  | agent {fs : List (Text × Json)} {f : FieldRule} : f ∈ Agent.fieldRules fs → Asks agentPath fs f
  | message {i : Nat} {fs : List (Text × Json)} {f : FieldRule} : f ∈ Step.fieldRules fs →
      Asks (messagePath i) fs f
  | header {i k : Nat} {fs : List (Text × Json)} {f : FieldRule} : f ∈ Header.fieldRules →
      Asks (headerPath i k) fs f

inductive IsItem : Path → Prop where
  | message (i : Nat) : IsItem (messagePath i)
  | header (i k : Nat) : IsItem (headerPath i k)

/-- There is something wrong at the end of the path, to which the document leads: the document is no
object, or an object of it breaks the rule of a field, or an item is there and is no object. -/
inductive Faulty (doc : Json) : Path → Prop where
  | root : ¬Rule.object.Admits doc → Faulty doc []
  | field {p : Path} {fs : List (Text × Json)} {f : FieldRule} : doc.at? p = some (.obj fs) →
      Asks p fs f → f.IsBroken fs → Faulty doc (p ++ [.field f.key.toList])
  | item {p : Path} {j : Json} : IsItem p → doc.at? p = some j → ¬Rule.object.Admits j → Faulty doc p

inductive Unknown (t : Text) : Path → Text → Prop where
  | agent : t ≠ "client".toList → t ≠ "server".toList →
      Unknown t (agentPath ++ [.field "type".toList]) "unknown agent type: ".toList
  | transport : Text.lower t ≠ "udp".toList → Text.lower t ≠ "tcp".toList →
      Unknown t (agentPath ++ [.field "protocol".toList]) "unknown protocol: ".toList
  | message (i : Nat) : t ≠ "request".toList → t ≠ "response".toList →
      Unknown t (messagePath i ++ [.field "type".toList]) "unknown message type: ".toList
  | action (i : Nat) : t ≠ "send".toList → t ≠ "recv".toList →
      Unknown t (messagePath i ++ [.field "action".toList]) "unknown action: ".toList

end Scenario

variable {fs : List (Text × Json)} {key : String} {j : Json} {t : Text}

theorem Gives.isMet_text {required : Bool} (h : Gives fs key (.str t)) :
    FieldRule.IsMet ⟨key, .text, required⟩ fs :=
  .inr ⟨_, h, t, rfl⟩

theorem Gives.text_inj {u : Text} (h : Gives fs key (.str t)) (hu : Gives fs key (.str u)) : t = u := by
  simpa using h.symm.trans hu

theorem GivesToken.isMet {required : Bool} (h : GivesToken fs key t) :
    FieldRule.IsMet ⟨key, .token, required⟩ fs :=
  .inr ⟨_, h.1, t, rfl, h.2⟩

theorem GivesNat.isMet {required : Bool} {bound n : Nat} (h : GivesNat fs key bound n) :
    FieldRule.IsMet ⟨key, .nat bound, required⟩ fs :=
  .inr ⟨_, h.1, n, rfl, h.2⟩

theorem GivesNat.isMet_positive {required : Bool} {bound n : Nat} (h : GivesNat fs key bound n)
    (hn : 0 < n) : FieldRule.IsMet ⟨key, .positive bound, required⟩ fs :=
  .inr ⟨_, h.1, n, rfl, hn, h.2⟩

theorem Header.IsSpelled.isMet {h : Header} (hs : h.IsSpelled (.obj fs)) :
    ∀ f ∈ fieldRules, f.IsMet fs := by
  obtain ⟨hname, hc, t, hv, hcr, hlf, -⟩ := hs
  simp only [fieldRules, List.forall_mem_cons]
  exact ⟨.inr ⟨_, hname.1, _, rfl, hname.2, hc⟩, .inr ⟨_, hv, t, rfl, hcr, hlf⟩, by simp⟩

theorem Step.IsSpelled.isMet {p : Step} (h : p.IsSpelled (.obj fs)) :
    ∀ f ∈ fieldRules fs, f.IsMet fs := by
  obtain ⟨action, start, headers, content⟩ := p
  obtain ⟨hs, ha, hh, hc⟩ := h
  have hheaders : FieldRule.IsMet ⟨"headers", .list, false⟩ fs := by
    obtain ⟨hl, -⟩ | ⟨js, hg, -⟩ := hh
    · exact .inl ⟨rfl, hl⟩
    · exact .inr ⟨_, hg, js, rfl⟩
  have hcontent : FieldRule.IsMet ⟨"content", .text, false⟩ fs := by
    obtain ⟨hl, -⟩ | hg := hc
    · exact .inl ⟨rfl, hl⟩
    · exact hg.isMet_text
  cases hs with
  | request hk hm hu hv =>
    simp only [fieldRules, commonRules, kind?_of_gives hk, List.forall_mem_append, List.forall_mem_cons,
      if_true]
    exact ⟨⟨hk.isMet_text, ha.isMet_text, hheaders, hcontent, by simp⟩,
      hv.isMet, hm.isMet, hu.isMet, by simp⟩
  | response hk hv hs hcode hr =>
    have hne : some "response".toList ≠ some "request".toList := by decide
    simp only [fieldRules, commonRules, kind?_of_gives hk, List.forall_mem_append, List.forall_mem_cons,
      if_neg hne, if_true]
    exact ⟨⟨hk.isMet_text, ha.isMet_text, hheaders, hcontent, by simp⟩,
      .inr ⟨_, hv.1, _, rfl, hv.2, hs⟩, hcode.isMet, hr.isMet, by simp⟩

theorem Agent.IsSpelled.isMet {a : Agent} (h : a.IsSpelled (.obj fs)) :
    ∀ f ∈ fieldRules fs, f.IsMet fs := by
  obtain ⟨transport, port, size, role⟩ := a
  obtain ⟨hrole, ⟨t, ht, -⟩, hport, hb⟩ := h
  have hsize : FieldRule.IsMet ⟨"buffersize", .positive maxWord, false⟩ fs := by
    obtain ⟨hl, -⟩ | ⟨hg, hpos⟩ := hb
    · exact .inl ⟨rfl, hl⟩
    · exact hg.isMet_positive hpos
  cases hrole with
  | client hk hip hn hpos =>
    simp only [fieldRules, commonRules, kind?_of_gives hk, List.forall_mem_append, List.forall_mem_cons,
      if_true]
    exact ⟨⟨hk.isMet_text, ht.isMet_text, hport.isMet, hsize, by simp⟩,
      hip.isMet, hn.isMet_positive hpos, by simp⟩
  | server hk =>
    have hne : some "server".toList ≠ some "client".toList := by decide
    simp only [fieldRules, commonRules, kind?_of_gives hk, List.forall_mem_append, List.forall_mem_cons,
      if_neg hne]
    exact ⟨⟨hk.isMet_text, ht.isMet_text, hport.isMet, hsize, by simp⟩, by simp⟩

namespace Scenario
variable {s : Scenario} {doc : Json} {p : Path} {i k : Nat}

theorem getElem?_of_at? {js : List Json} (hg : Gives fs key (.arr js))
    (hat : (Json.obj fs).at? [.field key.toList, .item i] = some j) : js[i]? = some j := by
  rw [Json.at?_field, show Json.field? key.toList fs = some (.arr js) from hg] at hat
  simpa [Json.at?] using hat

theorem gives_of_at? (hat : doc.at? (p ++ [.field key.toList]) = some j) :
    ∃ fs, doc.at? p = some (.obj fs) ∧ Gives fs key j := by
  rw [Json.at?_append] at hat
  obtain ⟨m, hm, hat⟩ := Option.bind_eq_some_iff.1 hat
  cases m with
  | obj fs =>
    rw [Json.at?_field] at hat
    obtain ⟨_, hg, hj⟩ := Option.bind_eq_some_iff.1 hat
    obtain rfl := Option.some.inj hj
    exact ⟨fs, hm, hg⟩
  | _ => cases hat

theorem exists_of_getElem? {α : Type} {R : α → Json → Prop} {as : List α} {js : List Json}
    (h : List.Forall₂ R as js) (hj : js[i]? = some j) : ∃ a, R a j := by
  obtain ⟨hi, rfl⟩ := List.getElem?_eq_some_iff.1 hj
  exact ⟨_, h.get (h.length_eq ▸ hi) hi⟩

namespace IsSpelled

theorem agent_of_at? (h : s.IsSpelled doc) (hat : doc.at? agentPath = some j) :
    s.agent.IsSpelled j := by
  cases doc with
  | obj fs =>
    obtain ⟨⟨a, ha, hs⟩, -⟩ := h
    rw [agentPath, Json.at?_field, show Json.field? "agent".toList fs = some a from ha] at hat
    obtain rfl := Option.some.inj hat
    exact hs
  | _ => exact h.elim

theorem step_of_at? (h : s.IsSpelled doc) (hat : doc.at? (messagePath i) = some j) :
    ∃ p : Step, p.IsSpelled j := by
  cases doc with
  | obj fs =>
    obtain ⟨-, js, hjs, hs⟩ := h
    exact exists_of_getElem? hs (getElem?_of_at? hjs hat)
  | _ => exact h.elim

theorem header_of_at? (h : s.IsSpelled doc) (hat : doc.at? (headerPath i k) = some j) :
    ∃ hd : Header, hd.IsSpelled j := by
  rw [headerPath, Json.at?_append] at hat
  obtain ⟨m, hm, hat⟩ := Option.bind_eq_some_iff.1 hat
  obtain ⟨p, hp⟩ := h.step_of_at? hm
  cases m with
  | obj fs =>
    obtain ⟨-, -, ⟨hn | hn, -⟩ | ⟨js, hjs, hs⟩, -⟩ := hp
    · rw [Json.at?_field, hn] at hat
      cases hat
    · rw [Json.at?_field, hn] at hat
      cases hat
    · exact exists_of_getElem? hs (getElem?_of_at? hjs hat)
  | _ => exact hp.elim

theorem isMet (h : s.IsSpelled doc) {f : FieldRule} (hat : doc.at? p = some (.obj fs))
    (ha : Asks p fs f) : f.IsMet fs := by
  cases ha with
  | root hf =>
    obtain rfl := Option.some.inj hat
    obtain ⟨⟨a, ha, hs⟩, js, hjs, -⟩ := h
    have hobj : Rule.object.Admits a := by
      cases a with
      | obj fs => exact ⟨fs, rfl⟩
      | _ => exact hs.elim
    revert f
    simp only [fieldRules, List.forall_mem_cons]
    exact ⟨.inr ⟨a, ha, hobj⟩, .inr ⟨_, hjs, js, rfl⟩, by simp⟩
  | agent hf => exact (h.agent_of_at? hat).isMet f hf
  | message hf =>
    obtain ⟨p, hp⟩ := h.step_of_at? hat
    exact hp.isMet f hf
  | header hf =>
    obtain ⟨hd, hhd⟩ := h.header_of_at? hat
    exact hhd.isMet f hf

theorem not_faulty (h : s.IsSpelled doc) : ¬Faulty doc p := by
  intro hf
  cases hf with
  | root hobj =>
    cases doc with
    | obj fs => exact hobj ⟨fs, rfl⟩
    | _ => exact h
  | field hat ha hb => exact FieldRule.isBroken_iff.1 hb (h.isMet hat ha)
  | @item _ j hi hat hobj =>
    cases j with
    | obj fs => exact hobj ⟨fs, rfl⟩
    | _ =>
      cases hi with
      | message i =>
        obtain ⟨_, hp⟩ := h.step_of_at? hat
        exact hp
      | header i k =>
        obtain ⟨_, hp⟩ := h.header_of_at? hat
        exact hp

theorem not_unknown {t what : Text} (h : s.IsSpelled doc) (hat : doc.at? p = some (.str t)) :
    ¬Unknown t p what := by
  intro hu
  cases hu with
  | agent hc hs =>
    obtain ⟨fs, hfs, hg⟩ := gives_of_at? hat
    have hrole := (h.agent_of_at? hfs).1
    generalize s.agent.role = role at hrole
    cases hrole with
    | client hk => exact hc (hg.text_inj hk)
    | server hk => exact hs (hg.text_inj hk)
  | transport hu ht =>
    obtain ⟨fs, hfs, hg⟩ := gives_of_at? hat
    obtain ⟨-, ⟨u, hp, hname⟩, -⟩ := h.agent_of_at? hfs
    rw [← hg.text_inj hp] at hname
    generalize s.agent.transport = x at hname
    cases x with
    | udp => exact hu hname
    | tcp => exact ht hname
  | message i hq hr =>
    obtain ⟨fs, hfs, hg⟩ := gives_of_at? hat
    obtain ⟨p, hp⟩ := h.step_of_at? hfs
    have hstart := hp.1
    generalize p.template.start = start at hstart
    cases hstart with
    | request hk => exact hq (hg.text_inj hk)
    | response hk => exact hr (hg.text_inj hk)
  | action i hs hr =>
    obtain ⟨fs, hfs, hg⟩ := gives_of_at? hat
    obtain ⟨⟨action, template⟩, hp⟩ := h.step_of_at? hfs
    have hname := hg.text_inj hp.2.1
    cases action with
    | send => exact hs hname
    | recv => exact hr hname

end IsSpelled
end Scenario
end Switchboard
