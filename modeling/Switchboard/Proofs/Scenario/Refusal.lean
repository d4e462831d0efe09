import Switchboard.Proofs.Scenario.Rules

/-! Why a document is refused. The error points at a place where the document is not what the schema
asks for, which is enough to refuse it; all that is read before that place is in order, and nothing
that is read after it has a say. -/
namespace Switchboard
open Json (Path Hop)

namespace Scenario

/-- The error points at the place: it gives the place in writing, and something is wrong there, or it
quotes the text that stands there and names nothing. -/
inductive Points (doc : Json) : Error → Path → Prop where
  | fault {p : Path} {reason : Text} : Path.ofText p.text = p → Faulty doc p →
      Points doc (.invalidField p.text reason) p
  | unknown {p : Path} {t what : Text} : doc.at? p = some (.str t) → Unknown t p what →
      Points doc (.protocolMismatch (what ++ t)) p

theorem Points.ofText_eq {doc : Json} {t reason : Text} {p : Path}
    (h : Points doc (.invalidField t reason) p) : Path.ofText t = p := by
  cases h with
  | fault hp => exact hp

/-- What is pointed at is enough to refuse the document. -/
theorem Points.not_isSpelled {doc : Json} {e : Error} {p : Path} (h : Points doc e p) (s : Scenario) :
    ¬s.IsSpelled doc := by
  intro hs
  cases h with
  | fault _ hf => exact hs.not_faulty hf
  | unknown hat hu => exact hs.not_unknown hat hu

def PointsInto (doc : Json) (q : Path) (e : Error) : Prop := ∃ p, q <+: p ∧ Points doc e p

structure Located (doc : Json) (q : Path) (r : Record) : Prop where
  found : doc.at? q = some (.obj r.fields)
  written : r.path = q.dotted
  plain : q.IsPlain

variable {doc : Json} {p q : Path} {r : Record} {f : FieldRule} {e : Error}

theorem PointsInto.mono (hpq : p <+: q) (h : PointsInto doc q e) : PointsInto doc p e := by
  obtain ⟨s, hqs, hs⟩ := h
  exact ⟨s, hpq.trans hqs, hs⟩

theorem Asks.isPlainName {fs : List (Text × Json)} (h : Asks q fs f) :
    Path.IsPlainName f.key.toList := by
  cases h with
  | root h =>
    revert f
    decide
  | header h =>
    revert f
    decide
  | agent h =>
    unfold Agent.fieldRules at h
    split at h
    all_goals
      revert f
      decide
  | message h =>
    unfold Step.fieldRules at h
    split at h
    · revert f
      decide
    · split at h
      all_goals
        revert f
        decide

theorem isPlain_messagePath (i : Nat) : (messagePath i).IsPlain :=
  .field (by decide) (by simp)

theorem isPlain_headerPath (i k : Nat) : (headerPath i k).IsPlain := by
  refine .field (by decide) fun name hn => ?_
  obtain rfl : name = "headers".toList := by simpa using hn
  decide

namespace Located

theorem pathOf (h : Located doc q r) (key : Text) :
    r.pathOf key = Path.text (q ++ [Hop.field key]) := by
  have ht : Path.text (q ++ [Hop.field key]) = Path.dotted (q ++ [Hop.field key]) := if_neg (by simp)
  rw [ht, Record.pathOf, h.written]
  by_cases hq : q = []
  · subst hq
    simp [Path.dotted]
  · rw [if_neg (mt h.plain.dotted_eq_nil_iff.1 hq), Path.dotted_append_hop hq]
    rfl

theorem at_field (h : Located doc q r) {key : String} {j : Json} (hg : Gives r.fields key j) :
    doc.at? (q ++ [.field key.toList]) = some j := by
  rw [Json.at?_append, h.found]
  exact (congrArg (Option.bind · (Json.at? [])) hg)

theorem at_item (h : Located doc q r) {key : String} {pre post : List Json} {j : Json}
    (hg : Gives r.fields key (.arr (pre ++ j :: post))) :
    doc.at? (q ++ [.field key.toList, .item pre.length]) = some j := by
  have hq : q ++ [Hop.field key.toList, .item pre.length] =
      (q ++ [.field key.toList]) ++ [.item pre.length] := by simp
  rw [hq, Json.at?_append, h.at_field hg]
  simp [Json.at?]

/-- A check that fails points at the field that it guards. -/
theorem points_field {α : Type} {x : Except Error α} (h : Located doc q r) (ha : Asks q r.fields f)
    (hx : r.Guards f x) (he : x = .error e) : Points doc e (q ++ [.field f.key.toList]) := by
  obtain ⟨hb, reason, rfl⟩ := hx e he
  rw [h.pathOf]
  exact .fault (Path.ofText_text (h.plain.append_field ha.isPlainName)) (.field h.found ha hb)

theorem points {α : Type} {x : Except Error α} (h : Located doc q r) (ha : Asks q r.fields f)
    (hx : r.Guards f x) (he : x = .error e) : PointsInto doc q e :=
  ⟨_, List.prefix_append _ _, h.points_field ha hx he⟩

theorem unknown (h : Located doc q r) {key : String} {t what : Text} (hg : Gives r.fields key (.str t))
    (hu : Unknown t (q ++ [.field key.toList]) what) :
    PointsInto doc q (.protocolMismatch (what ++ t)) :=
  ⟨_, List.prefix_append _ _, .unknown (h.at_field hg) hu⟩

end Located

/-- What is no object is pointed at itself. -/
theorem points_object {j : Json} (hp : p.IsPlain) (hf : ¬Rule.object.Admits j → Faulty doc p)
    (h : Record.ofJson p.dotted j = .error e) : Points doc e p := by
  have hobj : ¬Rule.object.Admits j := by
    rintro ⟨fs, rfl⟩
    cases h
  have he : e = .invalidField p.text "must be an object".toList := by
    have ht : p.text = if p.dotted = [] then "<root>".toList else p.dotted := by
      simp only [Path.text, hp.dotted_eq_nil_iff]
    rw [ht]
    cases j with
    | obj fs => exact absurd ⟨fs, rfl⟩ hobj
    | _ => exact (Except.error.inj h).symm
  rw [he]
  exact .fault (Path.ofText_text hp) (hf hobj)

/-- A value is looked at as an object: either it is one, or the error points at it. -/
theorem located_or_points {j : Json} {α : Type} {read : Record → Except Error α} (hp : p.IsPlain)
    (hat : doc.at? p = some j) (hf : ¬Rule.object.Admits j → Faulty doc p)
    (h : (Record.ofJson p.dotted j >>= read) = .error e) :
    Points doc e p ∨ ∃ r, Located doc p r ∧ read r = .error e := by
  obtain h | ⟨r, hr, h⟩ := bind_eq_error.1 h
  · exact .inl (points_object hp hf h)
  · obtain ⟨fs, rfl, rfl⟩ := Record.ofJson_eq_ok_iff.1 hr
    exact .inr ⟨_, ⟨hat, rfl, hp⟩, h⟩

end Scenario

theorem Transport.unknown_of_parse {t : Text} {e : Error} (h : parse t = .error e) :
    Scenario.Unknown t (Scenario.agentPath ++ [.field "protocol".toList]) "unknown protocol: ".toList ∧
      e = .protocolMismatch ("unknown protocol: ".toList ++ t) := by
  unfold parse at h
  split at h
  next => cases h
  next hu =>
    split at h
    next => cases h
    next ht => exact ⟨.transport hu ht, (Except.error.inj h).symm⟩

theorem Action.unknown_of_parse (i : Nat) {t : Text} {e : Error} (h : parse t = .error e) :
    Scenario.Unknown t (Scenario.messagePath i ++ [.field "action".toList]) "unknown action: ".toList ∧
      e = .protocolMismatch ("unknown action: ".toList ++ t) := by
  unfold parse at h
  split at h
  next => cases h
  next hs =>
    split at h
    next => cases h
    next hr => exact ⟨.action i hs hr, (Except.error.inj h).symm⟩

open Scenario

variable {doc : Json} {q : Path} {r : Record} {e : Error} {i k : Nat} {j : Json}

namespace Step

/-- Reading items ends at the first that cannot be read. What is behind it is not looked at. -/
theorem each_eq_error_iff {α : Type} {read : Nat → Json → Except Error α} {js : List Json} :
    each read i js = .error e ↔ ∃ pre j post as, js = pre ++ j :: post ∧ each read i pre = .ok as ∧
      read (i + pre.length) j = .error e := by
  induction js generalizing i with
  | nil => simp [each]
  | cons j js ih =>
    constructor
    · intro h
      obtain h | ⟨a, ha, h⟩ := bind_eq_error.1 h
      · exact ⟨[], j, js, [], rfl, rfl, h⟩
      · obtain h | ⟨as, -, h⟩ := bind_eq_error.1 h
        · obtain ⟨pre, k, post, as, rfl, hpre, h⟩ := ih.1 h
          refine ⟨j :: pre, k, post, a :: as, rfl, ?_, ?_⟩
          · exact bind_eq_ok.2 ⟨a, ha, bind_eq_ok.2 ⟨as, hpre, rfl⟩⟩
          · rwa [List.length_cons, ← Nat.add_assoc, Nat.add_right_comm]
        · cases h
    · rintro ⟨pre, k, post, as, hjs, hpre, h⟩
      cases pre with
      | nil =>
        obtain ⟨rfl, rfl⟩ := List.cons.inj hjs
        exact bind_eq_error.2 (.inl h)
      | cons _ pre =>
        obtain ⟨rfl, rfl⟩ := List.cons.inj hjs
        obtain ⟨a, ha, hpre⟩ := bind_eq_ok.1 hpre
        obtain ⟨as, has, -⟩ := bind_eq_ok.1 hpre
        have hk : read (i + 1 + pre.length) k = .error e := by
          rwa [List.length_cons, ← Nat.add_assoc, Nat.add_right_comm] at h
        have hrest := ih.2 ⟨pre, k, post, as, rfl, has, hk⟩
        exact bind_eq_error.2 (.inr ⟨a, ha, bind_eq_error.2 (.inl hrest)⟩)

theorem header_points (hat : doc.at? (headerPath i k) = some j)
    (h : headerOfJson (headerPath i k).dotted j = .error e) : PointsInto doc (headerPath i k) e := by
  obtain h | ⟨r, hl, h⟩ := located_or_points (isPlain_headerPath i k) hat (.item (.header i k) hat) h
  · exact ⟨_, List.prefix_rfl, h⟩
  have hname := r.guards_name "name" "must not contain ':'"
  have hvalue := r.guards_line "value"
  obtain h | ⟨name, hn, h⟩ := bind_eq_error.1 h
  · exact hl.points (.header (by simp [Header.fieldRules])) hname (bind_eq_error.2 (.inl h))
  · split at h
    next hc =>
      refine hl.points (.header (by simp [Header.fieldRules])) hname
        (bind_eq_error.2 (.inr ⟨name, hn, ?_⟩))
      rw [if_pos hc]
      exact congrArg Except.error (Except.error.inj h)
    next =>
      obtain h | ⟨_, -, h⟩ := bind_eq_error.1 h
      · exact hl.points (.header (by simp [Header.fieldRules])) hvalue h
      · cases h

theorem headers_points {o : Option (List Json)} (hl : Located doc (messagePath i) r)
    (ho : r.optional "headers" Record.list = .ok o)
    (h : each (fun k => headerOfJson (r.pathOf (indexed "headers" k))) 0 (o.getD []) = .error e) :
    PointsInto doc (messagePath i) e := by
  obtain ⟨pre, j, post, _, hjs, -, hj⟩ := each_eq_error_iff.1 h
  obtain ⟨-, rfl⟩ | ⟨js, hg, rfl⟩ := (Record.optional_eq_ok_iff (fun _ => Record.list_eq_ok_iff)
    fun _ h => h.not_lacks (by simp)).1 ho
  · simp at hjs
  obtain rfl : js = pre ++ j :: post := hjs
  have hw : r.pathOf (indexed "headers" (0 + pre.length)) = (headerPath i pre.length).dotted := by
    rw [hl.pathOf, Nat.zero_add]
    simp [Path.text, Path.dotted, headerPath, messagePath, indexed, Hop.text]
  rw [hw] at hj
  exact (header_points (hl.at_item hg) hj).mono (List.prefix_append _ _)

/-- A version without a slash is found out once the kind is known to be a response. -/
theorem start_points {kind version : Text} (hl : Located doc (messagePath i) r)
    (hk : r.text "type" = .ok kind) (hv : r.token "version" = .ok version)
    (h : startOf r kind version = .error e) : PointsInto doc (messagePath i) e := by
  have hg := Record.text_eq_ok_iff.1 hk
  have hkind := kind?_of_gives hg
  unfold startOf at h
  split at h
  next hq =>
    subst hq
    obtain h | ⟨_, -, h⟩ := bind_eq_error.1 h
    · exact hl.points (.message (by simp [fieldRules, hkind])) (r.guards_token "method") h
    · obtain h | ⟨_, -, h⟩ := bind_eq_error.1 h
      · exact hl.points (.message (by simp [fieldRules, hkind])) (r.guards_token "uri") h
      · cases h
  next hq =>
    split at h
    next hp =>
      subst hp
      split at h
      next =>
        obtain h | ⟨_, -, h⟩ := bind_eq_error.1 h
        · exact hl.points (.message (by simp [fieldRules, hkind])) (r.guards_nat "code" (by decide)) h
        · obtain h | ⟨_, -, h⟩ := bind_eq_error.1 h
          · exact hl.points (.message (by simp [fieldRules, hkind])) (r.guards_token "reason") h
          · cases h
      next hs =>
        refine hl.points (.message (by simp [fieldRules, hkind]))
          (r.guards_version "version" "must be a protocol version like SIP/2.0")
          (bind_eq_error.2 (.inr ⟨version, hv, ?_⟩))
        rw [if_neg hs]
        exact congrArg Except.error (Except.error.inj h)
    next hp =>
      obtain rfl := Except.error.inj h
      exact hl.unknown hg (.message i hq hp)

/-- The version is read before it is known whether it has to have a slash. -/
theorem version_points {kind : Text} (hl : Located doc (messagePath i) r)
    (hk : r.text "type" = .ok kind) (h : r.token "version" = .error e) :
    PointsInto doc (messagePath i) e := by
  have hkind := kind?_of_gives (Record.text_eq_ok_iff.1 hk)
  by_cases hp : kind = "response".toList
  · subst hp
    exact hl.points (.message (by simp [fieldRules, hkind])) (r.guards_version "version" "")
      (bind_eq_error.2 (.inl h))
  · refine hl.points (.message ?_) (r.guards_token "version") h
    rw [fieldRules, hkind, if_neg (c := some kind = some "response".toList) (by simpa using hp)]
    split <;> simp

theorem ofJson_points (hat : doc.at? (messagePath i) = some j) (h : ofJson i j = .error e) :
    PointsInto doc (messagePath i) e := by
  have hw : indexed "messages" i = (messagePath i).dotted := by
    simp [indexed, messagePath, Path.dotted, Hop.text]
  rw [ofJson, hw] at h
  obtain h | ⟨r, hl, h⟩ := located_or_points (isPlain_messagePath i) hat (.item (.message i) hat) h
  · exact ⟨_, List.prefix_rfl, h⟩
  have hcommon {f : FieldRule} (hf : f ∈ commonRules) : Asks (messagePath i) r.fields f :=
    .message (List.mem_append_left _ hf)
  obtain h | ⟨kind, hk, h⟩ := bind_eq_error.1 h
  · exact hl.points (hcommon (by simp [commonRules])) (r.guards_text "type") h
  obtain h | ⟨name, hn, h⟩ := bind_eq_error.1 h
  · exact hl.points (hcommon (by simp [commonRules])) (r.guards_text "action") h
  obtain h | ⟨action, -, h⟩ := bind_eq_error.1 h
  · obtain ⟨hu, rfl⟩ := Action.unknown_of_parse i h
    exact hl.unknown (Record.text_eq_ok_iff.1 hn) hu
  obtain h | ⟨version, hv, h⟩ := bind_eq_error.1 h
  · exact version_points hl hk h
  obtain h | ⟨start, -, h⟩ := bind_eq_error.1 h
  · exact start_points hl hk hv h
  obtain h | ⟨items, hi, h⟩ := bind_eq_error.1 h
  · exact hl.points (hcommon (by simp [commonRules])) (r.guards_list "headers").optional h
  obtain h | ⟨headers, -, h⟩ := bind_eq_error.1 h
  · exact headers_points hl hi h
  obtain h | ⟨content, -, h⟩ := bind_eq_error.1 h
  · exact hl.points (hcommon (by simp [commonRules])) (r.guards_text "content").optional h
  cases h

end Step

namespace Agent

theorem ofJson_points (hat : doc.at? agentPath = some j)
    (hobj : ¬Rule.object.Admits j → Faulty doc agentPath) (h : ofJson j = .error e) :
    PointsInto doc agentPath e := by
  have hplain : agentPath.IsPlain := .field (by decide) (by simp)
  obtain h | ⟨r, hl, h⟩ := located_or_points hplain hat hobj h
  · exact ⟨_, List.prefix_rfl, h⟩
  have hcommon {f : FieldRule} (hf : f ∈ commonRules) : Asks agentPath r.fields f :=
    .agent (List.mem_append_left _ hf)
  obtain h | ⟨kind, hk, h⟩ := bind_eq_error.1 h
  · exact hl.points (hcommon (by simp [commonRules])) (r.guards_text "type") h
  obtain h | ⟨name, hn, h⟩ := bind_eq_error.1 h
  · exact hl.points (hcommon (by simp [commonRules])) (r.guards_text "protocol") h
  obtain h | ⟨transport, -, h⟩ := bind_eq_error.1 h
  · obtain ⟨hu, rfl⟩ := Transport.unknown_of_parse h
    exact hl.unknown (Record.text_eq_ok_iff.1 hn) hu
  obtain h | ⟨port, -, h⟩ := bind_eq_error.1 h
  · exact hl.points (hcommon (by simp [commonRules])) (r.guards_nat "port" (by decide)) h
  obtain h | ⟨o, ho, h⟩ := bind_eq_error.1 h
  · exact hl.points (hcommon (by simp [commonRules])) r.guards_buffersize (bind_eq_error.2 (.inl h))
  obtain h | ⟨size, -, h⟩ := bind_eq_error.1 h
  · exact hl.points (hcommon (by simp [commonRules])) r.guards_buffersize
      (bind_eq_error.2 (.inr ⟨o, ho, h⟩))
  have hg := Record.text_eq_ok_iff.1 hk
  have hkind := kind?_of_gives hg
  dsimp only at h
  split at h
  next hc =>
    rw [hc] at hkind
    obtain h | ⟨ip, -, h⟩ := bind_eq_error.1 h
    · exact hl.points (.agent (by simp [fieldRules, hkind])) (r.guards_token "ip") h
    obtain h | ⟨n, hn, h⟩ := bind_eq_error.1 h
    · exact hl.points (.agent (by simp [fieldRules, hkind])) (r.guards_positive "timeout")
        (bind_eq_error.2 (.inl h))
    obtain h | ⟨m, -, h⟩ := bind_eq_error.1 h
    · exact hl.points (.agent (by simp [fieldRules, hkind])) (r.guards_positive "timeout")
        (bind_eq_error.2 (.inr ⟨n, hn, h⟩))
    cases h
  next hc =>
    split at h
    next => cases h
    next hs =>
      obtain h | ⟨_, _, h⟩ := bind_eq_error.1 h
      · obtain rfl := Except.error.inj h
        exact hl.unknown hg (.agent hc hs)
      · cases h

end Agent

namespace Scenario

def DueToAgent (doc : Json) (e : Error) : Prop :=
  ∃ fs, doc = .obj fs ∧ ∀ fs', Json.field? "agent".toList fs' = Json.field? "agent".toList fs →
    ofJson (.obj fs') = .error e

/-- The agent and the messages before the `i`th are in order, and any document with this agent whose
messages are these up to the `i`th is refused with this error. -/
def DueToMessage (doc : Json) (e : Error) (i : Nat) : Prop :=
  ∃ fs a pre j post, doc = .obj fs ∧ Gives fs "agent" a ∧
    Gives fs "messages" (.arr (pre ++ j :: post)) ∧ pre.length = i ∧
    (∃ agent : Agent, agent.IsSpelled a) ∧
    (∃ steps : List Step, List.Forall₂ Step.IsSpelled steps pre) ∧
    ∀ fs' post', Gives fs' "agent" a → Gives fs' "messages" (.arr (pre ++ j :: post')) →
      ofJson (.obj fs') = .error e

theorem dueToAgent {fs : List (Text × Json)}
    (h : ((⟨[], fs⟩ : Record).require "agent" >>= Agent.ofJson) = .error e) :
    DueToAgent (.obj fs) e := by
  refine ⟨fs, rfl, fun fs' hfs => ?_⟩
  have hreq : (⟨[], fs'⟩ : Record).require "agent" = (⟨[], fs⟩ : Record).require "agent" := by
    simp only [Record.require, Record.get?, Record.fault, Record.pathOf, hfs]
  rw [← hreq] at h
  obtain h | ⟨a, ha, h⟩ := bind_eq_error.1 h
  · exact bind_eq_error.2 (.inr ⟨⟨[], fs'⟩, rfl, bind_eq_error.2 (.inl h)⟩)
  · exact bind_eq_error.2 (.inr ⟨⟨[], fs'⟩, rfl,
      bind_eq_error.2 (.inr ⟨a, ha, bind_eq_error.2 (.inl h)⟩)⟩)

theorem dueToMessage {fs : List (Text × Json)} {a : Json} {agent : Agent} {pre post : List Json}
    {steps : List Step} (ha : Gives fs "agent" a) (hagent : Agent.ofJson a = .ok agent)
    (hjs : Gives fs "messages" (.arr (pre ++ j :: post)))
    (hpre : Step.each Step.ofJson 0 pre = .ok steps) (hj : Step.ofJson pre.length j = .error e) :
    DueToMessage (.obj fs) e pre.length := by
  have hspelled := Agent.ofJson_eq_ok_iff.1 hagent
  refine ⟨fs, a, pre, j, post, rfl, ha, hjs, rfl, ⟨agent, hspelled⟩,
    ⟨steps, Step.steps_eq_ok_iff.1 hpre⟩, fun fs' post' ha' hjs' => ?_⟩
  have hne : a ≠ .null := by
    rintro rfl
    exact hspelled
  have ha' := Record.require_eq_ok_iff (r := ⟨[], fs'⟩).2 ⟨ha', hne⟩
  have hjs' := Record.list_eq_ok_iff (r := ⟨[], fs'⟩).2 hjs'
  have hend : Step.each Step.ofJson 0 (pre ++ j :: post') = .error e :=
    Step.each_eq_error_iff.2 ⟨pre, j, post', steps, rfl, hpre, by rwa [Nat.zero_add]⟩
  simp only [ofJson, Record.ofJson, ok_bind, ha', hagent, hjs', hend]
  rfl

theorem messagePath_inj {p : Path} (hi : messagePath i <+: p) (hk : messagePath k <+: p) : i = k := by
  obtain ⟨s, rfl⟩ := hi
  obtain ⟨t, ht⟩ := hk
  simp [messagePath] at ht
  exact ht.1.symm

theorem not_agentPath_messagePath {p : Path} (hp : agentPath <+: p) : ¬messagePath i <+: p := by
  obtain ⟨s, rfl⟩ := hp
  rintro ⟨t, ht⟩
  simp [messagePath, agentPath] at ht

/-- The error of a document that is refused points at a place in it that is not as it has to be, and no
document that has this fault spells a scenario. An agent that is at fault is refused whatever the
messages are. When a message is at fault, then the agent and all messages before it are in order, and
it does not matter what comes after it. -/
theorem refusal_points (doc : Json) (e : Error) (h : ofJson doc = .error e) :
    ∃ p, Points doc e p ∧ (∀ d, Points d e p → ∀ s : Scenario, ¬s.IsSpelled d) ∧
      (agentPath <+: p → DueToAgent doc e) ∧ ∀ i, messagePath i <+: p → DueToMessage doc e i := by
  have refuses {p : Path} (d : Json) (hd : Points d e p) := hd.not_isSpelled
  -- one case for each check, in the order in which they are made
  obtain hroot | ⟨⟨path, fs⟩, hl, hread⟩ := located_or_points .nil rfl .root h
  · exact ⟨[], hroot, refuses, by simp [agentPath], by simp [messagePath]⟩
  obtain rfl : path = [] := hl.written
  obtain rfl : doc = .obj fs := Option.some.inj hl.found
  obtain h | ⟨a, ha, h⟩ := bind_eq_error.1 hread
  · refine ⟨agentPath, hl.points_field (.root (by simp [fieldRules])) (Record.guards_object _ "agent") h,
      refuses, fun _ => dueToAgent (bind_eq_error.2 (.inl h)), fun i hi => ?_⟩
    exact absurd hi (not_agentPath_messagePath List.prefix_rfl)
  obtain ⟨hg, hne⟩ := Record.require_eq_ok_iff.1 ha
  obtain h | ⟨agent, hagent, h⟩ := bind_eq_error.1 h
  · obtain ⟨p, hp, hpoints⟩ := Agent.ofJson_points (hl.at_field hg)
      (fun hobj => .field (f := ⟨"agent", .object, true⟩) hl.found (.root (by simp [fieldRules]))
        (.inr ⟨a, hg, hne, hobj⟩)) h
    refine ⟨p, hpoints, refuses, fun _ => dueToAgent (bind_eq_error.2 (.inr ⟨a, ha, h⟩)),
      fun i hi => ?_⟩
    exact absurd hi (not_agentPath_messagePath hp)
  obtain h | ⟨js, hjs, h⟩ := bind_eq_error.1 h
  · refine ⟨[.field "messages".toList], hl.points_field (.root (by simp [fieldRules]))
      (Record.guards_list _ "messages") h, refuses, fun hp => ?_, fun i hi => ?_⟩
    · simp [agentPath] at hp
    · simp [messagePath] at hi
  obtain h | ⟨steps, -, h⟩ := bind_eq_error.1 h
  · obtain ⟨pre, j, post, before, rfl, hpre, hj⟩ := Step.each_eq_error_iff.1 h
    rw [Nat.zero_add] at hj
    have hjs := Record.list_eq_ok_iff.1 hjs
    obtain ⟨p, hp, hpoints⟩ := Step.ofJson_points (hl.at_item hjs) hj
    refine ⟨p, hpoints, refuses, fun ha => absurd hp (not_agentPath_messagePath ha), fun i hi => ?_⟩
    obtain rfl := messagePath_inj hp hi
    exact dueToMessage hg hagent hjs hpre hj
  cases h

def folded : Json := .obj [
  ("agent".toList, .obj [("type".toList, .str "server".toList), ("protocol".toList, .str "udp".toList),
    ("port".toList, .nat 5060)]),
  ("messages".toList, .arr [
    .obj [("type".toList, .str "request".toList), ("action".toList, .str "recv".toList),
      ("version".toList, .str "SIP/2.0".toList), ("method".toList, .str "OPTIONS".toList),
      ("uri".toList, .str "sip:bob".toList)],
    .obj [("type".toList, .str "response".toList), ("action".toList, .str "send".toList),
      ("version".toList, .str "SIP/2.0".toList), ("code".toList, .nat 200),
      ("reason".toList, .str "OK".toList), ("headers".toList, .arr [.obj [
        ("name".toList, .str "Via".toList), ("value".toList, .str "here\nthere".toList)]])],
    .bool true])]

theorem refusal_points_folded :
    let e : Error := .invalidField "messages[1].headers[0].value".toList
      "must not contain line breaks".toList;
    ofJson folded = .error e ∧ Points folded e (headerPath 1 0 ++ [.field "value".toList]) ∧
      DueToMessage folded e 1 := by
  intro e
  have h : ofJson folded = .error e := by decide +kernel
  obtain ⟨p, hp, -, -, hmessage⟩ := refusal_points folded e h
  obtain rfl : p = headerPath 1 0 ++ [.field "value".toList] := hp.ofText_eq.symm
  exact ⟨h, hp, hmessage 1 ⟨_, rfl⟩⟩

end Scenario
end Switchboard
