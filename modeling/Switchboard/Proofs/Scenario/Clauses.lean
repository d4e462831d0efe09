import Switchboard.Proofs.Text.Decimal
import Switchboard.Proofs.Text.Letters
import Switchboard.Proofs.Text.LineEnds
import Switchboard.Scenario.Compare

/-! What a template asks of a message, clause by clause, and the comparison against it: one entry for
each clause that is not met, in the order of the clauses, and nothing else. -/
namespace Switchboard

namespace Header

def SameName (h k : Header) : Prop := List.Forall₂ Text.SameLetter h.name k.name

def Like (h k : Header) : Prop := h.SameName k ∧ h.value = k.value

def Covered (hs ks : List Header) : Prop := ∀ h ∈ hs, ∃ k ∈ ks, k.Like h

theorem isNamed_iff {h k : Header} : h.isNamed k.name ↔ h.SameName k := Text.sameLetters_iff

instance (h k : Header) : Decidable (h.SameName k) := decidable_of_iff _ isNamed_iff

instance (h k : Header) : Decidable (h.Like k) := inferInstanceAs (Decidable (_ ∧ _))

end Header

def StartLine.titled : StartLine → List (String × Text)
  | request method uri version => [("method", method), ("uri", uri), ("version", version)]
  | response version code reason =>
    [("version", version), ("code", Text.decimal code.toNat), ("reason", reason)]

def StartLine.word (s : StartLine) (title : String) : Text := (s.titled.lookup title).getD []

inductive Clause where
  | word (title : String) (text : Text)
  | header (h : Header)
  | content (text : Text)

namespace Clause

/-- A word has to be the same, a header has to be there with an equal value, and the body has to have
the lines of the content, if there is any content. -/
def Holds (m : Message) : Clause → Prop
  | word title text => m.start.word title = text
  | header h => ∃ k ∈ m.headers, k.Like h
  | content text => text = [] ∨ ∃ ls, Text.HasLines text ls ∧ Text.HasLines m.body ls

theorem holds_content_iff {m : Message} {text : Text} :
    (content text).Holds m ↔ text = [] ∨ Text.lines text = Text.lines m.body := by
  simp only [Holds, Text.hasLines_iff, exists_eq_left']
  exact or_congr Iff.rfl eq_comm

instance (m : Message) : (c : Clause) → Decidable (c.Holds m)
  | word .. => inferInstanceAs (Decidable (_ = _))
  | header h => inferInstanceAs (Decidable (∃ k ∈ m.headers, k.Like h))
  | content _ => decidable_of_iff _ holds_content_iff.symm

/-- The entry that tells of a clause which is not met. A header is missing when the message has none
of its name; else none of those has its value. -/
def entry (m : Message) : Clause → Mismatch
  | word title text => .word title.toList text (m.start.word title)
  | header h =>
    if ∃ k ∈ m.headers, k.SameName h then .headerValue h.name h.value else .headerMissing h.name
  | content text => .content text m.body

def complaint (m : Message) : Clause → Text
  | word title text =>
    title.toList ++ ": expected ".toList ++ text ++ ", got ".toList ++ m.start.word title
  | header h =>
    if ∃ k ∈ m.headers, k.SameName h
    then "header ".toList ++ h.name ++ ": no value equal to ".toList ++ Text.quoted h.value
    else "header ".toList ++ h.name ++ ": missing".toList
  | content text =>
    "content: expected ".toList ++ Text.quoted text ++ ", got ".toList ++ Text.quoted m.body

theorem message_entry (m : Message) (c : Clause) : (c.entry m).message = c.complaint m := by
  cases c with
  | word => rfl
  | content text => rfl
  | header h => exact apply_ite Mismatch.message _ _ _

def breaches (m : Message) (cs : List Clause) : List Mismatch :=
  (cs.filter fun c => ¬c.Holds m).map (entry m)

theorem breaches_append (m : Message) (cs ds : List Clause) :
    breaches m (cs ++ ds) = breaches m cs ++ breaches m ds := by
  simp [breaches]

theorem breaches_singleton (m : Message) (c : Clause) :
    breaches m [c] = if c.Holds m then [] else [c.entry m] := by
  by_cases h : c.Holds m <;> simp [breaches, h]

theorem breaches_eq_nil_iff (m : Message) (cs : List Clause) :
    breaches m cs = [] ↔ ∀ c ∈ cs, c.Holds m := by
  simp [breaches, List.filter_eq_nil_iff]

end Clause

namespace Template

def clauses (t : Template) : List Clause :=
  (t.start.titled.map fun w => .word w.1 w.2) ++ t.headers.map .header ++ [.content t.content]

def kindComplaint (t : Template) : Text :=
  match t.kind with
  | .request => "kind: expected REQUEST, got RESPONSE".toList
  | .response => "kind: expected RESPONSE, got REQUEST".toList

/-- The message is what the template says: the same start line, each header of the template among its
headers, and the same lines of a body unless the template leaves the body open. -/
def Matches (t : Template) (m : Message) : Prop :=
  m.start = t.start ∧ Header.Covered t.headers m.headers ∧
    (t.content = [] ∨ ∃ ls, Text.HasLines t.content ls ∧ Text.HasLines m.body ls)

variable (t : Template) (m : Message)

theorem valuesOf_eq_nil_iff (h : Header) :
    m.valuesOf h.name = [] ↔ ¬∃ k ∈ m.headers, k.SameName h := by
  simp [Message.valuesOf, List.filter_eq_nil_iff, Header.isNamed_iff]

theorem mem_valuesOf_iff (h : Header) :
    h.value ∈ m.valuesOf h.name ↔ ∃ k ∈ m.headers, k.Like h := by
  simp [Message.valuesOf, Header.isNamed_iff, Header.Like, and_assoc]

theorem headerMismatch_eq (h : Header) : headerMismatch m h = Clause.breaches m [.header h] := by
  rw [Clause.breaches_singleton]
  simp only [Clause.Holds, Clause.entry, ← mem_valuesOf_iff]
  unfold headerMismatch
  split
  next hv =>
    have hn := (valuesOf_eq_nil_iff m h).1 hv
    rw [if_neg hn, hv, if_neg (by simp)]
  next hv =>
    have hn := mt (valuesOf_eq_nil_iff m h).2 hv
    rw [if_pos (not_not.1 hn)]

theorem contentMismatch_eq : contentMismatch t.content m.body =
    Clause.breaches m [.content t.content] := by
  rw [Clause.breaches_singleton]
  simp only [Clause.holds_content_iff]
  rfl

theorem restMismatches_eq : t.restMismatches m =
    Clause.breaches m (t.headers.map .header ++ [.content t.content]) := by
  rw [Clause.breaches_append, ← contentMismatch_eq, restMismatches]
  congr 1
  induction t.headers with
  | nil => rfl
  | cons h hs ih =>
    rw [List.flatMap_cons, headerMismatch_eq, ih, ← Clause.breaches_append]
    rfl

theorem wordMismatch_eq (title : String) (text : Text) :
    wordMismatch title text (m.start.word title) = Clause.breaches m [.word title text] := by
  rw [Clause.breaches_singleton, wordMismatch]
  simp only [Clause.Holds, Clause.entry, eq_comm]

/-- The code is compared as a number, which is as good as in decimal. -/
theorem codeMismatch_eq {version reason : Text} {b : UInt16} (hm : m.start = .response version b reason)
    (a : UInt16) :
    (if a = b then [] else
        [Mismatch.word "code".toList (Text.decimal a.toNat) (Text.decimal b.toNat)]) =
      Clause.breaches m [.word "code" (Text.decimal a.toNat)] := by
  have hw : m.start.word "code" = Text.decimal b.toNat := by rw [hm]; rfl
  rw [← wordMismatch_eq, wordMismatch, hw]
  simp only [Text.decimal_inj, UInt16.toNat_inj]

theorem mismatches_of_kind (hk : m.kind = t.kind) :
    t.mismatches m = Clause.breaches m (t.start.titled.map fun w => .word w.1 w.2) ++
      t.restMismatches m := by
  have hw := wordMismatch_eq m
  unfold mismatches
  cases ht : t.start with
  | request method uri version =>
    cases hm : m.start with
    | request method' uri' version' =>
      have h₁ : m.start.word "method" = method' := by rw [hm]; rfl
      have h₂ : m.start.word "uri" = uri' := by rw [hm]; rfl
      have h₃ : m.start.word "version" = version' := by rw [hm]; rfl
      dsimp only
      rw [← h₁, ← h₂, ← h₃, hw, hw, hw, ← Clause.breaches_append, ← Clause.breaches_append]
      rfl
    | response => simp [Message.kind, kind, ht, hm, StartLine.kind] at hk
  | response version code reason =>
    cases hm : m.start with
    | request => simp [Message.kind, kind, ht, hm, StartLine.kind] at hk
    | response version' code' reason' =>
      have h₁ : m.start.word "version" = version' := by rw [hm]; rfl
      have h₃ : m.start.word "reason" = reason' := by rw [hm]; rfl
      dsimp only
      rw [codeMismatch_eq m hm, ← h₁, ← h₃, hw, hw, ← Clause.breaches_append,
        ← Clause.breaches_append]
      rfl

theorem mismatches_of_kind_ne (hk : m.kind ≠ t.kind) : t.mismatches m = [.kind t.kind m.kind] := by
  unfold mismatches
  cases ht : t.start <;> cases hm : m.start <;>
    simp_all [Message.kind, kind, StartLine.kind]

/-- The kind of a start line and its words tell which it is. -/
theorem start_eq_iff : m.start = t.start ↔
    m.kind = t.kind ∧ ∀ w ∈ t.start.titled, (Clause.word w.1 w.2).Holds m := by
  simp only [Clause.Holds, Message.kind, kind]
  cases t.start with
  | request method uri version =>
    cases m.start <;>
      simp [StartLine.kind, StartLine.titled, StartLine.word, List.lookup_cons]
  | response version code reason =>
    cases m.start <;>
      simp [StartLine.kind, StartLine.titled, StartLine.word, List.lookup_cons, Text.decimal_inj,
        UInt16.toNat_inj]

theorem matches_iff : t.Matches m ↔ m.kind = t.kind ∧ ∀ c ∈ t.clauses, c.Holds m := by
  simp only [Matches, start_eq_iff, clauses, List.forall_mem_append, List.forall_mem_map,
    List.forall_mem_singleton, and_assoc]
  rfl

theorem mismatches_eq : t.mismatches m =
    if m.kind = t.kind then Clause.breaches m t.clauses else [.kind t.kind m.kind] := by
  split
  next hk =>
    rw [mismatches_of_kind t m hk, restMismatches_eq, ← Clause.breaches_append, clauses,
      List.append_assoc]
  next hk => exact mismatches_of_kind_ne t m hk

theorem mismatches_eq_nil_iff : t.mismatches m = [] ↔ t.Matches m := by
  rw [mismatches_eq, matches_iff]
  split
  next hk => rw [Clause.breaches_eq_nil_iff, and_iff_right hk]
  next hk => simp [hk]

theorem message_kind (hk : m.kind ≠ t.kind) :
    (Mismatch.kind t.kind m.kind).message = t.kindComplaint := by
  unfold kindComplaint
  cases ht : t.kind <;> cases hm : m.kind <;> simp_all <;> rfl

theorem messages_eq : (t.mismatches m).map Mismatch.message =
    if m.kind = t.kind then (t.clauses.filter fun c => ¬c.Holds m).map (Clause.complaint m)
    else [t.kindComplaint] := by
  rw [mismatches_eq]
  split
  next => simp only [Clause.breaches, List.map_map, Function.comp_def, Clause.message_entry]
  next hk => rw [List.map_singleton, message_kind t m hk]

/-- The comparison tells of each clause that is not met, in order, and of nothing else; of a message of
another kind it tells just that. The texts tell the same, in the words of the report. So it is silent
just on the messages that match. -/
theorem mismatches_tell_breaches :
    t.mismatches m = (if m.kind = t.kind then
        (t.clauses.filter fun c => ¬c.Holds m).map (Clause.entry m) else [.kind t.kind m.kind]) ∧
      (t.mismatches m).map Mismatch.message = (if m.kind = t.kind then
        (t.clauses.filter fun c => ¬c.Holds m).map (Clause.complaint m) else [t.kindComplaint]) ∧
      (t.mismatches m = [] ↔ t.Matches m) :=
  ⟨mismatches_eq t m, messages_eq t m, mismatches_eq_nil_iff t m⟩

end Template
end Switchboard
