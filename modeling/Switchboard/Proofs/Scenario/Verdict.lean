import Switchboard.Proofs.Scenario.Clauses

/-! What of a message, or of a template, does not change the verdict of the comparison: the order of
headers, the case of their names, headers that nobody asked for, the terminators of lines. Matching is
reflexive and transitive. -/
namespace Switchboard

namespace Header
variable {h k l : Header} {hs ks ls : List Header}

theorem sameName_iff : h.SameName k ↔ Text.lower h.name = Text.lower k.name :=
  Text.lower_eq_iff.symm

theorem Like.refl (h : Header) : h.Like h := ⟨sameName_iff.2 rfl, rfl⟩

theorem Like.symm (hk : h.Like k) : k.Like h := ⟨sameName_iff.2 (sameName_iff.1 hk.1).symm, hk.2.symm⟩

theorem Like.trans (hk : h.Like k) (kl : k.Like l) : h.Like l :=
  ⟨sameName_iff.2 ((sameName_iff.1 hk.1).trans (sameName_iff.1 kl.1)), hk.2.trans kl.2⟩

theorem Covered.of_subset (h : hs ⊆ ks) : Covered hs ks := fun k hk => ⟨k, h hk, .refl k⟩

theorem Covered.trans (h : Covered hs ks) (h' : Covered ks ls) : Covered hs ls := by
  intro a ha
  obtain ⟨b, hb, hba⟩ := h a ha
  obtain ⟨c, hc, hcb⟩ := h' b hb
  exact ⟨c, hc, hcb.trans hba⟩

theorem Covered.of_forall₂ (h : List.Forall₂ Like hs ks) : Covered ks hs := by
  intro k hk
  induction h with
  | nil => simp at hk
  | cons hl _ ih =>
    obtain rfl | hk := List.mem_cons.1 hk
    · exact ⟨_, List.mem_cons_self, hl⟩
    · obtain ⟨a, ha, hak⟩ := ih hk
      exact ⟨a, List.mem_cons_of_mem _ ha, hak⟩

/-- A name that one of the covered headers has is had by one of those that cover them. -/
theorem Covered.name (hc : Covered hs ks) (h : ∃ a ∈ hs, a.SameName l) : ∃ b ∈ ks, b.SameName l := by
  obtain ⟨a, ha, hal⟩ := h
  obtain ⟨b, hb, hba⟩ := hc a ha
  exact ⟨b, hb, sameName_iff.2 ((sameName_iff.1 hba.1).trans (sameName_iff.1 hal))⟩

end Header

open Header (Covered)

namespace Clause
variable {m m' : Message} {cs : List Clause}

/-- Whoever meets more clauses has fewer entries. -/
theorem length_breaches_le (h : ∀ c ∈ cs, c.Holds m → c.Holds m') :
    (breaches m' cs).length ≤ (breaches m cs).length := by
  simp only [breaches, List.length_map, ← List.countP_eq_length_filter]
  refine List.countP_mono_left fun c hc hb => ?_
  simp only [decide_eq_true_eq] at hb ⊢
  exact mt (h c hc) hb

theorem breaches_congr (h : ∀ c ∈ cs, c.Holds m ↔ c.Holds m')
    (he : ∀ c ∈ cs, c.entry m = c.entry m') :
    breaches m cs = breaches m' cs := by
  have hf : (cs.filter fun c => ¬c.Holds m) = cs.filter fun c => ¬c.Holds m' :=
    List.filter_congr fun c hc => by simp only [h c hc]
  rw [breaches, breaches, hf]
  exact List.map_congr_left fun c hc => he c (List.mem_of_mem_filter hc)

/-- The headers that a message has besides do not harm. -/
theorem holds_of_covered {hs : List Header} (hc : Covered m.headers hs) (c : Clause)
    (h : c.Holds m) : c.Holds { m with headers := hs } := by
  cases c with
  | word title text => exact h
  | content text => exact h
  | header k =>
    obtain ⟨a, ha, hak⟩ := h
    obtain ⟨b, hb, hba⟩ := hc a ha
    exact ⟨b, hb, hba.trans hak⟩

theorem entry_of_covered {hs : List Header} (hc : Covered m.headers hs) (hc' : Covered hs m.headers)
    (c : Clause) : c.entry m = c.entry { m with headers := hs } := by
  cases c with
  | word title text => rfl
  | content text => rfl
  | header k =>
    have hn : (∃ a ∈ m.headers, a.SameName k) ↔ ∃ b ∈ hs, b.SameName k := ⟨hc.name, hc'.name⟩
    simp only [entry, hn]

/-- A body counts by its lines alone. -/
theorem holds_body_iff {b : Text} (hb : Text.lines b = Text.lines m.body) (c : Clause) :
    c.Holds { m with body := b } ↔ c.Holds m := by
  cases c with
  | word title text => rfl
  | header k => rfl
  | content text => rw [holds_content_iff, holds_content_iff, hb]

end Clause

namespace Template
variable (t : Template) (m : Message)

theorem mismatches_of_covered {hs : List Header} (hc : Covered m.headers hs)
    (hc' : Covered hs m.headers) : t.mismatches { m with headers := hs } = t.mismatches m := by
  have hb : Clause.breaches { m with headers := hs } t.clauses = Clause.breaches m t.clauses := by
    refine (Clause.breaches_congr (fun c _ => ?_) fun c _ => ?_).symm
    · exact ⟨Clause.holds_of_covered hc c, Clause.holds_of_covered (m := { m with headers := hs }) hc' c⟩
    · exact Clause.entry_of_covered hc hc' c
  rw [mismatches_eq, mismatches_eq, hb]
  rfl

theorem length_mismatches_le {m' : Message} (hk : m'.kind = m.kind)
    (h : ∀ c ∈ t.clauses, c.Holds m → c.Holds m') :
    (t.mismatches m').length ≤ (t.mismatches m).length := by
  rw [mismatches_eq, mismatches_eq, hk]
  split
  · exact Clause.length_breaches_le h
  · exact Nat.le_refl _

theorem length_mismatches_body {b : Text} (hb : Text.lines b = Text.lines m.body) :
    (t.mismatches { m with body := b }).length = (t.mismatches m).length := by
  refine Nat.le_antisymm ?_ ?_
  · exact length_mismatches_le t m rfl fun c _ => (Clause.holds_body_iff hb c).2
  · exact length_mismatches_le t _ rfl fun c _ => (Clause.holds_body_iff hb c).1

theorem mismatches_perm {hs : List Header} (hp : hs.Perm t.headers) :
    (({ t with headers := hs } : Template).mismatches m).Perm (t.mismatches m) := by
  have hc : ({ t with headers := hs } : Template).clauses.Perm t.clauses :=
    ((hp.map _).append_left _).append_right _
  have hk : ({ t with headers := hs } : Template).kind = t.kind := rfl
  rw [mismatches_eq, mismatches_eq, hk]
  split
  · exact (hc.filter _).map _
  · exact .refl _

theorem matches_build : t.Matches t.build :=
  ⟨rfl, .of_subset fun _ h => h, .inr ⟨_, Text.hasLines_lines _, Text.hasLines_lines _⟩⟩

variable {t m}

/-- A content that is open stays open. One that is not has lines, so the body that has the same lines is
not empty, and as a content it asks for them again. -/
theorem Matches.trans {m' : Message} (h : t.Matches m) (h' : (ofMessage m).Matches m') :
    t.Matches m' := by
  obtain ⟨hs, hh, hc⟩ := h
  obtain ⟨hs', hh', hc'⟩ := h'
  refine ⟨hs'.trans hs, hh.trans hh', ?_⟩
  obtain hc | ⟨ls, hl, hb⟩ := hc
  · exact .inl hc
  have hl' := Text.hasLines_iff.1 hl
  have hb' := Text.hasLines_iff.1 hb
  obtain hn | ⟨ks, hk, hks⟩ := hc'
  · left
    have hn : m.body = [] := hn
    by_contra hne
    have hnil : Text.lines t.content = [] := by rw [hl', ← hb', hn]; rfl
    exact Text.lines_ne_nil _ hne hnil
  · obtain rfl : ls = ks := hb'.symm.trans (Text.hasLines_iff.1 hk)
    exact .inr ⟨ls, hl, hks⟩

/-- The order of headers and the case of their names say nothing to the comparison, more headers can
only please it, and the lines of a body may end either way. The order of the template's headers is
the order of the entries. Whatever is built from a template matches it, and what matches a message
that matches also matches. -/
theorem verdict_insensitive (t : Template) (m : Message) :
    (∀ hs, hs.Perm m.headers → t.mismatches { m with headers := hs } = t.mismatches m) ∧
    (∀ hs, List.Forall₂ Header.Like m.headers hs →
      t.mismatches { m with headers := hs } = t.mismatches m) ∧
    (∀ b, Text.Reterminated m.body b →
      (t.mismatches { m with body := b } = [] ↔ t.mismatches m = []) ∧
        (t.mismatches { m with body := b }).length = (t.mismatches m).length) ∧
    (∀ hs, m.headers.Sublist hs →
      (t.mismatches { m with headers := hs }).length ≤ (t.mismatches m).length) ∧
    (∀ hs, hs.Perm t.headers →
      (({ t with headers := hs } : Template).mismatches m).Perm (t.mismatches m)) ∧
    t.mismatches t.build = [] ∧
    ∀ m', t.mismatches m = [] → (ofMessage m).mismatches m' = [] → t.mismatches m' = [] := by
  refine ⟨fun hs hp => ?_, fun hs hl => ?_, fun b hb => ?_, fun hs hs' => ?_, fun hs => ?_, ?_, ?_⟩
  · exact mismatches_of_covered t m (.of_subset hp.symm.subset) (.of_subset hp.subset)
  · have hl' : List.Forall₂ Header.Like hs m.headers := hl.flip.imp fun _ _ h => Header.Like.symm h
    exact mismatches_of_covered t m (.of_forall₂ hl') (.of_forall₂ hl)
  · have hlen := length_mismatches_body t m hb.lines
    refine ⟨?_, hlen⟩
    rw [← List.length_eq_zero_iff, hlen, List.length_eq_zero_iff]
  · exact length_mismatches_le t m rfl fun c _ => Clause.holds_of_covered (.of_subset hs'.subset) c
  · exact mismatches_perm t m
  · exact (mismatches_eq_nil_iff t t.build).2 (matches_build t)
  · intro m' h h'
    rw [mismatches_eq_nil_iff] at h h' ⊢
    exact h.trans h'

def wanted : Template where
  start := .response "SIP/2.0".toList 200 "OK".toList
  headers := [⟨"CSeq".toList, "1".toList⟩, ⟨"Via".toList, "a".toList⟩]
  content := "x\ny".toList

def refusal : Message where
  start := .response "SIP/2.0".toList 200 "No".toList
  headers := [⟨"via".toList, "b".toList⟩, ⟨"cseq".toList, "1".toList⟩]
  body := "x\r\ny\r\r\n".toList

def reply : Message where
  start := wanted.start
  headers := ⟨"To".toList, []⟩ :: wanted.headers.reverse
  body := "x\ny\r\n".toList

theorem verdict_insensitive_refusal :
    (wanted.mismatches refusal).length = 3 ∧
    (let hs := refusal.headers.reverse;
      hs.Perm refusal.headers ∧
        wanted.mismatches { refusal with headers := hs } = wanted.mismatches refusal) ∧
    (let hs := [⟨"VIA".toList, "b".toList⟩, ⟨"CSeQ".toList, "1".toList⟩];
      List.Forall₂ Header.Like refusal.headers hs ∧
        wanted.mismatches { refusal with headers := hs } = wanted.mismatches refusal) ∧
    (let b := "x\ny\r\r\n".toList;
      Text.Reterminated refusal.body b ∧
        (wanted.mismatches { refusal with body := b }).length = (wanted.mismatches refusal).length) ∧
    (let hs := ⟨"Via".toList, "a".toList⟩ :: refusal.headers;
      refusal.headers.Sublist hs ∧
        (wanted.mismatches { refusal with headers := hs }).length ≤
          (wanted.mismatches refusal).length) ∧
    (let hs := wanted.headers.reverse;
      hs.Perm wanted.headers ∧
        (({ wanted with headers := hs } : Template).mismatches refusal).Perm
          (wanted.mismatches refusal)) ∧
    wanted.mismatches wanted.build = [] ∧ (ofMessage wanted.build).mismatches reply = [] ∧
      wanted.mismatches reply = [] := by
  obtain ⟨order, letters, terminators, more, asked, self, -⟩ := verdict_insensitive wanted refusal
  obtain ⟨-, -, -, -, -, -, further⟩ := verdict_insensitive wanted wanted.build
  have hlike : List.Forall₂ Header.Like refusal.headers
      [⟨"VIA".toList, "b".toList⟩, ⟨"CSeQ".toList, "1".toList⟩] := by decide
  have hends : Text.Reterminated refusal.body "x\ny\r\r\n".toList :=
    .feed (u := ['x']) (v := "y\r\r\n".toList) .refl (by decide)
  have hreply : (ofMessage wanted.build).mismatches reply = [] := by decide
  refine ⟨by decide, ⟨List.reverse_perm _, order _ (List.reverse_perm _)⟩,
    ⟨hlike, letters _ hlike⟩, ⟨hends, (terminators _ hends).2⟩,
    ⟨List.sublist_cons_self _ _, more _ (List.sublist_cons_self _ _)⟩,
    ⟨List.reverse_perm _, asked _ (List.reverse_perm _)⟩, self, hreply, further _ self hreply⟩

end Template
end Switchboard
