import Switchboard.Proofs.Message.ExitToken
import Switchboard.Proofs.Message.RoundTrip
import Switchboard.Proofs.Scenario.Verdict

/-! A message that is sent by its template and compared with the same template. The codec may change
how the lines of a body end, and the comparison does not look at that. -/
namespace Switchboard

namespace Text

/-- What joins lines does not begin with a line feed. -/
theorem unlines_ne_feed {ls : List Text} (h : ∀ l ∈ ls, '\n' ∉ l) (s : Text) :
    unlines ls ≠ '\n' :: s := by
  cases ls with
  | nil => simp [unlines]
  | cons l ls =>
    have hl := h l List.mem_cons_self
    by_cases hls : ls = []
    · subst hls
      rintro rfl
      simp at hl
    · rw [unlines_cons l ls hls]
      exact append_cr_ne_feed (head?_ne_of_not_mem hl)

/-- A body that has been written and read has the lines that it had. -/
theorem lines_unlines_lines (t : Text) : lines (unlines (lines (t ++ ['\r', '\n']))) = lines t := by
  have hne (r : Text) : lines (r ++ ['\r', '\n']) ≠ [] := lines_ne_nil _ (by simp)
  fun_induction lines t with
  | case1 => rfl
  | case2 r ih =>
    rw [List.cons_append, lines, unlines_cons _ _ (hne r), List.nil_append, lines, ih]
  | case3 r ih =>
    rw [List.cons_append, List.cons_append, lines, unlines_cons _ _ (hne r), List.nil_append, lines, ih]
  | case4 c r hc hr h ih =>
    -- the last line, which had no end and has got one
    obtain rfl : r = [] := by
      by_contra hr
      exact lines_ne_nil r hr h
    have hl : lines ([c] ++ ['\r', '\n']) = [[c]] :=
      lines_append_crlf [c] [] (by simpa using Ne.symm hc)
    rw [hl, unlines, lines.eq_4 c [] hc (by simp)]
    rfl
  | case5 c r hc hr l ls h ih =>
    have hr' : ∀ s, c = '\r' → r ++ ['\r', '\n'] ≠ '\n' :: s := by
      rintro s rfl
      refine append_cr_ne_feed fun h => ?_
      obtain ⟨u, rfl⟩ := List.head?_eq_some_iff.1 h
      exact hr u rfl rfl
    have hf := feed_not_mem_of_mem_lines (r ++ ['\r', '\n'])
    cases hk : lines (r ++ ['\r', '\n']) with
    | nil => exact absurd hk (hne r)
    | cons k ks =>
      rw [hk] at hf ih
      rw [List.cons_append, lines_cons hc hr' hk, unlines_cons_cons]
      exact lines_cons hc (fun s _ => unlines_ne_feed hf s) (ih.trans h)

end Text

namespace Template
open Message (HeaderWellFormed)

def Survives (t : Template) : Prop :=
  ∃ body, Message.decodeBytes t.build.encodeBytes = .ok ⟨t.start, t.headers, body⟩

variable {t : Template}

theorem Survives.decode (h : t.Survives) : ∃ m, Message.decodeBytes t.build.encodeBytes = .ok m ∧
    m.start = t.start ∧ m.headers = t.headers ∧ Text.lines m.body = Text.lines t.content := by
  obtain ⟨body, hd⟩ := h
  have hd' : Message.decode t.build.encode = some ⟨t.start, t.headers, body⟩ := by
    rwa [Message.decodeBytes_encodeBytes, Message.parse_eq_ok_iff] at hd
  obtain ⟨hs, hh, -⟩ := Message.wellFormed_of_decode _ _ hd'
  have hr := Message.decode_encode_of_hasTokens t.build ((StartLine.startWellFormed_iff _).1 hs).1 hh
  obtain rfl : Text.unlines (Text.lines (t.content ++ ['\r', '\n'])) = body :=
    congrArg Message.body (Option.some.inj (hr.symm.trans hd'))
  exact ⟨_, hd, rfl, rfl, Text.lines_unlines_lines t.content⟩

/-- A message with the start line, the headers and the lines of the template meets it. -/
theorem mismatches_eq_nil {m : Message} (hs : m.start = t.start) (hh : m.headers = t.headers)
    (hb : Text.lines m.body = Text.lines t.content) : t.mismatches m = [] := by
  refine (mismatches_eq_nil_iff t m).2 ⟨hs, ?_, .inr ⟨_, Text.hasLines_lines _, ?_⟩⟩
  · rw [hh]
    exact .of_subset fun _ h => h
  · exact Text.hasLines_iff.2 hb

theorem Survives.not_exit (h : t.Survives) : Session.isExitToken t.build.encodeBytes = false := by
  obtain ⟨body, hd⟩ := h
  by_contra hx
  obtain ⟨e, he⟩ := Session.decodeBytes_of_isExitToken (by simpa using hx)
  simp [hd] at he

theorem Survives.ne_nil (h : t.Survives) : t.build.encodeBytes ≠ [] := by
  obtain ⟨body, hd⟩ := h
  intro hn
  have he : Message.decodeBytes [] = .error (.decode (.intro [])) := rfl
  simp [hn, he] at hd

/-- What the codec keeps of a template is a matter of its start line and its headers. -/
theorem survives_iff : t.Survives ↔
    Message.StartWellFormed t.start ∧ ∀ h ∈ t.headers, HeaderWellFormed h := by
  constructor
  · rintro ⟨body, hd⟩
    rw [Message.decodeBytes_encodeBytes, Message.parse_eq_ok_iff] at hd
    obtain ⟨hs, hh, -⟩ := Message.wellFormed_of_decode _ _ hd
    exact ⟨hs, hh⟩
  · rintro ⟨hs, hh⟩
    obtain ⟨ht, hr⟩ := (StartLine.startWellFormed_iff _).1 hs
    have hd := Message.decode_encode_of_hasTokens t.build ht hh
    refine ⟨Text.unlines (Text.lines (t.content ++ ['\r', '\n'])), ?_⟩
    rw [Message.decodeBytes_encodeBytes, Message.parse_eq_ok_iff, hd]
    exact congrArg (fun s => some (Message.mk s _ _)) hr

theorem Survives.withContent (h : t.Survives) (content : Text) :
    ({ t with content := content } : Template).Survives := by
  have hw := survives_iff.1 h
  exact survives_iff.2 hw

/-- When the codec keeps the start line and the headers of a template, the template is matched by its
own transmission, whatever it has for content. -/
theorem matches_own_transmission (t : Template) (h : t.Survives) (content : Text) :
    ∃ m, Message.decode ({ t with content := content } : Template).build.encode = some m ∧
      Message.decodeBytes ({ t with content := content } : Template).build.encodeBytes = .ok m ∧
      m.start = t.start ∧ m.headers = t.headers ∧ Text.lines m.body = Text.lines content ∧
      ({ t with content := content } : Template).mismatches m = [] := by
  obtain ⟨m, hd, hs, hh, hb⟩ := (h.withContent content).decode
  have ht := hd
  rw [Message.decodeBytes_encodeBytes, Message.parse_eq_ok_iff] at ht
  exact ⟨m, ht, hd, hs, hh, hb, mismatches_eq_nil hs hh hb⟩

def rugged : Text := "\n\ra\r\r\n\r\n\rb\n\n".toList

theorem matches_own_transmission_rugged : wanted.Survives ∧
    ∃ m, Message.decode ({ wanted with content := rugged } : Template).build.encode = some m ∧
      Message.decodeBytes ({ wanted with content := rugged } : Template).build.encodeBytes = .ok m ∧
      m.start = wanted.start ∧ m.headers = wanted.headers ∧
      Text.lines m.body = Text.lines rugged ∧
      ({ wanted with content := rugged } : Template).mismatches m = [] := by
  have h : wanted.Survives := ⟨"x\r\ny".toList, by decide +kernel⟩
  exact ⟨h, matches_own_transmission wanted h rugged⟩

end Template
end Switchboard
