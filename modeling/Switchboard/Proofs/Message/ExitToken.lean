import Switchboard.Proofs.Message.RoundTrip
import Switchboard.Proofs.Session.Lifecycle

/-! The exit token against messages. It is one word, and a message has a line of three, so no
payload is both, and a session to which a message comes goes on. -/
namespace Switchboard

namespace Text

theorem words_trimLeft (t : Text) : words (trimLeft t) = words t := by
  induction t with
  | nil => rfl
  | cons c t ih =>
    by_cases hc : isBlank c = true
    · rw [words_cons_blank c t hc, ← ih, trimLeft, trimLeft, List.dropWhile_cons_of_pos hc]
    · rw [trimLeft, List.dropWhile_cons_of_neg hc]

theorem words_append_of_blank (t : Text) {s : Text} (h : ∀ c ∈ s, isBlank c = true) :
    words (t ++ s) = words t := by
  cases s with
  | nil => rw [List.append_nil]
  | cons c s =>
    have hs : words s = [] := words_of_blank fun d hd => h d (by simp [hd])
    rw [words_append_blank t c s (h c (by simp)), hs, List.append_nil]

theorem words_trimRight (t : Text) : words (trimRight t) = words t := by
  have ht : trimRight t ++ t.rtakeWhile isBlank = t := by
    have h := List.rdropWhile_append_rtakeWhile (p := isBlank) (l := t)
    exact h
  conv_rhs => rw [← ht]
  refine (words_append_of_blank _ fun c hc => ?_).symm
  exact List.mem_rtakeWhile_imp hc

theorem words_trim (t : Text) : words (trim t) = words t := by
  rw [trim, words_trimRight, words_trimLeft]

theorem words_cons_cons_blank {c d : Char} {t : Text} (hc : isBlank c = false)
    (hd : isBlank d = true) : words (c :: d :: t) = [c] :: words (d :: t) := by
  rw [words]
  simp [hc, hd]

/-- A line begins as the text does, unless it is empty. -/
theorem head_of_lines {c : Char} {r l : Text} {ls : List Text} (h : lines (c :: r) = l :: ls) :
    (isBlank c = true ∧ l = []) ∨ ∃ k, l = c :: k := by
  rw [lines.eq_def] at h
  split at h
  next => simp at *
  next he =>
    obtain ⟨rfl, -⟩ : c = '\n' ∧ _ := by simpa using he
    exact .inl ⟨by decide, (List.cons.inj h).1.symm⟩
  next he =>
    obtain ⟨rfl, -⟩ : c = '\r' ∧ _ := by simpa using he
    exact .inl ⟨by decide, (List.cons.inj h).1.symm⟩
  next he =>
    obtain ⟨rfl, rfl⟩ := List.cons.inj he
    split at h
    · exact .inr ⟨[], (List.cons.inj h).1.symm⟩
    · exact .inr ⟨_, (List.cons.inj h).1.symm⟩

/-- No word goes over the end of a line. -/
theorem words_eq_flatMap_lines (t : Text) : words t = (lines t).flatMap words := by
  fun_induction lines t with
  | case1 => rfl
  | case2 r ih => rw [words_cons_blank _ _ (by decide), ih]; rfl
  | case3 r ih =>
    rw [words_cons_blank _ _ (by decide), words_cons_blank _ _ (by decide), ih]
    rfl
  | case4 c r hc hr h ih =>
    obtain rfl : r = [] := by
      by_contra hne
      exact lines_ne_nil r hne h
    simp
  | case5 c r hc hr l ls h ih =>
    rw [h, List.flatMap_cons] at ih
    rw [List.flatMap_cons]
    by_cases hb : isBlank c = true
    · rw [words_cons_blank c r hb, words_cons_blank c l hb, ih]
    · have hb : isBlank c = false := by simpa using hb
      cases r with
      | nil => simp [lines] at h
      | cons d r =>
        obtain ⟨hd, rfl⟩ | ⟨k, rfl⟩ := head_of_lines h
        · rw [words_cons_cons_blank hb hd, ih]
          simp [words, hb]
        · by_cases hd : isBlank d = true
          · rw [words_cons_cons_blank hb hd, words_cons_cons_blank hb hd, ih]
            rfl
          · have hd : isBlank d = false := by simpa using hd
            obtain ⟨w, ws, hk⟩ := List.exists_cons_of_ne_nil (words_ne_nil d k hd)
            rw [hk] at ih
            rw [words_cons_cons hb hd ih, words_cons_cons hb hd hk]
            rfl

end Text

namespace Message
open Text

/-- The reader finds the three words of a start line again, whatever follows them. -/
theorem exists_decode_encode (r : Message) (h : r.start.HasTokens) :
    ∃ s, decode r.encode = some s := by
  have hi : ¬isBlankLine (intro r.start) := by simp [isBlankLine_intro _ h]
  rw [decode, encode_eq, lines_append_crlf _ _ (feed_not_mem_intro _ h),
    List.dropWhile_cons_of_neg hi]
  simp only [words_intro _ h]
  exact ⟨_, rfl⟩

theorem encodeBytes_ne_nil (r : Message) (h : r.start.HasTokens) : r.encodeBytes ≠ [] := by
  intro hn
  obtain ⟨s, hs⟩ := exists_decode_encode r h
  have hs := (parse_eq_ok_iff _ _).2 hs
  rw [← decodeBytes_encodeBytes, hn] at hs
  have he : decodeBytes [] = .error (.decode (.intro [])) := rfl
  simp [he] at hs

end Message

namespace Session
open Message Text

/-- What asks for the end cannot be read as a message. -/
theorem decodeBytes_of_isExitToken {b : Bytes} (h : isExitToken b = true) :
    ∃ l, decodeBytes b = .error (.decode (.intro l)) := by
  unfold isExitToken at h
  unfold decodeBytes
  cases hb : Utf8.decode b with
  | error f => simp [hb] at h
  | ok t =>
    have ht : words t = [exitToken] := by
      have ht : trim t = exitToken := by simpa [hb] using h
      rw [← words_trim, ht]
      rfl
    suffices hd : decode t = none by exact ⟨introLine t, by simp [parse, hd]⟩
    unfold decode
    split
    next => rfl
    next l ls hl =>
      split
      next a b c hw =>
        have hs : [a, b, c].Sublist (words t) := by
          have hm : l ∈ lines t := by
            refine (List.dropWhile_suffix isBlankLine).subset ?_
            rw [hl]
            exact List.mem_cons_self
          rw [words_eq_flatMap_lines, ← hw]
          exact List.sublist_flatten_of_mem (List.mem_map_of_mem hm)
        rw [ht] at hs
        simpa using hs.length_le
      next => rfl

theorem not_isExitToken_encodeBytes (r : Message) (h : r.start.HasTokens) :
    isExitToken r.encodeBytes = false := by
  by_contra hx
  obtain ⟨l, hl⟩ := decodeBytes_of_isExitToken (by simpa using hx)
  obtain ⟨s, hs⟩ := exists_decode_encode r h
  rw [decodeBytes_encodeBytes, (parse_eq_ok_iff _ _).2 hs] at hl
  simp at hl

def Move.brings? : Move → Option Bytes
  | .reply _ (.received data) => some data
  | .deliver _ data => some data
  | _ => none

namespace Machine
variable {m a : Machine} {v : Move} {data : Bytes}

theorem phase_obeyExit (h : isExitToken data = false) (s : Session) :
    (s.obeyExit data).phase = s.phase := by
  rw [obeyExit, h]
  rfl

theorem phase_recvDone (h : isExitToken data = false) (x : Task) (size : Nat) (m : Machine) :
    (m.recvDone x size data).session.phase = m.session.phase :=
  (calm_afterRecv x.id data x.job _).phase.trans (phase_obeyExit h _)

/-- Data that do not ask for the end leave the session in its phase, whoever has waited for them. -/
theorem phase_of_brings (hv : v.brings? = some data) (hd : data ≠ []) (h : isExitToken data = false)
    (hs : m.step v = some a) : a.session.phase = m.session.phase := by
  obtain ⟨b, r, rfl⟩ := List.exists_cons_of_ne_nil hd
  cases v with
  | deliver size data =>
    obtain rfl := Option.some.inj hv
    obtain rfl := Option.some.inj hs
    exact phase_obeyExit h _
  | reply t reply =>
    cases reply with
    | received data =>
      obtain rfl := Option.some.inj hv
      obtain ⟨x, -, hx⟩ := Option.bind_eq_some_iff.1 hs
      cases hw : x.wait with
      | receiving size d =>
        have ha : m.recvDone x size (b :: r) = a := by simpa [Machine.reply, hw] using hx
        rw [← ha, phase_recvDone h]
      | _ => simp [Machine.reply, hw] at hx
    | _ => simp [Move.brings?] at hv
  | _ => simp [Move.brings?] at hv

/-- Who waits to receive takes them. -/
theorem step_received {t : TaskId} {x : Task} {size : Nat} {d : Option Duration} (hd : data ≠ [])
    (ht : m.task? t = some x) (hw : x.wait = .receiving size d) :
    m.step (.reply t (.received data)) = some (m.recvDone x size data) := by
  obtain ⟨b, r, rfl⟩ := List.exists_cons_of_ne_nil hd
  simp [Machine.step, ht, Machine.reply, hw]

/-- No payload both asks for the end and reads as a message. So a message with three words in its
start line asks for nothing, whatever its headers and its body are: it can always be taken, and it
leaves an active session active, be it received or handed over. -/
theorem messages_never_exit :
    (∀ b, isExitToken b = true → ∃ l, decodeBytes b = .error (.decode (.intro l))) ∧
      ∀ r : Message, r.start.HasTokens → isExitToken r.encodeBytes = false ∧
        (∀ (m : Machine) t x size d, m.task? t = some x → x.wait = .receiving size d →
          m.step (.reply t (.received r.encodeBytes)) = some (m.recvDone x size r.encodeBytes)) ∧
        ∀ (m a : Machine) v, v.brings? = some r.encodeBytes → m.step v = some a →
          a.session.phase = m.session.phase ∧
            (m.session.state = .active → a.session.state = .active) := by
  refine ⟨fun b hb => decodeBytes_of_isExitToken hb, fun r hr => ?_⟩
  have hx := not_isExitToken_encodeBytes r hr
  have hn := encodeBytes_ne_nil r hr
  refine ⟨hx, fun m t x size d ht hw => step_received hn ht hw, fun m a v hv hs => ?_⟩
  have hp := phase_of_brings hv hn hx hs
  exact ⟨hp, fun hm => (congrArg (·.1) hp).trans hm⟩

def echo : Message where
  start := .request exitToken exitToken exitToken
  headers := [⟨"\nexit\n".toList, exitToken⟩]
  body := exitToken

def expecting : List Move := [.activate, .call (.recv 64)]

theorem messages_never_exit_echo :
    isExitToken (Utf8.encode "\u2003exit\r\n".toList) = true ∧
      (∃ l, decodeBytes (Utf8.encode "\u2003exit\r\n".toList) = .error (.decode (.intro l))) ∧
      echo.start.HasTokens ∧ isExitToken echo.encodeBytes = false ∧
      ∃ m a, (opened .client none 0).steps expecting = some m ∧ m.session.state = .active ∧
        m.step (.reply 0 (.received echo.encodeBytes)) = some a ∧ a.session.state = .active := by
  obtain ⟨hb, hr⟩ := messages_never_exit
  have he : isExitToken (Utf8.encode "\u2003exit\r\n".toList) = true := by decide +kernel
  have htoken : Message.IsToken exitToken := Text.isToken_of_mem_words exitToken _ (by decide)
  have ht : echo.start.HasTokens := ⟨htoken, htoken, htoken⟩
  obtain ⟨hx, -, hp⟩ := hr echo ht
  have h : ((opened .client none 0).steps expecting).bind (fun m =>
      (m.step (.reply 0 (.received echo.encodeBytes))).map fun _ => m.session.state) =
        some .active := by
    decide +kernel
  obtain ⟨m, hm, h⟩ := Option.bind_eq_some_iff.1 h
  obtain ⟨a, ha, hs⟩ := Option.map_eq_some_iff.1 h
  obtain ⟨-, hp⟩ := hp m a (.reply 0 (.received echo.encodeBytes)) rfl ha
  exact ⟨he, hb _ he, ht, hx, m, a, hm, hs, ha, hp hs⟩

end Machine
end Session
end Switchboard
