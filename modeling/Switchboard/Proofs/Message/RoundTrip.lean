import Switchboard.Proofs.Text.Decimal
import Switchboard.Proofs.Text.Lines
import Switchboard.Proofs.Text.Utf8
import Switchboard.Proofs.Text.Words

/-! The reader against the writer. The messages that the wire carries unchanged are the well-formed
ones, and these are just the messages that reading some text can give. -/
namespace Switchboard

namespace StartLine
open Message (IsToken StartWellFormed)

def HasTokens (s : StartLine) : Prop :=
  IsToken s.tokens.1 ∧ IsToken s.tokens.2.1 ∧ IsToken s.tokens.2.2

def reread (s : StartLine) : StartLine := ofTokens s.tokens.1 s.tokens.2.1 s.tokens.2.2

/-- A request that looks like a response: a slash in its method, a status code for its address. -/
def LooksLikeResponse : StartLine → Prop
  | request m u _ => '/' ∈ m ∧ (code? u).isSome
  | response .. => False

theorem reread_request (m u v : Text) :
    reread (request m u v) = request m u v ↔ ¬LooksLikeResponse (request m u v) := by
  simp only [reread, tokens, ofTokens, LooksLikeResponse]
  cases code? u with
  | none => simp
  | some c => by_cases hm : '/' ∈ m <;> simp [hm]

theorem reread_response (v : Text) (c : UInt16) (r : Text) :
    reread (response v c r) = response v c r ↔ '/' ∈ v := by
  simp only [reread, tokens, ofTokens, code?_decimal]
  by_cases hv : '/' ∈ v <;> simp [hv]

theorem reread_eq_self_iff (s : StartLine) (hs : s.kind = .response → '/' ∈ s.version) :
    s.reread = s ↔ ¬s.LooksLikeResponse := by
  cases s with
  | request m u v => exact reread_request m u v
  | response v c r =>
    rw [reread_response]
    exact iff_of_true (hs rfl) id

theorem kind_reread (s : StartLine) (h : s.LooksLikeResponse) : s.reread.kind = .response := by
  cases s with
  | request m u v =>
    obtain ⟨hm, hu⟩ := h
    obtain ⟨c, hc⟩ := Option.isSome_iff_exists.1 hu
    simp [reread, tokens, ofTokens, hc, hm, kind]
  | response v c r => exact h.elim

theorem startWellFormed_iff (s : StartLine) : StartWellFormed s ↔ s.HasTokens ∧ s.reread = s := by
  cases s with
  | request m u v =>
    rw [reread_request, StartWellFormed, HasTokens, tokens, LooksLikeResponse]
    tauto
  | response v c r =>
    rw [reread_response, StartWellFormed, HasTokens, tokens]
    have := Text.isToken_decimal c.toNat
    tauto

/-- Whatever three tokens the reader takes for a start line, it takes them so again. -/
theorem startWellFormed_ofTokens (a b c : Text) (ha : IsToken a) (hb : IsToken b) (hc : IsToken c) :
    StartWellFormed (ofTokens a b c) := by
  unfold ofTokens
  cases h : code? b with
  | none => exact ⟨ha, hb, hc, by simp [h]⟩
  | some n =>
    dsimp only
    split
    next hs => exact ⟨ha, hc, hs⟩
    next hs => exact ⟨ha, hb, hc, by simp [hs]⟩

end StartLine

namespace Header
open Message (HeaderWellFormed)

theorem feed_not_mem_line (h : Header) (hh : HeaderWellFormed h) : '\n' ∉ h.line := by
  obtain ⟨-, -, hn, hv, -⟩ := hh
  simp [line, hn, hv]

theorem ofLine?_line (h : Header) (hh : HeaderWellFormed h) : ofLine? h.line = some h := by
  obtain ⟨hn, hv, -, -, hc⟩ := hh
  rw [ofLine?, line, Text.splitAt?_append ':' _ _ hc]
  simp [Text.trim_cons_blank, Text.isBlank, hn, hv]

theorem headerWellFormed_ofLine? (l : Text) (h : Header) (hl : '\n' ∉ l) (ho : ofLine? l = some h) :
    HeaderWellFormed h := by
  obtain ⟨⟨n, v⟩, hs, rfl⟩ := Option.map_eq_some_iff.1 ho
  obtain ⟨rfl, hc⟩ := Text.eq_append_of_splitAt? ':' hs
  have hn : '\n' ∉ n := fun h => hl (by simp [h])
  have hv : '\n' ∉ v := fun h => hl (by simp [h])
  refine ⟨Text.trim_trim n, Text.trim_trim v, ?_, ?_, ?_⟩
  · exact fun h => hn (Text.mem_of_mem_trim _ _ h)
  · exact fun h => hv (Text.mem_of_mem_trim _ _ h)
  · exact fun h => hc (Text.mem_of_mem_trim _ _ h)

/-- The colon keeps a header from being taken for the end of the headers. -/
theorem isBlankLine_line (h : Header) : Message.isBlankLine h.line = false := by
  simp [Message.isBlankLine, line, Text.isBlank]

end Header

namespace Message
open Text

def intro (s : StartLine) : Text := s.tokens.1 ++ ' ' :: (s.tokens.2.1 ++ ' ' :: s.tokens.2.2)

theorem words_intro (s : StartLine) (hs : s.HasTokens) :
    words (intro s) = [s.tokens.1, s.tokens.2.1, s.tokens.2.2] := by
  obtain ⟨ha, hb, hc⟩ := hs
  rw [intro, words_append_blank _ ' ' _ rfl, words_append_blank _ ' ' _ rfl]
  rw [words_of_isToken _ ha, words_of_isToken _ hb, words_of_isToken _ hc]
  rfl

theorem encode_eq (m : Message) : m.encode = intro m.start ++ '\r' :: '\n' ::
    ((m.headers.flatMap fun h => h.line ++ ['\r', '\n']) ++
      '\r' :: '\n' :: (m.body ++ ['\r', '\n'])) := by
  simp [encode, intro]

theorem feed_not_mem_intro (s : StartLine) (hs : s.HasTokens) : '\n' ∉ intro s := by
  have feed (t : Text) (ht : IsToken t) : '\n' ∉ t := fun h => absurd (ht.2 _ h) (by decide)
  obtain ⟨ha, hb, hc⟩ := hs
  simp [intro, feed _ ha, feed _ hb, feed _ hc]

theorem isBlankLine_intro (s : StartLine) (hs : s.HasTokens) : isBlankLine (intro s) = false := by
  obtain ⟨⟨hne, hb⟩, -⟩ := hs
  obtain ⟨c, r, h⟩ := List.exists_cons_of_ne_nil hne
  have hc : isBlank c = false := hb c (by simp [h])
  simp [isBlankLine, intro, h, hc]

theorem lines_headers_append (hs : List Header) (r : Text) (h : ∀ x ∈ hs, HeaderWellFormed x) :
    lines ((hs.flatMap fun x => x.line ++ ['\r', '\n']) ++ r) = hs.map Header.line ++ lines r := by
  induction hs with
  | nil => rfl
  | cons x hs ih =>
    have hx := x.feed_not_mem_line (h x (by simp))
    have ih := ih fun y hy => h y (by simp [hy])
    rw [List.flatMap_cons, List.append_assoc, List.append_assoc, List.cons_append, List.cons_append,
      List.nil_append, lines_append_crlf _ _ hx, ih]
    rfl

theorem lines_encode (m : Message) (hs : m.start.HasTokens)
    (hh : ∀ h ∈ m.headers, HeaderWellFormed h) :
    lines m.encode = intro m.start ::
      (m.headers.map Header.line ++ [] :: lines (m.body ++ ['\r', '\n'])) := by
  rw [encode_eq, lines_append_crlf _ _ (feed_not_mem_intro _ hs), lines_headers_append _ _ hh]
  simp only [lines]

theorem filterMap_ofLine?_lines (hs : List Header) (h : ∀ x ∈ hs, HeaderWellFormed x) :
    (hs.map Header.line).filterMap Header.ofLine? = hs := by
  induction hs with
  | nil => rfl
  | cons x hs ih =>
    rw [List.map_cons, List.filterMap_cons, x.ofLine?_line (h x (by simp))]
    simp only [ih fun y hy => h y (by simp [hy])]

/-- Headers are read up to the first blank line, and the rest is the body. -/
theorem ofLines_headers (s : StartLine) (hs : List Header) (ls : List Text)
    (h : ∀ x ∈ hs, HeaderWellFormed x) :
    ofLines s (hs.map Header.line ++ [] :: ls) = ⟨s, hs, unlines ls⟩ := by
  have hp : ∀ l ∈ hs.map Header.line, (!isBlankLine l) = true := by
    intro l hl
    obtain ⟨x, -, rfl⟩ := List.mem_map.1 hl
    simp [x.isBlankLine_line]
  have hn : isBlankLine [] = true := rfl
  rw [ofLines, List.takeWhile_append_of_pos hp, List.dropWhile_append_of_pos hp]
  simp [hn, filterMap_ofLine?_lines hs h]

/-- What the reader makes of a written message whose start line and headers stay in their places. -/
theorem decode_encode_of_hasTokens (m : Message) (hs : m.start.HasTokens)
    (hh : ∀ h ∈ m.headers, HeaderWellFormed h) :
    decode m.encode =
      some ⟨m.start.reread, m.headers, unlines (lines (m.body ++ ['\r', '\n']))⟩ := by
  have hi : ¬isBlankLine (intro m.start) := by simp [isBlankLine_intro _ hs]
  rw [decode, lines_encode m hs hh, List.dropWhile_cons_of_neg hi]
  simp only [words_intro _ hs, ofLines_headers _ _ _ hh, StartLine.reread]

theorem decode_encode_of_wellFormed (m : Message) (h : m.WellFormed) :
    decode m.encode = some m := by
  obtain ⟨hs, hh, hb⟩ := h
  obtain ⟨ht, hr⟩ := (StartLine.startWellFormed_iff _).1 hs
  rw [decode_encode_of_hasTokens m ht hh, hr, unlines_lines_append_crlf _ hb]

/-- Whatever text is read, only well-formed messages come out. -/
theorem wellFormed_of_decode (t : Text) (m : Message) (h : decode t = some m) : m.WellFormed := by
  have hf := feed_not_mem_of_mem_lines t
  unfold decode at h
  split at h
  next => simp at h
  next l ls hl =>
    have hls : ∀ k ∈ ls, '\n' ∉ k := by
      intro k hk
      refine hf k ((List.dropWhile_suffix isBlankLine).subset ?_)
      rw [hl]
      exact List.mem_cons_of_mem l hk
    split at h
    next a b c hw =>
      obtain rfl : ofLines (.ofTokens a b c) ls = m := by simpa using h
      have token (w : Text) (h : w ∈ [a, b, c]) : IsToken w := isToken_of_mem_words l w (hw ▸ h)
      refine ⟨?_, ?_, ?_⟩
      · exact StartLine.startWellFormed_ofTokens a b c (token a (by simp)) (token b (by simp))
          (token c (by simp))
      · intro x hx
        obtain ⟨k, hk, hx⟩ := List.mem_filterMap.1 hx
        exact x.headerWellFormed_ofLine? k (hls k (List.takeWhile_subset _ hk)) hx
      · refine returnsBeforeFeeds_unlines _ fun k hk => hls k ?_
        exact (List.dropWhile_suffix _).subset (List.mem_of_mem_drop hk)
    next => simp at h

theorem decodeBytes_encodeBytes (m : Message) : decodeBytes m.encodeBytes = parse m.encode := by
  rw [decodeBytes, encodeBytes, Utf8.decode_encode]

theorem parse_eq_ok_iff (t : Text) (m : Message) : parse t = .ok m ↔ decode t = some m := by
  unfold parse
  cases decode t <;> simp

/-- The wire carries a message unchanged, as text and as bytes, just when it is well formed. -/
theorem reads_back_iff_wellFormed (m : Message) :
    (decode m.encode = some m ↔ m.WellFormed) ∧ (decodeBytes m.encodeBytes = .ok m ↔ m.WellFormed) := by
  have h : decode m.encode = some m ↔ m.WellFormed :=
    ⟨wellFormed_of_decode m.encode m, decode_encode_of_wellFormed m⟩
  rw [decodeBytes_encodeBytes, parse_eq_ok_iff]
  exact ⟨h, h⟩

/-- What has been read once is well formed, so it reads back, and its wire form stays the same. -/
theorem decode_stable (t : Text) (m : Message) (h : decode t = some m) :
    decode m.encode = some m ∧ (decode m.encode).map encode = some m.encode := by
  have hm := decode_encode_of_wellFormed m (wellFormed_of_decode t m h)
  exact ⟨hm, by rw [hm]; rfl⟩

def strayText : Text :=
  "\r\n \u2003\nSIP/2.0\u00a0+007  \tOK \r\r\nno colon\nX :a\rb : c\r\n\u0085\nbody\r\rx\ny".toList

def strayMessage : Message where
  start := .response "SIP/2.0".toList 7 "OK".toList
  headers := [⟨"X".toList, "a\rb : c".toList⟩]
  body := "body\r\rx\r\ny".toList

theorem decode_stable_strayText :
    decode strayText = some strayMessage ∧ decode strayMessage.encode = some strayMessage ∧
      (decode strayMessage.encode).map encode = some strayMessage.encode :=
  ⟨by decide, decode_stable strayText strayMessage (by decide)⟩

end Message
end Switchboard
