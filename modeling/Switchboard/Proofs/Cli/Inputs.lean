import Switchboard.Cli.Play
import Switchboard.Proofs.Text.Utf8

/-! A text to be decoded may come from the standard input, from a file, or from the command line,
where its line breaks are escapes. Unescaping makes two replacements, one after the other. The
pattern of the second is the end of the pattern of the first, so what matters is what the first one
leaves for the second: only the feeds without a return. -/
namespace Switchboard

namespace Text

theorem replace_append {p : Text} (hp : p ≠ []) (r t : Text) :
    replace p r (p ++ t) = r ++ replace p r t := by
  obtain ⟨c, q, rfl⟩ := List.exists_cons_of_ne_nil hp
  have hl : max 1 (c :: q).length = (c :: q).length := by simp
  have hm : (c :: q).isPrefixOf (c :: (q ++ t)) := by
    rw [List.isPrefixOf_iff_prefix]
    exact List.prefix_append (c :: q) t
  rw [List.cons_append, replace, if_pos ⟨hp, hm⟩, hl, ← List.cons_append, List.drop_left]

/-- A character with which the pattern does not begin stays. -/
theorem replace_cons {c d : Char} (q r t : Text) (h : c ≠ d) :
    replace (c :: q) r (d :: t) = d :: replace (c :: q) r t := by
  rw [replace, if_neg (by simp [h])]

end Text

namespace Cli
open Text

def escapeBreaks : Text → Text
  | [] => []
  | '\r' :: '\n' :: t => '\\' :: 'r' :: '\\' :: 'n' :: escapeBreaks t
  | '\n' :: t => '\\' :: 'n' :: escapeBreaks t
  | c :: t => c :: escapeBreaks t

/-- What the first replacement makes of it: only feeds without a return are still escapes. -/
def escapeFeeds : Text → Text
  | [] => []
  | '\r' :: '\n' :: t => '\r' :: '\n' :: escapeFeeds t
  | '\n' :: t => '\\' :: 'n' :: escapeFeeds t
  | c :: t => c :: escapeFeeds t

theorem replace_escapeBreaks {t : Text} (h : '\\' ∉ t) :
    replace ['\\', 'r', '\\', 'n'] ['\r', '\n'] (escapeBreaks t) = escapeFeeds t := by
  fun_induction escapeBreaks t with
  | case1 => rw [replace, escapeFeeds]
  | case2 t ih =>
    have hr := replace_append (p := ['\\', 'r', '\\', 'n']) (by simp) ['\r', '\n'] (escapeBreaks t)
    rw [escapeFeeds, ← ih (by simp_all)]
    exact hr
  | case3 t ih =>
    -- the pattern begins as this escape does, but goes on with another letter
    rw [replace, if_neg (by simp), replace_cons _ _ _ (by decide), ih (by simp_all), escapeFeeds]
  | case4 c t hr hn ih =>
    obtain ⟨hc, ht⟩ : '\\' ≠ c ∧ '\\' ∉ t := by simpa using h
    rw [replace_cons _ _ _ hc, ih ht, escapeFeeds]
    · exact hr
    · exact hn

theorem replace_escapeFeeds {t : Text} (h : '\\' ∉ t) :
    replace ['\\', 'n'] ['\n'] (escapeFeeds t) = t := by
  fun_induction escapeFeeds t with
  | case1 => rw [replace]
  | case2 t ih =>
    rw [replace_cons _ _ _ (by decide), replace_cons _ _ _ (by decide), ih (by simp_all)]
  | case3 t ih =>
    have hr := replace_append (p := ['\\', 'n']) (by simp) ['\n'] (escapeFeeds t)
    rw [ih (by simp_all)] at hr
    exact hr
  | case4 c t hr hn ih =>
    obtain ⟨hc, ht⟩ : '\\' ≠ c ∧ '\\' ∉ t := by simpa using h
    rw [replace_cons _ _ _ hc, ih ht]

/-- Without a backslash of its own, a text comes out as it was. -/
theorem unescape_escapeBreaks {t : Text} (h : '\\' ∉ t) : unescape (escapeBreaks t) = t := by
  rw [unescape, replace_escapeBreaks h, replace_escapeFeeds h]

theorem head?_escapeBreaks {t : Text} (h : t.head? ≠ some '-') :
    (escapeBreaks t).head? ≠ some '-' := by
  fun_cases escapeBreaks t <;> simp_all

/-! The command lines. -/

theorem word_of_head? {w : Text} (h : w.head? ≠ some '-') : Word.of w = .operand := by
  unfold Word.of
  split <;> simp_all

def decodeLine (json : Bool) (rest : List Text) : List Text :=
  "decode".toList :: (if json then ["--json".toList] else []) ++ rest

namespace Scan
variable {σ : Type} {opts : List (Opt σ)} {w : Text} {ws : List Text} {s s' : Scan σ}

theorem read_operand (hw : Word.of w = .operand) (h : s.operand w = some (.ok s')) :
    read opts (w :: ws) s = read opts ws s' := by
  rw [read]
  simp only [hw, h]

/-- There is no place for it. -/
theorem read_extra (hw : Word.of w = .operand) (h : s.operands = []) :
    read opts (w :: ws) s = .extra w ws s.value := by
  rw [read]
  simp only [hw, operand, h]

theorem read_long {name : Text} {value : Option Text} (hw : Word.of w = .long name value)
    (h : s.long opts name value = .ok (s', none)) : read opts (w :: ws) s = read opts ws s' := by
  rw [read]
  simp only [hw, h]

/-- The option takes the next word. -/
theorem read_short {letters v : Text} {x : Waiting σ} (hw : Word.of w = .short letters)
    (h : s.short opts letters = .ok (s, some x)) (hv : Word.of v = .operand)
    (hs : s.apply x.opt (x.set v) = .ok s') : read opts (w :: v :: ws) s = read opts ws s' := by
  rw [read]
  simp only [hw, h, hv, if_true, hs]

end Scan

def decodeScan (json : Bool) : Scan (Globals × DecodeOptions) where
  value := ({}, { json })
  seen := if json then ["json"] else []
  operands := decodeOperands.map fun f t p => (f t p.2).map fun a => (p.1, a)

def decodeWords : List (Opt (Globals × DecodeOptions)) :=
  decodeOptions.map (Opt.lift Prod.snd fun a p => (p.1, a)) ++
    globalOptions.map (Opt.lift Prod.fst fun g p => (g, p.2)) ++ [helpOption _]

theorem arguments_of_done {ws : List Text} {p : Globals × DecodeOptions}
    (h : Scan.read decodeWords ws (decodeScan false) = .done p) :
    arguments decodeOptions decodeOperands {} ws = .ok p := by
  unfold arguments
  dsimp only
  split
  next q hq => exact congrArg _ (Ending.done.inj (hq.symm.trans h))
  next hq => exact absurd (hq.symm.trans h) (by simp)
  next hq => exact absurd (hq.symm.trans h) (by simp)

theorem parse_decodeLine {json : Bool} {rest : List Text} {o : DecodeOptions}
    (h : Scan.read decodeWords rest (decodeScan json) = .done ({}, o)) :
    parse (decodeLine json rest) = .ok ({}, .decode o) := by
  have hf : Scan.read decodeWords ((if json then ["--json".toList] else []) ++ rest)
      (decodeScan false) = .done ({}, o) := by
    cases json with
    | false => exact h
    | true =>
      have hl : (decodeScan false).long decodeWords "json".toList none =
          .ok (decodeScan true, none) := by rfl
      rw [if_pos rfl, List.singleton_append, Scan.read_long (by rfl) hl, h]
  rw [parse, decodeLine, List.cons_append, Scan.read_extra (by rfl) rfl]
  simp only [command]
  rw [if_neg (by decide), if_neg (by decide), if_neg (by decide), if_neg (by decide),
    if_pos trivial, arguments_of_done hf]
  rfl

theorem parse_nothing (json : Bool) : parse (decodeLine json []) = .ok ({}, .decode { json }) :=
  parse_decodeLine (by rw [Scan.read]; rfl)

theorem parse_text (json : Bool) {t : Text} (h : Word.of t = .operand) :
    parse (decodeLine json [t]) = .ok ({}, .decode { input := some t, json }) :=
  parse_decodeLine (by rw [Scan.read_operand h rfl, Scan.read]; rfl)

def fileSet (p : Text) (v : Globals × DecodeOptions) : Option (Globals × DecodeOptions) :=
  (path (fun t o => { o with file := some t }) p v.2).map fun o => (v.1, o)

def fileScan (json : Bool) (p : Text) : Scan (Globals × DecodeOptions) :=
  { decodeScan json with
    value := ({}, { file := some p, json }), seen := "file" :: (decodeScan json).seen }

theorem apply_fileSet (json : Bool) {p : Text} (hp : p ≠ []) {o : Opt (Globals × DecodeOptions)}
    (ho : o.long = "file") : (decodeScan json).apply o (fileSet p) = .ok (fileScan json p) := by
  have hn : "file" ∉ (decodeScan json).seen := by cases json <;> decide
  have hs : fileSet p (decodeScan json).value = some ({}, { file := some p, json }) := by
    rw [fileSet, path, if_neg hp]
    rfl
  rw [Scan.apply, ho, if_neg hn, hs]
  rfl

/-- A file may be named in the word of its option, or in the next. -/
theorem parse_file (json : Bool) {p : Text} (hp : p ≠ []) :
    parse (decodeLine json ["--file=".toList ++ p]) = .ok ({}, .decode { file := some p, json }) ∧
      (Word.of p = .operand →
        parse (decodeLine json ["-f".toList, p]) = .ok ({}, .decode { file := some p, json })) := by
  constructor
  · have hl : (decodeScan json).long decodeWords "file".toList (some p) =
        .ok (fileScan json p, none) := by
      have ha := apply_fileSet json hp (o := decodeWords.head (by decide)) rfl
      exact congrArg (Except.map (·, none)) ha
    exact parse_decodeLine (by rw [Scan.read_long (by rfl) hl, Scan.read]; rfl)
  · intro hw
    have ha := apply_fileSet json hp (o := decodeWords.head (by decide)) rfl
    exact parse_decodeLine (by rw [Scan.read_short (by rfl) (by rfl) hw ha, Scan.read]; rfl)

theorem play_decode {net : Network} {w : Surroundings} {words : List Text} {g : Globals}
    {o : DecodeOptions} {t : Text} (hp : parse words = .ok (g, .decode o))
    (hr : readInput w o = .ok t) :
    play net w words = .ok (some (.ofMessage o.json (Message.decode t))) := by
  have hd : decode w o = .ofMessage o.json (Message.decode t) := by rw [decode, hr]
  rw [play, hp, ← hd]
  rfl

/-- What is written as UTF-8 is the same text when it is read. -/
theorem readText_encode (t : Text) : (Entry.file (Utf8.encode t)).readText = .ok t := by
  simp [Entry.readText, Entry.read, Utf8.decode_encode, bind, Except.bind]

/-- From the standard input, asked for or not, from a file, or from the command line with its breaks
escaped, a text gives the same: what is said of its message, or a failure. -/
theorem decode_inputs_agree (net : Network) (json : Bool) (t : Text) (ht : '\\' ∉ t)
    (hd : t.head? ≠ some '-') :
    ∃ o : Output,
      (∀ w, w.input = Utf8.encode t → play net w (decodeLine json []) = .ok (some o) ∧
        play net w (decodeLine json [['-']]) = .ok (some o)) ∧
      (∀ w p, p ≠ [] → w.files p = .file (Utf8.encode t) →
        play net w (decodeLine json ["--file=".toList ++ p]) = .ok (some o) ∧
        (p.head? ≠ some '-' → play net w (decodeLine json ["-f".toList, p]) = .ok (some o))) ∧
      (∀ w, play net w (decodeLine json [escapeBreaks t]) = .ok (some o)) ∧
      (∀ m, Message.decode t = some m →
        o = ⟨0, if json then m.toJson.pretty 0 ++ ['\n'] else m.describe, []⟩) ∧
      (Message.decode t = none → o = ⟨1, [], "invalid sip content\n".toList⟩) := by
  refine ⟨.ofMessage json (Message.decode t), ?input, ?file, ?text, ?said, ?failed⟩
  case input =>
    intro w hw
    have hr : (Entry.file w.input).readText = .ok t := by rw [hw, readText_encode]
    exact ⟨play_decode (parse_nothing json) hr, play_decode (parse_text json (by rfl)) hr⟩
  case file =>
    intro w p hp hw
    have hr : (w.files p).readText = .ok t := by rw [hw, readText_encode]
    obtain ⟨hl, hs⟩ := parse_file json hp
    exact ⟨play_decode hl hr, fun hh => play_decode (hs (word_of_head? hh)) hr⟩
  case text =>
    intro w
    have hh := head?_escapeBreaks hd
    have hne : escapeBreaks t ≠ ['-'] := fun h => by simp [h] at hh
    have hr : readInput w { input := some (escapeBreaks t), json } = .ok t := by
      show (if escapeBreaks t = ['-'] then _ else Except.ok (unescape (escapeBreaks t))) = _
      rw [if_neg hne, unescape_escapeBreaks ht]
    exact play_decode (parse_text json (word_of_head? hh)) hr
  case said =>
    intro m hm
    rw [hm]
    rfl
  case failed =>
    intro hm
    rw [hm]
    rfl

def ragged : Text := "\r\n\n\r\r\nBYE\r sip:a SIP/2.0\r\nX: y\n\r\n\n\r\rbody\r\r\n\r".toList

def desk : Surroundings where
  files := fun p => if p = "call.txt".toList then .file (Utf8.encode ragged) else .absent
  env := fun _ => none
  input := Utf8.encode ragged

theorem decode_inputs_agree_ragged : '\\' ∉ ragged ∧ ragged.head? ≠ some '-' ∧
    ∃ m, Message.decode ragged = some m ∧ m.headers = [⟨['X'], ['y']⟩] ∧
      play .absent desk ["decode".toList] = .ok (some ⟨0, m.describe, []⟩) ∧
      play .absent desk ["decode".toList, "-f".toList, "call.txt".toList] =
        .ok (some ⟨0, m.describe, []⟩) ∧
      play .absent desk ["decode".toList, escapeBreaks ragged] =
        .ok (some ⟨0, m.describe, []⟩) := by
  have ht : '\\' ∉ ragged := by decide
  have hd : ragged.head? ≠ some '-' := by decide
  obtain ⟨m, hm, hx⟩ : ∃ m, Message.decode ragged = some m ∧ m.headers = [⟨['X'], ['y']⟩] := by
    have h : (Message.decode ragged).map (·.headers) = some [⟨['X'], ['y']⟩] := by decide
    exact Option.map_eq_some_iff.1 h
  obtain ⟨o, hi, hf, hl, ho, -⟩ := decode_inputs_agree .absent false ragged ht hd
  obtain rfl := ho m hm
  have hc := hf desk "call.txt".toList (by decide) (by rfl)
  exact ⟨ht, hd, m, hm, hx, (hi desk rfl).1, hc.2 (by decide), hl desk⟩

end Cli
end Switchboard
