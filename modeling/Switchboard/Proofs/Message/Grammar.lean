import Switchboard.Proofs.Message.RoundTrip
import Switchboard.Proofs.Text.LineEnds

/-! What the reader takes, said without the reader. A text that reads has blank lines, a line of three
words, header lines, and perhaps a blank line with the body behind it; a refusal names the line that
should have had the three words. Both are said of the lines of the text, so the way each line is ended
is no matter. -/
namespace Switchboard

namespace StartLine
open Text (IsNumeral)

inductive IsStart (a b c : Text) : StartLine → Prop where
  | response {n : UInt16} : '/' ∈ a → IsNumeral b n.toNat → IsStart a b c (.response a n c)
  | request : (∀ n : UInt16, '/' ∈ a → ¬IsNumeral b n.toNat) → IsStart a b c (.request a b c)

theorem isStart_ofTokens (a b c : Text) : IsStart a b c (ofTokens a b c) := by
  unfold ofTokens
  cases h : code? b with
  | none =>
    refine .request fun n _ hn => ?_
    rw [code?_eq_some_iff.2 hn] at h
    exact Option.some_ne_none n h
  | some n =>
    dsimp only
    split
    next ha => exact .response ha (code?_eq_some_iff.1 h)
    next ha => exact .request fun _ h _ => ha h

theorem isStart_iff {a b c : Text} {s : StartLine} : IsStart a b c s ↔ ofTokens a b c = s := by
  constructor
  · rintro (⟨ha, hn⟩ | h)
    · simp [ofTokens, code?_eq_some_iff.2 hn, ha]
    · unfold ofTokens
      split
      next n hn => exact if_neg fun ha => h n ha (code?_eq_some_iff.1 hn)
      next => rfl
  · rintro rfl
    exact isStart_ofTokens a b c

end StartLine

namespace Message
open Text StartLine

theorem isBlankLine_iff {l : Text} : isBlankLine l = true ↔ Blank l :=
  List.all_eq_true

theorem not_isBlankLine_iff {l : Text} : (!isBlankLine l) = true ↔ ¬Blank l := by
  rw [Bool.not_eq_true', ← Bool.not_eq_true, isBlankLine_iff]

inductive HasHeaders : List Text → List Header → Prop where
  | nil : HasHeaders [] []
  | skip {l : Text} {ls : List Text} {hs : List Header} : ':' ∉ l → HasHeaders ls hs →
      HasHeaders (l :: ls) hs
  | cons {n v : Text} {ls : List Text} {hs : List Header} : ':' ∉ n → HasHeaders ls hs →
      HasHeaders ((n ++ ':' :: v) :: ls) (⟨trim n, trim v⟩ :: hs)

theorem ofLine?_eq_none {l : Text} (h : ':' ∉ l) : Header.ofLine? l = none := by
  refine Option.map_eq_none_iff.2 (Option.eq_none_iff_forall_ne_some.2 fun p hp => h ?_)
  obtain ⟨rfl, -⟩ := eq_append_of_splitAt? ':' hp
  simp

theorem ofLine?_append {n : Text} (v : Text) (h : ':' ∉ n) :
    Header.ofLine? (n ++ ':' :: v) = some ⟨trim n, trim v⟩ := by
  rw [Header.ofLine?, splitAt?_append ':' n v h]
  rfl

theorem hasHeaders_iff {ls : List Text} {hs : List Header} :
    HasHeaders ls hs ↔ ls.filterMap Header.ofLine? = hs := by
  constructor
  · intro h
    induction h with
    | nil => rfl
    | skip hl _ ih => rwa [List.filterMap_cons_none (ofLine?_eq_none hl)]
    | cons hn _ ih => rw [List.filterMap_cons_some (ofLine?_append _ hn), ih]
  · rintro rfl
    induction ls with
    | nil => exact .nil
    | cons l ls ih =>
      by_cases hl : ':' ∈ l
      · obtain ⟨n, v, rfl, hn⟩ := List.eq_append_cons_of_mem hl
        rw [List.filterMap_cons_some (ofLine?_append v hn)]
        exact .cons hn ih
      · rw [List.filterMap_cons_none (ofLine?_eq_none hl)]
        exact .skip hl ih

/-- What stands behind the headers: nothing, or a blank line and the lines of the body. -/
inductive HasBody : List Text → Text → Prop where
  | none : HasBody [] []
  | some {e : Text} {ls : List Text} : Blank e → HasBody (e :: ls) (List.intercalate ['\r', '\n'] ls)

theorem unlines_eq_intercalate (ls : List Text) : unlines ls = List.intercalate ['\r', '\n'] ls := by
  induction ls with
  | nil => rfl
  | cons l ls ih =>
    cases ls with
    | nil => exact List.intercalate_singleton.symm
    | cons k ls =>
      rw [unlines_cons _ _ (List.cons_ne_nil k ls), ih, List.intercalate_cons_cons]
      simp

inductive Reads (t : Text) : Message → Prop where
  | mk {blanks ls rest : List Text} {intro a b c body : Text} {s : StartLine} {hs : List Header} :
      HasLines t (blanks ++ intro :: (ls ++ rest)) → (∀ l ∈ blanks, Blank l) →
      HasWords intro [a, b, c] → IsStart a b c s →
      (∀ l ∈ ls, ¬Blank l) → HasHeaders ls hs → HasBody rest body → Reads t ⟨s, hs, body⟩

/-- The first line that is not blank, or the empty one when all are. -/
inductive FirstLine (t : Text) : Text → Prop where
  | none {ls : List Text} : HasLines t ls → (∀ l ∈ ls, Blank l) → FirstLine t []
  | some {blanks ls : List Text} {l : Text} : HasLines t (blanks ++ l :: ls) →
      (∀ b ∈ blanks, Blank b) → ¬Blank l → FirstLine t l

theorem not_blank_of_hasWords {l w : Text} {ws : List Text} (h : HasWords l (w :: ws)) : ¬Blank l := by
  intro hl
  have hw : words l = w :: ws := hasWords_iff.1 h
  simp [words_of_blank hl] at hw

/-- The blank lines in front are skipped, all of them and no other line. -/
theorem dropWhile_blank {bs ls : List Text} {l : Text} (hb : ∀ b ∈ bs, Blank b) (hl : ¬Blank l) :
    (bs ++ l :: ls).dropWhile isBlankLine = l :: ls := by
  rw [List.dropWhile_append_of_pos fun b h => isBlankLine_iff.2 (hb b h)]
  exact List.dropWhile_cons_of_neg (mt isBlankLine_iff.1 hl)

theorem eq_append_dropWhile_blank (ls : List Text) :
    ∃ bs, ls = bs ++ ls.dropWhile isBlankLine ∧ ∀ b ∈ bs, Blank b :=
  ⟨ls.takeWhile isBlankLine, List.takeWhile_append_dropWhile.symm,
    fun _ h => isBlankLine_iff.1 (List.mem_takeWhile_imp h)⟩

theorem ofLines_append {s : StartLine} {ls rest : List Text} {hs : List Header} {body : Text}
    (hls : ∀ l ∈ ls, ¬Blank l) (hh : HasHeaders ls hs) (hb : HasBody rest body) :
    ofLines s (ls ++ rest) = ⟨s, hs, body⟩ := by
  have hls : ∀ l ∈ ls, (!isBlankLine l) = true := fun l hl => not_isBlankLine_iff.2 (hls l hl)
  have hh := hasHeaders_iff.1 hh
  rw [ofLines, List.takeWhile_append_of_pos hls, List.dropWhile_append_of_pos hls]
  cases hb with
  | none => simp [hh, unlines]
  | some he => simp [hh, isBlankLine_iff.2 he, unlines_eq_intercalate]

theorem hasBody_dropWhile (ls : List Text) :
    HasBody (ls.dropWhile (!isBlankLine ·)) (unlines ((ls.dropWhile (!isBlankLine ·)).drop 1)) := by
  cases h : ls.dropWhile (!isBlankLine ·) with
  | nil => exact .none
  | cons e r =>
    have he : Blank e := by
      have he := List.head_dropWhile_not (!isBlankLine ·) (l := ls) (by simp [h])
      simp only [h, List.head_cons, Bool.not_eq_false'] at he
      exact isBlankLine_iff.1 he
    rw [List.drop_one, List.tail_cons, unlines_eq_intercalate]
    exact .some he

/-- The reader takes a text just when it is laid out so, and gives what it is laid out from. -/
theorem decode_eq_some_iff {t : Text} {m : Message} : decode t = some m ↔ Reads t m := by
  constructor
  · intro h
    obtain ⟨bs, hbs, hb⟩ := eq_append_dropWhile_blank (lines t)
    unfold decode at h
    split at h
    next => simp at h
    next l ls hl =>
      split at h
      next a b c hw =>
        obtain rfl := Option.some.inj h
        rw [hl, ← List.takeWhile_append_dropWhile (p := (!isBlankLine ·)) (l := ls)] at hbs
        refine .mk (hasLines_iff.2 hbs) hb (hasWords_iff.2 hw) (isStart_ofTokens a b c) ?_
          (hasHeaders_iff.2 rfl) (hasBody_dropWhile ls)
        exact fun k hk => not_isBlankLine_iff.1 (List.mem_takeWhile_imp (p := (!isBlankLine ·)) hk)
      next => simp at h
  · rintro ⟨hl, hb, hw, hs, hls, hh, hbody⟩
    rw [decode, hasLines_iff.1 hl, dropWhile_blank hb (not_blank_of_hasWords hw)]
    simp only [hasWords_iff.1 hw, isStart_iff.1 hs, ofLines_append hls hh hbody]

/-- The refusal looks for the line anew, and it comes to the one the reader stopped at. -/
theorem introLine_eq (t : Text) : introLine t = ((lines t).dropWhile isBlankLine).head?.getD [] := by
  rw [← List.find?_not_eq_head?_dropWhile]
  rfl

theorem firstLine_introLine (t : Text) : FirstLine t (introLine t) := by
  obtain ⟨bs, hbs, hb⟩ := eq_append_dropWhile_blank (lines t)
  rw [introLine_eq]
  cases h : (lines t).dropWhile isBlankLine with
  | nil =>
    rw [h, List.append_nil] at hbs
    exact .none (hasLines_iff.2 hbs) hb
  | cons l ls =>
    have hl : ¬Blank l := by
      have hl := List.head_dropWhile_not isBlankLine (l := lines t) (by simp [h])
      simp only [h, List.head_cons] at hl
      exact not_isBlankLine_iff.1 (by simp [hl])
    rw [h] at hbs
    exact .some (hasLines_iff.2 hbs) hb hl

theorem firstLine_iff {t l : Text} : FirstLine t l ↔ introLine t = l := by
  constructor
  · rintro (⟨hl, hb⟩ | ⟨hl, hb, hn⟩)
    · have hnil := List.dropWhile_eq_nil_iff.2 fun b h => isBlankLine_iff.2 (hb b h)
      rw [introLine_eq, hasLines_iff.1 hl, hnil]
      rfl
    · rw [introLine_eq, hasLines_iff.1 hl, dropWhile_blank hb hn]
      rfl
  · rintro rfl
    exact firstLine_introLine t

theorem decode_eq_none {t : Text} (h : ∀ a b c, ¬HasWords (introLine t) [a, b, c]) :
    decode t = none := by
  rw [introLine_eq] at h
  unfold decode
  split
  next => rfl
  next l ls hl =>
    split
    next a b c hw => exact absurd (hasWords_iff.2 hw) (by simpa [hl] using h a b c)
    next => rfl

/-- A text reads as a message just when it is laid out as one, whichever way its lines are ended. When
its first line that is not blank has not three words, it is refused, and the refusal quotes that
line. -/
theorem decode_grammar (t : Text) :
    (∀ m, decode t = some m ↔ Reads t m) ∧
      (∀ u ls, HasLines t ls → HasLines u ls → decode u = decode t) ∧
      (∃! l, FirstLine t l) ∧
      ∀ l, FirstLine t l → (∀ a b c, ¬HasWords l [a, b, c]) →
        decode t = none ∧ parse t = .error (.decode (.intro l)) ∧
          (Error.decode (.intro l)).message =
            "Decode error: invalid sip content, intro line: ".toList ++ quoted l := by
  refine ⟨fun m => decode_eq_some_iff, ?_,
    ⟨introLine t, firstLine_introLine t, fun _ hl => (firstLine_iff.1 hl).symm⟩, ?_⟩
  · intro u ls ht hu
    rw [decode, decode, hasLines_iff.1 ht, hasLines_iff.1 hu]
  · intro l hl h
    obtain rfl := firstLine_iff.1 hl
    have hd := decode_eq_none h
    exact ⟨hd, by simp [parse, hd], rfl⟩

def shortText : Text := "\u00a0\r\n\tBYE now\nX: y\n".toList

theorem decode_grammar_shortText :
    Reads strayText strayMessage ∧ decode shortText = none ∧
      parse shortText = .error (.decode (.intro "\tBYE now".toList)) := by
  obtain ⟨hr, -⟩ := decode_grammar strayText
  obtain ⟨-, -, -, hn⟩ := decode_grammar shortText
  have hl : FirstLine shortText "\tBYE now".toList := firstLine_iff.2 (by decide)
  have hw : words "\tBYE now".toList = ["BYE".toList, "now".toList] := by decide
  have hs (a b c : Text) : ¬HasWords "\tBYE now".toList [a, b, c] := fun h => by
    have h := hw.symm.trans (hasWords_iff.1 h)
    simp at h
  obtain ⟨hd, hp, -⟩ := hn _ hl hs
  exact ⟨(hr _).1 (by decide), hd, hp⟩

end Message
end Switchboard
