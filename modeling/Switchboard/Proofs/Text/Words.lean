import Mathlib.Data.List.DropRight
import Switchboard.Message.Codec

/-! Blanks: what is left of a text without those at its ends, and the words between them. -/
namespace Switchboard.Text
open Message (IsToken)

theorem trimLeft_trimLeft (t : Text) : trimLeft (trimLeft t) = trimLeft t :=
  List.dropWhile_idempotent isBlank t

/-- What stands at the left end stays there when the right end is trimmed. -/
theorem trimLeft_trimRight (t : Text) (h : trimLeft t = t) : trimLeft (trimRight t) = trimRight t := by
  obtain ⟨s, hs⟩ : trimRight t <+: t := List.rdropWhile_prefix isBlank _
  cases hr : trimRight t with
  | nil => rfl
  | cons c r =>
    rw [hr] at hs
    subst hs
    have hc : ¬isBlank c := List.dropWhile_eq_self_iff.1 h (by simp)
    simp [trimLeft, hc]

theorem trim_trim (t : Text) : trim (trim t) = trim t := by
  unfold trim
  rw [trimLeft_trimRight _ (trimLeft_trimLeft t)]
  exact List.rdropWhile_idempotent isBlank _

theorem trim_of_isToken (t : Text) (h : IsToken t) : trim t = t := by
  obtain ⟨-, hb⟩ := h
  have hl : trimLeft t = t := by
    cases t with
    | nil => rfl
    | cons c r => simp [trimLeft, hb c (by simp)]
  rw [trim, hl]
  exact List.rdropWhile_eq_self_iff.2 fun hne => by simp [hb _ (List.getLast_mem hne)]

theorem trim_cons_blank (c : Char) (t : Text) (hc : isBlank c) : trim (c :: t) = trim t := by
  simp [trim, trimLeft, hc]

theorem mem_of_mem_trim (c : Char) (t : Text) (h : c ∈ trim t) : c ∈ t := by
  have hl : trimRight (trimLeft t) <+: trimLeft t := List.rdropWhile_prefix isBlank _
  exact (List.dropWhile_suffix isBlank).subset (hl.subset h)

theorem words_cons_blank (c : Char) (t : Text) (hc : isBlank c) : words (c :: t) = words t := by
  cases t <;> simp [words, hc]

theorem words_cons_cons {c d : Char} {t w : Text} {ws : List Text} (hc : isBlank c = false)
    (hd : isBlank d = false) (h : words (d :: t) = w :: ws) :
    words (c :: d :: t) = (c :: w) :: ws := by
  rw [words]
  simp [hc, hd, h]

theorem words_ne_nil (c : Char) (t : Text) (hc : isBlank c = false) : words (c :: t) ≠ [] := by
  cases t with
  | nil => simp [words, hc]
  | cons d t =>
    rw [words, if_neg (by simp [hc])]
    split
    · simp
    · split <;> simp

/-- Words are cut at a blank; all other facts on blanks between words follow from this one. -/
theorem words_append_blank (t : Text) (c : Char) (r : Text) (hc : isBlank c) :
    words (t ++ c :: r) = words t ++ words r := by
  fun_induction words t with
  | case1 => exact words_cons_blank c r hc
  | case2 d t hd ih => rw [List.cons_append, words_cons_blank d _ hd, ih]
  | case3 d hd => simp [words, hd, hc]
  | case4 d hd e t he ih =>
    simp only [List.cons_append] at ih ⊢
    rw [words, if_neg hd, if_pos he, ih]
  | case5 d hd e t he h ih => exact absurd h (words_ne_nil e t (by simpa using he))
  | case6 d hd e t he w ws h ih =>
    simp only [h, List.cons_append] at ih ⊢
    exact words_cons_cons (by simpa using hd) (by simpa using he) ih

theorem isToken_of_mem_words (t : Text) : ∀ w ∈ words t, IsToken w := by
  fun_induction words t with
  | case1 => simp
  | case2 d t hd ih => exact ih
  | case3 d hd => simpa [IsToken] using hd
  | case4 d hd e t he ih => simpa [IsToken, hd] using ih
  | case5 d hd e t he h ih => exact absurd h (words_ne_nil e t (by simpa using he))
  | case6 d hd e t he w ws h ih =>
    simp only [h] at ih ⊢
    intro x hx
    obtain rfl | hx := List.mem_cons.1 hx
    · have hw : IsToken w := ih w (by simp)
      exact ⟨by simp, by simpa [hd] using hw.2⟩
    · exact ih x (by simp [hx])

theorem words_of_isToken (w : Text) (h : IsToken w) : words w = [w] := by
  induction w with
  | nil => exact absurd rfl h.1
  | cons c w ih =>
    have hc : isBlank c = false := h.2 c (by simp)
    cases w with
    | nil => simp [words, hc]
    | cons d w =>
      have hw : IsToken (d :: w) := ⟨by simp, fun e he => h.2 e (by simp [he])⟩
      exact words_cons_cons hc (hw.2 d (by simp)) (ih hw)

def Blank (t : Text) : Prop := ∀ c ∈ t, isBlank c = true

theorem blank_nil : Blank [] := by
  simp [Blank]

/-- The words of a text, said without the function that cuts it: tokens with blanks around them. -/
inductive HasWords : Text → List Text → Prop where
  | nil {s : Text} : Blank s → HasWords s []
  | cons {s w t : Text} {ws : List Text} : Blank s → IsToken w →
      (∀ c ∈ t.head?, isBlank c = true) → HasWords t ws → HasWords (s ++ w ++ t) (w :: ws)

theorem words_append_token {w t : Text} (hw : IsToken w) (ht : ∀ c ∈ t.head?, isBlank c = true) :
    words (w ++ t) = w :: words t := by
  cases t with
  | nil => simp [words_of_isToken w hw, words]
  | cons c t =>
    have hc : isBlank c = true := ht c rfl
    rw [words_append_blank w c t hc, words_cons_blank c t hc, words_of_isToken w hw]
    rfl

theorem words_blank_append {s : Text} (hs : Blank s) (t : Text) : words (s ++ t) = words t := by
  induction s with
  | nil => rfl
  | cons c s ih =>
    rw [List.cons_append, words_cons_blank c _ (hs c (by simp))]
    exact ih fun d hd => hs d (by simp [hd])

theorem words_of_blank {t : Text} (h : Blank t) : words t = [] := by
  have ht := words_blank_append h []
  rwa [List.append_nil] at ht

/-- One more blank in front leaves the words as they are. -/
theorem HasWords.blank {c : Char} {t : Text} {ws : List Text} (h : HasWords t ws)
    (hc : isBlank c = true) : HasWords (c :: t) ws := by
  have hs {s : Text} (hs : Blank s) : Blank (c :: s) := List.forall_mem_cons.2 ⟨hc, hs⟩
  cases h with
  | nil h => exact .nil (hs h)
  | cons h hw ht hr => exact .cons (hs h) hw ht hr

theorem HasWords.token {c : Char} {t : Text} {ws : List Text} (h : HasWords t ws)
    (hc : isBlank c = false) (ht : ∀ d ∈ t.head?, isBlank d = true) :
    HasWords (c :: t) ([c] :: ws) := by
  have hw : IsToken [c] := ⟨by simp, by simpa using hc⟩
  exact HasWords.cons blank_nil hw ht h

/-- A character in front of a word belongs to it. -/
theorem HasWords.letter {c d : Char} {t w : Text} {ws : List Text}
    (h : HasWords (d :: t) (w :: ws)) (hc : isBlank c = false) (hd : isBlank d = false) :
    HasWords (c :: d :: t) ((c :: w) :: ws) := by
  generalize hu : d :: t = u at h
  cases h with
  | @cons s _ r _ hs hw hr h =>
    have hs : s = [] := by
      cases s with
      | nil => rfl
      | cons e s =>
        obtain ⟨rfl, -⟩ := List.cons.inj hu
        simpa [hd] using hs d (by simp)
    subst hs
    have hw : IsToken (c :: w) := ⟨by simp, List.forall_mem_cons.2 ⟨hc, hw.2⟩⟩
    exact HasWords.cons blank_nil hw hr h

theorem hasWords_words (t : Text) : HasWords t (words t) := by
  fun_induction words t with
  | case1 => exact .nil blank_nil
  | case2 d t hd ih => exact ih.blank hd
  | case3 d hd => exact (HasWords.nil blank_nil).token (by simpa using hd) (by simp)
  | case4 d hd e t he ih => exact ih.token (by simpa using hd) (by simpa using he)
  | case5 d hd e t he h ih => exact absurd h (words_ne_nil e t (by simpa using he))
  | case6 d hd e t he w ws h ih =>
    rw [h] at ih ⊢
    exact ih.letter (by simpa using hd) (by simpa using he)

/-- A text has one list of words, and cutting it gives that list. -/
theorem hasWords_iff {t : Text} {ws : List Text} : HasWords t ws ↔ words t = ws := by
  constructor
  · intro h
    induction h with
    | nil h => exact words_of_blank h
    | cons hs hw ht _ ih => rw [List.append_assoc, words_blank_append hs, words_append_token hw ht, ih]
  · rintro rfl
    exact hasWords_words t

/-! The first copy of a character cuts a text in two. -/

theorem splitAt?_append (c : Char) (l r : Text) (h : c ∉ l) :
    splitAt? c (l ++ c :: r) = some (l, r) := by
  induction l with
  | nil => simp [splitAt?]
  | cons d l ih =>
    obtain ⟨hd, hl⟩ : c ≠ d ∧ c ∉ l := by simpa using h
    simp [splitAt?, hd.symm, ih hl]

theorem eq_append_of_splitAt? (c : Char) {t l r : Text} (h : splitAt? c t = some (l, r)) :
    t = l ++ c :: r ∧ c ∉ l := by
  induction t generalizing l with
  | nil => simp [splitAt?] at h
  | cons d t ih =>
    rw [splitAt?] at h
    split at h
    next hd =>
      obtain ⟨rfl, rfl⟩ : [] = l ∧ t = r := by simpa using h
      simp [hd]
    next hd =>
      obtain ⟨⟨u, v⟩, hu, hp⟩ := Option.map_eq_some_iff.1 h
      obtain ⟨rfl, rfl⟩ : d :: u = l ∧ v = r := by simpa using hp
      obtain ⟨rfl, hl⟩ := ih hu
      simp [hl, Ne.symm hd]

/-! All copies of a character cut a text in parts without it. -/

theorem cut_cons (c d : Char) (r : Text) : cut c (d :: r) =
    if d = c then [] :: cut c r
    else match cut c r with
      | [] => [[d]]
      | p :: ps => (d :: p) :: ps :=
  rfl

theorem cut_ne_nil (c : Char) (t : Text) : cut c t ≠ [] := by
  cases t with
  | nil => exact List.cons_ne_nil _ _
  | cons d r =>
    rw [cut_cons]
    split
    · simp
    · split <;> simp

theorem cut_append_cons (c : Char) (s t : Text) : cut c (s ++ c :: t) = cut c s ++ cut c t := by
  induction s with
  | nil => exact if_pos rfl
  | cons d s ih =>
    rw [List.cons_append, cut_cons, cut_cons, ih]
    split
    · rfl
    · cases h : cut c s with
      | nil => exact absurd h (cut_ne_nil c s)
      | cons p ps => rfl

theorem cut_of_not_mem {c : Char} {t : Text} (h : c ∉ t) : cut c t = [t] := by
  induction t with
  | nil => rfl
  | cons d t ih =>
    obtain ⟨hd, ht⟩ : c ≠ d ∧ c ∉ t := by simpa using h
    rw [cut_cons, if_neg hd.symm, ih ht]

end Switchboard.Text
