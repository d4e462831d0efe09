import Switchboard.Proofs.Text.Lines

/-! The lines of a text, said without the function that cuts it: `HasLines` is what `lines` computes.
Which terminators a text uses is no matter of its lines, but for a line that ends in a carriage
return of its own. -/
namespace Switchboard.Text

/-- The lines that make up a text. Each is ended by a line feed, with or without a carriage return
before it; the last may also end with the text. -/
inductive HasLines : Text → List Text → Prop where
  | nil : HasLines [] []
  | last {l : Text} : l ≠ [] → '\n' ∉ l → HasLines l [l]
  | feed {l t : Text} {ls : List Text} : '\n' ∉ l → l.getLast? ≠ some '\r' → HasLines t ls →
      HasLines (l ++ '\n' :: t) (l :: ls)
  | crlf {l t : Text} {ls : List Text} : '\n' ∉ l → HasLines t ls →
      HasLines (l ++ '\r' :: '\n' :: t) (l :: ls)

/-- Some lines of `t` ended in the other way. A line that ends in a carriage return is left alone: it
would lose that one, or gain one. -/
inductive Reterminated (t : Text) : Text → Prop where
  | refl : Reterminated t t
  | crlf {u v : Text} : Reterminated t (u ++ '\n' :: v) → u.getLast? ≠ some '\r' →
      Reterminated t (u ++ '\r' :: '\n' :: v)
  | feed {u v : Text} : Reterminated t (u ++ '\r' :: '\n' :: v) → u.getLast? ≠ some '\r' →
      Reterminated t (u ++ '\n' :: v)

/-- The last character stays the last one when another is put in front. -/
theorem getLast?_ne_of_cons {c d : Char} {u : Text} (h : (c :: u).getLast? ≠ some d) :
    u.getLast? ≠ some d := by
  cases u with
  | nil => simp
  | cons e u => simpa [List.getLast?_cons_cons] using h

/-- Both terminators end the same line, whatever stands before it and behind it. -/
theorem lines_append_feed (u v : Text) (hu : u.getLast? ≠ some '\r') :
    lines (u ++ '\n' :: v) = lines (u ++ '\r' :: '\n' :: v) := by
  induction u with
  | nil => rfl
  | cons c u ih =>
    have ih := ih (getLast?_ne_of_cons hu)
    by_cases hc : c = '\n'
    · subst hc
      exact congrArg ([] :: ·) ih
    by_cases hr : c = '\r' ∧ ∃ w, u = '\n' :: w
    · -- a terminator of two characters counts as its second one does
      obtain ⟨rfl, w, rfl⟩ := hr
      exact ih
    have hr : ∀ w, c = '\r' → u ≠ '\n' :: w := fun w h hw => hr ⟨h, w, hw⟩
    refine lines_cons_congr hc ?_ ?_ ih
    · rintro s rfl
      cases u with
      | nil => exact absurd rfl hu
      | cons d u =>
        rintro ⟨⟩
        exact hr u rfl rfl
    · rintro s rfl
      refine append_cr_ne_feed fun hd => ?_
      obtain ⟨w, rfl⟩ := List.head?_eq_some_iff.1 hd
      exact hr w rfl rfl

theorem Reterminated.lines {t u : Text} (h : Reterminated t u) : lines u = lines t := by
  induction h with
  | refl => rfl
  | crlf _ hu ih => exact (lines_append_feed _ _ hu).symm.trans ih
  | feed _ hu ih => exact (lines_append_feed _ _ hu).trans ih

theorem lines_of_feed_not_mem {l : Text} (hne : l ≠ []) (hl : '\n' ∉ l) : lines l = [l] := by
  induction l with
  | nil => exact absurd rfl hne
  | cons c l ih =>
    obtain ⟨hc, hl⟩ : '\n' ≠ c ∧ '\n' ∉ l := by simpa using hl
    have hr : ∀ s, c = '\r' → l ≠ '\n' :: s := by
      rintro s - rfl
      simp at hl
    cases l with
    | nil => exact lines_singleton hc.symm
    | cons d l => exact lines_cons hc.symm hr (ih (by simp) hl)

/-- A character that ends no line comes to the front of the first one. -/
theorem HasLines.cons {c : Char} {r l : Text} {ls : List Text} (h : HasLines r (l :: ls))
    (hc : c ≠ '\n') (hr : ∀ s, c = '\r' → r ≠ '\n' :: s) : HasLines (c :: r) ((c :: l) :: ls) := by
  have hmem {l : Text} (hl : '\n' ∉ l) : '\n' ∉ c :: l := by simpa [Ne.symm hc] using hl
  cases h with
  | last hne hl => exact .last (by simp) (hmem hl)
  | feed hl hlast ht =>
    refine .feed (hmem hl) ?_ ht
    cases l with
    | nil =>
      intro he
      obtain rfl : c = '\r' := by simpa using he
      exact hr _ rfl rfl
    | cons d l => simpa [List.getLast?_cons_cons] using hlast
  | crlf hl ht => exact .crlf (hmem hl) ht

theorem hasLines_lines (t : Text) : HasLines t (lines t) := by
  fun_induction lines t with
  | case1 => exact .nil
  | case2 r ih => exact .feed (l := []) (by simp) (by simp) ih
  | case3 r ih => exact .crlf (l := []) (by simp) ih
  | case4 c r hc hr h ih =>
    obtain rfl : r = [] := Decidable.byContradiction fun hne => lines_ne_nil r hne h
    exact .last (by simp) (by simpa using Ne.symm hc)
  | case5 c r hc hr l ls h ih => exact (h ▸ ih).cons hc hr

/-- A text has one list of lines, and cutting it gives that list. -/
theorem hasLines_iff {t : Text} {ls : List Text} : HasLines t ls ↔ lines t = ls := by
  constructor
  · intro h
    induction h with
    | nil => rfl
    | last hne hl => exact lines_of_feed_not_mem hne hl
    | feed hl hlast _ ih => rw [lines_append_feed _ _ hlast, lines_append_crlf _ _ hl, ih]
    | crlf hl _ ih => rw [lines_append_crlf _ _ hl, ih]
  · rintro rfl
    exact hasLines_lines t

end Switchboard.Text
