import Switchboard.Message.Codec

/-! Lines and their terminators. Cutting a text at its line feeds undoes joining lines, and joining
undoes cutting for the texts whose every line feed stands behind a carriage return. -/
namespace Switchboard.Text

/-- What ends a line does not begin with a line feed unless the line does. -/
theorem append_cr_ne_feed {l r s : Text} (hl : l.head? ≠ some '\n') :
    l ++ '\r' :: r ≠ '\n' :: s := by
  intro h
  cases l with
  | nil => simp at h
  | cons c l => simp_all

theorem head?_ne_of_not_mem {c : Char} {l : Text} (hl : c ∉ l) : l.head? ≠ some c :=
  fun h => hl (List.mem_of_mem_head? h)

theorem lines_cons_eq {c : Char} {r : Text} (hc : c ≠ '\n') (hr : ∀ s, c = '\r' → r ≠ '\n' :: s) :
    lines (c :: r) = match lines r with
      | [] => [[c]]
      | l :: ls => (c :: l) :: ls :=
  lines.eq_4 c r hc hr

theorem lines_cons {c : Char} {r l : Text} {ls : List Text} (hc : c ≠ '\n')
    (hr : ∀ s, c = '\r' → r ≠ '\n' :: s) (h : lines r = l :: ls) :
    lines (c :: r) = (c :: l) :: ls := by
  rw [lines_cons_eq hc hr, h]

theorem lines_singleton {c : Char} (hc : c ≠ '\n') : lines [c] = [[c]] :=
  lines_cons_eq hc (by simp)

theorem lines_cons_congr {c : Char} {r s : Text} (hc : c ≠ '\n') (hr : ∀ v, c = '\r' → r ≠ '\n' :: v)
    (hs : ∀ v, c = '\r' → s ≠ '\n' :: v) (h : lines r = lines s) : lines (c :: r) = lines (c :: s) := by
  rw [lines_cons_eq hc hr, lines_cons_eq hc hs, h]

/-- A line without a line feed, ended by both characters, is cut off as it is, even when it ends in
carriage returns of its own. -/
theorem lines_append_crlf (l r : Text) (hl : '\n' ∉ l) :
    lines (l ++ '\r' :: '\n' :: r) = l :: lines r := by
  induction l with
  | nil => rfl
  | cons c l ih =>
    obtain ⟨hc, hl⟩ : '\n' ≠ c ∧ '\n' ∉ l := by simpa using hl
    exact lines_cons hc.symm (fun s _ => append_cr_ne_feed (head?_ne_of_not_mem hl)) (ih hl)

theorem feed_not_mem_of_mem_lines (t : Text) : ∀ l ∈ lines t, '\n' ∉ l := by
  fun_induction lines t with
  | case1 => simp
  | case2 r ih => simpa using ih
  | case3 r ih => simpa using ih
  | case4 c r hc _ h ih => simpa using Ne.symm hc
  | case5 c r hc _ l ls h ih =>
    rw [h] at ih
    simpa [Ne.symm hc] using ih

theorem lines_ne_nil (t : Text) (ht : t ≠ []) : lines t ≠ [] := by
  fun_cases lines t with
  | case1 => exact absurd rfl ht
  | case2 | case3 | case4 | case5 => simp

theorem unlines_cons_cons (c : Char) (l : Text) (ls : List Text) :
    unlines ((c :: l) :: ls) = c :: unlines (l :: ls) := by
  cases ls <;> rfl

theorem unlines_cons (l : Text) (ls : List Text) (h : ls ≠ []) :
    unlines (l :: ls) = l ++ '\r' :: '\n' :: unlines ls := by
  cases ls with
  | nil => exact absurd rfl h
  | cons k ls => rfl

end Switchboard.Text

namespace Switchboard.Message
open Text

/-- What `returnsBeforeFeeds` decides: whatever stands before a line feed ends in a carriage return. -/
theorem returnsBeforeFeeds_iff (t : Text) :
    returnsBeforeFeeds t ↔ ∀ u v, t = u ++ '\n' :: v → ∃ w, u = w ++ ['\r'] := by
  fun_induction returnsBeforeFeeds t with
  | case1 => simp
  | case2 r =>
    constructor
    · simp
    · intro h
      obtain ⟨w, hw⟩ := h [] r rfl
      simp at hw
  | case3 r ih =>
    rw [ih]
    constructor
    · intro h u v huv
      match u with
      | [] => simp at huv
      | [c] =>
        obtain ⟨rfl, -⟩ : '\r' = c ∧ r = v := by simpa using huv
        exact ⟨[], rfl⟩
      | c :: d :: u =>
        obtain ⟨rfl, rfl, hrest⟩ : '\r' = c ∧ '\n' = d ∧ r = u ++ '\n' :: v := by simpa using huv
        obtain ⟨w, rfl⟩ := h u v hrest
        exact ⟨'\r' :: '\n' :: w, rfl⟩
    · intro h u v huv
      obtain ⟨w, hw⟩ := h ('\r' :: '\n' :: u) v (by simp [huv])
      match w with
      | [] => simp at hw
      | [c] => simp at hw
      | c :: d :: w => exact ⟨w, by simp_all⟩
  | case4 c r hc hr ih =>
    rw [ih]
    constructor
    · intro h u v huv
      cases u with
      | nil => simp_all
      | cons d u =>
        obtain ⟨rfl, hrest⟩ : c = d ∧ r = u ++ '\n' :: v := by simpa using huv
        obtain ⟨w, rfl⟩ := h u v hrest
        exact ⟨c :: w, rfl⟩
    · intro h u v huv
      obtain ⟨w, hw⟩ := h (c :: u) v (by simp [huv])
      cases w with
      | nil => simp_all
      | cons d w => exact ⟨w, by simp_all⟩

theorem returnsBeforeFeeds_append_crlf (l r : Text) (hl : '\n' ∉ l) :
    returnsBeforeFeeds (l ++ '\r' :: '\n' :: r) = returnsBeforeFeeds r := by
  induction l with
  | nil => rfl
  | cons c l ih =>
    obtain ⟨hc, hl⟩ : '\n' ≠ c ∧ '\n' ∉ l := by simpa using hl
    rw [List.cons_append, returnsBeforeFeeds]
    · exact ih hl
    · exact hc.symm
    · exact fun s _ => append_cr_ne_feed (head?_ne_of_not_mem hl)

theorem returnsBeforeFeeds_of_feed_not_mem (l : Text) (hl : '\n' ∉ l) : returnsBeforeFeeds l := by
  rw [returnsBeforeFeeds_iff]
  intro u v h
  simp [h] at hl

/-- Joined lines have no other line feeds than those of the separators. -/
theorem returnsBeforeFeeds_unlines (ls : List Text) (h : ∀ l ∈ ls, '\n' ∉ l) :
    returnsBeforeFeeds (unlines ls) := by
  fun_induction unlines ls with
  | case1 => rfl
  | case2 l => exact returnsBeforeFeeds_of_feed_not_mem l (h l (by simp))
  | case3 l ls _ ih =>
    rw [returnsBeforeFeeds_append_crlf l _ (h l (by simp))]
    exact ih fun k hk => h k (by simp [hk])

/-- The separator that a writer puts behind a body goes away again when the body is read. -/
theorem unlines_lines_append_crlf (t : Text) (ht : returnsBeforeFeeds t) :
    unlines (lines (t ++ ['\r', '\n'])) = t := by
  fun_induction returnsBeforeFeeds t with
  | case1 => rfl
  | case2 r => simp at ht
  | case3 r ih =>
    have hne := lines_ne_nil (r ++ ['\r', '\n']) (by simp)
    rw [List.cons_append, List.cons_append, lines, unlines_cons _ _ hne, ih ht]
    rfl
  | case4 c r hc hr ih =>
    have hr' : ∀ s, c = '\r' → r ++ ['\r', '\n'] ≠ '\n' :: s := by
      rintro s rfl
      refine append_cr_ne_feed fun h => ?_
      obtain ⟨u, rfl⟩ := List.head?_eq_some_iff.1 h
      exact hr u rfl rfl
    cases h : lines (r ++ ['\r', '\n']) with
    | nil => exact absurd h (lines_ne_nil _ (by simp))
    | cons l ls => rw [List.cons_append, lines_cons hc hr' h, unlines_cons_cons, ← h, ih ht]

end Switchboard.Message
