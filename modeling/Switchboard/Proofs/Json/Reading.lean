import Switchboard.Json.Reader
import Switchboard.Proofs.Text.Decimal

/-! What is printed without blanks is read as the same value. A value is read out of a longer text,
so everything is said of a text that goes on as it does inside a container. -/
namespace Switchboard.Json
open Text

def Ends (r : Text) : Prop := ∀ c ∈ r.head?, c = ',' ∨ c = ']' ∨ c = '}'

theorem ends_nil : Ends [] := by simp [Ends]

theorem ends_cons {c : Char} {r : Text} (h : c = ',' ∨ c = ']' ∨ c = '}') : Ends (c :: r) := by
  simpa [Ends] using h

theorem skip_cons {c : Char} (h : isSpace c = false) (r : Text) : skip (c :: r) = c :: r := by
  rw [skip, List.dropWhile_cons, h]
  rfl

/-! Strings. -/

theorem hex4_control : ∀ n < 0x20, ∀ r,
    hex4 ('0' :: '0' :: hexDigit (n / 16) :: hexDigit (n % 16) :: r) = some (n, r) := by
  intro n hn r
  have h : ∀ n < 0x20, readDigits hexDigit? 16 0
      ['0', '0', hexDigit (n / 16), hexDigit (n % 16)] = some n := by decide
  rw [hex4, h n hn]
  rfl

theorem joinPieces_code {n : Nat} (h : n < 0xD800) (us : List Unit16) :
    joinPieces (.code n :: us) = (joinPieces us).map (Char.ofNat n :: ·) := by
  have hh : isHigh n = false := by simp [isHigh]; omega
  have hl : isLow n = false := by simp [isLow]; omega
  rw [joinPieces.eq_def]
  split <;> simp_all

theorem pieces_letter (n : Nat) {l c : Char} (h : plainEscape? l = some c) (r : Text) :
    pieces (n + 1) ('\\' :: l :: r) = (pieces n r).map fun p => (.char c :: p.1, p.2) := by
  have hl : l ≠ 'u' := by rintro rfl; cases h
  rw [pieces.eq_def]
  simp [h, Option.map_eq_bind]

theorem pieces_code (n : Nat) {k : Nat} {t r : Text} (h : hex4 t = some (k, r)) :
    pieces (n + 1) ('\\' :: 'u' :: t) = (pieces n r).map fun p => (.code k :: p.1, p.2) := by
  simp [pieces, h, Option.map_eq_bind]

theorem pieces_char (n : Nat) {c : Char} (hq : c ≠ '"') (hb : c ≠ '\\') (hc : ¬c.toNat < 0x20)
    (r : Text) : pieces (n + 1) (c :: r) = (pieces n r).map fun p => (.char c :: p.1, p.2) := by
  rw [pieces.eq_def]
  simp [hb, hc, Option.map_eq_bind]

/-- A character is one piece, however it is written. -/
theorem pieces_escaped (n : Nat) (c : Char) (r : Text) :
    ∃ u, pieces (n + 1) (escaped c ++ r) = (pieces n r).map (fun p => (u :: p.1, p.2)) ∧
      ∀ us, joinPieces (u :: us) = (joinPieces us).map (c :: ·) := by
  fun_cases escaped c
  case case8 hq hb _ _ _ _ _ h =>
    refine ⟨.code c.toNat, pieces_code n (hex4_control _ h r), fun us => ?_⟩
    rw [joinPieces_code (by omega), Char.ofNat_toNat]
  case case9 hq hb _ _ _ _ _ h =>
    exact ⟨.char c, pieces_char n hq hb h r, fun _ => rfl⟩
  -- the others have a letter of their own
  all_goals exact ⟨.char _, pieces_letter n rfl r, fun _ => rfl⟩

theorem pieces_flatMap (t r : Text) {n : Nat} (hn : t.length < n) :
    ∃ us, pieces n (t.flatMap escaped ++ '"' :: r) = some (us, r) ∧ joinPieces us = some t := by
  obtain ⟨n, rfl⟩ := Nat.exists_eq_succ_of_ne_zero (Nat.ne_zero_of_lt hn)
  induction t generalizing n with
  | nil => exact ⟨[], rfl, rfl⟩
  | cons c t ih =>
    obtain ⟨n, rfl⟩ := Nat.exists_eq_succ_of_ne_zero (Nat.ne_zero_of_lt (Nat.lt_of_succ_lt_succ hn))
    obtain ⟨us, hp, hj⟩ := ih n (Nat.lt_of_succ_lt_succ hn)
    obtain ⟨u, hu, hc⟩ := pieces_escaped (n + 1) c (t.flatMap escaped ++ '"' :: r)
    refine ⟨u :: us, ?_, ?_⟩
    · rw [List.flatMap_cons, List.append_assoc, hu, hp]
      rfl
    · rw [hc, hj]
      rfl

theorem length_le_flatMap (t : Text) : t.length ≤ (t.flatMap escaped).length := by
  have h (c : Char) : 1 ≤ (escaped c).length := by fun_cases escaped c <;> simp
  induction t with
  | nil => exact Nat.le_refl 0
  | cons c t ih =>
    have hc := h c
    simp only [List.flatMap_cons, List.length_append, List.length_cons]
    omega

theorem stringBody_flatMap (t r : Text) :
    stringBody (t.flatMap escaped ++ '"' :: r) = some (some t, r) := by
  have hl := length_le_flatMap t
  obtain ⟨us, hp, hj⟩ := pieces_flatMap t r (n := (t.flatMap escaped ++ '"' :: r).length + 1)
    (by simp only [List.length_append]; omega)
  rw [stringBody, hp, Option.map_some, hj]

/-! Numbers. -/

theorem digit?_of_ends {r : Text} (hr : Ends r) : ∀ c ∈ r.head?, digit? c = none := by
  intro c hc
  obtain rfl | rfl | rfl := hr c hc <;> decide

def digits (n : Nat) : List Nat := (decimal n).filterMap digit?

theorem digits_of_lt {n : Nat} (h : n < 10) : digits n = [n] := by
  simp [digits, decimal_of_lt h, digit?_digit n h]

theorem digits_div_mod {n : Nat} (h : 10 ≤ n) : digits n = digits (n / 10) ++ [n % 10] := by
  rw [digits, decimal, if_neg (by omega), List.filterMap_append]
  simp [digits, digit?_digit (n % 10) (by omega)]

/-- Only zero begins with a zero. -/
theorem digits_cons (n : Nat) : ∃ d ds, digits n = d :: ds ∧ (d = 0 → ds = []) := by
  by_cases hn : n = 0
  · exact ⟨n, [], digits_of_lt (by omega), fun _ => rfl⟩
  have h : ∃ d ds, digits n = d :: ds ∧ d ≠ 0 := by
    induction n using Nat.strongRecOn with
    | ind n ih =>
      by_cases h : n < 10
      · exact ⟨n, [], digits_of_lt h, hn⟩
      · obtain ⟨d, ds, hd, h0⟩ := ih (n / 10) (by omega) (by omega)
        exact ⟨d, ds ++ [n % 10], by rw [digits_div_mod (by omega), hd]; rfl, h0⟩
  obtain ⟨d, ds, hd, h0⟩ := h
  exact ⟨d, ds, hd, fun h => absurd h h0⟩

theorem whole_of_lt {m d : Nat} (h : m * 10 + d < Nat.pow 2 64) :
    Significand.whole { value := m } d = { value := m * 10 + d } := by
  simp [Significand.whole, Significand.push, Nat.not_le.2 h]

theorem foldl_whole {n : Nat} (hn : n < Nat.pow 2 64) :
    (digits n).foldl Significand.whole {} = { value := n } := by
  induction n using Nat.strongRecOn with
  | ind n ih =>
    by_cases h : n < 10
    · rw [digits_of_lt h]
      simpa using whole_of_lt (m := 0) (d := n) (by omega)
    · have hd : n / 10 * 10 + n % 10 = n := Nat.div_add_mod' n 10
      rw [digits_div_mod (by omega), List.foldl_append, ih (n / 10) (by omega) (by omega)]
      simpa [hd] using whole_of_lt (m := n / 10) (d := n % 10) (by omega)

theorem takeDigits_decimal (n : Nat) {r : Text} (hr : ∀ c ∈ r.head?, digit? c = none) :
    takeDigits (decimal n ++ r) = (digits n, r) := by
  have hd : ∀ c ∈ decimal n, (digit? c).isSome := by
    intro c hc
    obtain ⟨d, hd, rfl⟩ := mem_decimal n c hc
    rw [digit?_digit d hd]
    rfl
  have hr' : r.takeWhile (digit? · |>.isSome) = [] ∧ r.dropWhile (digit? · |>.isSome) = r := by
    cases r with
    | nil => exact ⟨rfl, rfl⟩
    | cons c r => simp [hr c rfl]
  rw [takeDigits, List.takeWhile_append_of_pos hd, List.dropWhile_append_of_pos hd, hr'.1, hr'.2,
    List.append_nil]
  rfl

theorem inRange_zero (n : Nat) : inRange n 0 = true := by
  unfold inRange
  simp only [le_refl, decide_true, Bool.or_true, Bool.true_or]

theorem number_decimal (n : UInt64) {r : Text} (hr : Ends r) :
    number (decimal n.toNat ++ r) = some (num (.natural n), r) := by
  have ht := takeDigits_decimal n.toNat (digit?_of_ends hr)
  have hw := foldl_whole n.toNat_lt
  have hm : ∀ t, decimal n.toNat ++ r ≠ '-' :: t := by
    intro t h
    have hc : '-' ∉ decimal n.toNat := not_mem_decimal rfl _
    obtain ⟨c, s, hs⟩ := List.exists_cons_of_ne_nil (isToken_decimal n.toNat).1
    simp_all
  obtain ⟨d, ds, hd, h0⟩ := digits_cons n.toNat
  unfold number
  simp only []
  split
  next h => simp [ht, hd] at h
  next h =>
    rw [ht, hd] at h
    obtain ⟨rfl, rfl⟩ := List.cons.inj h
    cases h0 rfl
  next =>
    simp only [ht, hw, Option.bind_eq_bind, Option.bind_some]
    cases r with
    | nil => simp [inRange_zero]
    | cons c r => obtain rfl | rfl | rfl := hr c rfl <;> simp [inRange_zero]

theorem number_cons {c : Char} {t : Text} (hm : c ≠ '-') (hd : digit? c = none) :
    number (c :: t) = none := by
  have ht : takeDigits (c :: t) = ([], c :: t) := by simp [takeDigits, hd]
  unfold number
  simp [hm, ht]

/-- A number begins as no other value does, and not with a blank. -/
theorem value_number {t : Text} {p : Json × Text} (h : number t = some p) (n : Nat) :
    value (n + 1) t = some p := by
  cases t with
  | nil => cases h
  | cons c t =>
    by_cases hm : c = '-'
    · subst hm
      exact h
    · cases hd : digit? c with
      | none => simp [number_cons hm hd] at h
      | some d =>
        obtain ⟨hl, rfl⟩ := digit?_eq_some_iff.1 hd
        interval_cases d <;> exact h

/-! Values. -/

/-- A number that is read as it is written, whatever comes behind it. -/
def IsPrinted (t : Text) : Prop := ∀ r, Ends r → number (t ++ r) = some (num (.other t), r)

mutual
def IsPrintable : Json → Prop
  | num (.other t) => IsPrinted t
  | arr xs => printableList xs
  | obj fs => printableFields fs
  | unreadable => False
  | _ => True
def printableList : List Json → Prop
  | [] => True
  | x :: xs => x.IsPrintable ∧ printableList xs
def printableFields : List (Text × Json) → Prop
  | [] => True
  | (_, x) :: fs => x.IsPrintable ∧ printableFields fs
end

/-- No value begins as the end of a list. -/
theorem skip_of_value {n : Nat} {t : Text} {p : Json × Text} (h : value n t = some p) (r : Text) :
    skip t ≠ ']' :: r := by
  intro hs
  cases n with
  | zero => simp [value] at h
  | succ n => simp [value, hs, number_cons (c := ']') (by decide) rfl] at h

theorem value_string (n : Nat) (t r : Text) : value (n + 1) (string t ++ r) = some (str t, r) := by
  have hb := stringBody_flatMap t r
  simp only [string, List.cons_append, List.append_assoc, List.nil_append, value,
    skip_cons (c := '"') rfl, hb]
  rfl

theorem ofFields_some (fs : List (Text × Json)) :
    ofFields (fs.map fun f => (some f.1, f.2)) = obj fs := by
  simp [ofFields, Function.comp_def]

theorem compactList_cons (x y : Json) (ys : List Json) :
    compactList (x :: y :: ys) = x.compact ++ ',' :: compactList (y :: ys) := by
  rw [compactList]
  simp

theorem compactFields_cons (k : Text) (x : Json) (f : Text × Json) (fs : List (Text × Json)) :
    compactFields ((k, x) :: f :: fs) =
      string k ++ ':' :: (x.compact ++ ',' :: compactFields (f :: fs)) := by
  rw [compactFields]
  simp

theorem length_compact_pos {j : Json} (hj : j.IsPrintable) : 0 < j.compact.length := by
  match j with
  | null | bool true | bool false => decide
  | num (.natural n) => exact List.length_pos_iff.2 (isToken_decimal n.toNat).1
  | num (.other t) =>
    refine List.length_pos_iff.2 ?_
    rintro rfl
    cases hj [] ends_nil
  | str t | arr xs | obj fs => exact Nat.succ_pos _

theorem value_arr {n : Nat} {xs : List Json} {t r : Text} (h : items n t = some (xs, r)) :
    value (n + 1) ('[' :: t) = some (arr xs, r) := by
  have hs : ∀ s, skip t ≠ ']' :: s := by
    intro s hs
    cases n with
    | zero => simp [items] at h
    | succ n =>
      cases hv : value n t with
      | none => simp [items, hv] at h
      | some p => exact skip_of_value hv s hs
  simp only [value, skip_cons (c := '[') rfl]
  rw [h, Option.map_some]

theorem value_obj {n : Nat} {fs : List (Text × Json)} {t r : Text}
    (h : fields n t = some (fs.map fun f => (some f.1, f.2), r)) :
    value (n + 1) ('{' :: t) = some (obj fs, r) := by
  have hs : ∀ s, skip t ≠ '}' :: s := by
    intro s hs
    cases n with
    | zero => simp [fields] at h
    | succ n => simp [fields, hs] at h
  simp only [value, skip_cons (c := '{') rfl]
  rw [h, Option.map_some, ofFields_some]

theorem items_last {n : Nat} {x : Json} {t r : Text} (h : value n t = some (x, ']' :: r)) :
    items (n + 1) t = some ([x], r) := by
  simp [items, h, skip_cons (c := ']') rfl]

theorem items_comma {n : Nat} {x : Json} {xs : List Json} {t s r : Text}
    (h : value n t = some (x, ',' :: s)) (hs : items n s = some (xs, r)) :
    items (n + 1) t = some (x :: xs, r) := by
  simp [items, h, hs, skip_cons (c := ',') rfl]

theorem fields_last {n : Nat} {k : Text} {x : Json} {t r : Text}
    (h : value n t = some (x, '}' :: r)) :
    fields (n + 1) (string k ++ ':' :: t) = some ([(some k, x)], r) := by
  simp [fields, string, stringBody_flatMap, h, skip_cons (c := '"') rfl, skip_cons (c := ':') rfl,
    skip_cons (c := '}') rfl]

theorem fields_comma {n : Nat} {k : Text} {x : Json} {fs : List (Option Text × Json)} {t s r : Text}
    (h : value n t = some (x, ',' :: s)) (hs : fields n s = some (fs, r)) :
    fields (n + 1) (string k ++ ':' :: t) = some ((some k, x) :: fs, r) := by
  simp [fields, string, stringBody_flatMap, h, hs, skip_cons (c := '"') rfl,
    skip_cons (c := ':') rfl, skip_cons (c := ',') rfl]

mutual
theorem value_compact (j : Json) (hj : j.IsPrintable) {n : Nat} (hn : j.compact.length ≤ n)
    {r : Text} (hr : Ends r) : value n (j.compact ++ r) = some (j, r) := by
  obtain ⟨n, rfl⟩ := Nat.exists_eq_succ_of_ne_zero
    (Nat.ne_zero_of_lt (Nat.lt_of_lt_of_le (length_compact_pos hj) hn))
  match j with
  | null => rfl
  | bool true | bool false => rfl
  | num (.natural k) => exact value_number (number_decimal k hr) n
  | num (.other t) => exact value_number (hj r hr) n
  | str t => exact value_string n t r
  | arr [] => rfl
  | arr (x :: xs) =>
    exact value_arr (items_compact (x :: xs) (by simp) hj (Nat.le_of_succ_le_succ hn) r)
  | obj [] => rfl
  | obj (f :: fs) =>
    exact value_obj (fields_compact (f :: fs) (by simp) hj (Nat.le_of_succ_le_succ hn) r)
theorem items_compact (xs : List Json) (hne : xs ≠ []) (h : printableList xs) {n : Nat}
    (hn : (compactList xs).length ≤ n) (r : Text) :
    items n (compactList xs ++ r) = some (xs, r) := by
  match n, xs with
  | 0, [x] | 0, x :: y :: ys => simp [compactList] at hn
  | n + 1, [x] =>
    simp only [compactList, List.length_append, List.length_singleton, List.append_assoc] at hn ⊢
    exact items_last (value_compact x h.1 (by omega) (ends_cons (by simp)))
  | n + 1, x :: y :: ys =>
    rw [compactList_cons, List.append_assoc]
    simp only [compactList_cons, List.length_append, List.length_cons] at hn
    exact items_comma (value_compact x h.1 (by omega) (ends_cons (by simp)))
      (items_compact (y :: ys) (by simp) h.2 (by omega) r)
theorem fields_compact (fs : List (Text × Json)) (hne : fs ≠ []) (h : printableFields fs)
    {n : Nat} (hn : (compactFields fs).length ≤ n) (r : Text) :
    fields n (compactFields fs ++ r) = some (fs.map fun f => (some f.1, f.2), r) := by
  match n, fs with
  | 0, [(k, x)] | 0, (k, x) :: f :: fs => simp [compactFields] at hn
  | n + 1, [(k, x)] =>
    simp only [compactFields, List.length_append, List.length_cons, List.append_assoc,
      List.cons_append] at hn ⊢
    exact fields_last (value_compact x h.1 (by omega) (ends_cons (by simp)))
  | n + 1, (k, x) :: f :: fs =>
    simp only [compactFields_cons, List.length_append, List.length_cons, List.append_assoc,
      List.cons_append] at hn ⊢
    exact fields_comma (value_compact x h.1 (by omega) (ends_cons (by simp)))
      (fields_compact (f :: fs) (by simp) h.2 (by omega) r)
end

/-- What is printed is read as what it was. -/
theorem read?_compact {j : Json} (hj : j.IsPrintable) : read? j.compact = some j := by
  have hv := value_compact j hj (n := 2 * j.compact.length + 2) (by omega) ends_nil
  rw [List.append_nil] at hv
  rw [read?, hv]
  rfl

end Switchboard.Json
