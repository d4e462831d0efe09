import Mathlib
import Switchboard.Message.Json
import Switchboard.Proofs.Json.Reading

/-! Messages as JSON text. A message that is written is read back, and so is one whose text has the
fields of its objects in another order, or has further fields in them. -/
namespace Switchboard

namespace Json

/-- The second value says what the first does: the fields of its objects may stand in any order, and
fields of other names among them. -/
inductive Widens : Json → Json → Prop where
  | null : Widens null null
  | bool (b : Bool) : Widens (bool b) (bool b)
  | num (n : Number) : Widens (num n) (num n)
  | str (t : Text) : Widens (str t) (str t)
  | arr {xs ys : List Json} : List.Forall₂ Widens xs ys → Widens (arr xs) (arr ys)
  | obj {fs gs hs others : List (Text × Json)} : fs.map (·.1) = gs.map (·.1) →
      List.Forall₂ Widens (fs.map (·.2)) (gs.map (·.2)) → hs.Perm (gs ++ others) →
      (∀ f ∈ others, f.1 ∉ fs.map (·.1)) → Widens (obj fs) (obj hs)

def named (name : Text) (fs : List (Text × Json)) : List Json :=
  (fs.filter (·.1 = name)).map (·.2)

theorem sole?_eq_some_iff {name : Text} {fs : List (Text × Json)} {x : Json} :
    sole? name fs = some x ↔ named name fs = [x] := by
  unfold sole? named
  split
  next k y h => simp [h]
  next hn =>
    refine ⟨fun h => (nomatch h), fun h => ?_⟩
    obtain ⟨⟨k, y⟩, hf, rfl⟩ := List.map_eq_singleton_iff.1 h
    exact absurd hf (hn k y)

theorem mem_of_sole? {name : Text} {fs : List (Text × Json)} {x : Json}
    (h : sole? name fs = some x) : (name, x) ∈ fs := by
  obtain ⟨⟨k, y⟩, hf, rfl⟩ := List.map_eq_singleton_iff.1 (sole?_eq_some_iff.1 h)
  have hm : (k, y) ∈ fs.filter (·.1 = name) := by simp [hf]
  obtain ⟨hy, rfl⟩ : (k, y) ∈ fs ∧ k = name := by simpa using hm
  exact hy

theorem named_of_forall₂ {fs gs : List (Text × Json)} (hn : fs.map (·.1) = gs.map (·.1))
    (hv : List.Forall₂ Widens (fs.map (·.2)) (gs.map (·.2))) (name : Text) :
    List.Forall₂ Widens (named name fs) (named name gs) := by
  induction fs generalizing gs with
  | nil =>
    obtain rfl : gs = [] := by simpa using hn.symm
    exact .nil
  | cons f fs ih =>
    obtain ⟨g, gs, rfl⟩ : ∃ g gs', gs = g :: gs' := by
      cases gs <;> simp_all
    obtain ⟨hk, hn⟩ := List.cons.inj hn
    obtain ⟨hx, hv⟩ := List.forall₂_cons.1 hv
    by_cases h : f.1 = name
    · simpa [named, h, ← hk] using And.intro hx (ih hn hv)
    · simpa [named, h, ← hk] using ih hn hv

theorem sole?_of_widens {fs hs : List (Text × Json)} (h : (obj fs).Widens (obj hs)) {name : Text}
    {x : Json} (hx : sole? name fs = some x) : ∃ y, sole? name hs = some y ∧ x.Widens y := by
  obtain _ | _ | _ | _ | _ | @⟨_, gs, _, others, hn, hv, hp, ho⟩ := h
  have hm : name ∈ fs.map (·.1) := List.mem_map.2 ⟨_, mem_of_sole? hx, rfl⟩
  have hf := named_of_forall₂ hn hv name
  rw [sole?_eq_some_iff.1 hx] at hf
  obtain ⟨y, ys, hy, hys, hg⟩ := List.forall₂_cons_left_iff.1 hf
  obtain rfl := List.forall₂_nil_left_iff.1 hys
  have hno : others.filter (·.1 = name) = [] := by
    refine List.filter_eq_nil_iff.2 fun f hf he => ho f hf ?_
    rwa [of_decide_eq_true he]
  have hp : (named name hs).Perm [y] := by
    have hp := (hp.filter (·.1 = name)).map (·.2)
    rwa [List.filter_append, hno, List.append_nil, ← named, ← named, hg] at hp
  exact ⟨y, sole?_eq_some_iff.2 (List.perm_singleton.1 hp), hy⟩

/-- Parts are found by their names, or in a list by their places. -/
theorem parts?_of_widens {j k : Json} (h : j.Widens k) {names : List Text} {xs : List Json}
    (hx : j.parts? names = some xs) :
    ∃ ys, k.parts? names = some ys ∧ List.Forall₂ Widens xs ys := by
  cases h with
  | null | bool | num | str => simp [parts?] at hx
  | @arr xs ys hv =>
    obtain ⟨hl, hx⟩ := Option.ite_none_right_eq_some.1 hx
    obtain rfl := Option.some.inj hx
    exact ⟨ys, by simp [parts?, ← hv.length_eq, hl], hv⟩
  | @obj fs gs hs others hn hv hp ho =>
    have h := Widens.obj hn hv hp ho
    simp only [parts?] at hx ⊢
    induction names generalizing xs with
    | nil =>
      obtain rfl : [] = xs := by simpa using hx
      exact ⟨[], by simp, .nil⟩
    | cons name names ih =>
      simp only [List.mapM_cons] at hx ⊢
      obtain ⟨x, hs, hx⟩ := Option.bind_eq_some_iff.1 hx
      obtain ⟨xs, hm, hx⟩ := Option.bind_eq_some_iff.1 hx
      obtain rfl := Option.some.inj hx
      obtain ⟨y, hy, hxy⟩ := sole?_of_widens h hs
      obtain ⟨ys, hys, hr⟩ := ih hm
      exact ⟨y :: ys, by simp [hy, hys], .cons hxy hr⟩

theorem Widens.text? {j k : Json} (h : j.Widens k) {t : Text} (ht : j.text? = some t) :
    k.text? = some t := by
  cases h <;> simp_all [Json.text?]

theorem Widens.code? {j k : Json} (h : j.Widens k) {c : UInt16} (hc : j.code? = some c) :
    k.code? = some c := by
  cases h <;> simp_all [Json.code?]

end Json

open Json

theorem Header.ofJson?_of_widens {j k : Json} (h : j.Widens k) {x : Header}
    (hx : Header.ofJson? j = some x) : Header.ofJson? k = some x := by
  obtain ⟨xs, hxs, hx⟩ := Option.bind_eq_some_iff.1 hx
  obtain ⟨ys, hys, hr⟩ := parts?_of_widens h hxs
  split at hx
  next n v =>
    obtain _ | ⟨hn, _ | ⟨hv, _ | _⟩⟩ := hr
    obtain ⟨a, ha, hx⟩ := Option.bind_eq_some_iff.1 hx
    obtain ⟨b, hb, hx⟩ := Option.bind_eq_some_iff.1 hx
    rw [Header.ofJson?, hys]
    simp only [Option.bind_eq_bind, Option.bind_some, hn.text? ha, hv.text? hb]
    exact hx
  next => cases hx

namespace StartLine

theorem ofTagged?_of_widens {j k : Json} (h : j.Widens k) {tag : Text} {s : StartLine}
    (hs : ofTagged? tag j = some s) : ofTagged? tag k = some s := by
  unfold ofTagged? at hs ⊢
  split at hs
  next ht =>
    rw [if_pos ht]
    obtain ⟨xs, hxs, hs⟩ := Option.bind_eq_some_iff.1 hs
    obtain ⟨ys, hys, hr⟩ := parts?_of_widens h hxs
    split at hs
    next m u v =>
      obtain _ | ⟨hm, _ | ⟨hu, _ | ⟨hv, _ | _⟩⟩⟩ := hr
      obtain ⟨a, ha, hs⟩ := Option.bind_eq_some_iff.1 hs
      obtain ⟨b, hb, hs⟩ := Option.bind_eq_some_iff.1 hs
      obtain ⟨c, hc, hs⟩ := Option.bind_eq_some_iff.1 hs
      simp only [Option.bind_eq_bind, Option.bind_some, hys, hm.text? ha, hu.text? hb, hv.text? hc]
      exact hs
    next => cases hs
  next ht =>
    rw [if_neg ht]
    obtain ⟨ht, hs⟩ := Option.ite_none_right_eq_some.1 hs
    rw [if_pos ht]
    obtain ⟨xs, hxs, hs⟩ := Option.bind_eq_some_iff.1 hs
    obtain ⟨ys, hys, hr⟩ := parts?_of_widens h hxs
    split at hs
    next v c r =>
      obtain _ | ⟨hv, _ | ⟨hc, _ | ⟨hr, _ | _⟩⟩⟩ := hr
      obtain ⟨a, ha, hs⟩ := Option.bind_eq_some_iff.1 hs
      obtain ⟨b, hb, hs⟩ := Option.bind_eq_some_iff.1 hs
      obtain ⟨d, hd, hs⟩ := Option.bind_eq_some_iff.1 hs
      simp only [Option.bind_eq_bind, Option.bind_some, hys, hv.text? ha, hc.code? hb, hr.text? hd]
      exact hs
    next => cases hs

/-- The type may stand behind the fields it decides about. -/
theorem ofJson?_of_widens {j k : Json} (h : j.Widens k) (hk : k.isPlain 1) {s : StartLine}
    (hs : ofJson? j = some s) : ofJson? k = some s := by
  unfold ofJson? at hs ⊢
  split at hs
  next => cases hs
  rw [if_neg (by simp [hk])]
  split at hs
  next fs =>
    obtain ⟨x, hx, hs⟩ := Option.bind_eq_some_iff.1 hs
    obtain ⟨tag, ht, hs⟩ := Option.bind_eq_some_iff.1 hs
    cases h with
    | obj hn hv hp ho =>
      have h := Widens.obj hn hv hp ho
      obtain ⟨y, hy, hxy⟩ := sole?_of_widens h hx
      simp only [Option.bind_eq_bind, Option.bind_some, hy, hxy.text? ht]
      exact ofTagged?_of_widens h hs
  next x xs =>
    obtain ⟨tag, ht, hs⟩ := Option.bind_eq_some_iff.1 hs
    obtain _ | _ | _ | _ | ⟨_ | ⟨hx, hxs⟩⟩ := h
    simp only [Option.bind_eq_bind, Option.bind_some, hx.text? ht]
    exact ofTagged?_of_widens (.arr hxs) hs
  next => cases hs

theorem ofJson?_toJson (s : StartLine) : ofJson? s.toJson = some s := by
  cases s with
  | request m u v => rfl
  | response v c r =>
    have hc : (Json.nat c.toNat).code? = some c := by
      have h : c.toNat.toUInt64 = c.toUInt64 := by simp
      have hl : c.toUInt64 < 65536 := by
        rw [UInt64.lt_iff_toNat_lt]
        exact c.toNat_lt
      rw [Json.nat, Json.code?, h, if_pos hl, UInt16.toUInt16_toUInt64]
    show ((Json.nat c.toNat).code?.bind fun c => some (response v c r)) = _
    rw [hc, Option.bind_some]

theorem isPrintable_toJson (s : StartLine) : s.toJson.IsPrintable := by
  cases s <;> simp [toJson, IsPrintable, printableFields, Json.nat]

end StartLine

theorem Header.mapM_ofJson?_of_widens {js ks : List Json} (h : List.Forall₂ Widens js ks)
    {hs : List Header} (hj : js.mapM Header.ofJson? = some hs) :
    ks.mapM Header.ofJson? = some hs := by
  induction h generalizing hs with
  | nil => exact hj
  | cons hjk _ ih =>
    rw [List.mapM_cons] at hj ⊢
    obtain ⟨x, hx, hj⟩ := Option.bind_eq_some_iff.1 hj
    obtain ⟨xs, hxs, hj⟩ := Option.bind_eq_some_iff.1 hj
    simp only [Option.bind_eq_bind, Option.bind_some, Header.ofJson?_of_widens hjk hx, ih hxs]
    exact hj

theorem Header.ofJson?_toJson (h : Header) : Header.ofJson? h.toJson = some h := rfl

theorem Header.mapM_ofJson?_toJson (hs : List Header) :
    (hs.map Header.toJson).mapM Header.ofJson? = some hs := by
  induction hs with
  | nil => rfl
  | cons h hs ih =>
    rw [List.map_cons, List.mapM_cons, Header.ofJson?_toJson, ih]
    rfl

namespace Message

theorem ofJson?_of_widens {fs gs : List (Text × Json)} (h : (obj fs).Widens (obj gs))
    (hp : ∀ s, ("start".toList, s) ∈ gs → s.isPlain 1) {m : Message}
    (hm : ofJson? (.obj fs) = some m) : ofJson? (.obj gs) = some m := by
  obtain ⟨xs, hxs, hm⟩ := Option.bind_eq_some_iff.1 hm
  obtain ⟨ys, hys, hr⟩ := parts?_of_widens h hxs
  split at hm
  next s hs b =>
    obtain _ | @⟨_, s', _, _, hs, _ | ⟨_ | _ | _ | _ | ⟨hh⟩, _ | ⟨hb, _ | _⟩⟩⟩ := hr
    obtain ⟨a, ha, hm⟩ := Option.bind_eq_some_iff.1 hm
    obtain ⟨c, hc, hm⟩ := Option.bind_eq_some_iff.1 hm
    obtain ⟨d, hd, hm⟩ := Option.bind_eq_some_iff.1 hm
    have hps : s'.isPlain 1 := by
      simp only [parts?, List.mapM_cons] at hys
      obtain ⟨y, hy, hys⟩ := Option.bind_eq_some_iff.1 hys
      obtain ⟨ys, _, hys⟩ := Option.bind_eq_some_iff.1 hys
      obtain ⟨rfl, -⟩ := List.cons.inj (Option.some.inj hys)
      exact hp y (mem_of_sole? hy)
    rw [ofJson?, hys]
    simp only [Option.bind_eq_bind, Option.bind_some, StartLine.ofJson?_of_widens hs hps ha,
      Header.mapM_ofJson?_of_widens hh hc, hb.text? hd]
    exact hm
  next => cases hm

theorem ofJson?_toJson (m : Message) : ofJson? m.toJson = some m := by
  show ((StartLine.ofJson? m.start.toJson).bind fun s =>
    ((m.headers.map Header.toJson).mapM Header.ofJson?).bind fun hs =>
      some (Message.mk s hs m.body)) = some m
  rw [StartLine.ofJson?_toJson, Header.mapM_ofJson?_toJson]
  rfl

theorem isPrintable_toJson (m : Message) : m.toJson.IsPrintable := by
  have hh (hs : List Header) : printableList (hs.map Header.toJson) := by
    induction hs with
    | nil => trivial
    | cons h hs ih => exact ⟨by simp [Header.toJson, IsPrintable, printableFields], ih⟩
  exact ⟨m.start.isPrintable_toJson, hh m.headers, trivial, trivial⟩

/-- A message is read from its own text, and from every text of the same fields in another order and
with others among them. What stands in a start line has to be held until its type is known. -/
theorem readJson?_widened (m : Message) :
    readJson? m.toJson.compact = some m ∧
      ∀ fs, m.toJson.Widens (.obj fs) → (∀ s, ("start".toList, s) ∈ fs → s.isPlain 1) →
        (∀ t, Json.read? t = some (.obj fs) → readJson? t = some m) ∧
        ((Json.obj fs).IsPrintable → readJson? (Json.obj fs).compact = some m) := by
  have hr : ∀ t fs, m.toJson.Widens (.obj fs) → (∀ s, ("start".toList, s) ∈ fs → s.isPlain 1) →
      Json.read? t = some (.obj fs) → readJson? t = some m := by
    intro t fs hj hp ht
    rw [readJson?, ht, Option.bind_some]
    exact ofJson?_of_widens hj hp (ofJson?_toJson m)
  refine ⟨?_, fun fs hj hp => ⟨fun t => hr t fs hj hp, fun hi => hr _ fs hj hp (read?_compact hi)⟩⟩
  rw [readJson?, read?_compact (isPrintable_toJson m), Option.bind_some, ofJson?_toJson]

def scrawl : Message where
  start := .request "\"\\".toList "\x1f".toList "\x00é".toList
  headers := [⟨"\t".toList, "\r\n".toList⟩]
  body := "猫\x7f".toList

def scrawledStart : Json :=
  .obj [("code".toList, .null), ("version".toList, .str "\x00é".toList),
    ("uri".toList, .str "\x1f".toList), ("method".toList, .str "\"\\".toList),
    ("type".toList, .str "request".toList)]

def scrawledHeader : Json :=
  .obj [([], .bool true), ("value".toList, .str "\r\n".toList), ("name".toList, .str "\t".toList)]

def scrawled : List (Text × Json) :=
  [("x".toList, .arr []), ("body".toList, .str "猫\x7f".toList),
    ("headers".toList, .arr [scrawledHeader]), ("start".toList, scrawledStart)]

def scrawledText : Text :=
  ("\x7b \"x\":[],\"body\":\"\\u732b\x7f\",\n\"headers\":[\x7b\"\":true,\"value\":\"\\r\\n\"," ++
    "\"name\":\"\\t\"\x7d],\"start\":\x7b\"code\":null,\"version\":\"\\u0000é\"," ++
    "\"uri\":\"\\u001f\",\"method\":\"\\\"\\\\\",\"type\":\"request\"\x7d\x7d").toList

theorem widens_scrawled : scrawl.toJson.Widens (.obj scrawled) := by
  have hs : scrawl.start.toJson.Widens scrawledStart := by
    refine @Widens.obj _ [_, _, _, _] _ [_] rfl ?_ (List.reverse_perm _).symm (by decide)
    exact .cons (.str _) (.cons (.str _) (.cons (.str _) (.cons (.str _) .nil)))
  have hh : (Header.toJson ⟨"\t".toList, "\r\n".toList⟩).Widens scrawledHeader := by
    refine @Widens.obj _ [_, _] _ [_] rfl ?_ (List.reverse_perm _).symm (by decide)
    exact .cons (.str _) (.cons (.str _) .nil)
  refine @Widens.obj _ [("start".toList, scrawledStart),
    ("headers".toList, .arr [scrawledHeader]), ("body".toList, _)] _ [_] rfl ?_
    (List.reverse_perm _).symm (by decide)
  exact .cons hs (.cons (.arr (.cons hh .nil)) (.cons (.str _) .nil))

theorem readJson?_widened_scrawl :
    readJson? scrawl.toJson.compact = some scrawl ∧
      readJson? (Json.obj scrawled).compact = some scrawl ∧
      readJson? scrawledText = some scrawl := by
  have hp : ∀ s, ("start".toList, s) ∈ scrawled → s.isPlain 1 := by
    intro s hs
    obtain rfl : s = scrawledStart := by simpa [scrawled] using hs
    rfl
  have hi : (Json.obj scrawled).IsPrintable := by
    simp [scrawled, scrawledStart, scrawledHeader, IsPrintable, printableFields, printableList]
  obtain ⟨hc, hj⟩ := readJson?_widened scrawl
  obtain ⟨ht, hb⟩ := hj scrawled widens_scrawled hp
  exact ⟨hc, hb hi, ht scrawledText (by cbv)⟩

end Message
end Switchboard
