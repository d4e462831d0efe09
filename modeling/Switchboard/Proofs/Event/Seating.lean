import Mathlib.Data.List.Induction
import Mathlib.Data.Nat.Find
import Mathlib.Tactic.Push
import Switchboard.Proofs.Event.Broadcast

/-! Who is served, read off the history alone. An observer has its seat from the place of its earliest
registration that has not been taken back, as long as it is there; the seats are in the order of these
places. -/
namespace Switchboard.Notifier
variable {h : List Act} {a b : Act} {i j : Nat} {name : Text} {hs : List (Event.Kind × Text)}

def Act.ends (name : Text) : Act → Bool
  | .observe other _ | .drop other => other = name
  | _ => false

structure Stands (h : List Act) (i : Nat) (name : Text) (handlers : List (Event.Kind × Text)) :
    Prop where
  made : h[i]? = some (.observe name handlers)
  stays : ∀ j a, i < j → h[j]? = some a → a.ends name = false

structure Seat where
  place : Nat
  name : Text
  /-- In the order in which they were installed. -/
  handlers : List (Event.Kind × Text)
  since : Nat

/-- The observer is there, has not been unregistered behind `since`, and all its registrations before
that have been taken back by then. -/
structure Seated (h : List Act) (s : Seat) : Prop where
  stands : Stands h s.place s.name s.handlers
  place_lt : s.place < s.since
  registered : h[s.since]? = some (.register s.name)
  kept : ∀ j, s.since < j → h[j]? ≠ some (.unregister s.name)
  earliest : ∀ j, s.place < j → j < s.since → h[j]? = some (.register s.name) →
    ∃ k, j < k ∧ k < s.since ∧ h[k]? = some (.unregister s.name)

def lastFor (k : Event.Kind) (handlers : List (Event.Kind × Text)) : Option Text :=
  (handlers.filter (·.1 = k)).getLast?.map (·.2)

def Seat.call (subject : Subject) (e : Event) (s : Seat) : Option Delivery :=
  (lastFor e.kind s.handlers).map fun handler => ⟨s.name, handler, subject, e⟩

theorem getElem?_concat_eq_some :
    (h ++ [a])[j]? = some b ↔ h[j]? = some b ∨ j = h.length ∧ a = b := by
  obtain hj | rfl | hj := Nat.lt_trichotomy j h.length
  · rw [List.getElem?_append_left hj]
    simp [Nat.ne_of_lt hj]
  · simp
  · have hj' : (h ++ [a]).length ≤ j := by simpa using Nat.succ_le_of_lt hj
    simp [List.getElem?_eq_none hj', List.getElem?_eq_none (Nat.le_of_lt hj), Nat.ne_of_gt hj]

theorem lt_of_getElem?_eq_some (ha : h[j]? = some a) : j < h.length :=
  (List.getElem?_eq_some_iff.1 ha).1

theorem stands_concat : Stands (h ++ [a]) i name hs ↔
    Stands h i name hs ∧ a.ends name = false ∨ i = h.length ∧ a = .observe name hs := by
  constructor
  · rintro ⟨hm, hs⟩
    obtain hm | hm := getElem?_concat_eq_some.1 hm
    · have hi := lt_of_getElem?_eq_some hm
      refine .inl ⟨⟨hm, fun j b hj hb => hs j b hj (getElem?_concat_eq_some.2 (.inl hb))⟩, ?_⟩
      exact hs _ a hi (getElem?_concat_eq_some.2 (.inr ⟨rfl, rfl⟩))
    · exact .inr hm
  · rintro (⟨⟨hm, hs⟩, ha⟩ | ⟨rfl, rfl⟩)
    · refine ⟨getElem?_concat_eq_some.2 (.inl hm), fun j b hj hb => ?_⟩
      obtain hb | ⟨-, rfl⟩ := getElem?_concat_eq_some.1 hb
      · exact hs j b hj hb
      · exact ha
    · refine ⟨getElem?_concat_eq_some.2 (.inr ⟨rfl, rfl⟩), fun j b hj hb => ?_⟩
      have := lt_of_getElem?_eq_some hb
      simp at this
      omega

/-- A registration that has not been taken back gives a seat. -/
theorem Stands.seated (hst : Stands h i name hs) (hj : i < j) (hr : h[j]? = some (.register name))
    (hk : ∀ k, j < k → h[k]? ≠ some (.unregister name)) : ∃ since, Seated h ⟨i, name, hs, since⟩ := by
  classical
  have hex : ∃ j, i < j ∧ h[j]? = some (.register name) ∧
      ∀ k, j < k → h[k]? ≠ some (.unregister name) := ⟨j, hj, hr, hk⟩
  obtain ⟨h₁, h₂, h₃⟩ := Nat.find_spec hex
  refine ⟨Nat.find hex, hst, h₁, h₂, h₃, fun k hik hlt hreg => ?_⟩
  have hmin := Nat.find_min hex hlt
  push Not at hmin
  obtain ⟨l, hkl, hl⟩ := hmin hik hreg
  refine ⟨l, hkl, ?_, hl⟩
  obtain hlt | heq | hgt := Nat.lt_trichotomy l (Nat.find hex)
  · exact hlt
  · rw [heq, h₂] at hl
    simp at hl
  · exact absurd hl (h₃ l hgt)

/-- An observer has one seat. -/
theorem Seated.unique {s t : Seat} (hs : Seated h s) (ht : Seated h t) (hp : s.place = t.place) :
    s = t := by
  obtain ⟨p, name, handlers, i⟩ := s
  obtain ⟨q, name', handlers', j⟩ := t
  obtain rfl : p = q := hp
  obtain ⟨rfl, rfl⟩ := Act.observe.inj (Option.some.inj (hs.stands.made.symm.trans ht.stands.made))
  have hle {i j : Nat} (hs : Seated h ⟨p, name, handlers, i⟩) (ht : Seated h ⟨p, name, handlers, j⟩) :
      j ≤ i := by
    by_contra hlt
    obtain ⟨k, hk, -, hu⟩ := ht.earliest i hs.place_lt (Nat.lt_of_not_le hlt) hs.registered
    exact hs.kept k hk hu
  obtain rfl := Nat.le_antisymm (hle ht hs) (hle hs ht)
  rfl

/-- An act takes seats away by name, and gives one to an observer that is registered and has none. -/
theorem seated_concat {s : Seat} : Seated (h ++ [a]) s ↔
    Seated h s ∧ a.ends s.name = false ∧ a ≠ .unregister s.name ∨
      a = .register s.name ∧ s.since = h.length ∧ Stands h s.place s.name s.handlers ∧
        ∀ j, ¬Seated h ⟨s.place, s.name, s.handlers, j⟩ := by
  constructor
  · rintro ⟨hst', hlt, hr, hk, he⟩
    have hle : s.since < h.length + 1 := by simpa using lt_of_getElem?_eq_some hr
    obtain ⟨hst, ha⟩ | ⟨hp, -⟩ := stands_concat.1 hst'
    · obtain hr | ⟨hl, rfl⟩ := getElem?_concat_eq_some.1 hr
      · have hl := lt_of_getElem?_eq_some hr
        refine .inl ⟨⟨hst, hlt, hr, fun j hj hu => ?_, fun j hj hjs hrj => ?_⟩, ha, ?_⟩
        · exact hk j hj (getElem?_concat_eq_some.2 (.inl hu))
        · obtain ⟨k, hjk, hks, hu⟩ := he j hj hjs (getElem?_concat_eq_some.2 (.inl hrj))
          obtain hu | ⟨rfl, -⟩ := getElem?_concat_eq_some.1 hu
          · exact ⟨k, hjk, hks, hu⟩
          · omega
        · rintro rfl
          exact hk _ hl (getElem?_concat_eq_some.2 (.inr ⟨rfl, rfl⟩))
      · refine .inr ⟨rfl, hl, hst, fun j hs => ?_⟩
        have hj := lt_of_getElem?_eq_some hs.registered
        obtain ⟨k, hjk, -, hu⟩ := he j hs.place_lt (hl ▸ hj)
          (getElem?_concat_eq_some.2 (.inl hs.registered))
        obtain hu | ⟨-, hu⟩ := getElem?_concat_eq_some.1 hu
        · exact hs.kept k hjk hu
        · simp at hu
    · omega
  · rintro (⟨⟨hst, hlt, hr, hk, he⟩, ha, hu⟩ | ⟨rfl, hl, hst, hno⟩)
    · refine ⟨stands_concat.2 (.inl ⟨hst, ha⟩), hlt, getElem?_concat_eq_some.2 (.inl hr),
        fun j hj hju => ?_, fun j hj hjs hrj => ?_⟩
      · obtain hju | ⟨-, rfl⟩ := getElem?_concat_eq_some.1 hju
        · exact hk j hj hju
        · exact hu rfl
      · have hl := lt_of_getElem?_eq_some hr
        obtain hrj | ⟨rfl, -⟩ := getElem?_concat_eq_some.1 hrj
        · obtain ⟨k, hjk, hks, hku⟩ := he j hj hjs hrj
          exact ⟨k, hjk, hks, getElem?_concat_eq_some.2 (.inl hku)⟩
        · omega
    · refine ⟨stands_concat.2 (.inl ⟨hst, rfl⟩), ?_, getElem?_concat_eq_some.2 (.inr ⟨hl, rfl⟩),
        fun j hj hju => ?_, fun j hj hjs hrj => ?_⟩
      · rw [hl]
        exact lt_of_getElem?_eq_some hst.made
      · have := lt_of_getElem?_eq_some hju
        simp at this
        omega
      · obtain hrj | ⟨rfl, -⟩ := getElem?_concat_eq_some.1 hrj
        · by_contra hn
          push Not at hn
          obtain ⟨i, hi⟩ := hst.seated hj hrj fun k hk hu =>
            hn k hk (hl ▸ lt_of_getElem?_eq_some hu) (getElem?_concat_eq_some.2 (.inl hu))
          exact hno i hi
        · omega

/-- No two observers of one name are there. -/
theorem Stands.unique {hs' : List (Event.Kind × Text)} (hi : Stands h i name hs)
    (hj : Stands h j name hs') : i = j ∧ hs = hs' := by
  have hle {i j : Nat} {hs hs'} (hi : Stands h i name hs) (hj : Stands h j name hs') : j ≤ i := by
    by_contra hlt
    simpa [Act.ends] using hi.stays j _ (Nat.lt_of_not_le hlt) hj.made
  obtain rfl := Nat.le_antisymm (hle hj hi) (hle hi hj)
  exact ⟨rfl, (Act.observe.inj (Option.some.inj (hi.made.symm.trans hj.made))).2⟩

structure Recalls (h : List Act) (n : Notifier) (l : List Seat) : Prop where
  tidy : Tidy n
  stands : ∀ name hs, (∃ s, ⟨s, name, hs.reverse⟩ ∈ n.living) ↔ ∃ i, Stands h i name hs
  listed : n.listeners.map (fun o => (o.name, o.handlers)) =
    l.map fun s => (s.name, s.handlers.reverse)
  seated : ∀ s, s ∈ l ↔ Seated h s
  sorted : l.Pairwise (·.since < ·.since)

namespace Recalls
variable {n q : Notifier} {l : List Seat}

/-- Acts that neither make nor register anybody, nor take anybody away. -/
theorem same (H : Recalls h n l) (hq : Tidy q) (hl : q.living = n.living)
    (hs : q.listeners = n.listeners) (ha : ∀ name, a.ends name = false ∧ a ≠ .unregister name ∧
      a ≠ .register name ∧ ∀ hs, a ≠ .observe name hs) : Recalls (h ++ [a]) q l where
  tidy := hq
  stands name hs := by simp [hl, H.stands, stands_concat, ha]
  listed := hs ▸ H.listed
  seated s := by simp [H.seated, seated_concat, ha]
  sorted := H.sorted

/-- The seats of all observers of a name are taken away. -/
theorem without (H : Recalls h n l) (name : Text) (hq : Tidy q)
    (hst : ∀ name hs, (∃ s, ⟨s, name, hs.reverse⟩ ∈ q.living) ↔ ∃ i, Stands (h ++ [a]) i name hs)
    (hl : q.listeners = n.listeners.filter (·.name ≠ name))
    (hs : ∀ s, Seated (h ++ [a]) s ↔ Seated h s ∧ s.name ≠ name) :
    Recalls (h ++ [a]) q (l.filter (·.name ≠ name)) where
  tidy := hq
  stands := hst
  listed := by
    have hf := congrArg (List.filter (·.1 ≠ name)) H.listed
    rw [List.filter_map, List.filter_map] at hf
    rw [hl]
    exact hf
  seated s := by simp [hs, H.seated]
  sorted := H.sorted.sublist List.filter_sublist

/-- Only an observer that has no seat gets one when it is registered. -/
theorem seated_register {s : Seat} (hs : ∀ i, s.name = name → Stands h i name s.handlers →
    ∃ j, Seated h ⟨i, name, s.handlers, j⟩) :
    Seated (h ++ [.register name]) s ↔ Seated h s := by
  rw [seated_concat]
  constructor
  · rintro (⟨hs, -⟩ | ⟨hn, -, hst, hno⟩)
    · exact hs
    · obtain rfl := Act.register.inj hn
      obtain ⟨j, hj⟩ := hs s.place rfl hst
      exact absurd hj (hno j)
  · exact fun hs => .inl ⟨hs, rfl, by simp⟩

theorem register (H : Recalls h n l) (name : Text) :
    ∃ l, Recalls (h ++ [.register name]) (n.register name) l := by
  have hq := H.tidy.register name
  have hst (name' : Text) (hs : List (Event.Kind × Text)) :
      (∃ s, ⟨s, name', hs.reverse⟩ ∈ (n.register name).living) ↔
        ∃ i, Stands (h ++ [.register name]) i name' hs := by
    obtain ⟨r, hr⟩ := n.register_eq name
    simp [hr, H.stands, stands_concat, Act.ends]
  cases ho : n.named? name with
  | none =>
    have hr : n.register name = n := by rw [Notifier.register, ho]
    refine ⟨l, hq, hst, by rw [hr, H.listed], fun s => ?_, H.sorted⟩
    rw [H.seated, seated_register]
    intro i _ hi
    obtain ⟨k, hk⟩ := (H.stands name s.handlers).2 ⟨i, hi⟩
    simp [H.tidy.named?_eq_some.2 ⟨hk, rfl⟩] at ho
  | some o =>
    obtain ⟨hm, rfl⟩ := H.tidy.named?_eq_some.1 ho
    have hlist := H.tidy.listeners_register ho
    obtain ⟨i, hi⟩ := (H.stands o.name o.handlers.reverse).1 ⟨o.serial, by simpa using hm⟩
    by_cases hl : o ∈ n.listeners
    · rw [if_pos hl] at hlist
      refine ⟨l, hq, hst, hlist ▸ H.listed, fun s => ?_, H.sorted⟩
      rw [H.seated, seated_register]
      intro j _ hj
      -- who listens has a seat, and under its name nobody else is there
      obtain ⟨t, ht, hto⟩ := List.mem_map.1 (H.listed ▸ List.mem_map_of_mem hl)
      have hts := (H.seated t).1 ht
      obtain ⟨hn, -⟩ := Prod.mk.inj hto
      obtain ⟨rfl, hh⟩ := hts.stands.unique (hn ▸ hj)
      rw [← hn, ← hh]
      exact ⟨t.since, hts⟩
    · rw [if_neg hl] at hlist
      refine ⟨l ++ [⟨i, o.name, o.handlers.reverse, h.length⟩], hq, hst, ?_, fun s => ?_, ?_⟩
      · rw [hlist, List.map_append, List.map_append, H.listed]
        simp
      · have hfree (t : Seat) (ht : Seated h t) : t.name ≠ o.name := by
          intro hn
          obtain ⟨p, hp, hpt⟩ := List.mem_map.1 (H.listed ▸ List.mem_map_of_mem ((H.seated t).2 ht))
          obtain ⟨hpn, -⟩ := Prod.mk.inj hpt
          have hpm := (H.tidy.mem_listeners.1 hp).1
          obtain rfl := List.inj_on_of_nodup_map H.tidy.names hpm hm (hpn.trans hn)
          exact hl hp
        rw [List.mem_append, List.mem_singleton, H.seated]
        constructor
        · rintro (hs | rfl)
          · exact seated_concat.2 (.inl ⟨hs, rfl, by simp⟩)
          · exact seated_concat.2 (.inr ⟨rfl, rfl, hi, fun j hj => hfree _ hj rfl⟩)
        · intro hs
          obtain ⟨hs, -⟩ | ⟨hn, hsince, hsi, -⟩ := seated_concat.1 hs
          · exact .inl hs
          · obtain ⟨p, name, handlers, since⟩ := s
            obtain rfl := Act.register.inj hn
            obtain rfl : since = h.length := hsince
            obtain ⟨rfl, rfl⟩ := hi.unique hsi
            exact .inr rfl
      · refine List.pairwise_append.2 ⟨H.sorted, List.pairwise_singleton _ _, fun s hs t ht => ?_⟩
        obtain rfl := List.mem_singleton.1 ht
        exact lt_of_getElem?_eq_some ((H.seated s).1 hs).registered

theorem observe (H : Recalls h n l) (name : Text) (handlers : List (Event.Kind × Text)) :
    ∃ l, Recalls (h ++ [.observe name handlers]) (n.observe name handlers) l := by
  refine ⟨_, H.without name (H.tidy.observe name handlers) (fun name' hs => ?_)
    (H.tidy.listeners_observe name handlers) fun s => ?_⟩
  · constructor
    · rintro ⟨s, hm⟩
      obtain hm | hm := List.mem_append.1 hm
      · obtain ⟨hm, hne⟩ := List.mem_filter.1 hm
        obtain ⟨i, hi⟩ := (H.stands name' hs).1 ⟨s, hm⟩
        exact ⟨i, stands_concat.2 (.inl ⟨hi, by simpa [Act.ends, @eq_comm _ name] using hne⟩)⟩
      · obtain ⟨-, rfl, hr⟩ := Observer.mk.inj (List.mem_singleton.1 hm)
        obtain rfl := List.reverse_inj.1 hr
        exact ⟨h.length, stands_concat.2 (.inr ⟨rfl, rfl⟩)⟩
    · rintro ⟨i, hi⟩
      obtain ⟨hi, hne⟩ | ⟨-, hm⟩ := stands_concat.1 hi
      · obtain ⟨s, hm⟩ := (H.stands name' hs).2 ⟨i, hi⟩
        exact ⟨s, List.mem_append_left _
          (List.mem_filter.2 ⟨hm, by simpa [Act.ends, @eq_comm _ name] using hne⟩)⟩
      · obtain ⟨rfl, rfl⟩ := Act.observe.inj hm
        exact ⟨n.fresh, List.mem_append_right _ (List.mem_singleton_self _)⟩
  · simp [seated_concat, Act.ends, @eq_comm _ name]

theorem act (H : Recalls h n l) (a : Act) : ∃ l, Recalls (h ++ [a]) (n.act a) l := by
  have hq := H.tidy.act a
  cases a with
  | notify name e => exact ⟨l, H.same hq rfl rfl fun _ => by simp [Act.ends]⟩
  | notifyAll e => exact ⟨l, H.same hq rfl (listeners_notifyAll n e) fun _ => by simp [Act.ends]⟩
  | register name => exact H.register name
  | observe name handlers => exact H.observe name handlers
  | unregister name =>
    refine ⟨_, H.without name hq (fun name' hs => ?_) (H.tidy.listeners_unregister name)
      fun s => ?_⟩
    · obtain ⟨r, hr⟩ := n.unregister_eq name
      simp [Notifier.act, hr, H.stands, stands_concat, Act.ends]
    · simp [seated_concat, Act.ends, @eq_comm _ name]
  | drop name =>
    refine ⟨_, H.without name hq (fun name' hs => ?_) (H.tidy.listeners_drop name) fun s => ?_⟩
    · simp [Notifier.act, Notifier.drop, stands_concat, Act.ends, ← H.stands, @eq_comm _ name]
    · simp [seated_concat, Act.ends, @eq_comm _ name]

theorem behind (subject : Subject) (h : List Act) : ∃ l, Recalls h (behind h { subject }) l := by
  induction h using List.reverseRecOn with
  | nil =>
    refine ⟨[], tidy_new subject, fun name hs => ?_, rfl, fun s => ?_, .nil⟩
    · simp only [Notifier.behind, List.foldl_nil, List.not_mem_nil, exists_false, false_iff]
      exact fun ⟨i, hi⟩ => by simpa using hi.made
    · simp only [List.not_mem_nil, false_iff]
      exact fun hs => by simpa using hs.registered
  | append_singleton h a ih =>
    obtain ⟨l, H⟩ := ih
    rw [Notifier.behind, List.foldl_append]
    exact H.act a

end Recalls

theorem handler?_reverse (serial : Nat) (name : Text) (handlers : List (Event.Kind × Text))
    (k : Event.Kind) :
    (⟨serial, name, handlers.reverse⟩ : Observer).handler? k = lastFor k handlers := by
  rw [Observer.handler?, lastFor, ← List.head?_filter, List.filter_reverse, List.head?_reverse]

theorem Recalls.heard {n : Notifier} {l : List Seat} (H : Recalls h n l) (e : Event) :
    (n.notifyAll e).2 = l.filterMap (·.call n.subject e) := by
  -- what an observer is told depends on its name and its handlers alone
  let tell (p : Text × List (Event.Kind × Text)) := n.deliver e ⟨0, p.1, p.2⟩
  calc n.listeners.filterMap (n.deliver e)
      = (n.listeners.map fun o => (o.name, o.handlers)).filterMap tell := by
        rw [List.filterMap_map]
        rfl
    _ = l.filterMap (·.call n.subject e) := by
        rw [H.listed, List.filterMap_map]
        refine List.filterMap_congr fun s _ => ?_
        show ((⟨0, s.name, s.handlers.reverse⟩ : Observer).handler? e.kind).map _ = _
        rw [handler?_reverse]
        rfl

theorem subject_act (n : Notifier) (a : Act) : (n.act a).subject = n.subject := by
  cases a with
  | observe | drop | notify | notifyAll => rfl
  | register name =>
    obtain ⟨r, hr⟩ := n.register_eq name
    rw [act, hr]
  | unregister name =>
    obtain ⟨r, hr⟩ := n.unregister_eq name
    rw [act, hr]

theorem subject_behind (n : Notifier) (h : List Act) : (n.behind h).subject = n.subject := by
  induction h generalizing n with
  | nil => rfl
  | cons a h ih => exact (ih (n.act a)).trans (n.subject_act a)

/-- Behind every history a broadcast calls each observer that is there and registered, and has a
handler for the event, once and by the handler installed last, in the order of their earliest
registrations since they were last unregistered; it calls nobody else and gives the number of calls.
The count is that of these observers, and a broadcast changes nothing that comes behind it. -/
theorem broadcast_serves_seats (subject : Subject) (h : List Act) (e : Event) :
    (∃ l : List Seat, (∀ s, s ∈ l ↔ Seated h s) ∧ l.Pairwise (·.since < ·.since) ∧
      (l.map (·.place)).Nodup ∧ (behind h { subject }).count = l.length ∧
      (behind h { subject }).reply (.notifyAll e) =
        ⟨.calls (l.filterMap (·.call subject e)).length, l.filterMap (·.call subject e), l.length⟩) ∧
    ∀ g, replies g (behind (h ++ [.notifyAll e]) { subject }) = replies g (behind h { subject }) := by
  obtain ⟨l, H⟩ := Recalls.behind subject h
  have hc : (behind h { subject }).count = l.length := by
    rw [count, ← List.length_map fun o : Observer => (o.name, o.handlers), H.listed, List.length_map]
  have hd : ((behind h { subject }).notifyAll e).2 = l.filterMap (·.call subject e) := by
    rw [H.heard, subject_behind]
  refine ⟨⟨l, H.seated, H.sorted, ?_, hc, ?_⟩, fun g => ?_⟩
  · refine List.Nodup.map_on (fun s hs t ht => ?_) (H.sorted.imp fun hlt hst => ?_)
    · exact ((H.seated s).1 hs).unique ((H.seated t).1 ht)
    · exact Nat.lt_irrefl _ (hst ▸ hlt)
  · show Reply.mk (.calls (handling _ e).length) _ (notifyAll _ e).1.listeners.length = _
    rw [length_handling, listeners_notifyAll]
    show Reply.mk (.calls (notifyAll _ e).2.length) (notifyAll _ e).2 (count _) = _
    rw [hd, hc]
  · rw [behind, List.foldl_append]
    exact H.tidy.replies_notifyAll e g

end Switchboard.Notifier
