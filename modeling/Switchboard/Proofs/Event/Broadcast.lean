import Mathlib.Data.List.Nodup
import Switchboard.Event.History

/-! What a notifier serves. Behind any history it tells of an event just the observers that are there
and registered, in the order of their registration, each by the handler that was installed last. What
it forgets at a broadcast is on no such list, so nobody can tell whether there was one. -/
namespace Switchboard.Notifier

theorem find?_key_eq_some {α κ : Type} [DecidableEq κ] {key : α → κ} {l : List α}
    (h : (l.map key).Nodup) (k : κ) (x : α) :
    l.find? (fun y => key y = k) = some x ↔ x ∈ l ∧ key x = k := by
  constructor
  · exact fun hx => ⟨List.mem_of_find?_eq_some hx, by simpa using List.find?_some hx⟩
  · rintro ⟨hx, rfl⟩
    cases hy : l.find? (fun y => key y = key x) with
    | none => simpa using List.find?_eq_none.1 hy x hx
    | some y =>
      have hk : key y = key x := by simpa using List.find?_some hy
      rw [List.inj_on_of_nodup_map h (List.mem_of_find?_eq_some hy) hx hk]

variable {n : Notifier} {o : Observer} {name : Text} {serial : Nat}
  {handlers : List (Event.Kind × Text)}

/-- Serial numbers tell the observers apart that are there, and so do names; a number that is not yet
given out is nobody's. -/
structure Tidy (n : Notifier) : Prop where
  names : (n.living.map (·.name)).Nodup
  serials : (n.living.map (·.serial)).Nodup
  living_lt : ∀ o ∈ n.living, o.serial < n.fresh
  registered_lt : ∀ s ∈ n.registered, s < n.fresh

theorem tidy_new (subject : Subject) : Tidy { subject } :=
  ⟨List.nodup_nil, List.nodup_nil, nofun, nofun⟩

namespace Tidy

theorem named?_eq_some (h : Tidy n) : n.named? name = some o ↔ o ∈ n.living ∧ o.name = name :=
  find?_key_eq_some h.names name o

theorem withSerial?_eq_some (h : Tidy n) :
    n.withSerial? serial = some o ↔ o ∈ n.living ∧ o.serial = serial :=
  find?_key_eq_some h.serials serial o

theorem mem_listeners (h : Tidy n) : o ∈ n.listeners ↔ o ∈ n.living ∧ o.serial ∈ n.registered := by
  rw [listeners, List.mem_filterMap]
  constructor
  · rintro ⟨s, hs, ho⟩
    obtain ⟨hm, rfl⟩ := h.withSerial?_eq_some.1 ho
    exact ⟨hm, hs⟩
  · exact fun ⟨hm, hs⟩ => ⟨o.serial, hs, h.withSerial?_eq_some.2 ⟨hm, rfl⟩⟩

theorem sublist (h : Tidy n) {living : List Observer} (hs : living.Sublist n.living) :
    Tidy { n with living } where
  names := h.names.sublist (hs.map _)
  serials := h.serials.sublist (hs.map _)
  living_lt o ho := h.living_lt o (hs.subset ho)
  registered_lt := h.registered_lt

theorem enlist (h : Tidy n) {registered : List Nat} (hr : ∀ s ∈ registered, s < n.fresh) :
    Tidy { n with registered } :=
  ⟨h.names, h.serials, h.living_lt, hr⟩

theorem observe (h : Tidy n) (name : Text) (handlers : List (Event.Kind × Text)) :
    Tidy (n.observe name handlers) := by
  have hs := h.sublist (List.filter_sublist (p := (·.name ≠ name)))
  refine ⟨?_, ?_, fun o ho => ?_, fun s hs => Nat.lt_succ_of_lt (h.registered_lt s hs)⟩
  · rw [Notifier.observe, List.map_append, List.nodup_append]
    refine ⟨hs.names, by simp, ?_⟩
    simp only [List.mem_map, List.mem_filter, decide_eq_true_eq]
    rintro _ ⟨o, ⟨-, hne⟩, rfl⟩ _ ⟨p, hp, rfl⟩
    obtain rfl := List.mem_singleton.1 hp
    exact hne
  · rw [Notifier.observe, List.map_append, List.nodup_append]
    refine ⟨hs.serials, by simp, ?_⟩
    simp only [List.mem_map]
    rintro _ ⟨o, ho, rfl⟩ _ ⟨p, hp, rfl⟩
    obtain rfl := List.mem_singleton.1 hp
    exact Nat.ne_of_lt (hs.living_lt o ho)
  · obtain ho | ho := List.mem_append.1 ho
    · exact Nat.lt_succ_of_lt (hs.living_lt o ho)
    · obtain rfl := List.mem_singleton.1 ho
      exact Nat.lt_succ_self _

theorem register (h : Tidy n) (name : Text) : Tidy (n.register name) := by
  rw [Notifier.register]
  cases ho : n.named? name with
  | none => exact h
  | some o =>
    dsimp only
    split
    · exact h
    · refine h.enlist fun s hs => ?_
      obtain hs | hs := List.mem_append.1 hs
      · exact h.registered_lt s hs
      · obtain rfl := List.mem_singleton.1 hs
        exact h.living_lt o (h.named?_eq_some.1 ho).1

theorem unregister (h : Tidy n) (name : Text) : Tidy (n.unregister name) := by
  rw [Notifier.unregister]
  split
  · exact h
  · exact h.enlist fun s hs => h.registered_lt s (List.mem_filter.1 hs).1

theorem act (h : Tidy n) (a : Act) : Tidy (n.act a) := by
  cases a with
  | observe name handlers => exact h.observe name handlers
  | drop name => exact h.sublist List.filter_sublist
  | register name => exact h.register name
  | unregister name => exact h.unregister name
  | notify => exact h
  | notifyAll e => exact h.enlist fun s hs => h.registered_lt s (List.mem_filter.1 hs).1

/-! What becomes of the listeners. -/

/-- Where all observers of a name go, they go from the listeners. -/
theorem listeners_without (h : Tidy n) {q : Notifier} (hq : Tidy q)
    (hr : q.registered = n.registered) (name : Text)
    (hl : ∀ o, o.serial < n.fresh → (o ∈ q.living ↔ o ∈ n.living ∧ o.name ≠ name)) :
    q.listeners = n.listeners.filter (·.name ≠ name) := by
  rw [listeners, listeners, List.filter_filterMap, hr]
  refine List.filterMap_congr fun s hs => ?_
  have hlt := h.registered_lt s hs
  ext o
  rw [hq.withSerial?_eq_some, Option.filter_eq_some_iff, h.withSerial?_eq_some]
  constructor
  · rintro ⟨ho, rfl⟩
    obtain ⟨ho, hn⟩ := (hl o hlt).1 ho
    exact ⟨⟨ho, rfl⟩, by simpa using hn⟩
  · rintro ⟨⟨ho, rfl⟩, hn⟩
    exact ⟨(hl o hlt).2 ⟨ho, by simpa using hn⟩, rfl⟩

theorem listeners_observe (h : Tidy n) (name : Text) (handlers : List (Event.Kind × Text)) :
    (n.observe name handlers).listeners = n.listeners.filter (·.name ≠ name) := by
  refine h.listeners_without (h.observe name handlers) rfl name fun o ho => ?_
  have hn : o ≠ ⟨n.fresh, name, handlers.reverse⟩ := by
    rintro rfl
    exact Nat.lt_irrefl _ ho
  simp [Notifier.observe, hn]

theorem listeners_drop (h : Tidy n) (name : Text) :
    (n.drop name).1.listeners = n.listeners.filter (·.name ≠ name) :=
  h.listeners_without (h.sublist List.filter_sublist) rfl name fun o _ => by simp

theorem listeners_register (h : Tidy n) (ho : n.named? name = some o) :
    (n.register name).listeners =
      if o ∈ n.listeners then n.listeners else n.listeners ++ [o] := by
  have hm := (h.named?_eq_some.1 ho).1
  have hi : o ∈ n.listeners ↔ o.serial ∈ n.registered := by simp [h.mem_listeners, hm]
  rw [Notifier.register, ho]
  by_cases hs : o.serial ∈ n.registered
  · simp only [if_pos hs, if_pos (hi.2 hs)]
  · have hw : [o.serial].filterMap n.withSerial? = [o] :=
      List.filterMap_cons_some (h.withSerial?_eq_some.2 ⟨hm, rfl⟩)
    simp only [if_neg hs, if_neg (mt hi.1 hs)]
    rw [listeners, List.filterMap_append]
    exact congrArg (n.listeners ++ ·) hw

theorem listeners_unregister (h : Tidy n) (name : Text) :
    (n.unregister name).listeners = n.listeners.filter (·.name ≠ name) := by
  rw [Notifier.unregister]
  cases ho : n.named? name with
  | none =>
    refine (List.filter_eq_self.2 fun p hp => ?_).symm
    have hn : n.named? name ≠ some p := by simp [ho]
    simpa [h.named?_eq_some, (h.mem_listeners.1 hp).1] using hn
  | some o =>
    obtain ⟨hm, rfl⟩ := h.named?_eq_some.1 ho
    show (n.registered.filter (· ≠ o.serial)).filterMap n.withSerial? = _
    rw [listeners, List.filter_filterMap, List.filterMap_filter]
    refine List.filterMap_congr fun s _ => ?_
    cases hw : n.withSerial? s with
    | none => simp
    | some p =>
      obtain ⟨hp, rfl⟩ := h.withSerial?_eq_some.1 hw
      have he : p.serial = o.serial ↔ p.name = o.name :=
        ⟨fun hs => by rw [List.inj_on_of_nodup_map h.serials hp hm hs],
          fun hs => by rw [List.inj_on_of_nodup_map h.names hp hm hs]⟩
      simp [he, Option.filter_some]

end Tidy

theorem listeners_notifyAll (n : Notifier) (e : Event) : (n.notifyAll e).1.listeners = n.listeners := by
  show (n.registered.filter fun s => (n.withSerial? s).isSome).filterMap n.withSerial? = _
  rw [listeners, List.filterMap_filter]
  refine List.filterMap_congr fun s _ => ?_
  cases n.withSerial? s <;> simp

/-! The list that a notifier stands for. -/

structure Roll where
  subject : Subject
  living : List Observer
  listening : List Observer
  fresh : Nat

def roll (n : Notifier) : Roll := ⟨n.subject, n.living, n.listeners, n.fresh⟩

namespace Roll

def named? (r : Roll) (name : Text) : Option Observer := r.living.find? (·.name = name)

def act : Act → Roll → Roll
  | .observe name handlers, r =>
    { r with
      living := r.living.filter (·.name ≠ name) ++ [⟨r.fresh, name, handlers.reverse⟩]
      listening := r.listening.filter (·.name ≠ name)
      fresh := r.fresh + 1 }
  | .drop name, r =>
    { r with
      living := r.living.filter (·.name ≠ name)
      listening := r.listening.filter (·.name ≠ name) }
  | .register name, r =>
    match r.named? name with
    | none => r
    | some o => if o ∈ r.listening then r else { r with listening := r.listening ++ [o] }
  | .unregister name, r => { r with listening := r.listening.filter (·.name ≠ name) }
  | .notify .., r | .notifyAll _, r => r

def deliver (r : Roll) (e : Event) (o : Observer) : Option Delivery :=
  (o.handler? e.kind).map fun h => ⟨o.name, h, r.subject, e⟩

def heard : Act → Roll → List Delivery
  | .notify name e, r => ((r.named? name).bind (r.deliver e)).toList
  | .notifyAll e, r => r.listening.filterMap (r.deliver e)
  | _, _ => []

def answer : Act → Roll → Answer
  | .observe .., _ | .register _, _ | .unregister _, _ => .silent
  | .drop name, r => .existed (r.named? name).isSome
  | .notify name e, r => .handled ((r.named? name).bind (r.deliver e)).isSome
  | .notifyAll e, r => .calls (r.heard (.notifyAll e)).length

def reply (a : Act) (r : Roll) : Reply := ⟨r.answer a, r.heard a, (r.act a).listening.length⟩

def replies : List Act → Roll → List Reply
  | [], _ => []
  | a :: h, r => r.reply a :: replies h (r.act a)

end Roll

theorem register_eq (n : Notifier) (name : Text) :
    ∃ registered, n.register name = { n with registered } := by
  unfold register
  split
  · exact ⟨_, rfl⟩
  · split <;> exact ⟨_, rfl⟩

theorem unregister_eq (n : Notifier) (name : Text) :
    ∃ registered, n.unregister name = { n with registered } := by
  unfold unregister
  split <;> exact ⟨_, rfl⟩

/-- What is done to a notifier is done to the list. -/
theorem Tidy.roll_act (h : Tidy n) (a : Act) : (n.act a).roll = n.roll.act a := by
  cases a with
  | observe name handlers => simp only [Notifier.act, roll, h.listeners_observe]; rfl
  | drop name => simp only [Notifier.act, roll, h.listeners_drop]; rfl
  | notify => rfl
  | notifyAll e => simp only [Notifier.act, roll, listeners_notifyAll]; rfl
  | unregister name =>
    obtain ⟨l, hl⟩ := n.unregister_eq name
    have hr := h.listeners_unregister name
    rw [hl] at hr
    rw [Notifier.act, hl, roll, hr]
    rfl
  | register name =>
    have hn : n.roll.named? name = n.named? name := rfl
    rw [Notifier.act, Roll.act, hn]
    cases ho : n.named? name with
    | none => rw [Notifier.register, ho]
    | some o =>
      obtain ⟨l, hl⟩ := n.register_eq name
      have hr := h.listeners_register ho
      rw [hl] at hr
      rw [hl, roll, hr]
      show Roll.mk _ _ (if o ∈ n.listeners then _ else _) _ =
        if o ∈ n.listeners then n.roll else { n.roll with listening := n.listeners ++ [o] }
      split <;> rfl

theorem length_handling (n : Notifier) (e : Event) :
    (n.handling e).length = (n.roll.heard (.notifyAll e)).length := by
  rw [handling, ← List.countP_eq_length_filter, Roll.heard, List.length_filterMap_eq_countP]
  rfl

theorem Tidy.reply_roll (h : Tidy n) (a : Act) : n.reply a = n.roll.reply a := by
  have hc : (n.act a).count = (n.roll.act a).listening.length := by rw [← h.roll_act a]; rfl
  rw [reply, Roll.reply, hc]
  cases a with
  | notifyAll e => rw [answer, length_handling]; rfl
  | observe | drop | register | unregister | notify => rfl

theorem Tidy.replies_roll (h : Tidy n) (g : List Act) : n.replies g = n.roll.replies g := by
  induction g generalizing n with
  | nil => rfl
  | cons a g ih => rw [replies, Roll.replies, h.reply_roll, ih (h.act a), h.roll_act]

/-- Nobody can tell later whether there was a broadcast. -/
theorem Tidy.replies_notifyAll (h : Tidy n) (e : Event) (g : List Act) :
    (n.act (.notifyAll e)).replies g = n.replies g := by
  rw [(h.act _).replies_roll, h.roll_act, h.replies_roll]
  rfl

end Switchboard.Notifier
