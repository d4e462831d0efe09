import Switchboard.Proofs.Client.Account
import Switchboard.Proofs.Scenario.Field

/-! The sessions of a client. It holds one at most, and lets none go that it does not see `closed`
before it goes on. -/
namespace Switchboard.Client
open Session (Machine TaskId endsClose)
open Session.Machine

variable {c d : Client} {l : List Machine} {trace : List (Duration × Event)} {m a : Machine}
  {i : Nat} {t : TaskId} {P Q : Machine → Prop} {h : Option Nat} {o : Session.Outcome} {job : Job}

def isDrift (v : Session.Move) : Bool := isOutside v || v matches .pass _

theorem passive_of_isDrift {v : Session.Move} (hv : isDrift v = true) :
    v.isPassive = true ∧ ∀ size data, v ≠ .deliver size data := by
  cases v <;> simp_all [isDrift, isOutside, Session.Move.isPassive]

def Lasts (P : Machine → Prop) : Prop :=
  ∀ m a v, isDrift v = true → P m → m.step v = some a → P a

structure Over (m : Machine) : Prop where
  whole : Whole m
  closed : m.session.state = .closed

structure Minded (t : TaskId) (m : Machine) : Prop where
  charged : Charged (some t) m
  minds : Minds t m

theorem lasts_over : Lasts Over := fun m a v hv h hs => by
  obtain ⟨-, hd⟩ := passive_of_isDrift hv
  exact ⟨h.whole.step hd hs, state_of_closed h.whole.sound.orderly hs h.closed⟩

theorem lasts_charged (p : Option TaskId) : Lasts (Charged p) := fun m a v hv h hs => by
  obtain ⟨hp, hd⟩ := passive_of_isDrift hv
  exact h.step hp hd hs

theorem lasts_minded (t : TaskId) : Lasts (Minded t) := fun m a v hv h hs => by
  obtain ⟨hp, hd⟩ := passive_of_isDrift hv
  have hc : v ≠ .cancel t := fun hc => by simp [hc, Session.Move.isPassive] at hp
  exact ⟨h.charged.step hp hd hs, h.minds.step h.charged.whole.sound hs hc⟩

/-- When the task has ended, the session is done with. -/
theorem Minded.past (hm : Minded t m) (ho : m.outcome? t = some o) : Over m := by
  have hr := hm.minds.released hm.charged.whole.sound ho
  obtain hc | ⟨x, hx, hj, -⟩ := (hm.charged.ended ho).shut hr
  · exact ⟨hm.charged.whole, hc⟩
  · have hp := ((hm.charged.ended ho).sole x hx hj).1
    simp at hp

theorem whole_newSession (c : Client) : Whole c.newSession where
  sound := {
    orderly := ⟨by simp [newSession], by simp [newSession], by simp [newSession],
      by simp [newSession]⟩
    roster := ⟨List.nodup_nil, by simp [newSession], by simp [newSession], by simp [newSession]⟩
    record := ⟨by simp [newSession], by simp [newSession], by simp [newSession]⟩
    closure := ⟨by simp [newSession], by simp [newSession], by simp [newSession]⟩ }
  books := ⟨by simp [newSession], fun _ => ⟨none, .nil, by simp [newSession], fun _ _ => trivial⟩⟩
  tally := by constructor <;> simp [newSession]

theorem charged_newSession (c : Client) : Charged none c.newSession :=
  ⟨whole_newSession c, by simp [newSession], by simp [newSession]⟩

/-- A new task on a session that nobody is in charge of sees it to its end. -/
theorem minded_call (hm : Charged none m) {job : Session.Job}
    (hj : job = .close ∨ job = .runLoops) : Minded m.fresh (m.call job) :=
  ⟨hm.call (fun _ => hj) rfl,
    minds_call hm.whole.sound.roster (by obtain rfl | rfl := hj <;> rfl)⟩

/-! One session at most is held. -/

structure Holding (h : Option Nat) (P : Machine → Prop) (l : List Machine)
    (trace : List (Duration × Event)) : Prop where
  held : ∀ i, h = some i → ∃ m, l[i]? = some m ∧ P m
  past : ∀ i m, l[i]? = some m → h ≠ some i → Over m
  account : Account l trace

namespace Holding

theorem call (hl : Holding (some i) P l trace) (hm : l[i]? = some m) (hw : Whole m)
    (job : Session.Job) (ha : Q (m.call job)) :
    Holding (some i) Q (l.set i (m.call job)) (told m (m.call job) ++ trace) where
  held j hj := by
    obtain rfl := Option.some.inj hj
    exact ⟨m.call job, by simp [(List.getElem?_eq_some_iff.1 hm).1], ha⟩
  past j b hb hj := by
    have hne : i ≠ j := fun hij => hj (congrArg _ hij)
    rw [List.getElem?_set_ne hne] at hb
    exact hl.past j b hb hj
  account := by
    have hs : m.step (.call job) = some (m.call job) := rfl
    exact hl.account.move hm hw (hw.step (by simp) hs) hs

theorem drift (hP : Lasts P) (hw : ∀ m, P m → Whole m) (hl : Holding h P l trace) {v : Session.Move}
    (hv : isDrift v = true) (hm : l[i]? = some m) (hs : m.step v = some a) :
    Holding h P (l.set i a) (told m a ++ trace) := by
  have hlt := (List.getElem?_eq_some_iff.1 hm).1
  have hmw : Whole m := by
    by_cases hi : h = some i
    · obtain ⟨b, hb, hp⟩ := hl.held i hi
      obtain rfl := Option.some.inj (hb.symm.trans hm)
      exact hw b hp
    · exact (hl.past i m hm hi).whole
  refine ⟨fun j hj => ?_, fun j b hb hj => ?_,
    hl.account.move hm hmw (hmw.step (passive_of_isDrift hv).2 hs) hs⟩
  · obtain ⟨b, hb, hp⟩ := hl.held j hj
    by_cases hij : i = j
    · subst hij
      obtain rfl := Option.some.inj (hb.symm.trans hm)
      exact ⟨a, by simp [hlt], hP b a v hv hp hs⟩
    · exact ⟨b, by rw [List.getElem?_set_ne hij, hb], hp⟩
  · by_cases hij : i = j
    · subst hij
      obtain rfl : a = b := by simpa [hlt] using hb
      exact lasts_over m a v hv (hl.past i m hm hj) hs
    · rw [List.getElem?_set_ne hij] at hb
      exact hl.past j b hb hj

theorem pass (hP : Lasts P) (hl : Holding h P l trace) (k : Duration) :
    Holding h P (l.map fun m => { m with now := m.now + k }) trace where
  held i hi := by
    obtain ⟨m, hm, hp⟩ := hl.held i hi
    exact ⟨_, by rw [List.getElem?_map, hm]; rfl, hP m _ (.pass k) rfl hp rfl⟩
  past i b hb hi := by
    rw [List.getElem?_map] at hb
    obtain ⟨m, hm, rfl⟩ := Option.map_eq_some_iff.1 hb
    exact lasts_over m _ (.pass k) rfl (hl.past i m hm hi) rfl
  account := hl.account.pass k

theorem drop (hl : Holding (some i) P l trace) (hP : ∀ m, l[i]? = some m → P m → Over m) :
    Holding none Q l trace where
  held j hj := by simp at hj
  past j m hm _ := by
    by_cases hj : i = j
    · subst hj
      obtain ⟨b, hb, hp⟩ := hl.held i rfl
      obtain rfl := Option.some.inj (hm.symm.trans hb)
      exact hP m hm hp
    · exact hl.past j m hm fun h => hj (Option.some.inj h)
  account := hl.account

theorem mono (hl : Holding h P l trace) (hPQ : ∀ i m, h = some i → l[i]? = some m → P m → Q m) :
    Holding h Q l trace where
  held i hi := by
    obtain ⟨m, hm, hp⟩ := hl.held i hi
    exact ⟨m, hm, hPQ i m hi hm hp⟩
  past := hl.past
  account := hl.account

theorem push (hl : Holding none Q l trace) (ha : P a) (ho : a.session.state ≠ .closed) (k : Duration)
    (peer : Address) :
    Holding (some l.length) P (l ++ [a]) ((k, .didConnect peer) :: trace) where
  held i hi := by
    obtain rfl := Option.some.inj hi
    exact ⟨a, by simp, ha⟩
  past i m hm hi := by
    have hne : i ≠ l.length := fun h => hi (congrArg _ h.symm)
    have hlt : i < l.length := by
      have hle := (List.getElem?_eq_some_iff.1 hm).1
      rw [List.length_append, List.length_singleton] at hle
      omega
    rw [List.getElem?_append_left hlt] at hm
    exact hl.past i m hm (by simp)
  account := hl.account.push ho k peer

/-- With none held, all sessions are `closed`, and an attempt may begin. -/
theorem attempt (hl : Holding none P l trace) (k : Duration) (n : UInt32) :
    Holding none Q l ((k, .willConnect n) :: trace) where
  held i hi := by simp at hi
  past := hl.past
  account := hl.account.attempt (fun m hm => by
    obtain ⟨i, hi⟩ := List.mem_iff_getElem?.1 hm
    exact (hl.past i m hi (by simp)).closed) k n

end Holding

/-! Where a client can be. -/

def connects (loops : Bool) : Job := if loops then .run else .connect

/-- Calls behind which there is no session: those that disconnect, and one that does not connect. -/
def Severs (job : Job) (r : Option Session.Outcome) : Prop :=
  job = .run ∨ job = .disconnect ∨ job = .connect ∧ ∃ e, r = some (.failed e)

def Sequel.Suits (job : Job) : Sequel → Prop
  | .connect loops => job = connects loops
  | .answer _ => job = .run ∨ job = .disconnect

inductive Stands (job : Job) (c : Client) : Prop where
  | free : c.stage = none → (Severs job c.result → c.current = none) →
      Holding c.current (Charged none) c.sessions c.trace → Stands job c
  | connecting {loops : Bool} :
      c.stage = some (.opening loops) ∨ (∃ d, c.stage = some (.resting d loops)) →
      job = connects loops → c.current = none →
      Holding none (Charged none) c.sessions c.trace → Stands job c
  | working {i : Nat} {t : TaskId} : c.stage = some (.working i t) → (∀ r, ¬ Severs job r) →
      c.current = some i → Holding (some i) (Charged (some t)) c.sessions c.trace → Stands job c
  | looping {i : Nat} {t : TaskId} : c.stage = some (.looping i t) → job = .run →
      c.current = some i → Holding (some i) (Minded t) c.sessions c.trace → Stands job c
  | leaving {i : Nat} {t : TaskId} {q : Sequel} : c.stage = some (.leaving i t q) → q.Suits job →
      c.current = none → Holding (some i) (Minded t) c.sessions c.trace → Stands job c

theorem Holding.ask (hl : Holding (some i) (Charged none) c.sessions c.trace) (job : Session.Job)
    {Q : TaskId → Machine → Prop} (hQ : ∀ m, Charged none m → Q m.fresh (m.call job)) :
    ∃ d t, c.ask i job = (d, t) ∧ d.current = c.current ∧
      Holding (some i) (Q t) d.sessions d.trace := by
  obtain ⟨m, hm, hp⟩ := hl.held i rfl
  refine ⟨c.put i (m.call job), m.fresh, by rw [Client.ask, hm], rfl, ?_⟩
  rw [put_eq hm]
  exact hl.call hm hp.whole job (hQ m hp)

theorem stands_attempt {loops : Bool} (hj : job = connects loops) (hc : c.current = none)
    (hl : Holding none P c.sessions c.trace) : Stands job (c.attempt loops) :=
  .connecting (.inl rfl) hj hc (hl.attempt _ _)

theorem stands_leave {q : Sequel} (hq : q.Suits job)
    (hl : Holding (some i) (Charged none) c.sessions c.trace) : Stands job (c.leave i q) := by
  obtain ⟨d, t, hd, hc, hn⟩ := Holding.ask (c := { c with current := none }) (Q := Minded) hl .close
    fun m hm => minded_call hm (.inl rfl)
  rw [leave, hd]
  exact .leaving rfl hq hc hn

theorem stands_work {what : Session.Job} (hw : isMinding what = false) (hj : ∀ r, ¬ Severs job r)
    (hl : Holding c.current (Charged none) c.sessions c.trace) : Stands job (c.work what) := by
  unfold work
  split
  next => exact .free rfl (fun h => absurd h (hj _)) hl
  next i hc =>
    rw [hc] at hl
    obtain ⟨d, t, hd, hdc, hn⟩ := hl.ask (Q := fun t => Charged (some t)) what
      fun m hm => hm.call (by simp [hw]) rfl
    rw [hd]
    exact .working rfl hj (hdc.trans hc) hn

theorem stands_beginConnect (loops : Bool) (hj : job = connects loops)
    (hl : Holding c.current (Charged none) c.sessions c.trace) :
    Stands job (c.beginConnect loops) := by
  unfold beginConnect
  split
  next i hc => exact stands_leave hj (hc ▸ hl)
  next hc => exact stands_attempt (c := { c with trials := 0 }) hj hc (hc ▸ hl)

theorem stands_begin (hl : Holding c.current (Charged none) c.sessions c.trace) (job : Job) :
    Stands job (c.begin job) := by
  cases job with
  | connect => exact stands_beginConnect false rfl hl
  | run => exact stands_beginConnect true rfl hl
  | send data => exact stands_work rfl (by simp [Severs]) hl
  | recv size => exact stands_work rfl (by simp [Severs]) hl
  | exchange => exact stands_work rfl (by simp [Severs]) hl
  | disconnect =>
    rw [begin]
    split
    next i hc => exact stands_leave (.inr rfl) (hc ▸ hl)
    next hc => exact .free rfl (fun _ => hc) hl

/-- An attempt opens a link, ends the call, or is followed by another one. -/
theorem stands_opened {loops : Bool} (hj : job = connects loops) (hc : c.current = none)
    (hl : Holding none (Charged none) c.sessions c.trace) (r : Except Error Address) :
    Stands job (c.opened r loops) := by
  unfold opened
  cases r with
  | error e =>
    have hf : Holding c.current (Charged none) c.sessions c.trace := hc ▸ hl
    dsimp only
    split
    · exact .free rfl (fun _ => hc) hf
    · split
      · exact .free rfl (fun _ => hc) hf
      · exact .connecting (.inr ⟨_, rfl⟩) hj hc hl
  | ok peer =>
    have hn := hl.push (charged_newSession c) (by simp [newSession]) c.now peer
    dsimp only
    split
    next h =>
      obtain ⟨d, t, hd, hdc, hn⟩ := Holding.ask
        (c := { c with sessions := c.sessions ++ [c.newSession], current := some c.sessions.length }.emit
          (.didConnect peer)) (Q := Minded) hn .runLoops
        fun m hm => minded_call hm (.inr rfl)
      rw [hd]
      exact .looping rfl (by simpa [connects, h] using hj) hdc hn
    next h =>
      refine .free rfl (fun hs => ?_) hn
      simp [hj, connects, h, Severs, finish] at hs

theorem outcome_of (ho : c.outcome? i t = some o) (hm : c.sessions[i]? = some m) :
    m.outcome? t = some o := by
  rwa [outcome?, hm] at ho

/-- What the call waits for on a session is over. -/
theorem Stands.proceed (h : Stands job c) (hs : c.proceed = some d) : Stands job d := by
  cases h with
  | free hst => simp [Client.proceed, hst] at hs
  | connecting hst => obtain hst | ⟨_, hst⟩ := hst <;> simp [Client.proceed, hst] at hs
  | @working i t hst hj hc hl =>
    simp only [Client.proceed, hst] at hs
    obtain ⟨o, ho, rfl⟩ := Option.map_eq_some_iff.1 hs
    exact .free rfl (fun h => absurd h (hj _)) (hc ▸ hl.mono fun j m hj hm hp => by
      obtain rfl := Option.some.inj hj
      exact hp.ended (outcome_of ho hm))
  | @looping i t hst hj hc hl =>
    simp only [Client.proceed, hst] at hs
    obtain ⟨o, ho, rfl⟩ := Option.map_eq_some_iff.1 hs
    exact stands_leave (.inl hj) (hl.mono fun j m hj hm hp => by
      obtain rfl := Option.some.inj hj
      exact hp.charged.ended (outcome_of ho hm))
  | @leaving i t q hst hq hc hl =>
    simp only [Client.proceed, hst] at hs
    obtain ⟨o, ho, rfl⟩ := Option.map_eq_some_iff.1 hs
    have hn : Holding none (Charged none) c.sessions c.trace :=
      hl.drop fun m hm hp => hp.past (outcome_of ho hm)
    split
    next => exact .free rfl (fun _ => hc) (hc ▸ hn)
    next =>
      cases q with
      | connect loops => exact stands_attempt (c := { c with trials := 0 }) hq hc hn
      | answer o => exact .free rfl (fun _ => hc) (hc ▸ hn)

structure Waits (c d : Client) : Prop where
  stage : d.stage = c.stage
  current : d.current = c.current
  result : d.result = c.result
  holding : ∀ {h : Option Nat} {P : Machine → Prop}, Lasts P → (∀ m, P m → Whole m) →
    Holding h P c.sessions c.trace → Holding h P d.sessions d.trace

theorem waits_session {v : Session.Move} (hs : c.step (.session i v) = some d) : Waits c d := by
  obtain ⟨hv, hs⟩ := Option.ite_none_right_eq_some.1 hs
  obtain ⟨a, ha, rfl⟩ := Option.map_eq_some_iff.1 hs
  obtain ⟨m, hm, hma⟩ := Option.bind_eq_some_iff.1 ha
  refine ⟨rfl, rfl, rfl, fun hP hw hl => ?_⟩
  rw [put_eq hm]
  exact hl.drift hP hw (by simp [isDrift, hv]) hm hma

theorem waits_pass {k : Duration} (hs : c.step (.pass k) = some d) : Waits c d := by
  obtain rfl := Option.some.inj hs
  exact ⟨rfl, rfl, rfl, fun hP _ hl => hl.pass hP k⟩

theorem Stands.wait (h : Stands job c) (hd : Waits c d) : Stands job d := by
  have charged {h : Option Nat} {p : Option TaskId}
      (hl : Holding h (Charged p) c.sessions c.trace) : Holding h (Charged p) d.sessions d.trace :=
    hd.holding (lasts_charged p) (fun _ hm => hm.whole) hl
  have minded {h : Option Nat} {t : TaskId} (hl : Holding h (Minded t) c.sessions c.trace) :
      Holding h (Minded t) d.sessions d.trace :=
    hd.holding (lasts_minded t) (fun _ hm => hm.charged.whole) hl
  cases h with
  | free hst hj hl =>
    exact .free (hd.stage.trans hst) (by rwa [hd.result, hd.current]) (hd.current ▸ charged hl)
  | connecting hst hj hc hl =>
    exact .connecting (hd.stage ▸ hst) hj (hd.current.trans hc) (charged hl)
  | working hst hj hc hl =>
    exact .working (hd.stage.trans hst) hj (hd.current.trans hc) (charged hl)
  | looping hst hj hc hl =>
    exact .looping (hd.stage.trans hst) hj (hd.current.trans hc) (minded hl)
  | leaving hst hq hc hl =>
    exact .leaving (hd.stage.trans hst) hq (hd.current.trans hc) (minded hl)

def Move.callFrom (job : Job) : Move → Job
  | .call job => job
  | _ => job

/-- Unless a call is given up, a client knows of all its sessions, whatever moves. -/
theorem Stands.step {v : Move} (h : Stands job c) (hv : v ≠ .interrupt) (hs : c.step v = some d) :
    Stands (v.callFrom job) d := by
  cases v with
  | interrupt => exact absurd rfl hv
  | session i v => exact h.wait (waits_session hs)
  | pass k => exact h.wait (waits_pass hs)
  | proceed => exact h.proceed hs
  | call job =>
    obtain ⟨hst, hs⟩ := Option.ite_none_right_eq_some.1 hs
    obtain rfl := Option.some.inj hs
    cases h with
    | free _ _ hl => exact stands_begin (c := { c with result := none }) hl job
    | connecting h => obtain h | ⟨_, h⟩ := h <;> simp [h] at hst
    | working h | looping h | leaving h => simp [h] at hst
  | opened r =>
    rw [Client.step] at hs
    split at hs
    next loops hst =>
      obtain rfl := Option.some.inj hs
      cases h with
      | @connecting k h hj hc hl =>
        obtain rfl : loops = k := by
          obtain h | ⟨_, h⟩ := h <;> simp_all
        exact stands_opened hj hc hl r
      | free h | working h | looping h | leaving h => simp [hst] at h
    next => simp at hs
  | wake =>
    rw [Client.step] at hs
    split at hs
    next k loops hst =>
      obtain ⟨-, hs⟩ := Option.ite_none_right_eq_some.1 hs
      obtain rfl := Option.some.inj hs
      cases h with
      | @connecting b h hj hc hl =>
        obtain rfl : loops = b := by
          obtain h | ⟨_, h⟩ := h <;> simp_all
        exact stands_attempt hj hc hl
      | free h | working h | looping h | leaving h => simp [hst] at h
    next => simp at hs

theorem Stands.steps (h : Stands job c) (vs : List Move) (hv : .interrupt ∉ vs)
    (hs : c.steps vs = some d) : Stands (vs.foldl Move.callFrom job) d := by
  induction vs generalizing c job with
  | nil =>
    obtain rfl := Option.some.inj hs
    exact h
  | cons v vs ih =>
    obtain ⟨b, hb, hs⟩ := Option.bind_eq_some_iff.1 hs
    obtain ⟨hne, hv⟩ := not_or.1 (mt List.mem_cons.2 hv)
    exact ih (h.step (Ne.symm hne) hb) hv hs

theorem stands_new {s : Settings} (hn : Client.new s = .ok c) (job : Job) : Stands job c := by
  obtain ⟨_, -, hn⟩ := bind_eq_ok.1 hn
  obtain rfl := pure_eq_ok.1 hn
  refine .free rfl (fun _ => rfl) ⟨by simp, by simp, rfl, rfl, by simp⟩

theorem foldl_callFrom {vs : List Move} (hv : ∀ j, Move.call j ∉ vs) (job : Job) :
    vs.foldl Move.callFrom job = job := by
  induction vs generalizing job with
  | nil => rfl
  | cons v vs ih =>
    rw [List.foldl_cons, ih fun j hm => hv j (List.mem_cons_of_mem _ hm)]
    cases v with
    | call j => exact absurd List.mem_cons_self (hv j)
    | _ => rfl

def leaving? (c : Client) : Option Nat :=
  match c.stage with
  | some (.leaving i _ _) => some i
  | _ => none

/-- A session that is neither in use nor about to be closed is done with. -/
theorem Stands.past (h : Stands job c) (hm : c.sessions[i]? = some m) (hc : c.current ≠ some i)
    (hi : c.leaving? ≠ some i) : Over m := by
  cases h with
  | free _ _ hl => exact hl.past i m hm hc
  | connecting _ _ _ hl => exact hl.past i m hm (by simp)
  | working _ _ hw hl => exact hl.past i m hm (hw ▸ hc)
  | looping _ _ hw hl => exact hl.past i m hm (hw ▸ hc)
  | leaving hst _ _ hl =>
    refine hl.past i m hm fun h => hi ?_
    rw [leaving?, hst]
    exact h

theorem Stands.account (h : Stands job c) : Account c.sessions c.trace := by
  cases h with
  | free _ _ hl | connecting _ _ _ hl | working _ _ _ hl | looping _ _ _ hl | leaving _ _ _ hl =>
    exact hl.account

/-- The session in use is there, and its cells are in order. -/
theorem Stands.current (h : Stands job c) (hc : c.current = some i) :
    ∃ m, c.sessions[i]? = some m ∧ Orderly m := by
  have orderly {p : Option TaskId} (hl : Holding (some i) (Charged p) c.sessions c.trace) :
      ∃ m, c.sessions[i]? = some m ∧ Orderly m := by
    obtain ⟨m, hm, hp⟩ := hl.held i rfl
    exact ⟨m, hm, hp.whole.sound.orderly⟩
  cases h with
  | free _ _ hl => exact orderly (hc ▸ hl)
  | connecting _ _ hn | leaving _ _ hn => simp [hn] at hc
  | working _ _ hw hl =>
    obtain rfl := Option.some.inj (hw.symm.trans hc)
    exact orderly hl
  | looping _ _ hw hl =>
    obtain rfl := Option.some.inj (hw.symm.trans hc)
    exact orderly (hl.mono fun _ _ _ _ hp => hp.charged)

theorem Stands.isConnected (h : Stands job c) :
    c.isConnected = true ↔
      ∃ i m, c.current = some i ∧ c.sessions[i]? = some m ∧ m.session.state = .active := by
  cases hc : c.current with
  | none => simp [Client.isConnected, Client.session?, hc]
  | some i =>
    obtain ⟨m, hm, ho⟩ := h.current hc
    simp [Client.isConnected, Client.session?, hc, hm, ho.alive_iff]

/-- A client whose calls run to their ends, one after the other, leaks no session: all that it ever
made are `closed` but the one in use and the one that the call under way is closing, and the link of
each was let go once. Observers hear of each as it comes and of its end, and of all ends before the
next attempt to connect. Behind a call that disconnects, or that fails to connect, none is in use. -/
theorem no_session_leaks {s : Settings} (hn : Client.new s = .ok c) (vs : List Move)
    (hv : .interrupt ∉ vs) (hs : c.steps vs = some d) :
    (∀ i m, d.sessions[i]? = some m → d.current ≠ some i → d.leaving? ≠ some i →
      m.session.state = .closed ∧ m.calls.countP (·.2 = .close) = 1 ∧
        m.trace.countP (endsClose ·.event) = 1) ∧
    d.trace.countP (isDidConnect ·.2) = d.sessions.length ∧
    (∀ e k older, (e, .willConnect k) :: older <:+ d.trace →
      older.countP (isDidConnect ·.2) = older.countP (endsClose ·.2)) ∧
    (∀ us job ws, vs = us ++ .call job :: ws → (∀ j, .call j ∉ ws) → d.stage = none →
      Severs job d.result → d.current = none) ∧
    (d.isConnected = true ↔
      ∃ i m, d.current = some i ∧ d.sessions[i]? = some m ∧ m.session.state = .active) := by
  have hd := (stands_new hn .connect).steps vs hv hs
  refine ⟨fun i m hm hc hi => ?_, hd.account.connects, hd.account.ordered,
    fun us job ws hvs hw hst hj => ?_, hd.isConnected⟩
  · obtain ⟨hw, hm⟩ := hd.past hm hc hi
    have hr := hw.sound.orderly.released_of_closed hm
    exact ⟨hm, by rw [hw.sound.closure.closes, if_pos hr], by rw [hw.countP_endsClose, if_pos hm]⟩
  · rw [hvs, List.foldl_append, List.foldl_cons, foldl_callFrom hw] at hd
    cases hd with
    | free _ hf => exact hf hj
    | connecting h => obtain h | ⟨_, h⟩ := h <;> simp [h] at hst
    | working h | looping h | leaving h => simp [h] at hst

/-- A connection breaks, and its link fails to close when the client connects anew; then the client
runs once. -/
def brokenOff : List Move :=
  [.call .connect, .opened (.ok ⟨.v4 [127, 0, 0, 1], 5060⟩), .call (.recv 8),
    .session 0 (.reply 0 (.received [])), .proceed, .call .connect,
    .session 0 (.reply 2 (.failed .peerClosed)), .proceed, .call .run,
    .opened (.ok ⟨.v4 [127, 0, 0, 1], 5060⟩), .session 1 (.join 0), .session 1 (.reply 0 .closed),
    .proceed, .proceed]

theorem no_session_leaks_brokenOff :
    ∃ c d, Client.new {} = .ok c ∧ .interrupt ∉ brokenOff ∧ c.steps brokenOff = some d ∧
      (d.current, d.sessions.length) = (none, 2) ∧
      (∀ i m, d.sessions[i]? = some m → d.current ≠ some i → d.leaving? ≠ some i →
        m.session.state = .closed ∧ m.calls.countP (·.2 = .close) = 1 ∧
          m.trace.countP (endsClose ·.event) = 1) ∧
      d.trace.countP (isDidConnect ·.2) = d.sessions.length ∧
      (∀ e k older, (e, .willConnect k) :: older <:+ d.trace →
        older.countP (isDidConnect ·.2) = older.countP (endsClose ·.2)) ∧
      (∀ us job ws, brokenOff = us ++ .call job :: ws → (∀ j, .call j ∉ ws) → d.stage = none →
        Severs job d.result → d.current = none) ∧
      (d.isConnected = true ↔
        ∃ i m, d.current = some i ∧ d.sessions[i]? = some m ∧ m.session.state = .active) := by
  have hn : Client.new {} = .ok { settings := {} } := rfl
  have hv : .interrupt ∉ brokenOff := by simp [brokenOff]
  have h : (({ settings := {} } : Client).steps brokenOff).map
      (fun d => (d.current, d.sessions.length)) = some (none, 2) := by decide +kernel
  obtain ⟨d, hd, hc⟩ := Option.map_eq_some_iff.1 h
  exact ⟨_, d, hn, hv, hd, hc, no_session_leaks hn brokenOff hv hd⟩

end Switchboard.Client
