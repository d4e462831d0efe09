import Switchboard.Proofs.Client.Account
import Switchboard.Proofs.Session.Telling

/-! The trials of a call that connects. One attempt follows the other, a rest between them, until a
link opens, the setup is at fault, or there have been as many as there may be. -/
namespace Switchboard.Client
open Session (Machine)
open Session.Machine

variable {c a b : Client} {m n : Machine} {v : Move} {l : List Trial} {ts : List Duration}
  {R : Trial → Duration → Prop}

/-- What a session tells is never what a client tells of itself. -/
theorem told_not_own {v : Session.Move} (h : m.step v = some n) :
    ∀ x ∈ told m n, isOwn x.2 = false := by
  obtain ⟨new, hn, hf⟩ := trace_step h
  rw [told, hn, ← List.append_assoc, List.length_append, Nat.add_sub_cancel, List.take_left]
  intro x hx
  obtain ⟨k, hk, rfl⟩ := List.mem_map.1 hx
  have hk : Session.isFraming k.event = true ∨ Session.isNews k.event = true := by
    obtain hk | hk := List.mem_append.1 hk
    · exact .inl (hf k hk)
    · exact .inr (isNews_of_news? (Option.mem_toList.1 hk)).1
  generalize k.event = e at hk ⊢
  cases e <;> first | rfl | simp [Session.isFraming, Session.isNews] at hk

/-! What a run comes to. -/

structure Trial where
  ended : Duration
  outcome : Except Error Address

def Trial.mayPass (x : Trial) : Bool :=
  match x.outcome with
  | .ok _ => false
  | .error e => !e.isSetup

def trial? (c : Client) : Move → Option Trial
  | .opened r => some ⟨c.now, r⟩
  | _ => none

def resume? (c : Client) : Move → Option Duration
  | .wake => some c.now
  | _ => none

def isPatient : Move → Bool
  | .call _ | .interrupt => false
  | _ => true

/-- The attempts that end in a run, in order, up to a move that is not possible. -/
def tried : List Move → Client → List Trial
  | [], _ => []
  | v :: vs, c => (c.trial? v).toList ++ ((c.step v).map (tried vs)).getD []

/-- The times at which a rest of the run is over and another attempt begins, in order, up to a move
that is not possible. -/
def resumed : List Move → Client → List Duration
  | [], _ => []
  | v :: vs, c => (c.resume? v).toList ++ ((c.step v).map (resumed vs)).getD []

/-- Whether the call is under way at every move of the run, and nobody drops it or makes another. -/
def isAwaited : List Move → Client → Bool
  | [], _ => true
  | v :: vs, c => c.stage.isSome && isPatient v && ((c.step v).map (isAwaited vs)).getD true

def isRested (c : Client) : Move → Bool
  | .pass d => match c.stage with
    | some (.resting u _) => c.now + d ≤ u
    | _ => true
  | _ => true

/-- Whether no rest is overslept in the run. -/
def isPunctual : List Move → Client → Bool
  | [], _ => true
  | v :: vs, c => c.isRested v && ((c.step v).map (isPunctual vs)).getD true

def announcements (c : Client) : List (Duration × Event) := (c.trace.filter (isOwn ·.2)).reverse

def announced (ts : List Duration) : List (Duration × Event) :=
  ts.zipIdx.map fun p => (p.1, .willConnect (UInt32.ofNat (p.2 + 1)))

/-- How the last attempt ends a call made at `c`. All attempts but the first have begun at the times
`ts`. -/
inductive Ends (c : Client) (ts : List Duration) (a : Client) : Except Error Address → Prop where
  | connected {peer : Address} {m : Machine} : a.result = some .done → a.session? = some m →
      m.session.state = .active → m.session.alive = true → m.session.loops = c.settings.enabled →
      a.announcements =
        c.announcements ++ announced (c.now :: ts) ++ [(a.now, .didConnect peer)] →
      Ends c ts a (.ok peer)
  | atFault {e : Error} : e.isSetup = true → a.result = some (.failed e) → a.current = none →
      a.announcements = c.announcements ++ announced (c.now :: ts) → Ends c ts a (.error e)
  | exhausted {e : Error} : e.isSetup = false →
      ts.length + 1 = max 1 c.settings.maxTrials.toNat →
      a.result = some (.failed (.connect (ts.length + 1) e.message)) → a.current = none →
      a.announcements = c.announcements ++ announced (c.now :: ts) → Ends c ts a (.error e)

/-- How a call that connects stands when these attempts of it have ended. It was made at `c`, and the
first of them began at once; the others have begun at the times `ts`, and `R` says how each of them
follows on the one before. -/
inductive Trying (R : Trial → Duration → Prop) (c : Client) :
    List Trial → List Duration → Client → Prop where
  | opening {l : List Trial} {ts : List Duration} {a : Client} :
      a.stage = some (.opening false) → a.current = none →
      (∀ x ∈ l, x.mayPass) → l.length < max 1 c.settings.maxTrials.toNat →
      List.Forall₂ R l ts → a.trials.toNat = l.length + 1 →
      a.announcements = c.announcements ++ announced (c.now :: ts) → Trying R c l ts a
  | resting {l : List Trial} {x : Trial} {ts : List Duration} {a : Client} :
      a.stage = some (.resting (x.ended + c.settings.retryDelay) false) → a.current = none →
      (∀ y ∈ l ++ [x], y.mayPass) → l.length + 1 < max 1 c.settings.maxTrials.toNat →
      List.Forall₂ R l ts → a.trials.toNat = l.length + 1 →
      a.announcements = c.announcements ++ announced (c.now :: ts) → Trying R c (l ++ [x]) ts a
  | ended {l : List Trial} {r : Except Error Address} {ts : List Duration} {a : Client} :
      a.stage = none → (∀ x ∈ l, x.mayPass) → l.length < max 1 c.settings.maxTrials.toNat →
      List.Forall₂ R l ts → a.trials.toNat = l.length + 1 → Ends c ts a r →
      Trying R c (l ++ [⟨a.now, r⟩]) ts a

theorem toNat_limit (c : Client) : c.limit.toNat = max 1 c.settings.maxTrials.toNat := by
  rw [limit, UInt32.max_def, Nat.max_def]
  simp only [UInt32.le_iff_toNat_le, UInt32.toNat_one]
  split <;> rfl

theorem limit_lt (c : Client) : max 1 c.settings.maxTrials.toNat < 2 ^ 32 := by
  rw [← toNat_limit]
  exact c.limit.toNat_lt

theorem succ_trials {k : UInt32} {n : Nat} (hk : k.toNat = n) (hn : n + 1 < 2 ^ 32) :
    (k + 1).toNat = n + 1 ∧ k + 1 = UInt32.ofNat (n + 1) := by
  have h : (k + 1).toNat = n + 1 := by
    rw [UInt32.toNat_add, hk]
    exact Nat.mod_eq_of_lt hn
  exact ⟨h, by rw [← h, UInt32.ofNat_toNat]⟩

theorem announced_concat (ts : List Duration) (t : Duration) :
    announced (ts ++ [t]) = announced ts ++ [(t, .willConnect (UInt32.ofNat (ts.length + 1)))] := by
  simp [announced, List.zipIdx_append]

theorem announcements_attempt (loops : Bool) (c : Client) :
    (c.attempt loops).announcements = c.announcements ++ [(c.now, .willConnect (c.trials + 1))] := by
  simp [announcements, attempt, emit, goto, isOwn]

theorem announcements_put {v : Session.Move} {i : Nat} (hm : a.sessions[i]? = some m)
    (hs : m.step v = some n) : (a.put i n).announcements = a.announcements := by
  have h : (told m n).filter (isOwn ·.2) = [] :=
    List.filter_eq_nil_iff.2 fun x hx => by simp [told_not_own hs x hx]
  rw [put_eq hm]
  simp [announcements, h]

theorem step_connect (hst : c.stage = none) (hc : c.current = none) :
    c.step (.call .connect) =
      some (({ c with result := none, trials := 0 } : Client).attempt false) := by
  simp [step, hst, begin, beginConnect, hc]

theorem trying_attempt (R : Trial → Duration → Prop) (hc : c.current = none) :
    Trying R c [] [] (({ c with result := none, trials := 0 } : Client).attempt false) := by
  refine .opening rfl hc (by simp) (by simp) .nil rfl ?_
  rw [announcements_attempt]
  rfl

theorem trying_wake {x : Trial} (hR : R x a.now) (hc : a.current = none)
    (hp : ∀ y ∈ l ++ [x], y.mayPass) (hl : l.length + 1 < max 1 c.settings.maxTrials.toNat)
    (hts : List.Forall₂ R l ts) (ht : a.trials.toNat = l.length + 1)
    (ha : a.announcements = c.announcements ++ announced (c.now :: ts)) :
    Trying R c (l ++ [x]) (ts ++ [a.now]) (a.attempt false) := by
  have hlt := limit_lt c
  obtain ⟨hk, hu⟩ := succ_trials ht (by omega)
  have hlen : (l ++ [x]).length = l.length + 1 := by simp
  refine .opening rfl hc hp (hlen ▸ hl) (List.rel_append hts (.cons hR .nil)) (hlen ▸ hk) ?_
  rw [announcements_attempt, ← List.cons_append, announced_concat, ha, hu, hts.length_eq,
    List.length_cons, List.append_assoc]

theorem trying_opened (r : Except Error Address) (hs : a.settings = c.settings)
    (hc : a.current = none) (hp : ∀ y ∈ l, y.mayPass)
    (hl : l.length < max 1 c.settings.maxTrials.toNat) (hts : List.Forall₂ R l ts)
    (ht : a.trials.toNat = l.length + 1)
    (ha : a.announcements = c.announcements ++ announced (c.now :: ts)) :
    Trying R c (l ++ [⟨a.now, r⟩]) ts (a.opened r false) := by
  have hlim : a.limit.toNat = max 1 c.settings.maxTrials.toNat := by rw [toNat_limit, hs]
  have hlen := hts.length_eq
  cases r with
  | ok peer =>
    refine .ended (a := a.opened (.ok peer) false) rfl hp hl hts ht
      (.connected (m := a.newSession) rfl ?_ rfl rfl ?_ ?_)
    · simp [opened, session?, finish, emit]
    · rw [newSession, hs]
    · rw [← ha]
      simp [opened, announcements, finish, emit, isOwn]
  | error e =>
    rw [opened]
    split
    next he => exact .ended (a := a.finish (.failed e)) rfl hp hl hts ht (.atFault he rfl hc ha)
    next he =>
      have he : e.isSetup = false := by simpa using he
      split
      next hle =>
        have hle := UInt32.le_iff_toNat_le.1 hle
        rw [hlim, ht] at hle
        refine .ended (a := a.finish _) rfl hp hl hts ht (.exhausted he (by omega) ?_ hc ha)
        rw [finish, ht, hlen]
      next hle =>
        have hle := mt UInt32.le_iff_toNat_le.2 hle
        rw [hlim, ht] at hle
        refine .resting (x := ⟨a.now, .error e⟩) ?_ hc ?_ (by omega) hts ht ha
        · rw [goto, hs]
        · intro y hy
          obtain hy | hy := List.mem_append.1 hy
          · exact hp y hy
          · obtain rfl := List.mem_singleton.1 hy
            simp [Trial.mayPass, he]

theorem opened_same (r : Except Error Address) (a : Client) :
    (a.opened r false).settings = a.settings ∧ (a.opened r false).now = a.now := by
  cases r with
  | ok peer => exact ⟨rfl, rfl⟩
  | error e =>
    rw [opened]
    split
    · exact ⟨rfl, rfl⟩
    · split <;> exact ⟨rfl, rfl⟩

/-- Behind an attempt the call rests or is over. -/
theorem stage_opened (r : Except Error Address) (a : Client) :
    (a.opened r false).stage = none ∨
      (a.opened r false).stage = some (.resting (a.now + a.settings.retryDelay) false) := by
  cases r with
  | ok peer => exact .inl rfl
  | error e =>
    rw [opened]
    split
    · exact .inl rfl
    · split
      · exact .inl rfl
      · exact .inr rfl

namespace Trying

/-- The call is still under way, and only sessions or the clock have gone on. -/
theorem keep (h : Trying R c l ts a) (hu : a.stage.isSome)
    (hst : b.stage = a.stage) (hc : b.current = a.current) (ht : b.trials = a.trials)
    (ha : b.announcements = a.announcements) : Trying R c l ts b := by
  cases h with
  | opening hs hac hp hl hts hat haa =>
    exact .opening (hst.trans hs) (hc.trans hac) hp hl hts (ht ▸ hat) (ha.trans haa)
  | resting hs hac hp hl hts hat haa =>
    exact .resting (hst.trans hs) (hc.trans hac) hp hl hts (ht ▸ hat) (ha.trans haa)
  | ended hs => simp [hs] at hu

/-- The call is in an attempt or in a rest. -/
theorem stage (h : Trying R c l ts a) (hu : a.stage.isSome) :
    a.stage = some (.opening false) ∨ ∃ u, a.stage = some (.resting u false) := by
  cases h with
  | opening hs => exact .inl hs
  | resting hs => exact .inr ⟨_, hs⟩
  | ended hs => simp [hs] at hu

theorem step (h : Trying R c l ts a) (hset : a.settings = c.settings) (hu : a.stage.isSome)
    (hv : isPatient v) (hs : a.step v = some b)
    (hR : ∀ x : Trial, a.stage = some (.resting (x.ended + c.settings.retryDelay) false) →
      x.ended + c.settings.retryDelay ≤ a.now → R x a.now) :
    Trying R c (l ++ (a.trial? v).toList) (ts ++ (a.resume? v).toList) b ∧
      b.settings = c.settings := by
  have same (hv : v ≠ .wake) : ts ++ (a.resume? v).toList = ts := by
    cases v with
    | wake => exact absurd rfl hv
    | _ => exact List.append_nil _
  cases v with
  | call | interrupt => simp [isPatient] at hv
  | session i v =>
    obtain ⟨-, hs⟩ := Option.ite_none_right_eq_some.1 hs
    obtain ⟨n, hn, rfl⟩ := Option.map_eq_some_iff.1 hs
    obtain ⟨m, hm, hn⟩ := Option.bind_eq_some_iff.1 hn
    rw [same (by simp), show l ++ (a.trial? (.session i v)).toList = l from List.append_nil l]
    exact ⟨h.keep hu rfl rfl rfl (announcements_put hm hn), hset⟩
  | pass d =>
    obtain rfl := Option.some.inj hs
    rw [same (by simp), show l ++ (a.trial? (.pass d)).toList = l from List.append_nil l]
    exact ⟨h.keep hu rfl rfl rfl rfl, hset⟩
  | proceed =>
    cases h with
    | opening hst | resting hst => simp [Client.step, proceed, hst] at hs
    | ended hst => simp [hst] at hu
  | opened r =>
    cases h with
    | opening hst hc hp hl hts ht ha =>
      obtain rfl : a.opened r false = b := by simpa [Client.step, hst] using hs
      rw [same (by simp)]
      exact ⟨trying_opened r hset hc hp hl hts ht ha, (opened_same r a).1.trans hset⟩
    | resting hst => simp [Client.step, hst] at hs
    | ended hst => simp [hst] at hu
  | wake =>
    cases h with
    | opening hst => simp [Client.step, hst] at hs
    | @resting l x ts _ hst hc hp hl hts ht ha =>
      simp only [Client.step, hst] at hs
      obtain ⟨hd, hs⟩ := Option.ite_none_right_eq_some.1 hs
      obtain rfl := Option.some.inj hs
      rw [show l ++ [x] ++ (a.trial? .wake).toList = l ++ [x] from List.append_nil _]
      exact ⟨trying_wake (hR x hst hd) hc hp hl hts ht ha, hset⟩
    | ended hst => simp [hst] at hu

/-- `Q` is what else is known of the client and of the run still ahead of it. -/
theorem steps {Q : List Move → Client → Prop} (vs : List Move) (h : Trying R c l ts a)
    (hset : a.settings = c.settings) (hv : a.isAwaited vs) (hs : a.steps vs = some b) (hq : Q vs a)
    (hQ : ∀ {v vs a b}, (a.stage = some (.opening false) ∨ ∃ u, a.stage = some (.resting u false)) →
      isPatient v → a.step v = some b → Q (v :: vs) a → Q vs b)
    (hR : ∀ {v vs a} {x : Trial}, Q (v :: vs) a →
      a.stage = some (.resting (x.ended + c.settings.retryDelay) false) →
      x.ended + c.settings.retryDelay ≤ a.now → R x a.now) :
    Trying R c (l ++ a.tried vs) (ts ++ a.resumed vs) b ∧ b.settings = c.settings := by
  induction vs generalizing a l ts with
  | nil =>
    obtain rfl := Option.some.inj hs
    exact ⟨by rwa [tried, resumed, List.append_nil, List.append_nil], hset⟩
  | cons v vs ih =>
    obtain ⟨d, hd, hs⟩ := Option.bind_eq_some_iff.1 hs
    rw [isAwaited, hd] at hv
    simp only [Option.map_some, Option.getD_some, Bool.and_eq_true] at hv
    obtain ⟨⟨hu, hp⟩, hv⟩ := hv
    have hq := hQ (h.stage hu) hp hd hq
    obtain ⟨h, hset⟩ := h.step hset hu hp hd fun x => hR ‹_›
    rw [tried, resumed, hd, ← List.append_assoc, ← List.append_assoc]
    exact ih h hset hv hs hq

end Trying

/-! Every call keeps to its rests; one that oversleeps none keeps to them exactly. -/

def Rested (c : Client) (x : Trial) (t : Duration) : Prop := x.ended + c.settings.retryDelay ≤ t

def Prompt (c : Client) (x : Trial) (t : Duration) : Prop := x.ended + c.settings.retryDelay = t

theorem Trying.steps_rested {vs : List Move} (h : Trying c.Rested c l ts a)
    (hset : a.settings = c.settings) (hv : a.isAwaited vs) (hs : a.steps vs = some b) :
    Trying c.Rested c (l ++ a.tried vs) (ts ++ a.resumed vs) b ∧ b.settings = c.settings :=
  h.steps (Q := fun _ _ => True) vs hset hv hs trivial (fun _ _ _ _ => trivial) fun _ _ hn => hn

def InRest (a : Client) : Prop := ∀ u, a.stage = some (.resting u false) → a.now ≤ u

theorem inRest_opened (r : Except Error Address) (a : Client) : (a.opened r false).InRest := by
  intro u hu
  obtain h | h := stage_opened r a
  · simp [h] at hu
  · obtain rfl : a.now + a.settings.retryDelay = u := by simpa [h] using hu
    rw [(opened_same r a).2]
    exact Nat.le_add_right _ _

theorem InRest.step (h : a.InRest)
    (hst : a.stage = some (.opening false) ∨ ∃ u, a.stage = some (.resting u false))
    (hv : isPatient v) (hr : a.isRested v) (hs : a.step v = some b) : b.InRest := by
  cases v with
  | call | interrupt => simp [isPatient] at hv
  | session i v =>
    obtain ⟨-, hs⟩ := Option.ite_none_right_eq_some.1 hs
    obtain ⟨n, hn, rfl⟩ := Option.map_eq_some_iff.1 hs
    exact h
  | pass d =>
    obtain rfl := Option.some.inj hs
    intro u hu
    simpa [isRested, show a.stage = _ from hu] using hr
  | proceed =>
    obtain hst | ⟨u, hst⟩ := hst <;> simp [Client.step, proceed, hst] at hs
  | opened r =>
    obtain hst | ⟨u, hst⟩ := hst
    · obtain rfl : a.opened r false = b := by simpa [Client.step, hst] using hs
      exact inRest_opened r a
    · simp [Client.step, hst] at hs
  | wake =>
    obtain hst | ⟨u, hst⟩ := hst
    · simp [Client.step, hst] at hs
    · simp only [Client.step, hst] at hs
      obtain ⟨-, hs⟩ := Option.ite_none_right_eq_some.1 hs
      obtain rfl := Option.some.inj hs
      intro u hu
      cases hu

theorem Trying.steps_prompt {vs : List Move} (h : Trying c.Prompt c l ts a)
    (hset : a.settings = c.settings) (hv : a.isAwaited vs) (hs : a.steps vs = some b)
    (hr : a.InRest) (hp : a.isPunctual vs) :
    Trying c.Prompt c (l ++ a.tried vs) (ts ++ a.resumed vs) b ∧ b.settings = c.settings := by
  refine h.steps (Q := fun vs a => a.isPunctual vs ∧ a.InRest) vs hset hv hs ⟨hp, hr⟩ ?_ ?_
  · rintro v vs a b hst hv hs ⟨hp, hr⟩
    rw [isPunctual, hs] at hp
    obtain ⟨hrv, hp⟩ := Bool.and_eq_true_iff.1 hp
    exact ⟨hp, hr.step hst hv hrv hs⟩
  · rintro v vs a x ⟨-, hr⟩ hst hn
    exact Nat.le_antisymm hn (hr _ hst)

/-! A call comes to its end, whatever comes of the attempts. -/

def Leads (a : Client) (l : List Trial) (b : Client) : Prop :=
  ∃ vs, a.isAwaited vs ∧ a.isPunctual vs ∧ a.steps vs = some b ∧ a.tried vs = l

theorem Leads.refl (a : Client) : Leads a [] a := ⟨[], rfl, rfl, rfl, rfl⟩

theorem Leads.cons {d : Client} (hu : a.stage.isSome) (hp : isPatient v) (hr : a.isRested v)
    (hs : a.step v = some b) (h : Leads b l d) : Leads a ((a.trial? v).toList ++ l) d := by
  obtain ⟨vs, hv, hvr, hd, rfl⟩ := h
  exact ⟨v :: vs, by simp [isAwaited, hu, hp, hs, hv], by simp [isPunctual, hr, hs, hvr],
    by rw [steps, hs]; exact hd, by rw [tried, hs]; rfl⟩

theorem Leads.trying {k : List Trial} (hk : Leads a k b) (h : Trying c.Rested c l ts a)
    (hset : a.settings = c.settings) :
    (∃ us, Trying c.Rested c (l ++ k) us b) ∧ b.settings = c.settings := by
  obtain ⟨vs, hv, -, hs, rfl⟩ := hk
  obtain ⟨h, hb⟩ := h.steps_rested hset hv hs
  exact ⟨⟨_, h⟩, hb⟩

theorem leads_of_wake {u : Duration} (hst : a.stage = some (.resting u false)) (hn : u ≤ a.now)
    {d : Client} (h : Leads (a.attempt false) l d) : Leads a l d :=
  h.cons (v := .wake) (by simp [hst]) rfl rfl (by simp [Client.step, hst, hn])

theorem leads_wake {u : Duration} (hst : a.stage = some (.resting u false)) :
    ∃ b, b.stage = some (.opening false) ∧ ∀ {l d}, Leads b l d → Leads a l d := by
  obtain hn | hn := Nat.le_total u a.now
  · exact ⟨a.attempt false, rfl, leads_of_wake hst hn⟩
  · let r : Client := (a.step (.pass (u - a.now))).getD a
    have hrn : r.now = u := Nat.add_sub_cancel' hn
    have hr : a.isRested (.pass (u - a.now)) = true := by
      simp [isRested, hst, Nat.add_sub_cancel' hn]
    refine ⟨r.attempt false, rfl, fun h => ?_⟩
    exact .cons (by simp [hst]) rfl hr rfl (leads_of_wake (a := r) hst hrn.ge h)

/-- From an attempt under way the call can be carried to its end, with the given outcomes. -/
theorem leads_opening {k : Nat} (f : Nat → Except Error Address) (h : Trying c.Rested c l ts a)
    (hset : a.settings = c.settings) (hst : a.stage = some (.opening false))
    (hk : max 1 c.settings.maxTrials.toNat ≤ l.length + k) :
    ∃ d n t, Leads a t d ∧ d.stage = none ∧ t.map (·.outcome) = (List.range n).map f := by
  induction k generalizing a l ts f with
  | zero =>
    cases h with
    | opening _ _ _ hl => omega
    | resting hr => simp [hr] at hst
    | ended ho => simp [ho] at hst
  | succ k ih =>
    have hs : a.step (.opened (f 0)) = some (a.opened (f 0) false) := by simp [Client.step, hst]
    have hu : a.stage.isSome := by simp [hst]
    obtain ho | hr := stage_opened (f 0) a
    · exact ⟨_, 1, _, .cons hu rfl rfl hs (.refl _), ho, rfl⟩
    · obtain ⟨b, hb, hlead⟩ := leads_wake hr
      have hone : Leads a [⟨a.now, f 0⟩] b := .cons hu rfl rfl hs (hlead (.refl b))
      obtain ⟨⟨us, htry⟩, hbs⟩ := hone.trying h hset
      obtain ⟨d, n, t, ht, hd, hf⟩ := ih (f ∘ Nat.succ) htry hbs hb (by simp; omega)
      refine ⟨d, n + 1, _, .cons hu rfl rfl hs (hlead ht), hd, ?_⟩
      rw [List.map_append, hf, List.range_succ_eq_map]
      simp [trial?]

theorem Trying.leads_end (f : Nat → Except Error Address) (h : Trying c.Rested c l ts a)
    (hset : a.settings = c.settings) (hu : a.stage.isSome) :
    ∃ d n t, Leads a t d ∧ d.stage = none ∧ t.map (·.outcome) = (List.range n).map f := by
  obtain hs | ⟨u, hs⟩ := h.stage hu
  · exact leads_opening f h hset hs (Nat.le_add_left _ _)
  · obtain ⟨b, hb, hlead⟩ := leads_wake hs
    obtain ⟨⟨us, h⟩, hset⟩ := (hlead (.refl b)).trying h hset
    obtain ⟨d, n, t, ht, hd⟩ := leads_opening f h hset hb (Nat.le_add_left _ _)
    exact ⟨d, n, t, hlead ht, hd⟩

/-- A client without a session makes one attempt after the other when it is to connect, with a rest
between them, until one succeeds, one shows that the setup is at fault, or there have been as many
failures as there may be; `Trying` says what is told of them, and what each end gives. No attempt
begins before the rest is over, and where none is overslept each begins at its end. Whatever comes
of the attempts, the call ends. -/
theorem connect_trials (hst : c.stage = none) (hc : c.current = none) :
    ∃ b, c.step (.call .connect) = some b ∧
      ∀ vs a, b.isAwaited vs → b.steps vs = some a →
        Trying c.Rested c (b.tried vs) (b.resumed vs) a ∧
        (b.isPunctual vs → Trying c.Prompt c (b.tried vs) (b.resumed vs) a) ∧
        (a.stage.isSome → ∀ f : Nat → Except Error Address, ∃ ws d n, a.isAwaited ws ∧
          a.isPunctual ws ∧ a.steps ws = some d ∧ d.stage = none ∧
          (a.tried ws).map (·.outcome) = (List.range n).map f) := by
  refine ⟨_, step_connect hst hc, fun vs a hv hs => ?_⟩
  obtain ⟨hr, hset⟩ := (trying_attempt c.Rested hc).steps_rested rfl hv hs
  refine ⟨hr, fun hp => ?_, fun hu f => ?_⟩
  · exact ((trying_attempt c.Prompt hc).steps_prompt rfl hv hs (fun u hu => nomatch hu) hp).1
  · obtain ⟨d, n, t, ⟨ws, hw, hwp, hd', rfl⟩, hd, hf⟩ := hr.leads_end f hset hu
    exact ⟨ws, d, n, hw, hwp, hd', hd, hf⟩

def secondTry (d r : Duration) : List Move :=
  [.pass d, .opened (.error (.io "Connection refused".toList)), .pass r, .wake,
    .opened (.ok ⟨.v4 [127, 0, 0, 1], 5060⟩)]

/-- A rest that ends between two ticks of the clock is overslept, one that ends on a tick is not. -/
theorem connect_trials_secondTry :
    let c : Client := { settings := { maxTrials := 2 } }
    let trials := fun s t : Duration => [(⟨s, .error (.io "Connection refused".toList)⟩ : Trial),
      ⟨t, .ok ⟨.v4 [127, 0, 0, 1], 5060⟩⟩]
    c.stage = none ∧ c.current = none ∧ ∃ b a e, c.step (.call .connect) = some b ∧
      b.isAwaited (secondTry 3 500999997) ∧ b.steps (secondTry 3 500999997) = some a ∧
      b.isPunctual (secondTry 3 500999997) = false ∧
      Trying c.Rested c (trials 3 501000000) [501000000] a ∧
      b.isAwaited (secondTry 3000000 500000000) ∧ b.steps (secondTry 3000000 500000000) = some e ∧
      b.isPunctual (secondTry 3000000 500000000) ∧
      Trying c.Prompt c (trials 3000000 503000000) [503000000] e := by
  obtain ⟨b, hb, h⟩ := connect_trials (c := { settings := { maxTrials := 2 } }) rfl rfl
  obtain rfl := Option.some.inj hb
  exact ⟨rfl, rfl, _, _, _, rfl, by decide, rfl, by decide,
    (h (secondTry 3 500999997) _ (by decide) rfl).1, by decide, rfl, by decide,
    (h (secondTry 3000000 500000000) _ (by decide) rfl).2.1 (by decide)⟩

end Switchboard.Client
