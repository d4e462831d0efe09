import Switchboard.Proofs.Session.Tally

/-! The whole of what a session tells in a run, over a link that answers as it likes. -/
namespace Switchboard.Session

def reported : Move → List Nat
  | .reply _ (.sent n) => [n]
  | _ => []

theorem eventsOf_append (t : TaskId) (l r : List Mark) :
    eventsOf t (l ++ r) = eventsOf t l ++ eventsOf t r := by
  simp [eventsOf]

theorem Operations.suffix {l r : List Event} {s : Option Event} (h : Operations (l ++ r) s) :
    ∃ u, Operations r u := by
  induction l generalizing s with
  | nil => exact ⟨s, h⟩
  | cons e l ih =>
    cases h with
    | begun h _ => exact ih h
    | ended h _ => exact ih h

/-- Every end of a close has a beginning, and an open close has one more. -/
theorem Operations.countP_endsClose {l : List Event} {s : Option Event} (h : Operations l s) :
    l.countP endsClose + (if s = some .closing then 1 else 0) = l.countP (· = .closing) := by
  induction h with
  | nil => rfl
  | @begun l e _ he ih =>
    cases e with
    | sending | receiving | closing =>
      simp at ih
      simp [endsClose, ih]
    | _ => simp [begins] at he
  | ended _ hf ih => cases hf <;> simpa [List.countP_cons, endsClose] using ih

section Closing
variable {trace : List Mark} (hk : ∀ k ∈ trace, ∃ t, k.task = some t)
  (ho : ∀ t, ∃ s, Operations (eventsOf t trace) s)
include hk ho

/-- A close ends only behind its own beginning. -/
theorem closing_of_endsClose {l r : List Mark} {k : Mark} (ht : trace = l ++ k :: r)
    (hc : endsClose k.event = true) : ∃ j ∈ r, j.event = .closing ∧ j.task = k.task := by
  obtain ⟨t, hkt⟩ := hk k (by simp [ht])
  obtain ⟨s, hs⟩ := ho t
  obtain ⟨now, u, e⟩ := k
  obtain rfl : u = some t := hkt
  rw [ht, eventsOf_append, eventsOf_cons_self] at hs
  obtain ⟨u, hu⟩ := hs.suffix
  cases hu with
  | begun _ he => cases e <;> simp [begins] at he <;> simp [endsClose] at hc
  | @ended _ f _ hr hf =>
    obtain rfl : f = .closing := by cases hf <;> simp [endsClose] at hc <;> rfl
    obtain ⟨j, hj, hjt, hje⟩ := mem_eventsOf.1 hr.mem
    exact ⟨j, hj, hje, hjt⟩

theorem countP_endsClose_le_one (hc : trace.countP (·.event = .closing) ≤ 1) :
    trace.countP (endsClose ·.event) ≤ 1 := by
  by_cases hn : ∃ k ∈ trace, endsClose k.event = true
  · obtain ⟨k, hm, hke⟩ := hn
    obtain ⟨t, hkt⟩ := hk k hm
    have own {k : Mark} (hm : k ∈ trace) (hke : endsClose k.event = true) :
        ∃ j ∈ trace, j.event = .closing ∧ j.task = k.task := by
      obtain ⟨l, r, ht⟩ := List.append_of_mem hm
      obtain ⟨j, hj, hje⟩ := closing_of_endsClose hk ho ht hke
      exact ⟨j, by simp [ht, hj], hje⟩
    rw [List.countP_eq_countP_filter_add _ _ (·.task = some t)] at hc ⊢
    -- the only close is that of this task, so nobody else has ended one
    have h1 : 0 < (trace.filter (·.task = some t)).countP (·.event = .closing) := by
      obtain ⟨j, hj, hje, hjt⟩ := own hm hke
      exact List.countP_pos_iff.2 ⟨j, List.mem_filter.2 ⟨hj, by simp [hjt, hkt]⟩, by simp [hje]⟩
    have h0 : (trace.filter fun k => !decide (k.task = some t)).countP (endsClose ·.event) = 0 := by
      rw [List.countP_eq_zero]
      intro k' hm' hke'
      obtain ⟨hm', ht'⟩ := List.mem_filter.1 hm'
      obtain ⟨j, hj, hje, hjt⟩ := own hm' hke'
      have : 0 < (trace.filter fun k => !decide (k.task = some t)).countP (·.event = .closing) :=
        List.countP_pos_iff.2 ⟨j, List.mem_filter.2 ⟨hj, by simpa [hjt] using ht'⟩, by simp [hje]⟩
      omega
    obtain ⟨s, hs⟩ := ho t
    have hle := hs.countP_endsClose
    rw [eventsOf, List.countP_map, List.countP_map] at hle
    simp only [Function.comp_def] at hle
    omega
  · rw [List.countP_eq_zero.2 fun k hm hke => hn ⟨k, hm, hke⟩]
    exact Nat.zero_le 1

end Closing

namespace Machine
variable {m a : Machine} {t : TaskId} {job : Job}

/-- The bytes counted as sent and the sends that succeed are what the link reports. -/
def Reports (l : List Nat) (m a : Machine) : Prop :=
  a.session.stats.bytesSent = m.session.stats.bytesSent + .ofNat l.sum ∧
    a.trace.countP (isSendSuccess ·.event) = m.trace.countP (isSendSuccess ·.event) + l.length

theorem Reports.none (hs : a.session.stats.bytesSent = m.session.stats.bytesSent)
    (ht : a.trace.countP (isSendSuccess ·.event) = m.trace.countP (isSendSuccess ·.event)) :
    Reports [] m a := ⟨by simpa using hs, by simpa using ht⟩

theorem Reports.one {k : Mark} (hs : a.session.stats.bytesSent = m.session.stats.bytesSent)
    (ht : a.trace = k :: m.trace) (hk : isSendSuccess k.event = false) : Reports [] m a :=
  .none hs (by simp [ht, hk])

theorem Reports.trans {b : Machine} {l r : List Nat} (h : Reports l m b) (k : Reports r b a) :
    Reports (l ++ r) m a := by
  refine ⟨?_, ?_⟩
  · rw [k.1, h.1, List.sum_append, UInt64.ofNat_add, UInt64.add_assoc]
  · rw [k.2, h.2, List.length_append, Nat.add_assoc]

theorem reports_leaves (hl : Leaves t job m a) : Reports [] m a := by
  cases hl with
  | send | recv | close => exact .one rfl rfl rfl
  | pause | watch | ends => exact .none rfl rfl

theorem reports_begins (hb : Begins t job m a) : Reports [] m a := by
  cases hb with
  | leaves hl => exact reports_leaves hl
  | fork =>
    obtain ⟨hs, ht, -⟩ := addAll_same m.session.loops.toList t (m.await t .joining)
    refine .none ?_ ?_
    · rw [addLoops, hs]
      rfl
    · rw [addLoops, ht]
      rfl
  | guard => exact .none rfl rfl

theorem stats_obeyExit (s : Session) (data : Bytes) : (s.obeyExit data).stats = s.stats := by
  unfold obeyExit
  split <;> rfl

theorem reports_deed {v : Move} (hd : Deed m v a) : Reports (reported v) m a := by
  cases hd with
  | activate hs =>
    unfold Session.activate at hs
    split at hs
    next =>
      obtain rfl := Except.ok.inj hs
      exact .none rfl rfl
    next => simp at hs
  | setLoop | ignore | pass | cancel | halt | relay | unwatch | look => exact .none rfl rfl
  | call hb =>
    obtain ⟨hs, ht⟩ := reports_begins hb
    exact ⟨hs, ht⟩
  | start _ _ hb => exact reports_begins hb
  | @sent x data d n a _ _ hl =>
    have hn : Reports [n] m ((m.modify (·.sent m.now n)).emit x.id (.sendSuccess data)) :=
      ⟨rfl, by simp [emit, modify, isSendSuccess]⟩
    exact hn.trans (reports_leaves hl)
  | @received x size d data a _ _ _ hl =>
    have hn : Reports [] m (((m.modify (·.received m.now data)).emit x.id
        (.recvSuccess size data)).modify (·.obeyExit data)) :=
      .one (congrArg (·.bytesSent) (stats_obeyExit _ _)) rfl rfl
    exact hn.trans (reports_leaves hl)
  | sendFailed _ _ _ hv =>
    obtain rfl | rfl := hv <;> exact .one rfl rfl rfl
  | recvFailed _ _ _ hv =>
    obtain rfl | rfl | rfl := hv <;> exact .one rfl rfl rfl
  | closed | closeFailed => exact .one rfl rfl rfl
  | deliver size data => exact .one (congrArg (·.bytesSent) (stats_obeyExit _ _)) rfl rfl
  | turn _ _ _ hl => exact reports_leaves hl
  | evict _ _ _ hl =>
    obtain ⟨hs, ht⟩ := reports_leaves hl
    exact ⟨hs, ht⟩
  | join _ _ _ hl => exact reports_leaves hl
  | notice _ _ _ hl => exact reports_leaves hl

theorem reports_steps (vs : List Move) (h : m.steps vs = some a) :
    Reports (vs.flatMap reported) m a := by
  induction vs generalizing m with
  | nil =>
    obtain rfl := Option.some.inj h
    exact .none rfl rfl
  | cons v vs ih =>
    obtain ⟨b, hb, h⟩ := Option.bind_eq_some_iff.1 h
    exact (reports_deed (deed_step v hb)).trans (ih h)

structure Audited (lost : TaskId → Prop) (m : Machine) : Prop where
  sound : Sound m
  books : Booked lost m
  tally : Tallied m

theorem audited_opened (settings : LoopSettings) (timeout : Option Duration) (now : Duration) :
    Audited (fun _ => False) (opened settings timeout now) where
  sound := sound_opened settings timeout now
  books := ⟨by simp [opened], fun _ => ⟨none, .nil, by simp [opened], fun _ h => h rfl⟩⟩
  tally := by constructor <;> simp [opened]

theorem Audited.steps {lost : TaskId → Prop} (hm : Audited lost m) (vs : List Move)
    (hv : ∀ size data, .deliver size data ∉ vs) (h : m.steps vs = some a) :
    Audited (fun t => lost t ∨ t ∈ dropped vs m) a where
  sound := hm.sound.steps vs h
  books := booked_steps vs hm.sound.roster hm.books hv h
  tally := by
    induction vs generalizing m lost with
    | nil =>
      obtain rfl := Option.some.inj h
      exact hm.tally
    | cons v vs ih =>
      obtain ⟨b, hb, h⟩ := Option.bind_eq_some_iff.1 h
      have hd := deed_step v hb
      have hv' : ∀ size data, v ≠ .deliver size data := fun size data hvd =>
        hv size data (by simp [hvd])
      exact ih ⟨hm.sound.step hb, booked_deed hm.sound.roster hm.books hd hv',
        tallied_deed hm.books hm.tally hd hv'⟩ (fun size data hm => hv size data (by simp [hm])) h

/-- What a task has open is what it waits for, unless it was dropped. -/
theorem Audited.open {lost : TaskId → Prop} (hm : Audited lost m) (t : TaskId) :
    ∃ s, Operations (eventsOf t m.trace) s ∧
      (s = (m.task? t).bind (·.wait.asked) ∨ m.isRunning t = false ∧ lost t) := by
  obtain ⟨s, ho, hs, hg⟩ := hm.books.account t
  refine ⟨s, ho, ?_⟩
  cases hx : m.task? t with
  | some x =>
    obtain ⟨hx, hi⟩ := eq_of_task? hx
    exact .inl (hs x hx hi)
  | none =>
    have hr : m.isRunning t = false := by simp [isRunning, hx]
    by_cases hn : s = none
    · exact .inl hn
    · refine .inr ⟨hr, hg (fun x hx hi => ?_) hn⟩
      have := isRunning_iff.2 ⟨x, hx, hi⟩
      simp [hr] at this

/-- What the events, calls and counts at the end `m` of a run from `start` have to do with it. -/
structure Accounted (start : Machine) (vs : List Move) (m : Machine) : Prop where
  /-- Sends and receives begin in `active` only. -/
  opens_active : ∀ us v ws a b, vs = us ++ v :: ws → start.steps us = some a → a.step v = some b →
    ∃ new, b.trace = new ++ a.trace ∧
      ∀ k ∈ new, opens k.event = true → a.session.state = .active ∧ b.session.state = .active
  /-- None begins behind a failure, an exit token or the beginning of the close. -/
  order : m.trace.Pairwise fun later earlier =>
    endsActivity earlier.event = true → opens later.event = false
  known : ∀ k ∈ m.trace, ∃ t, k.task = some t
  /-- The events of a task are operations, each ended once at most and by its own kind; one is open
  while the task waits for the link, or when the task was dropped. -/
  paired : ∀ t, ∃ s, Operations (eventsOf t m.trace) s ∧
    (s = (m.task? t).bind (·.wait.asked) ∨ m.isRunning t = false ∧ t ∈ dropped vs start)
  closings : m.trace.countP (·.event = .closing) ≤ 1
  closes : m.calls.countP (·.2 = .close) ≤ 1
  close_ends : m.trace.countP (endsClose ·.event) ≤ 1
  close_begun : ∀ later k earlier, m.trace = later ++ k :: earlier → endsClose k.event = true →
    ∃ j ∈ earlier, j.event = .closing ∧ j.task = k.task
  messages_sent :
    m.session.stats.messagesSent.toNat = m.trace.countP (isSendSuccess ·.event) % 2 ^ 64
  /-- The link reports a count with each success. -/
  reports : m.trace.countP (isSendSuccess ·.event) = (vs.flatMap reported).length
  bytes_sent : m.session.stats.bytesSent.toNat = (vs.flatMap reported).sum % 2 ^ 64
  messages_received :
    m.session.stats.messagesReceived.toNat = m.trace.countP (isRecvSuccess ·.event) % 2 ^ 64
  bytes_received :
    m.session.stats.bytesReceived.toNat = (m.trace.map (receivedBytes ·.event)).sum % 2 ^ 64

/-- However the moves on a session come, as long as no server hands it datagrams, its events are in
order and in pairs, the session and its link are closed once, and the counts, which are words of 64
bits, are those of the successes and of their bytes. -/
theorem events_ordered_paired_counted (settings : LoopSettings) (timeout : Option Duration)
    (now : Duration) (vs : List Move) (hv : ∀ size data, .deliver size data ∉ vs)
    (h : (opened settings timeout now).steps vs = some m) :
    Accounted (opened settings timeout now) vs m := by
  have hm := (audited_opened settings timeout now).steps vs hv h
  obtain ⟨hbytes, hsent⟩ := reports_steps vs h
  have hk : ∀ k ∈ m.trace, ∃ t, k.task = some t := fun k hk => by
    obtain ⟨t, ht, -⟩ := hm.books.known k hk
    exact ⟨t, ht⟩
  have ho : ∀ t, ∃ s, Operations (eventsOf t m.trace) s := fun t => by
    obtain ⟨s, hs, -⟩ := hm.books.account t
    exact ⟨s, hs⟩
  have hone : (if m.session.released then 1 else 0) ≤ 1 := by split <;> simp
  have hc : m.trace.countP (·.event = .closing) ≤ 1 := hm.sound.closure.closings ▸ hone
  exact {
    opens_active := fun us v ws a b _ ha hb => by
      have hr := ((sound_opened settings timeout now).steps us ha).roster
      obtain ⟨new, hn, hk⟩ := opens_step hr hb
      exact ⟨new, hn, fun k hm ho => (hk k hm ho).2⟩
    order := hm.tally.order
    known := hk
    paired := fun t => by simpa using hm.open t
    closings := hc
    closes := hm.sound.closure.closes ▸ hone
    close_ends := countP_endsClose_le_one hk ho hc
    close_begun := fun later k earlier ht => closing_of_endsClose hk ho ht
    messages_sent := by rw [hm.tally.sent, UInt64.toNat_ofNat']
    reports := by simpa [opened] using hsent
    bytes_sent := by
      rw [hbytes]
      simp [opened]
    messages_received := by rw [hm.tally.received, UInt64.toNat_ofNat']
    bytes_received := by rw [hm.tally.bytesReceived, UInt64.toNat_ofNat'] }

/-- A send is through and two receives wait when a close begins; one of them is dropped, the other
gets an exit token, and another send comes too late. -/
def overlap : List Move :=
  [.activate, .call (.send [1, 2]), .call (.recv 8), .call (.recv 4), .reply 0 (.sent 2),
    .call .close, .cancel 4, .reply 2 (.received (Utf8.encode exitToken)), .call (.send [3]),
    .reply 6 .closed]

theorem overlap_accounted :
    (∀ size data, .deliver size data ∉ overlap) ∧
    ∃ m, (opened .client none 0).steps overlap = some m ∧
      (m.session.state, m.trace.length, m.calls.length) = (.closed, 7, 4) ∧
      Accounted (opened .client none 0) overlap m := by
  have hv : ∀ size data, .deliver size data ∉ overlap := by simp [overlap]
  have h : ((opened .client none 0).steps overlap).map
      (fun m => (m.session.state, m.trace.length, m.calls.length)) = some (.closed, 7, 4) := by
    decide
  obtain ⟨m, hm, hs⟩ := Option.map_eq_some_iff.1 h
  exact ⟨hv, m, hm, hs, events_ordered_paired_counted .client none 0 overlap hv hm⟩

def flood : List Move :=
  [.activate, .call (.send [0]), .reply 0 (.sent (2 ^ 63)), .call (.send [0]),
    .reply 2 (.sent (2 ^ 63))]

theorem flood_wraps :
    ¬ ∀ (settings : LoopSettings) (timeout : Option Duration) (now : Duration) (vs : List Move)
      (m : Machine), (∀ size data, .deliver size data ∉ vs) →
      (opened settings timeout now).steps vs = some m →
      m.session.stats.bytesSent.toNat = (vs.flatMap reported).sum := by
  intro hall
  have h : ((opened .client none 0).steps flood).map (·.session.stats.bytesSent.toNat) = some 0 := by
    decide
  obtain ⟨m, hm, hs⟩ := Option.map_eq_some_iff.1 h
  have hb := hall .client none 0 flood m (by simp [flood]) hm
  rw [hs] at hb
  simp [flood, reported] at hb

end Machine
end Switchboard.Session
