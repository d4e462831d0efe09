import Switchboard.Proofs.Server.Brisk
import Switchboard.Proofs.Server.Care
import Switchboard.Proofs.Server.Reuse

/-! The table of a server that serves. Every session that it makes is looked after to its end by a
chore of its own, and stays on the table, under its peer, as long as it is active; whoever takes it
off closes it, and its chore takes off no other. So when nobody has anything left to do, the table
holds the active sessions, and the others are closed. -/
namespace Switchboard.Server

/-- Whether the move belongs to a server that serves: peers come and sessions go on, are closed and
end, but nobody stops the server, and nobody gives up waiting. -/
def isServing : Move → Bool
  | .call .serve | .call (.closeSession _) | .spawn .serve | .spawn (.closeSession _) => true
  | .start _ | .begin _ | .connected .. | .datagram .. | .acceptFailed .. | .wake _ | .proceed _
  | .session .. | .receive .. | .pass _ => true
  | _ => false

def Chore.isAttending (x : Chore) : Bool :=
  match x.job, x.wait with
  | .serve, .starting | .serve, .listening _ | .serve, .replacing .. | .serve, .resting _ => true
  | .tend _, .starting | .tend _, .tending _ => true
  | .closeSession _, .starting | .closeSession _, .closing .. => true
  | _, _ => false

def Chore.charge? (x : Chore) : Option Nat :=
  match x.wait, x.job with
  | .replacing i _ _, _ => some i
  | _, .tend i => some i
  | _, _ => none

/-- Whether no chore can go on, no task of a session can, and no link is about to close. -/
def isSettled (w : Server) : Bool :=
  w.chores.all (fun x => (w.step (.begin x.id)).isNone && (w.step (.proceed x.id)).isNone) &&
    w.cells.all fun c => c.machine.tasks.all fun y =>
      (c.machine.prompt y).isNone && y.wait ≠ .shutting

/-- What holds at any time while a server serves, but for what the chores in `out` are about, and but
for sessions in `s`, which nobody may look after. -/
structure Attended (out : List ChoreId) (s : List Nat) (w : Server) : Prop where
  suited : ∀ x ∈ w.chores, x.id ∉ out → x.isAttending = true
  replaced : ∀ x ∈ w.chores, x.id ∉ out → ∀ i stale t, x.wait = .replacing i stale t →
    w.isReleased stale = true
  present : ∀ c ∈ out, ∃ x ∈ w.chores, x.id = c
  keyed : w.table.Keyed
  placed : ∀ e ∈ w.table.entries, ∃ c, w.cells[e.2]? = some c ∧ c.peer = e.1
  listed : ∀ i c, w.cells[i]? = some c → c.machine.session.state = .active →
    w.table.get? c.peer = some i
  looked : ∀ i < w.cells.length, i ∉ s →
    (∃ x ∈ w.chores, x.id ∉ out ∧ x.charge? = some i) ∨
      w.isReleased i = true ∧ i ∉ w.table.sessions

variable {w a : Server} {x y : Chore} {v : Move} {out : List ChoreId} {s r : List Nat} {i : Nat}
  {t : Session.TaskId} {p : Address}

theorem isReleased_same (h : a.cells = w.cells) (i : Nat) : a.isReleased i = w.isReleased i := by
  rw [isReleased, machine?, h, isReleased, machine?]

/-- Who has been let go is not active. -/
theorem not_active_of_isReleased (he : Errands out w) (hr : w.isReleased i = true) {c : Cell}
    (hc : w.cells[i]? = some c) : c.machine.session.state ≠ .active := by
  have hm := machine?_of_cell hc
  rw [isReleased_of_machine? hm] at hr
  intro ha
  simpa [ha] using (he.sound i _ hm).1.orderly.over_of_released hr

namespace Attended

theorem same (h : Attended out s w) (hc : a.cells = w.cells) (hx : a.chores = w.chores)
    (ht : a.table = w.table) : Attended out s a where
  suited := hx ▸ h.suited
  replaced y hy ho i stale t hw := by
    rw [isReleased_same hc]
    exact h.replaced y (hx ▸ hy) ho i stale t hw
  present := hx ▸ h.present
  keyed := ht ▸ h.keyed
  placed := by
    rw [hc, ht]
    exact h.placed
  listed := by
    rw [hc, ht]
    exact h.listed
  looked i hi hs := by
    rw [isReleased_same hc, hx, ht]
    exact h.looked i (hc ▸ hi) hs

theorem emit (h : Attended out s w) (e : Event) : Attended out s (w.emit e) := h.same rfl rfl rfl

/-- A chore takes the session that it looks after into its hands. -/
theorem takes (h : Attended [] s w) (hr : Rolled w) (hx : x ∈ w.chores) :
    Attended [x.id] (x.charge?.toList ++ s) w where
  suited y hy _ := h.suited y hy (by simp)
  replaced y hy _ := h.replaced y hy (by simp)
  present c hc := ⟨x, hx, (List.mem_singleton.1 hc).symm⟩
  keyed := h.keyed
  placed := h.placed
  listed := h.listed
  looked i hi hs := by
    simp only [List.mem_append, Option.mem_toList, not_or] at hs
    obtain ⟨y, hy, -, hyi⟩ | hl := h.looked i hi hs.2
    · refine .inl ⟨y, hy, fun hc => ?_, hyi⟩
      obtain rfl := hr.eq_of_id hy hx (by simpa using hc)
      exact hs.1 hyi
    · exact .inr hl

theorem settle (h : Attended [x.id] s w) (o : Answer) : Attended [] s (w.settle x.id o) where
  suited y hy _ := by
    obtain ⟨hy, hi⟩ := mem_settle hy
    exact h.suited y hy (by simpa using hi)
  replaced y hy _ := by
    obtain ⟨hy, hi⟩ := mem_settle hy
    exact h.replaced y hy (by simpa using hi)
  present := by simp
  keyed := h.keyed
  placed := h.placed
  listed := h.listed
  looked i hi hs := by
    obtain ⟨y, hy, hn, hyi⟩ | hl := h.looked i hi hs
    · exact .inl ⟨y, mem_settle_of_ne hy (by simpa using hn), by simp, hyi⟩
    · exact .inr hl

theorem update (h : Attended [x.id] (x.charge?.toList ++ s) w) (hx : x.isAttending = true)
    (hst : ∀ i stale t, x.wait = .replacing i stale t → w.isReleased stale = true) :
    Attended [] s (w.update x) where
  suited y hy _ := by
    obtain rfl | ⟨hy, hi⟩ := mem_update hy
    · exact hx
    · exact h.suited y hy (by simpa using hi)
  replaced y hy _ := by
    obtain rfl | ⟨hy, hi⟩ := mem_update hy
    · exact hst
    · exact h.replaced y hy (by simpa using hi)
  present := by simp
  keyed := h.keyed
  placed := h.placed
  listed := h.listed
  looked i hi hs := by
    by_cases hc : x.charge? = some i
    · obtain ⟨z, hz, hzi⟩ := h.present x.id (by simp)
      exact .inl ⟨x, mem_update_self hz hzi, by simp, hc⟩
    · obtain ⟨y, hy, hn, hyi⟩ | hl := h.looked i hi (by simp [hc, hs])
      · exact .inl ⟨y, mem_update_of_ne hy (by simpa using hn), by simp, hyi⟩
      · exact .inr hl

theorem add {job : Job}
    (h : Attended out ((⟨w.fresh, job, .starting, 0, none⟩ : Chore).charge?.toList ++ s) w)
    (ho : w.fresh ∉ out) (hx : (⟨w.fresh, job, .starting, 0, none⟩ : Chore).isAttending = true) :
    Attended out s (w.add job) where
  suited y hy ho := by
    obtain hy | rfl := mem_add hy
    · exact h.suited y hy ho
    · exact hx
  replaced y hy ho i stale t hw := by
    obtain hy | rfl := mem_add hy
    · exact h.replaced y hy ho i stale t hw
    · simp at hw
  present c hc := by
    obtain ⟨y, hy, hi⟩ := h.present c hc
    exact ⟨y, List.mem_append_left _ hy, hi⟩
  keyed := h.keyed
  placed := h.placed
  listed := h.listed
  looked i hi hs := by
    by_cases hc : (⟨w.fresh, job, .starting, 0, none⟩ : Chore).charge? = some i
    · exact .inl ⟨_, List.mem_append_right _ List.mem_cons_self, ho, hc⟩
    · obtain ⟨y, hy, hn, hyi⟩ | hl := h.looked i hi (by simp [hc, hs])
      · exact .inl ⟨y, List.mem_append_left _ hy, hn, hyi⟩
      · exact .inr hl

/-- Who takes entries off the table leaves those of active sessions. -/
theorem table (h : Attended out s w) {t : Table} (ht : t.entries.Sublist w.table.entries)
    (hl : ∀ i c, w.cells[i]? = some c → c.machine.session.state = .active →
      w.table.get? c.peer = some i → t.get? c.peer = some i) :
    Attended out s { w with table := t } where
  suited := h.suited
  replaced := h.replaced
  present := h.present
  keyed := h.keyed.sublist ht
  placed e he := h.placed e (ht.subset he)
  listed i c hc ha := hl i c hc ha (h.listed i c hc ha)
  looked i hi hs := by
    obtain hx | ⟨hr, hn⟩ := h.looked i hi hs
    · exact .inl hx
    · exact .inr ⟨hr, fun hm => hn ((ht.map _).subset hm)⟩

theorem modify (h : Attended out s w) {c : Cell} (hc : w.cells[i]? = some c) (f : Cell → Cell)
    (hf : (f c).peer = c.peer) {u : Session.Move} (hs : c.machine.step u = some (f c).machine)
    (hm : c.machine.Sound ∧ c.machine.session.state ≠ .created) :
    Attended out s { w with cells := w.cells.modify i f } where
  suited := h.suited
  replaced y hy ho j stale t hw := isReleased_modify hc f hs (h.replaced y hy ho j stale t hw)
  present := h.present
  keyed := h.keyed
  placed e he := by
    obtain ⟨d, hd, hp⟩ := h.placed e he
    by_cases hi : i = e.2
    · subst hi
      obtain rfl := Option.some.inj (hc.symm.trans hd)
      exact ⟨f c, by simp [hc], hf.trans hp⟩
    · exact ⟨d, by simp [hi, hd], hp⟩
  listed j d hd ha := by
    by_cases hi : i = j
    · subst hi
      obtain rfl : f c = d := by simpa [hc] using hd
      rw [hf]
      exact h.listed i c hc (Session.Machine.active_of_step hm.1.orderly hs hm.2 ha)
    · exact h.listed j d (by simpa [hi] using hd) ha
  looked j hj hn := by
    obtain hx | ⟨hr, hn⟩ := h.looked j (by simpa using hj) hn
    · exact .inl hx
    · exact .inr ⟨isReleased_modify hc f hs hr, hn⟩

theorem put (h : Attended out s w) (he : Errands r w) {m n : Session.Machine}
    (hm : w.machine? i = some m) {u : Session.Move} (hs : m.step u = some n) :
    Attended out s (w.put i n) := by
  have hsnd := he.sound i m hm
  obtain ⟨c, hc, rfl⟩ := Option.map_eq_some_iff.1 hm
  exact h.modify hc _ rfl hs hsnd

theorem ask (h : Attended out s w) (he : Errands r w) (i : Nat) (job : Session.Job) :
    Attended out s (w.ask i job).1 := by
  unfold Server.ask
  split
  next m hm => exact h.put he hm (u := .call job) rfl
  next => exact h

/-- A new session takes the place of one that is not active, if of any. -/
theorem enrol (h : Attended out s w) (p : Address)
    (hp : ∀ j c, w.table.get? p = some j → w.cells[j]? = some c →
      c.machine.session.state ≠ .active) :
    Attended out (w.cells.length :: s) (w.enrol p) where
  suited := h.suited
  replaced y hy ho i stale t hw := by
    have hr := h.replaced y hy ho i stale t hw
    rwa [isReleased_enrol (lt_of_isReleased hr)]
  present := h.present
  keyed := h.keyed.insert p _
  placed e he := by
    obtain he | he := List.mem_append.1 he
    · obtain ⟨c, hc, hcp⟩ := h.placed e (List.mem_filter.1 he).1
      exact ⟨c, List.getElem?_append_left (List.getElem?_eq_some_iff.1 hc).1 ▸ hc, hcp⟩
    · obtain rfl := List.mem_singleton.1 he
      exact ⟨w.newCell p, by simp [Server.enrol], rfl⟩
  listed i c hc ha := by
    by_cases hi : i < w.cells.length
    · have hc : w.cells[i]? = some c := by
        rwa [Server.enrol, List.getElem?_append_left hi] at hc
      have hl := h.listed i c hc ha
      have hne : c.peer ≠ p := fun hcp => hp i c (hcp ▸ hl) hc ha
      exact (Table.get?_insert_of_ne hne).trans hl
    · have hlen := (List.getElem?_eq_some_iff.1 hc).1
      obtain rfl : i = w.cells.length := by
        simp only [Server.enrol, List.length_append, List.length_singleton] at hlen
        omega
      obtain rfl : w.newCell p = c := by simpa [Server.enrol] using hc
      exact Table.get?_insert_self _ _ _
  looked i hi hs := by
    simp only [List.mem_cons, not_or] at hs
    have hlt : i < w.cells.length := by
      simp only [Server.enrol, List.length_append, List.length_singleton] at hi
      have hne : i ≠ w.cells.length := hs.1
      omega
    obtain hx | ⟨hr, hn⟩ := h.looked i hlt hs.2
    · exact .inl hx
    · refine .inr ⟨by rwa [isReleased_enrol hlt], fun hm => ?_⟩
      rw [Table.sessions, Server.enrol, Table.insert, List.map_append] at hm
      obtain hm | hm := List.mem_append.1 hm
      · exact hn ((List.filter_sublist.map _).subset hm)
      · exact hs.1 (by simpa using hm)

/-! What a chore does that has its session in its hands. -/

theorem acceptFailed (h : Attended [x.id] s w) (hj : x.job = .serve) (e : Error) :
    Attended [] s (w.acceptFailed x e) := by
  unfold Server.acceptFailed
  rw [if_neg (by simp [hj, isLasting])]
  split
  · rw [if_neg (by simp [hj])]
    exact h.settle _
  · refine Attended.update (x := { x with failures := x.failures + 1, wait := .resting _ }) ?_ ?_ ?_
    · simpa [Chore.charge?, hj] using h
    · simp [Chore.isAttending, hj]
    · simp

theorem beginAccept (h : Attended [x.id] s w) (hj : x.job = .serve) :
    Attended [] s (w.beginAccept x) := by
  unfold Server.beginAccept
  split
  · exact h.acceptFailed hj _
  next l _ =>
    refine Attended.update (x := { x with wait := .listening l }) ?_ ?_ ?_
    · simpa [Chore.charge?, hj] using h.emit .willAccept
    · simp [Chore.isAttending, hj]
    · simp

/-- Who serves has a new session looked after. -/
theorem accepted (h : Attended [x.id] (i :: s) w) (hj : x.job = .serve) (hlt : x.id < w.fresh) :
    Attended [] s (w.accepted x i true) := by
  obtain ⟨t, ht, -⟩ := accepted_told x i true w
  have hk : Attended [x.id] (i :: s) { w with trace := t ++ w.trace } := h.same rfl rfl rfl
  have hadd : Attended [x.id] s ({ w with trace := t ++ w.trace }.add (.tend i)) :=
    hk.add (by simpa using Nat.ne_of_gt hlt) rfl
  rw [ht, if_pos (by simp [hj, isLasting]), if_pos rfl]
  exact Attended.beginAccept (x := { x with failures := 0 }) hadd hj

theorem accepted_again (h : Attended [x.id] s w) (hj : x.job = .serve) :
    Attended [] s (w.accepted x i false) := by
  obtain ⟨t, ht, -⟩ := accepted_told x i false w
  have hk : Attended [x.id] s { w with trace := t ++ w.trace } := h.same rfl rfl rfl
  rw [ht, if_pos (by simp [hj, isLasting]), if_neg (by simp)]
  exact Attended.beginAccept (x := { x with failures := 0 }) hk hj

theorem modify_append_of_lt {α : Type*} (f : α → α) (l r : List α) (h : i < l.length) :
    (l ++ r).modify i f = l.modify i f ++ r := by
  induction l generalizing i with
  | nil => simp at h
  | cons b l ih =>
    cases i with
    | zero => rfl
    | succ i => simpa using ih (Nat.lt_of_succ_lt_succ h)

/-- It is all one whether a session is asked before a new one comes or behind that. -/
theorem ask_enrol (h : i < w.cells.length) (job : Session.Job) :
    (w.enrol p).ask i job = ((w.ask i job).1.enrol p, (w.ask i job).2) := by
  obtain ⟨m, hm⟩ := machine?_of_lt h
  have hme : (w.enrol p).machine? i = some m := by
    rw [machine?_enrol, if_neg (Nat.ne_of_lt h), hm]
  unfold Server.ask
  rw [hme, hm]
  simp [Server.put, Server.enrol, newCell, modify_append_of_lt _ _ _ h]

/-- A peer connects again. The session that it leaves is closed. -/
theorem connected (h : Attended [x.id] s w) (he : Errands [x.id] w) (hj : x.job = .serve)
    (hlt : x.id < w.fresh) (p : Address) : Attended [] s (w.connected x p) := by
  unfold Server.connected
  dsimp only
  split
  next hg => exact (h.enrol p (by simp [hg])).accepted hj hlt
  next stale hg =>
    have hst : stale < w.cells.length := he.listed _ (Table.mem_of_get? hg)
    have ha := h.ask he stale .close
    have hr := isReleased_ask_close hst
    have hea := (he.ask hst .close rfl).1
    obtain ⟨cs, hask, hlen⟩ := ask_eq stale .close w
    rw [ask_enrol hst]
    have hk := ha.enrol p fun j c hjp hc => by
      have hjs : j = stale := by
        rw [hask] at hjp
        exact Option.some.inj (hjp.symm.trans hg)
      exact not_active_of_isReleased hea (hjs ▸ hr) hc
    refine Attended.update (x := { x with wait := .replacing _ stale _ }) ?_ ?_ ?_
    · rw [hask] at hk ⊢
      simpa [Chore.charge?, hlen] using hk
    · simp [Chore.isAttending, hj]
    · rintro i st t hw
      obtain ⟨-, rfl, -⟩ := Wait.replacing.inj hw
      rwa [isReleased_enrol (lt_of_isReleased hr)]

theorem hand (h : Attended out s w) (he : Errands r w) (i : Nat) (data : Bytes) :
    Attended out s (w.hand i data) := by
  obtain hc | ⟨c, f, hc, hf, hp, hs⟩ := hand_cases i data w
  · exact h.same hc rfl rfl
  · rw [hf]
    exact h.modify hc f hp hs (he.sound i _ (machine?_of_cell hc))

theorem datagram (h : Attended [x.id] s w) (he : Errands [x.id] w) (hj : x.job = .serve)
    (hlt : x.id < w.fresh) (p : Address) (data : Bytes) : Attended [] s (w.datagram x p data) := by
  unfold Server.datagram
  dsimp only
  split
  next => exact (h.hand he _ _).accepted_again hj
  next hg =>
    have hk := h.enrol p fun j c hjp hc ha => by
      have hm := machine?_of_cell hc
      have hal : w.isAlive j = true := by
        rw [isAlive, hm, Option.any_some]
        exact (he.sound j _ hm).1.orderly.alive_iff.2 ha
      simp [hjp, hal] at hg
    exact (hk.hand (he.enrol p) _ _).accepted hj hlt

theorem ask_table (t : Table) (i : Nat) (job : Session.Job) (w : Server) :
    { w with table := t }.ask i job = ({ (w.ask i job).1 with table := t }, (w.ask i job).2) := by
  unfold Server.ask
  have hm : ({ w with table := t } : Server).machine? i = w.machine? i := rfl
  rw [hm]
  cases w.machine? i <;> rfl

theorem closeSession (h : Attended [x.id] s w) (he : Errands [x.id] w) (hj : x.job = .closeSession p)
    (hg : w.table.get? p = some i) :
    Attended [] s (({ w with table := w.table.erase p }.ask i .close).1.update
      { x with wait := .closing i ({ w with table := w.table.erase p }.ask i .close).2 }) := by
  have hi : i < w.cells.length := he.listed _ (Table.mem_of_get? hg)
  have hr := isReleased_ask_close hi
  have hea := (he.ask hi .close rfl).1
  obtain ⟨cs, hask, -⟩ := ask_eq i .close w
  rw [ask_table]
  have hk : Attended [x.id] s { (w.ask i .close).1 with table := w.table.erase p } := by
    refine (h.ask he i .close).table ?_ fun j c hc ha hl => ?_
    · rw [hask]
      exact List.filter_sublist
    · rw [hask] at hl
      rw [Table.get?_erase, if_neg fun hp => ?_, hl]
      have hij : j = i := Option.some.inj (hl.symm.trans (hp ▸ hg))
      exact not_active_of_isReleased hea (hij ▸ hr) hc ha
  refine Attended.update (x := { x with wait := .closing i _ }) ?_ ?_ ?_
  · simpa [Chore.charge?, hj] using hk
  · simp [Chore.isAttending, hj]
  · simp

/-- A chore that begins looks after its session, or serves, or closes the session of a peer. -/
theorem begin (h : Attended [x.id] (x.charge?.toList ++ s) w) (he : Errands [x.id] w)
    (hx : x.isAttending = true) (hw : x.wait = .starting) : Attended [] s (w.begin x) := by
  have hfree (hj : ∀ i, x.job ≠ .tend i) : x.charge? = none := by
    cases hxj : x.job <;> simp_all [Chore.charge?]
  unfold Server.begin
  split
  next hj => simp [Chore.isAttending, hj] at hx
  next hj =>
    rw [hfree (by simp [hj])] at h
    exact h.beginAccept hj
  next hj => simp [Chore.isAttending, hj] at hx
  next hj => simp [Chore.isAttending, hj] at hx
  next i hj =>
    have hc (t : Session.TaskId) : ({ x with wait := .tending t } : Chore).charge? = x.charge? := by
      simp [Chore.charge?, hj, hw]
    refine Attended.update (x := { x with wait := .tending _ }) ?_ ?_ ?_
    · rw [hc]
      exact h.ask he i _
    · simp [Chore.isAttending, hj]
    · simp
  next p hj =>
    rw [hfree (by simp [hj])] at h
    split
    · exact h.settle _
    next i hg => exact h.closeSession he hj hg

/-- The end of a session takes off the table what is its own, and nothing else. -/
theorem get?_withoutOwn (hp : w.table.get? p = some t) (ht : t ≠ i) :
    (w.withoutOwn i).get? p = some t := by
  unfold withoutOwn
  cases hc : w.cells[i]? with
  | none => exact hp
  | some c =>
    rw [Option.elim_some, Table.eraseIf]
    split
    next hi =>
      have hi : w.table.get? c.peer = some i := by simpa [Table.holds] using hi
      rw [Table.get?_erase, if_neg fun hcp => ?_, hp]
      rw [hcp, hp] at hi
      exact ht (Option.some.inj hi)
    next => exact hp

theorem tended (h : Attended [x.id] (i :: s) w) (he : Errands r w) (hr : w.isReleased i = true) :
    Attended [x.id] s { w with table := w.withoutOwn i } := by
  have hk := h.table (withoutOwn_sublist w i) fun j c hc ha hl =>
    get?_withoutOwn hl fun hj => not_active_of_isReleased he (hj ▸ hr) hc ha
  refine { hk with looked := fun j hj hs => ?_ }
  by_cases hji : j = i
  · exact .inr ⟨hji ▸ hr, hji ▸ not_mem_withoutOwn h.keyed h.placed⟩
  · exact hk.looked j hj (by simp [hji, hs])

theorem start (h : Attended out s w) (bound : Except Error Address) :
    Attended out s (w.start bound).1 := by
  unfold Server.start
  split
  · exact h
  · cases bound <;> exact h.same rfl rfl rfl

theorem pass (h : Attended out s w) (d : Duration) : Attended out s (w.later d) := by
  refine ⟨h.suited, fun x hx ho i stale t hw => ?_, h.present, h.keyed, fun e he => ?_,
    fun i c hc ha => ?_, fun i hi hs => ?_⟩
  · rw [isReleased_later]
    exact h.replaced x hx ho i stale t hw
  · obtain ⟨c, hc, hp⟩ := h.placed e he
    refine ⟨c.later d, ?_, hp⟩
    rw [later, List.getElem?_map, hc, Option.map_some]
  · rw [later, List.getElem?_map] at hc
    obtain ⟨b, hb, rfl⟩ := Option.map_eq_some_iff.1 hc
    exact h.listed i b hb ha
  · rw [isReleased_later]
    exact h.looked i (by simpa [later] using hi) hs

theorem serve_of_wait (h : x.isAttending = true)
    (hw : (∃ l, x.wait = .listening l) ∨ (∃ i stale t, x.wait = .replacing i stale t) ∨
      ∃ d, x.wait = .resting d) : x.job = .serve := by
  obtain ⟨l, hw⟩ | ⟨i, stale, t, hw⟩ | ⟨d, hw⟩ := hw <;>
    cases hj : x.job <;> simp [Chore.isAttending, hj, hw] at h ⊢

/-- A chore goes on that looks after no session. -/
theorem free (h : Attended [] s w) (hr : Rolled w) (hx : x ∈ w.chores) (hc : x.charge? = none) :
    Attended [x.id] s w := by
  have ht := h.takes hr hx
  rwa [hc] at ht

theorem anew {job : Job} (h : Attended [] [] w) (hj : ∀ i, job ≠ .tend i)
    (hx : (⟨w.fresh, job, .starting, 0, none⟩ : Chore).isAttending = true) :
    Attended [] [] (w.add job) := by
  refine Attended.add ?_ (by simp) hx
  have hc : (⟨w.fresh, job, .starting, 0, none⟩ : Chore).charge? = none := by
    cases job <;> simp_all [Chore.charge?]
  rw [hc]
  exact h

theorem step (h : Attended [] [] w) (he : Errands [] w) (hv : isServing v = true)
    (hs : w.step v = some a) : Attended [] [] a := by
  have hr := he.rolled
  cases turn_step hs with
  | start bound => exact h.start bound
  | @call job =>
    have hj : (∀ i, job ≠ .tend i) ∧
        (⟨w.fresh, job, .starting, 0, none⟩ : Chore).isAttending = true := by
      cases job <;> simp [isServing, Chore.isAttending] at hv ⊢
    have hadd := h.anew hj.1 hj.2
    have head := he.add job fun i hi => absurd hi (hj.1 i)
    exact (hadd.takes (x := ⟨w.fresh, job, .starting, 0, none⟩) (hr.add job)
      (List.mem_append_right _ List.mem_cons_self)).begin (head.weaken _) hj.2 rfl
  | run => simp [isServing] at hv
  | @spawn job =>
    have hj : (∀ i, job ≠ .tend i) ∧
        (⟨w.fresh, job, .starting, 0, none⟩ : Chore).isAttending = true := by
      cases job <;> simp [isServing, Chore.isAttending] at hv ⊢
    exact h.anew hj.1 hj.2
  | begin hx hw => exact (h.takes hr hx).begin (he.weaken _) (h.suited _ hx (by simp)) hw
  | @connected x l p hx hw =>
    have hj := serve_of_wait (h.suited x hx (by simp)) (.inl ⟨l, hw⟩)
    exact (h.free hr hx (by simp [Chore.charge?, hw, hj])).connected (he.weaken _) hj
      (hr.lt_fresh x hx) p
  | @datagram x l p data hx hw =>
    have hj := serve_of_wait (h.suited x hx (by simp)) (.inl ⟨l, hw⟩)
    exact (h.free hr hx (by simp [Chore.charge?, hw, hj])).datagram (he.weaken _) hj
      (hr.lt_fresh x hx) p data
  | @acceptFailed x l e hx hw =>
    have hj := serve_of_wait (h.suited x hx (by simp)) (.inl ⟨l, hw⟩)
    exact (h.free hr hx (by simp [Chore.charge?, hw, hj])).acceptFailed hj e
  | @wake x d hx hw =>
    have hj := serve_of_wait (h.suited x hx (by simp)) (.inr (.inr ⟨d, hw⟩))
    exact (h.free hr hx (by simp [Chore.charge?, hw, hj])).beginAccept hj
  | @replaced x i stale t o hx hw =>
    have hj := serve_of_wait (h.suited x hx (by simp)) (.inr (.inl ⟨i, stale, t, hw⟩))
    have ht := h.takes hr hx
    rw [show x.charge? = some i by simp [Chore.charge?, hw]] at ht
    exact Attended.accepted ht hj (hr.lt_fresh x hx)
  | @tended x i t o hx hj hw ho =>
    have ht := h.takes hr hx
    rw [show x.charge? = some i by simp [Chore.charge?, hj, hw]] at ht
    have hrel := he.isReleased hx (t := t) (by simp [Chore.task?, hj, hw]) ho
    exact (Attended.tended ht he hrel).settle _
  | @closed x i t o r hx hw =>
    have hc : x.charge? = none := by
      have ha := h.suited x hx (by simp)
      cases hj : x.job <;> simp [Chore.isAttending, Chore.charge?, hj, hw] at ha ⊢
    exact (h.free hr hx hc).settle _
  | @drained x i t rest o fault hx hw =>
    have ha := h.suited x hx (by simp)
    cases hj : x.job <;> simp [Chore.isAttending, hj, hw] at ha
  | shutDown | cancel | remove | removeIf => simp [isServing] at hv
  | session _ hm hn => exact h.put he hm hn
  | receive rest _ hc hn =>
    exact h.modify hc _ rfl hn (he.sound _ _ (machine?_of_cell hc))
  | pass d => exact h.pass d

theorem steps (h : Attended [] [] w) (he : Errands [] w) (vs : List Move)
    (hv : ∀ v ∈ vs, isServing v = true) (hs : w.steps vs = some a) : Attended [] [] a := by
  have hk : Attended [] [] a ∧ Errands [] a :=
    steps_induction vs (P := fun b => Attended [] [] b ∧ Errands [] b)
      (fun v hm _ _ hb hd => ⟨hb.1.step hb.2 (hv v hm) hd, hb.2.step hd⟩) ⟨h, he⟩ hs
  exact hk.1

end Attended

theorem attended_empty (s : Settings) : Attended [] [] { settings := s } where
  suited := by simp
  replaced := by simp
  present := by simp
  keyed := by simp [Table.Keyed]
  placed := by simp
  listed := by simp
  looked := by simp

/-! When nobody has anything left to do. -/

theorem stuck_of_isSettled (h : w.isSettled = true) (hx : x ∈ w.chores) :
    w.step (.begin x.id) = none ∧ w.step (.proceed x.id) = none := by
  simp only [isSettled, Bool.and_eq_true, List.all_eq_true, Option.isNone_iff_eq_none] at h
  exact h.1 x hx

theorem atRest_of_isSettled (h : w.isSettled = true) {m : Session.Machine}
    (hm : w.machine? i = some m) : m.AtRest := by
  obtain ⟨c, hc, rfl⟩ := mem_of_machine? hm
  simp only [isSettled, Bool.and_eq_true, List.all_eq_true, Option.isNone_iff_eq_none,
    decide_eq_true_eq] at h
  exact h.2 c hc

theorem closesPending_of_isSettled (h : w.isSettled = true) : w.closesPending = false := by
  simp only [isSettled, Bool.and_eq_true, List.all_eq_true, decide_eq_true_eq] at h
  simp only [closesPending, List.any_eq_false, List.any_eq_true, decide_eq_true_eq, not_exists,
    not_and]
  exact fun c hc y hy => (h.2 c hc y hy).2

/-- A chore goes on when what it waits for on a session is over. -/
theorem proceed_of_outcome (ht : x.task? = some (i, t)) {o : Session.Outcome}
    (ho : w.outcome? i t = some o) : w.proceed x ≠ none := by
  unfold Chore.task? at ht
  unfold proceed
  split at ht
  next stale u hw =>
    obtain ⟨rfl, rfl⟩ := Prod.mk.inj (Option.some.inj ht)
    simp [ho]
  next u hw =>
    split at ht
    next j hj =>
      obtain ⟨rfl, rfl⟩ := Prod.mk.inj (Option.some.inj ht)
      simp [ho]
    next => simp at ht
  next hw =>
    obtain ⟨rfl, rfl⟩ := Prod.mk.inj (Option.some.inj ht)
    simp [ho]
  next hw =>
    obtain ⟨rfl, rfl⟩ := Prod.mk.inj (Option.some.inj ht)
    simp [ho]
  next => simp at ht

/-- What a chore still waits for there is a session that is alive. -/
theorem alive_of_task (hs : w.isSettled = true) (he : Errands [] w) (hx : x ∈ w.chores)
    (ht : x.task? = some (i, t)) : ∃ m, w.machine? i = some m ∧ m.session.alive = true := by
  obtain ⟨m, hm, hmd⟩ := he.minds x hx (by simp) i t ht
  obtain ha | ⟨-, o, ho⟩ := hmd.alive (he.sound i m hm).1 (atRest_of_isSettled hs hm)
  · exact ⟨m, hm, ha⟩
  · obtain ⟨r, hr⟩ : ∃ r, w.outcome? i t = some r := by
      rw [outcome?, hm, Option.bind_some, Session.Machine.outcome?, ← Option.isSome_iff_exists,
        Option.isSome_map, List.find?_isSome]
      exact ⟨_, ho, by simp⟩
    have hp := (stuck_of_isSettled hs hx).2
    rw [Server.step, he.rolled.chore?_eq_some_iff.2 ⟨hx, rfl⟩, Option.bind_some] at hp
    exact absurd hp (proceed_of_outcome ht hr)

/-- Who looks after a session there waits for its end. -/
theorem Attended.tending (h : Attended [] [] w) (he : Errands [] w) (hs : w.isSettled = true)
    (hx : x ∈ w.chores) (hc : x.charge? = some i) : x.job = .tend i ∧ ∃ t, x.wait = .tending t := by
  have hxa := h.suited x hx (by simp)
  cases hw : x.wait with
  | replacing j stale t =>
    -- the session that this one has replaced has been let go, so the chore could go on
    obtain ⟨m, hm, ha⟩ := alive_of_task hs he hx (i := stale) (t := t) (by simp [Chore.task?, hw])
    have hr := h.replaced x hx (by simp) j stale t hw
    rw [isReleased_of_machine? hm] at hr
    have ho := (he.sound stale m hm).1.orderly
    simpa [ho.alive_iff.1 ha] using ho.over_of_released hr
  | tending t =>
    refine ⟨?_, t, rfl⟩
    cases hj : x.job <;> simp [Chore.isAttending, Chore.charge?, hj, hw] at hxa hc
    rw [hc]
  | starting =>
    have hb := (stuck_of_isSettled hs hx).1
    rw [Server.step, he.rolled.chore?_eq_some_iff.2 ⟨hx, rfl⟩, Option.bind_some, if_pos hw] at hb
    simp at hb
  | listening | resting | closing | draining =>
    cases hj : x.job <;> simp [Chore.isAttending, Chore.charge?, hj, hw] at hxa hc

/-- A session that is looked after there is active. -/
theorem Attended.active (h : Attended [] [] w) (he : Errands [] w) (hs : w.isSettled = true)
    (hx : x ∈ w.chores) (hc : x.charge? = some i) :
    ∃ c, w.cells[i]? = some c ∧ c.machine.session.state = .active := by
  obtain ⟨hj, t, hw⟩ := h.tending he hs hx hc
  obtain ⟨m, hm, ha⟩ := alive_of_task hs he hx (i := i) (t := t) (by simp [Chore.task?, hj, hw])
  have hact := (he.sound i m hm).1.orderly.alive_iff.1 ha
  obtain ⟨c, hc, rfl⟩ := Option.map_eq_some_iff.1 hm
  exact ⟨c, hc, hact⟩

/-- Any other is closed and off the table. -/
theorem Attended.fate (h : Attended [] [] w) (he : Errands [] w) (hs : w.isSettled = true)
    (hshut : Shut w) {c : Cell} (hc : w.cells[i]? = some c) :
    c.machine.session.state = .active ∨
      c.machine.session.state = .closed ∧ i ∉ w.table.sessions := by
  obtain ⟨x, hx, -, hxi⟩ | ⟨hr, hn⟩ := h.looked i (List.getElem?_eq_some_iff.1 hc).1 (by simp)
  · obtain ⟨d, hd, hact⟩ := h.active he hs hx hxi
    obtain rfl := Option.some.inj (hc.symm.trans hd)
    exact .inl hact
  · have hm := machine?_of_cell hc
    rw [isReleased_of_machine? hm] at hr
    exact .inr ⟨hshut.closed i _ hm hr, hn⟩

theorem table_of_tend (hx : x.isAttending = true) (hj : x.job = .tend i) (h : w.proceed x = some a) :
    a.table = w.withoutOwn i := by
  obtain ⟨t, hw⟩ : ∃ t, x.wait = .tending t := by
    cases hw : x.wait <;> simp [Chore.isAttending, hj, hw] at hx
    · simp [proceed, hw] at h
    · exact ⟨_, rfl⟩
  rw [proceed, hw, hj] at h
  obtain ⟨o, -, rfl⟩ := Option.map_eq_some_iff.1 h
  unfold withoutOwn
  cases w.cells[i]? <;> rfl

/-- While a server serves, the end of a session takes no entry off the table but its own. Where links
close without waiting and nobody has anything left to do, the table holds each active session under
its peer, and nothing else, and every other session is closed. -/
theorem serve_keeps_active (s : Settings) (w₀ : Server) (h : new s = .ok w₀) (vs : List Move)
    (hv : ∀ v ∈ vs, isServing v = true) (a : Server) (ha : w₀.steps vs = some a) :
    (∀ x ∈ a.chores, ∀ i, x.job = .tend i → ∀ b, a.step (.proceed x.id) = some b →
      b.table.entries ⊆ a.table.entries ∧
      ∀ e ∈ a.table.entries, e.2 ≠ i → e ∈ b.table.entries) ∧
    (isBrisk vs w₀ = true → a.isSettled = true →
      (∀ p i, (p, i) ∈ a.table.entries ↔
        ∃ c, a.cells[i]? = some c ∧ c.peer = p ∧ c.machine.session.state = .active) ∧
      (a.table.entries.map (·.1)).Nodup ∧
      ∀ c ∈ a.cells, c.machine.session.state = .active ∨ c.machine.session.state = .closed) := by
  obtain rfl := new_eq h
  have he := (errands_empty s).steps vs ha
  have hat := (attended_empty s).steps (errands_empty s) vs hv ha
  refine ⟨fun x hx i hj b hb => ?_, fun hbrisk hs => ?_⟩
  · rw [Server.step, he.rolled.chore?_eq_some_iff.2 ⟨hx, rfl⟩, Option.bind_some] at hb
    rw [table_of_tend (hat.suited x hx (by simp)) hj hb]
    exact ⟨(withoutOwn_sublist a i).subset, fun e hea hei =>
      Table.mem_of_get? (Attended.get?_withoutOwn (hat.keyed.get? hea) hei)⟩
  · have hshut := closed_of_brisk s vs hbrisk ha (closesPending_of_isSettled hs)
    refine ⟨fun p i => ⟨fun hpi => ?_, ?_⟩, hat.keyed, fun c hc => ?_⟩
    · obtain ⟨c, hc, hcp⟩ := hat.placed _ hpi
      obtain hact | ⟨-, hn⟩ := hat.fate he hs hshut hc
      · exact ⟨c, hc, hcp, hact⟩
      · exact absurd (List.mem_map_of_mem hpi) hn
    · rintro ⟨c, hc, rfl, hact⟩
      exact Table.mem_of_get? (hat.listed i c hc hact)
    · obtain ⟨i, hi⟩ := List.mem_iff_getElem?.1 hc
      obtain hact | ⟨hcl, -⟩ := hat.fate he hs hshut hi
      · exact .inl hact
      · exact .inr hcl

/-- A peer takes leave and comes again before its first session is closed. -/
def crossedVisits : List Move :=
  [.start (.ok ⟨.v4 [127, 0, 0, 1], 5060⟩), .call .serve, .datagram 0 alice farewell,
    .datagram 0 alice greeting, .begin 1, .begin 2, .session 1 (.start 1), .session 0 (.start 1),
    .session 0 (.reply 1 .closed), .session 0 (.join 0)]

/-- The end of the first session leaves the second on the table. -/
theorem serve_keeps_active_crossedVisits :
    ∃ w₀ a b, new hall = .ok w₀ ∧ (∀ v ∈ crossedVisits, isServing v = true) ∧
      w₀.steps crossedVisits = some a ∧ a.step (.proceed 1) = some b ∧
      (alice, 1) ∈ b.table.entries ∧ isBrisk (crossedVisits ++ [.proceed 1]) w₀ = true ∧
      b.isSettled = true ∧
      (∃ c, b.cells[1]? = some c ∧ c.peer = alice ∧ c.machine.session.state = .active) ∧
      ∀ c ∈ b.cells, c.machine.session.state = .active ∨ c.machine.session.state = .closed := by
  have h : (({ settings := hall } : Server).steps crossedVisits).bind (fun a =>
      (a.step (.proceed 1)).map fun b =>
        (a.table.entries, (a.chore? 1).map (·.job), b.isSettled)) =
      some ([(alice, 1)], some (.tend 0), true) := by
    decide
  obtain ⟨a, ha, h⟩ := Option.bind_eq_some_iff.1 h
  obtain ⟨b, hb, h⟩ := Option.map_eq_some_iff.1 h
  simp only [Prod.mk.injEq] at h
  obtain ⟨hta, hj, hs⟩ := h
  obtain ⟨x, hx, hxj⟩ := Option.map_eq_some_iff.1 hj
  obtain ⟨hx, hxi⟩ := of_chore? hx
  have hv : ∀ v ∈ crossedVisits, isServing v = true := by decide
  have hrun : ({ settings := hall } : Server).steps (crossedVisits ++ [.proceed 1]) = some b := by
    rw [steps_append, ha, Option.bind_some, steps, hb]
    rfl
  have hbrisk : isBrisk (crossedVisits ++ [.proceed 1]) { settings := hall } = true := by decide
  obtain ⟨hown, -⟩ := serve_keeps_active hall _ rfl crossedVisits hv a ha
  obtain ⟨-, hkeep⟩ := hown x hx 0 hxj b (hxi ▸ hb)
  have hmem : (alice, 1) ∈ b.table.entries := hkeep (alice, 1) (by simp [hta]) (by simp)
  obtain ⟨-, hrest⟩ := serve_keeps_active hall _ rfl _ (by decide) b hrun
  obtain ⟨hiff, -, hcells⟩ := hrest hbrisk hs
  exact ⟨_, a, b, rfl, hv, ha, hb, hmem, hbrisk, hs, (hiff alice 1).1 hmem, hcells⟩

end Switchboard.Server
