import Switchboard.Proofs.Server.Running

/-! The lifecycle of a server that is run: what it tells from its start to its end, and what has
become of its sessions by then. The run takes all that is on the table when it begins to stop, and
has each of these sessions closed, unless their own chores have done so before. -/
namespace Switchboard.Server

variable {w a : Server} {x : Chore} {c : ChoreId} {v : Move} {here : Address} {i : Nat}
  {gs : List (Option Address)} {ns : List (Address × Nat)} {l : List Event} {n : Nat} {L : List Nat}

def isClosed (w : Server) (i : Nat) : Bool := (w.machine? i).any (·.session.state = .closed)

/-! What sessions have come to stays so while nobody new is accepted. -/

theorem isClosed_same (h : a.cells = w.cells) : a.isClosed i = w.isClosed i := by
  rw [isClosed, machine?, h, isClosed, machine?]

theorem Quiet.machine? (h : Quiet w a) {m : Session.Machine} (hm : w.machine? i = some m) :
    ∃ k us, a.machine? i = some k ∧ m.steps us = some k := by
  have hlen := h.length
  obtain ⟨k, hk⟩ := machine?_of_lt (hlen ▸ lt_of_machine? hm)
  obtain ⟨m', us, hm', hs⟩ := h.machines i k hk
  obtain rfl := Option.some.inj (hm.symm.trans hm')
  exact ⟨k, us, hk, hs⟩

theorem Quiet.isReleased (h : Quiet w a) (hr : w.isReleased i = true) : a.isReleased i = true := by
  obtain ⟨m, hm, -⟩ := (Option.any_eq_true _ _).1 hr
  obtain ⟨k, us, hk, hs⟩ := h.machine? hm
  exact isReleased_steps hm hk us hs hr

theorem Quiet.isClosed (h : Quiet w a) (he : Errands [] w) (hc : w.isClosed i = true) :
    a.isClosed i = true := by
  obtain ⟨m, hm, hc⟩ := (Option.any_eq_true _ _).1 hc
  obtain ⟨k, us, hk, hs⟩ := h.machine? hm
  have hP := Session.Machine.steps_induction (P := fun m => m.Orderly ∧ m.session.state = .closed)
    (fun hb hs => ⟨hb.1.advance (Session.Machine.advance_step _ hs),
      Session.Machine.state_of_closed hb.1 hs hb.2⟩)
    ⟨(he.sound i m hm).1.orderly, by simpa using hc⟩ us hs
  rw [Server.isClosed, hk, Option.any_some]
  simpa using hP.2

theorem Shut.isClosed (h : Shut w) (hr : w.isReleased i = true) : w.isClosed i = true := by
  obtain ⟨m, hm, hr⟩ := (Option.any_eq_true _ _).1 hr
  rw [Server.isClosed, hm, Option.any_some]
  simpa using h.closed i m hm hr

/-! What is told of and what is not. -/

theorem Books.not_mem (h : Books here gs ns l n w) {e : Event} (he : e = .willStop ∨ e = .didStop)
    (hl : e ∉ l) : e ∉ w.told := by
  have hg : e ∉ gs.flatMap group := by
    intro hm
    obtain ⟨o, -, ho⟩ := List.mem_flatMap.1 hm
    cases o with
    | none =>
      obtain rfl := List.mem_singleton.1 ho
      simp at he
    | some p => obtain rfl | rfl := he <;> simp [group] at ho
  rw [h.told, List.mem_append, List.mem_append]
  rintro ((hm | hm) | hm)
  · obtain rfl | rfl := he <;> simp [opening] at hm
  · exact hg hm
  · exact hl hm

/-- Until the run is over, it has not told that the server has stopped. -/
theorem Held.didStop_not_mem (h : Held c here gs ns x.wait.lately n w) : .didStop ∉ w.told := by
  refine h.toBooks.not_mem (.inr rfl) ?_
  cases x.wait <;> simp [Wait.lately]

theorem told_beginAccept (x : Chore) (hl : w.listener.isSome = true) :
    (w.beginAccept x).told = w.told ++ [.willAccept] := by
  obtain ⟨k, hk⟩ := Option.isSome_iff_exists.1 hl
  rw [beginAccept, hk]
  exact told_emit _ w

/-- Who accepts tells of that and no more. -/
theorem willStop_of_accepted (i : Nat) (fresh : Bool) (hj : isLasting x.job = true)
    (hl : w.listener.isSome = true) (h : .willStop ∈ (w.accepted x i fresh).told) :
    .willStop ∈ w.told := by
  obtain ⟨t, ht, hp⟩ := accepted_told x i fresh w
  have hm : .willStop ∈ ({ w with trace := t ++ w.trace } : Server).told := by
    rw [ht, if_pos hj, told_beginAccept _ (by split <;> exact hl)] at h
    obtain h | h := List.mem_append.1 h
    · split at h <;> exact h
    · simp at h
  simp only [told, List.mem_reverse, List.map_append, List.mem_append] at hm ⊢
  obtain hm | hm := hm
  · obtain rfl | ⟨p, rfl⟩ := hp <;> simp at hm
  · exact hm

/-! The sessions that a run has to close. -/

/-- The run stops, or is over, and `L` is what was on the table when it began to. Each of these
sessions is still on its list or has been let go, and all are closed once it has told so. -/
structure Doomed (c : ChoreId) (L : List Nat) (w : Server) : Prop where
  draining : ∀ x ∈ w.chores, x.id = c → x.wait.isDraining = true
  kept : ∀ x ∈ w.chores, x.id = c → ∀ i ∈ L, i ∈ x.rest ∨ w.isReleased i = true
  closed : .didStop ∈ w.told → ∀ i ∈ L, w.isClosed i = true

/-- The run goes on with its list. -/
theorem doomed_drain {r : List Nat} (hi : x.id = c) (hr : ∀ i ∈ r, i < w.cells.length)
    (hk : ∀ i ∈ L, i ∈ r ∨ w.isReleased i = true) (hd : .didStop ∉ w.told)
    (hc : r = [] → ∀ i ∈ L, w.isClosed i = true) : Doomed c L (w.drain x r) := by
  cases r with
  | nil =>
    have hgone (y : Chore) (hy : y ∈ (w.drain x []).chores) : y.id ≠ c := by
      unfold drain stopped at hy
      dsimp only at hy
      split at hy <;> exact hi ▸ (mem_settle hy).2
    refine ⟨fun y hy hyi => absurd hyi (hgone y hy), fun y hy hyi => absurd hyi (hgone y hy),
      fun _ j hj => ?_⟩
    have hs : (w.drain x []).cells = w.cells := (stopped_same x (w.emit .didStop)).1
    rw [isClosed_same hs]
    exact hc rfl j hj
  | cons i r =>
    have hself (y : Chore) (hy : y ∈ (w.drain x (i :: r)).chores) (hyi : y.id = c) :
        y.wait = .draining i (w.ask i .close).2 r := by
      obtain rfl | ⟨-, hne⟩ := mem_update hy
      · rfl
      · exact absurd (hyi.trans hi.symm) hne
    refine ⟨fun y hy hyi => by rw [hself y hy hyi]; rfl, fun y hy hyi j hj => ?_, fun hm => ?_⟩
    · rw [Chore.rest, hself y hy hyi]
      obtain hj | hj := hk j hj
      · obtain rfl | hj := List.mem_cons.1 hj
        · exact .inr (isReleased_ask_close (hr j List.mem_cons_self))
        · exact .inl hj
      · exact .inr ((quiet_ask i .close w).isReleased hj)
    · obtain ⟨cs, hask, -⟩ := ask_eq i .close w
      have ht : (w.drain x (i :: r)).told = w.told := by
        rw [drain]
        dsimp only
        rw [hask]
        rfl
      exact absurd (ht ▸ hm) hd

/-- A run that begins to stop takes the whole table. -/
theorem Held.doomed (h : Held c here gs ns [] n w) (hi : x.id = c) (hl : w.listener.isSome = true)
    (ht : ∀ e ∈ w.table.entries, e.2 < w.cells.length) :
    Doomed c w.table.sessions (w.beginStop x) := by
  obtain ⟨k, hk⟩ := Option.isSome_iff_exists.1 hl
  have hd : .didStop ∉ (w.emit .willStop).told :=
    (h.emit .willStop).toBooks.not_mem (.inr rfl) (by simp)
  rw [Server.beginStop, hk]
  refine doomed_drain hi (fun i hi => ?_) (fun i hi => .inl hi) hd fun hn i hi => ?_
  · obtain ⟨e, he, rfl⟩ := List.mem_map.1 hi
    exact ht e he
  · have hn : w.table.sessions = [] := hn
    simp [hn] at hi

/-- The move with which a run begins to stop is one of the run, and it takes the table. -/
theorem Course.doomed (h : Course c here gs ns w) (he : Errands [] w) (hs : Stir c w v a)
    (hw : .willStop ∉ w.told) (ha : .willStop ∈ a.told) : Doomed c w.table.sessions a := by
  have hr := he.rolled
  cases hs with
  | aside hk => exact absurd (hk.told ▸ ha) hw
  | @welcomed _ x cs t i p hx hi hwait =>
    obtain ⟨-, hj, hl⟩ := h.held hr hx hi
    have hl : w.listener.isSome = true := by
      obtain ⟨⟨l, hwait⟩, -⟩ | ⟨stale, k, hwait⟩ := hwait <;>
        simpa [hwait, Wait.isDraining] using hl
    exact absurd (willStop_of_accepted (w := { w with cells := cs, table := t }) i true
      (by rw [hj]; rfl) hl ha) hw
  | @again _ x cs i l hx hi hwait =>
    obtain ⟨-, hj, hl⟩ := h.held hr hx hi
    have hl : w.listener.isSome = true := by simpa [hwait, Wait.isDraining] using hl
    exact absurd (willStop_of_accepted (w := { w with cells := cs }) i false
      (by rw [hj]; rfl) hl ha) hw
  | replacing => exact absurd ha hw
  | @failed x l e hx hi hwait =>
    obtain ⟨hh, hj, hl⟩ := h.held hr hx hi
    rw [hwait] at hh hl
    unfold acceptFailed at ha ⊢
    split
    next hlast => simp [hj, isLasting] at hlast
    next hlast =>
      rw [if_neg hlast] at ha
      split
      · exact Held.doomed (x := { x with fault := some e }) (hh.books hh.toBooks.close) hi
          (by simpa [Wait.isDraining] using hl) he.listed
      next hset =>
        rw [if_neg hset] at ha
        exact absurd ha hw
  | @woken x d hx hi hwait =>
    obtain ⟨-, hj, hl⟩ := h.held hr hx hi
    rw [told_beginAccept x (by simpa [hwait, Wait.isDraining] using hl)] at ha
    exact absurd (by simpa using ha) hw
  | @stopped x cs hx hi hwait hlen =>
    obtain ⟨hh, hj, hl⟩ := h.held hr hx hi
    obtain ⟨⟨gs', hk⟩, hd⟩ := hh.interrupted hwait
    have hk : Held c here gs' ns [] _ { w with cells := cs } := hk.same rfl rfl rfl rfl
    exact hk.doomed hi (by simpa [hd] using hl) (hlen ▸ he.listed)
  | @drained x i t rest fault hx hi hwait =>
    obtain ⟨hh, hj, hl⟩ := h.held hr hx hi
    rw [hwait] at hh
    refine absurd ?_ hw
    rw [hh.told]
    simp [Wait.lately]
  | dropped => exact absurd ha hw

namespace Doomed

/-- Whatever happens, the run goes on with its list; when that is empty, all have been let go, and
so are closed where no link is about to answer. -/
theorem stir (h : Doomed c L w) (hc : Course c here gs ns w) (he : Errands [] w) (hb : Brisk w)
    (hv : (!w.closesPending || w.answersClose v) = true) (hs : Stir c w v a) : Doomed c L a := by
  have hr := he.rolled
  cases hs with
  | aside hk =>
    refine ⟨fun x hx hi => h.draining x ((hk.run x hi).1 hx) hi, fun x hx hi i hm => ?_,
      fun hd i hm => ?_⟩
    · exact (h.kept x ((hk.run x hi).1 hx) hi i hm).imp_right hk.quiet.isReleased
    · exact hk.quiet.isClosed he (h.closed (hk.told ▸ hd) i hm)
  | @welcomed _ x cs t i p hx hi hw =>
    have hd := h.draining x hx hi
    obtain ⟨⟨l, hw⟩, -⟩ | ⟨stale, k, hw⟩ := hw <;> simp [hw, Wait.isDraining] at hd
  | again hx hi hw | replacing hx hi hw | failed _ hx hi hw | woken hx hi hw =>
    have hd := h.draining _ hx hi
    simp [hw, Wait.isDraining] at hd
  | @stopped x cs hx hi hw =>
    have hd := h.draining x hx hi
    obtain ⟨l, hw⟩ | ⟨i, stale, k, hw⟩ | ⟨d, hw⟩ := hw <;> simp [hw, Wait.isDraining] at hd
  | @drained x i t rest fault hx hi hw =>
    have hk : ∀ j ∈ L, j ∈ rest ∨ w.isReleased j = true := by
      simpa [Chore.rest, hw] using h.kept x hx hi
    refine doomed_drain (x := { x with fault }) hi (fun j hj => ?_) hk
      (hc.held hr hx hi).1.didStop_not_mem fun hn j hj => ?_
    · exact he.pending x hx j (by simpa [Chore.pending, hw] using hj)
    · have hp : w.closesPending = false := by simpa [answersClose] using hv
      have hrel : w.isReleased j = true := by simpa [hn] using hk j hj
      exact (hb.shut (fun i m hm => (he.sound i m hm).1) hp).isClosed hrel
  | @dropped x cs hx hi =>
    have hgone (y : Chore) (hy : y ∈ w.chores.filter (·.id ≠ c)) : y.id ≠ c := by
      simpa using (List.mem_filter.1 hy).2
    exact ⟨fun y hy hyi => absurd hyi (hgone y hy), fun y hy hyi => absurd hyi (hgone y hy),
      fun hd => absurd hd (hc.held hr hx hi).1.didStop_not_mem⟩

theorem steps (h : Doomed c L w) (hc : Course c here gs ns w) (he : Errands [] w) (hb : Brisk w)
    (vs : List Move) (hv : ∀ v ∈ vs, isBesideRun v = true) (hk : isBrisk vs w = true)
    (hs : w.steps vs = some a) : Doomed c L a := by
  induction vs generalizing w gs ns with
  | nil =>
    obtain rfl := Option.some.inj hs
    exact h
  | cons v vs ih =>
    obtain ⟨b, hvb, hs⟩ := Option.bind_eq_some_iff.1 hs
    obtain ⟨hv, hvs⟩ := List.forall_mem_cons.1 hv
    rw [isBrisk, hvb, Option.map_some, Option.getD_some, Bool.and_eq_true] at hk
    have hst := stir_step (hc.manned he) hv hvb
    obtain ⟨gs', hc'⟩ := hc.stir he hst
    exact ih (h.stir hc he hb hk.1 hst) hc' (he.step hvb) (hb.step he hk.1 hvb) hvs hk.2 hs

end Doomed

theorem isBrisk_append (us vs : List Move) (hk : isBrisk (us ++ vs) w = true)
    (hs : w.steps us = some a) : isBrisk us w = true ∧ isBrisk vs a = true := by
  induction us generalizing w with
  | nil =>
    obtain rfl := Option.some.inj hs
    exact ⟨rfl, hk⟩
  | cons v us ih =>
    obtain ⟨b, hb, hs⟩ := Option.bind_eq_some_iff.1 hs
    rw [List.cons_append, isBrisk, hb, Option.map_some, Option.getD_some, Bool.and_eq_true] at hk
    obtain ⟨hu, hv⟩ := ih hk.2 hs
    refine ⟨?_, hv⟩
    rw [isBrisk, hb, Option.map_some, Option.getD_some, hu, Bool.and_true]
    exact hk.1

/-- Where links close without waiting, what is on the table when a run begins to stop is closed when
it has told that the server has stopped. -/
theorem Course.closes (h : Course c here gs ns w) (he : Errands [] w) (hb : Brisk w)
    (us vs : List Move) (v : Move) (hv : ∀ u ∈ us ++ v :: vs, isBesideRun u = true)
    (hk : isBrisk (us ++ v :: vs) w = true) {p q : Server} (hp : w.steps us = some p)
    (hq : p.step v = some q) (ha : q.steps vs = some a) (hn : .willStop ∉ p.told)
    (hm : .willStop ∈ q.told) (hd : .didStop ∈ a.told) (hi : i ∈ p.table.sessions) :
    a.isClosed i = true := by
  obtain ⟨hus, hvs⟩ := List.forall_mem_append.1 hv
  obtain ⟨hv, hvs⟩ := List.forall_mem_cons.1 hvs
  obtain ⟨hkp, hkq⟩ := isBrisk_append us (v :: vs) hk hp
  rw [isBrisk, hq, Option.map_some, Option.getD_some, Bool.and_eq_true] at hkq
  obtain ⟨gs', hc⟩ := h.steps he us hus hp
  have hep := he.steps us hp
  have hbp := hb.steps he us hkp hp
  have hst := stir_step (hc.manned hep) hv hq
  obtain ⟨gs'', hcq⟩ := hc.stir hep hst
  have hdoom := hc.doomed hep hst hn hm
  exact (hdoom.steps hcq (hep.step hq) (hbp.step hep hkq.1 hq) vs hvs hkq.2 ha).closed hd i hi

theorem brisk_callRun (s : Settings) (bound : Except Error Address) (down : Bool) :
    Brisk (({ settings := s } : Server).callRun bound down) := by
  have h : Shut ({ settings := s } : Server) := ⟨by simp [machine?], by simp [machine?]⟩
  exact h.callRun bound down

/-- So it is with a run of a fresh server, where nobody has come before it begins. -/
theorem closed_behind_run (s : Settings) (here : Address) (down : Bool) (vs : List Move)
    (hvs : ∀ v ∈ vs, isBesideRun v = true)
    (hk : isBrisk vs (({ settings := s } : Server).callRun (.ok here) down) = true)
    (ha : (({ settings := s } : Server).callRun (.ok here) down).steps vs = some a)
    {us ws : List Move} {p q : Server} (hus : .run (.ok here) down :: vs = us ++ v :: ws)
    (hp : ({ settings := s } : Server).steps us = some p) (hq : p.step v = some q)
    (hn : .willStop ∉ p.told) (hm : .willStop ∈ q.told) (hd : .didStop ∈ a.told)
    (hi : i ∈ p.table.sessions) : a.isClosed i = true := by
  cases us with
  | nil =>
    obtain rfl := Option.some.inj hp
    simp [Table.sessions] at hi
  | cons u us =>
    rw [List.cons_append] at hus
    obtain ⟨rfl, rfl⟩ := List.cons.inj hus
    have hp : (({ settings := s } : Server).callRun (.ok here) down).steps us = some p := hp
    have haq : q.steps ws = some a := by
      rw [steps_append, hp, Option.bind_some, steps, hq, Option.bind_some] at ha
      exact ha
    exact (course_callRun s here down).closes ((errands_empty s).callRun _ _)
      (brisk_callRun s _ down) us ws v hvs hk hp hq haq hn hm hd hi

theorem Books.countP_didAccept (h : Books here gs ns l n w) (hl : ∀ e ∈ l, isDidAccept e = false) :
    w.told.countP isDidAccept = ns.length := by
  have hg (gs : List (Option Address)) :
      (gs.flatMap group).countP isDidAccept = gs.reduceOption.length := by
    induction gs with
    | nil => rfl
    | cons o gs ih =>
      rw [List.flatMap_cons, List.countP_append, ih]
      cases o with
      | none => exact Nat.zero_add _
      | some p => exact Nat.add_comm _ _
  have ho : (opening here).countP isDidAccept = 0 := rfl
  have hl : l.countP isDidAccept = 0 := List.countP_eq_zero.2 fun e he => by rw [hl e he]; simp
  rw [h.told, List.countP_append, List.countP_append, hg, h.welcomed, List.length_map, ho, hl,
    Nat.zero_add, Nat.add_zero]

/-- A run of a fresh server, over UDP or TCP, whatever comes and whenever the shutdown does. When
the start fails, it tells that it runs and starts, and no more. Else it tells of the start, of one
accept after the other and of the peer behind each that is completed with a new session, and at last
that it stops, has stopped and has run; the end is told in full when the run answers, and only then.
Peers are told of as many times as accepts are completed with new sessions. And where links close
without waiting, every session on the table when the run tells that it stops is closed when it has
told that it has stopped. -/
theorem run_lifecycle (s : Settings) (w₀ : Server) (h : new s = .ok w₀)
    (bound : Except Error Address) (down : Bool) (vs : List Move)
    (hvs : ∀ v ∈ vs, isBesideRun v = true) (a : Server)
    (ha : w₀.steps (.run bound down :: vs) = some a) :
    (∀ e, bound = .error e → a.told = [.willRun, .willStart] ∧ a.answer? 0 = some (.failed e)) ∧
    (∀ here, bound = .ok here → ∃ (gs : List (Option Address)) (l : List Event),
      a.told = opening here ++ gs.flatMap group ++ l ∧ l <+: ending ∧
      (a.answer? 0).isSome = decide (l = ending) ∧
      gs.reduceOption = (welcomes (.run bound down :: vs) w₀).map (·.1)) ∧
    a.told.countP isDidAccept = (welcomes (.run bound down :: vs) w₀).length ∧
    ((welcomes (.run bound down :: vs) w₀).map (·.2)).Nodup ∧
    (isBrisk (.run bound down :: vs) w₀ = true → ∀ us v ws p q,
      .run bound down :: vs = us ++ v :: ws → w₀.steps us = some p → p.step v = some q →
      .willStop ∉ p.told → .willStop ∈ q.told → .didStop ∈ a.told →
      ∀ i ∈ p.table.sessions, ∃ m, a.machine? i = some m ∧ m.session.state = .closed) := by
  obtain rfl := new_eq h
  have hwel : welcomes (.run bound down :: vs) ({ settings := s } : Server) =
      welcomes vs (({ settings := s } : Server).callRun bound down) := rfl
  rw [hwel]
  have hbrisk : isBrisk (.run bound down :: vs) ({ settings := s } : Server) =
      isBrisk vs (({ settings := s } : Server).callRun bound down) := rfl
  rw [hbrisk]
  replace ha : (({ settings := s } : Server).callRun bound down).steps vs = some a := ha
  have he := (errands_empty s).callRun bound down
  cases bound with
  | error e =>
    obtain ⟨hf, hw⟩ := (failed_callRun s e down).steps vs hvs ha
    rw [hw]
    refine ⟨?_, by simp, ?_, List.nodup_nil, ?_⟩
    · intro e' he'
      obtain rfl := Except.error.inj he'
      exact ⟨hf.told, hf.answer⟩
    · rw [hf.told]
      rfl
    · intro _ us v ws p q _ _ _ _ _ hd
      rw [hf.told] at hd
      simp at hd
  | ok here =>
    have hc := course_callRun s here down
    obtain ⟨gs, hca⟩ := hc.steps he vs hvs ha
    rw [List.nil_append] at hca
    obtain ⟨gs, l, n, hb, hl, hans⟩ := hca.books
    have hsub : ∀ e ∈ l, isDidAccept e = false := by
      intro e he
      have hm := hl.subset he
      simp only [ending, List.mem_cons, List.not_mem_nil, or_false] at hm
      obtain rfl | rfl | rfl := hm <;> rfl
    refine ⟨by simp, ?_, hb.countP_didAccept hsub, ?_, ?_⟩
    · intro here' hh
      obtain rfl := Except.ok.inj hh
      exact ⟨gs, l, hb.told, hl, hans, hb.welcomed⟩
    · exact (List.pairwise_append.1 hb.order).1.imp Nat.ne_of_lt
    · intro hk us v ws p q hus hp hq hn hm hd i hi
      obtain ⟨m, hm, hc⟩ := (Option.any_eq_true _ _).1
        (closed_behind_run s here down vs hvs hk ha hus hp hq hn hm hd hi)
      exact ⟨m, hm, by simpa using hc⟩

def openDay : List Move :=
  [.run (.ok ⟨.v4 [127, 0, 0, 1], 5060⟩) false, .datagram 0 alice greeting,
    .acceptFailed 0 (.io "reset".toList), .pass 10000000, .wake 0, .datagram 0 bob farewell,
    .datagram 0 alice greeting, .begin 2]

/-- The shutdown comes. The link of one session fails to close, and that of the other is closed by
those who look after it, before the run comes to it. -/
def nightfall : List Move :=
  [.shutDown 0, .session 0 (.reply 0 (.failed .peerClosed)), .session 1 (.start 1),
    .session 1 (.reply 1 .closed), .proceed 0, .proceed 0]

theorem run_lifecycle_openDay :
    ∃ w₀ p q a m n, new hall = .ok w₀ ∧ (∀ v ∈ openDay.tail ++ nightfall, isBesideRun v = true) ∧
      isBrisk (openDay ++ nightfall) w₀ = true ∧ w₀.steps openDay = some p ∧
      p.step (.shutDown 0) = some q ∧ .willStop ∉ p.told ∧ .willStop ∈ q.told ∧
      p.table.sessions = [0, 1] ∧ w₀.steps (openDay ++ nightfall) = some a ∧
      a.told = opening ⟨.v4 [127, 0, 0, 1], 5060⟩ ++
        [some alice, none, some bob, none, none].flatMap group ++ ending ∧
      a.answer? 0 = some (.failed .peerClosed) ∧ a.told.countP isDidAccept = 2 ∧
      a.machine? 0 = some m ∧ m.session.state = .closed ∧
      a.machine? 1 = some n ∧ n.session.state = .closed := by
  have hv : ∀ v ∈ openDay.tail ++ nightfall, isBesideRun v = true := by decide
  have hb : isBrisk (openDay ++ nightfall) { settings := hall } = true := by decide
  have hp : (({ settings := hall } : Server).steps openDay).bind (fun p =>
      (p.step (.shutDown 0)).map fun q =>
        (p.told.contains .willStop, q.told.contains .willStop, p.table.sessions)) =
      some (false, true, [0, 1]) := by
    decide
  have ha : (({ settings := hall } : Server).steps (openDay ++ nightfall)).map (fun a =>
      (a.told, a.answer? 0)) = some (opening ⟨.v4 [127, 0, 0, 1], 5060⟩ ++
        [some alice, none, some bob, none, none].flatMap group ++ ending,
        some (.failed .peerClosed)) := by
    decide
  have hw : (welcomes (openDay ++ nightfall) { settings := hall }).length = 2 := by decide
  obtain ⟨p, hp, h⟩ := Option.bind_eq_some_iff.1 hp
  obtain ⟨q, hq, h⟩ := Option.map_eq_some_iff.1 h
  obtain ⟨a, ha, ht⟩ := Option.map_eq_some_iff.1 ha
  simp only [Prod.mk.injEq] at h ht
  obtain ⟨hpn, hqm, htab⟩ := h
  have hn : .willStop ∉ p.told := by simpa using hpn
  have hm : .willStop ∈ q.told := by simpa using hqm
  have hd : .didStop ∈ a.told := by rw [ht.1]; decide
  obtain ⟨-, -, hcount, -, hclosed⟩ := run_lifecycle hall _ rfl _ false _ hv a ha
  have hclose := hclosed hb openDay (.shutDown 0) nightfall.tail p q rfl hp hq hn hm hd
  obtain ⟨m, hm0, hc0⟩ := hclose 0 (by simp [htab])
  obtain ⟨n, hn1, hc1⟩ := hclose 1 (by simp [htab])
  exact ⟨_, p, q, a, m, n, rfl, hv, hb, hp, hq, hn, hm, htab, ha, ht.1, ht.2, hcount.trans hw, hm0,
    hc0, hn1, hc1⟩

end Switchboard.Server
