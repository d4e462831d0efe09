import Switchboard.Config.Document
import Switchboard.Proofs.Text.Utf8

/-! The keys of a configuration file. What a file gives under a key is kept, and a key that it leaves
out has its default, for all keys of the two roles. A table of loops may be left out too, but one that
is there has to give all its keys: a file that leaves one of them out is refused as a whole. -/
namespace Switchboard.Config

inductive Shape where
  | text
  | flag
  | whole (bound : Nat)
  /-- Such a number may be written without a point. -/
  | seconds
  deriving DecidableEq, Repr

namespace Shape

def admits : Shape → Toml → Bool
  | text, .text _ => true
  | flag, .bool _ => true
  | whole bound, .integer i => 0 ≤ i && i ≤ bound
  | seconds, .integer _ => true
  | seconds, .float _ => true
  | _, _ => false

def kept : Shape → Toml → Toml
  | seconds, .integer i => .float (.ofInt i)
  | _, v => v

end Shape

abbrev Keys := List (String × Shape)

def clientKeys : Keys :=
  [("protocol", .text), ("host", .text), ("port", .whole 65535), ("timeout_secs", .whole word),
    ("max_trials", .whole (Nat.pow 2 32 - 1)), ("retry_delay_ms", .whole word), ("tls", .text),
    ("ca_file", .text), ("server_name", .text), ("send_loop", .flag), ("recv_loop", .flag),
    ("sendrecv_loop", .flag)]

def serverKeys : Keys :=
  [("protocol", .text), ("host", .text), ("port", .whole 65535), ("send_loop", .flag),
    ("recv_loop", .flag), ("idle_timeout_secs", .whole word), ("log_sessions", .flag)]

def loopKeys : Keys :=
  [("message", .text), ("buffersize", .whole word), ("period_send_secs", .seconds),
    ("period_recv_secs", .seconds), ("period_sendrecv_secs", .seconds)]

def tables : List (List String × Keys) :=
  [(["client"], clientKeys), (["server"], serverKeys), (["loops", "client"], loopKeys),
    (["loops", "server"], loopKeys)]

/-! Values under names, and whether they are what the keys ask for. -/

def under (name : String) : Toml → Option Toml
  | .table fs => look fs name
  | _ => none

def find : List String → Toml → Option Toml
  | [], v => some v
  | k :: ks, v => (under k v).bind (find ks)

def admitsTable (ks : Keys) : Toml → Bool
  | .table fs => ks.all fun k => (look fs k.1).all k.2.admits
  | _ => false

def admitsLoops : Toml → Bool
  | .table fs => (look fs "client").all (admitsTable loopKeys) &&
      (look fs "server").all (admitsTable loopKeys)
  | _ => false

/-- Any keys may be missing, but those that are there have values of their kind. -/
def wellTyped (fs : List (Text × Toml)) : Bool :=
  (look fs "client").all (admitsTable clientKeys) && (look fs "server").all (admitsTable serverKeys) &&
    (look fs "loops").all admitsLoops

def isWhole (ks : Keys) (v : Toml) : Bool := ks.all fun k => (under k.1 v).isSome

def loopsWhole (fs : List (Text × Toml)) : Bool :=
  (find ["loops", "client"] (.table fs)).all (isWhole loopKeys) &&
    (find ["loops", "server"] (.table fs)).all (isWhole loopKeys)

/-! A configuration written out, with all its keys. -/

def written (es : List (String × Option Toml)) : Toml :=
  .table (es.filterMap fun e => e.2.map (e.1.toList, ·))

def clientDocument (t : ClientTable) : Toml :=
  written [("protocol", some (.text t.protocol)), ("host", some (.text t.host)),
    ("port", some (.integer t.port.toNat)), ("timeout_secs", some (.integer t.timeoutSecs)),
    ("max_trials", some (.integer t.maxTrials.toNat)),
    ("retry_delay_ms", some (.integer t.retryDelayMs)), ("tls", t.tls.map .text),
    ("ca_file", t.caFile.map .text), ("server_name", t.serverName.map .text),
    ("send_loop", some (.bool t.enabled.send)), ("recv_loop", some (.bool t.enabled.recv)),
    ("sendrecv_loop", some (.bool t.enabled.sendrecv))]

def serverDocument (t : ServerTable) : Toml :=
  written [("protocol", some (.text t.protocol)), ("host", some (.text t.host)),
    ("port", some (.integer t.port.toNat)), ("send_loop", some (.bool t.sendLoop)),
    ("recv_loop", some (.bool t.recvLoop)), ("idle_timeout_secs", some (.integer t.idleTimeoutSecs)),
    ("log_sessions", some (.bool t.logSessions))]

def loopDocument (t : LoopTable) : Toml :=
  written [("message", some (.text t.message)), ("buffersize", some (.integer t.buffersize)),
    ("period_send_secs", some (.float t.sendPeriod)),
    ("period_recv_secs", some (.float t.recvPeriod)),
    ("period_sendrecv_secs", some (.float t.sendrecvPeriod))]

def document (c : Config) : Toml :=
  written [("client", some (clientDocument c.client)), ("server", some (serverDocument c.server)),
    ("loops", some (written [("client", some (loopDocument c.clientLoops)),
      ("server", some (loopDocument c.serverLoops))]))]

@[simp] theorem under_table (name : String) (fs : List (Text × Toml)) :
    under name (.table fs) = look fs name := rfl

@[simp] theorem under_written_nil (name : String) : under name (written []) = none := rfl

@[simp] theorem under_written_cons (k : String) (v : Option Toml) (es : List (String × Option Toml))
    (name : String) :
    under name (written ((k, v) :: es)) =
      if k = name then v.or (under name (written es)) else under name (written es) := by
  cases v with
  | none => simp [written, under]
  | some v =>
    by_cases h : k = name
    · subst h
      simp [written, under, look]
    · have ht : k.toList ≠ name.toList := fun he => h (String.toList_injective he)
      simp [written, under, look, h, ht]

/-! Readers of one value, against the kind of value. `put` writes out what was read. -/

section Reading
variable {α : Type} {s : Shape} {read : Toml → Option α} {put : α → Option Toml}

def Reads (s : Shape) (read : Toml → Option α) (put : α → Option Toml) : Prop :=
  ∀ v, s.admits v → ∃ a, read v = some a ∧ put a = some (s.kept v)

theorem reads_text : Reads .text text fun t => some (.text t) := by
  intro v hv
  cases v <;> simp_all [Shape.admits, text, Shape.kept]

theorem reads_some_text : Reads .text (fun v => (text v).map some) (Option.map .text) := by
  intro v hv
  cases v <;> simp_all [Shape.admits, text, Shape.kept]

theorem reads_bool : Reads .flag bool fun b => some (.bool b) := by
  intro v hv
  cases v <;> simp_all [Shape.admits, bool, Shape.kept]

theorem reads_number : Reads .seconds number fun x => some (.float x) := by
  intro v hv
  cases v <;> simp_all [Shape.admits, number, Shape.kept]

/-- A whole number, kept in a word that has room for it. -/
theorem reads_whole (bound : Nat) (keep : Nat → α) (back : α → Nat)
    (h : ∀ n ≤ bound, back (keep n) = n) :
    Reads (.whole bound) (fun v => (nat bound v).map keep) fun a => some (.integer (back a)) := by
  intro v hv
  cases v with
  | integer i =>
    have hi : 0 ≤ i ∧ i ≤ bound := by simpa [Shape.admits] using hv
    have hk := h i.toNat (by omega)
    refine ⟨keep i.toNat, by simp [nat, hi], ?_⟩
    simp only [hk, Shape.kept]
    congr 2
    omega
  | _ => simp [Shape.admits] at hv

theorem reads_nat (bound : Nat) : Reads (.whole bound) (nat bound) fun n => some (.integer n) := by
  simpa using reads_whole bound id id (fun _ _ => rfl)

theorem reads_port : Reads (.whole 65535) port fun n => some (.integer n.toNat) :=
  reads_whole 65535 Nat.toUInt16 UInt16.toNat fun n hn => by
    simp; omega

theorem reads_trials :
    Reads (.whole (Nat.pow 2 32 - 1)) (fun v => (nat (Nat.pow 2 32 - 1) v).map Nat.toUInt32)
      fun n => some (.integer n.toNat) :=
  reads_whole (Nat.pow 2 32 - 1) Nat.toUInt32 UInt32.toNat fun n hn => by
    have : Nat.pow 2 32 = 4294967296 := by decide
    simp; omega

theorem fields_bind {β γ : Type} {P : β → Prop} {x : Option γ} {a : γ} {f : γ → Option β}
    (hx : x = some a) (hf : ∃ b, f a = some b ∧ P b) : ∃ b, (x >>= f) = some b ∧ P b := by
  rwa [hx]

/-- A field that may be missing, and what is done with its value. -/
theorem given_bind {β : Type} {R : Option Toml → α → Prop} {P : β → Prop} {f : α → Option β}
    {fs : List (Text × Toml)} {name : String} {d : α} (hd : R none d)
    (hv : ∀ v, look fs name = some v → ∃ a, read v = some a ∧ R (some v) a)
    (hf : ∀ a, R (look fs name) a → ∃ b, f a = some b ∧ P b) :
    ∃ b, (given fs name d read >>= f) = some b ∧ P b := by
  cases hl : look fs name with
  | none =>
    obtain ⟨b, hb, hp⟩ := hf d (by rwa [hl])
    exact ⟨b, by simp [given, hl, hb], hp⟩
  | some v =>
    obtain ⟨a, ha, hr⟩ := hv v hl
    obtain ⟨b, hb, hp⟩ := hf a (by rwa [hl])
    exact ⟨b, by simp [given, hl, ha, hb], hp⟩

theorem given_value_bind {β : Type} {P : β → Prop} {f : α → Option β} {fs : List (Text × Toml)}
    {name : String} {d : α} (hr : Reads s read put) (h : (look fs name).all s.admits)
    (hf : ∀ a, put a = ((look fs name).map s.kept).or (put d) → ∃ b, f a = some b ∧ P b) :
    ∃ b, (given fs name d read >>= f) = some b ∧ P b := by
  refine given_bind (R := fun v a => put a = (v.map s.kept).or (put d)) (by simp) ?_ hf
  intro v hl
  obtain ⟨a, ha, hw⟩ := hr v (by simpa [hl] using h)
  exact ⟨a, ha, by simp [hw]⟩

/-- A field that has to be there, and what is done with its value. -/
theorem required_bind {β : Type} {P : β → Prop} {f : α → Option β} {fs : List (Text × Toml)}
    {name : String} (hr : Reads s read put) (h : (look fs name).all s.admits)
    (hs : (look fs name).isSome)
    (hf : ∀ a, (∀ d, put a = ((look fs name).map s.kept).or d) → ∃ b, f a = some b ∧ P b) :
    ∃ b, (required fs name read >>= f) = some b ∧ P b := by
  obtain ⟨v, hl⟩ := Option.isSome_iff_exists.1 hs
  obtain ⟨a, ha, hw⟩ := hr v (by simpa [hl] using h)
  obtain ⟨b, hb, hp⟩ := hf a (by simp [hl, hw])
  exact ⟨b, by simp [required, hl, ha, hb], hp⟩

theorem isSome_of_required {fs : List (Text × Toml)} {name : String} {a : α}
    (h : required fs name read = some a) : (look fs name).isSome := by
  obtain ⟨v, hl, -⟩ := Option.bind_eq_some_iff.1 h
  simp [hl]

end Reading

/-! Tables. -/

/-- `result` has under each key what `v` gives there, and else what `default` has. -/
def Overlays (ks : Keys) (v default : Option Toml) (result : Toml) : Prop :=
  ∀ k ∈ ks, under k.1 result = ((v.bind (under k.1)).map k.2.kept).or (default.bind (under k.1))

theorem overlays_default (ks : Keys) (d : Toml) : Overlays ks none (some d) d := by
  intro k _
  simp

theorem clientTable_overlays (v : Toml) (h : admitsTable clientKeys v) :
    ∃ t, clientTable v = some t ∧
      Overlays clientKeys (some v) (some (clientDocument {})) (clientDocument t) := by
  cases v with
  | table fs =>
    simp only [admitsTable, clientKeys, List.all_cons, List.all_nil, Bool.and_true,
      Bool.and_eq_true] at h
    obtain ⟨h1, h2, h3, h4, h5, h6, h7, h8, h9, h10, h11, h12⟩ := h
    unfold clientTable
    refine fields_bind rfl ?_
    refine given_value_bind reads_text h1 fun protocol p1 => ?_
    refine given_value_bind reads_text h2 fun host p2 => ?_
    refine given_value_bind reads_port h3 fun port p3 => ?_
    refine given_value_bind (reads_nat word) h4 fun timeout p4 => ?_
    refine given_value_bind reads_trials h5 fun trials p5 => ?_
    refine given_value_bind (reads_nat word) h6 fun delay p6 => ?_
    refine given_value_bind reads_some_text h7 fun tls p7 => ?_
    refine given_value_bind reads_some_text h8 fun ca p8 => ?_
    refine given_value_bind reads_some_text h9 fun name p9 => ?_
    refine given_value_bind reads_bool h10 fun send p10 => ?_
    refine given_value_bind reads_bool h11 fun recv p11 => ?_
    refine given_value_bind reads_bool h12 fun both p12 => ?_
    refine ⟨_, rfl, ?_⟩
    simp only [Overlays, clientKeys, List.forall_mem_cons, clientDocument, under_written_cons,
      under_written_nil, String.reduceEq, ↓reduceIte, under_table, Option.bind_some, Option.or_none]
    exact ⟨p1, p2, p3, p4, p5, p6, p7, p8, p9, p10, p11, p12, List.forall_mem_nil _⟩
  | _ => simp [admitsTable] at h

theorem serverTable_overlays (v : Toml) (h : admitsTable serverKeys v) :
    ∃ t, serverTable v = some t ∧
      Overlays serverKeys (some v) (some (serverDocument {})) (serverDocument t) := by
  cases v with
  | table fs =>
    simp only [admitsTable, serverKeys, List.all_cons, List.all_nil, Bool.and_true,
      Bool.and_eq_true] at h
    obtain ⟨h1, h2, h3, h4, h5, h6, h7⟩ := h
    unfold serverTable
    refine fields_bind rfl ?_
    refine given_value_bind reads_text h1 fun protocol p1 => ?_
    refine given_value_bind reads_text h2 fun host p2 => ?_
    refine given_value_bind reads_port h3 fun port p3 => ?_
    refine given_value_bind reads_bool h4 fun send p4 => ?_
    refine given_value_bind reads_bool h5 fun recv p5 => ?_
    refine given_value_bind (reads_nat word) h6 fun idle p6 => ?_
    refine given_value_bind reads_bool h7 fun log p7 => ?_
    refine ⟨_, rfl, ?_⟩
    simp only [Overlays, serverKeys, List.forall_mem_cons, serverDocument, under_written_cons,
      under_written_nil, String.reduceEq, ↓reduceIte, under_table, Option.bind_some, Option.or_none]
    exact ⟨p1, p2, p3, p4, p5, p6, p7, List.forall_mem_nil _⟩
  | _ => simp [admitsTable] at h

theorem loopTable_overlays (v : Toml) (d : LoopTable) (h : admitsTable loopKeys v)
    (hw : isWhole loopKeys v) :
    ∃ t, loopTable v = some t ∧
      Overlays loopKeys (some v) (some (loopDocument d)) (loopDocument t) := by
  cases v with
  | table fs =>
    simp only [admitsTable, isWhole, loopKeys, under_table, List.all_cons, List.all_nil, Bool.and_true,
      Bool.and_eq_true] at h hw
    obtain ⟨h1, h2, h3, h4, h5⟩ := h
    obtain ⟨w1, w2, w3, w4, w5⟩ := hw
    unfold loopTable
    refine fields_bind rfl ?_
    refine required_bind reads_text h1 w1 fun message p1 => ?_
    refine required_bind (reads_nat word) h2 w2 fun size p2 => ?_
    refine required_bind reads_number h3 w3 fun send p3 => ?_
    refine required_bind reads_number h4 w4 fun recv p4 => ?_
    refine required_bind reads_number h5 w5 fun both p5 => ?_
    refine ⟨_, rfl, ?_⟩
    simp only [Overlays, loopKeys, List.forall_mem_cons, loopDocument, under_written_cons,
      under_written_nil, String.reduceEq, ↓reduceIte, under_table, Option.bind_some, Option.or_none]
    exact ⟨p1 _, p2 _, p3 _, p4 _, p5 _, List.forall_mem_nil _⟩
  | _ => simp [admitsTable] at h

theorem isWhole_of_loopTable (fs : List (Text × Toml)) (t : LoopTable)
    (h : loopTable (.table fs) = some t) : isWhole loopKeys (.table fs) := by
  simp only [loopTable, fieldsOf, Option.bind_eq_bind, Option.bind_some,
    Option.bind_eq_some_iff] at h
  obtain ⟨_, h1, _, h2, _, h3, _, h4, _, h5, -⟩ := h
  simp [isWhole, loopKeys, isSome_of_required h1, isSome_of_required h2, isSome_of_required h3,
    isSome_of_required h4, isSome_of_required h5]

abbrev LoopsOverlay (d : LoopTable) (v : Option Toml) (t : LoopTable) : Prop :=
  Overlays loopKeys v (some (loopDocument d)) (loopDocument t)

theorem loopTables_overlays (v : Toml) (h : admitsLoops v)
    (hc : (under "client" v).all (isWhole loopKeys))
    (hs : (under "server" v).all (isWhole loopKeys)) :
    ∃ p, loopTables v = some p ∧
      LoopsOverlay .client (under "client" v) p.1 ∧ LoopsOverlay .server (under "server" v) p.2 := by
  cases v with
  | table fs =>
    simp only [admitsLoops, Bool.and_eq_true] at h
    simp only [under_table] at hc hs ⊢
    unfold loopTables
    refine fields_bind rfl ?_
    refine given_bind (R := LoopsOverlay .client) (overlays_default _ _) ?_ fun client p1 => ?_
    · intro v hv
      exact loopTable_overlays v .client (by simpa [hv] using h.1) (by simpa [hv] using hc)
    refine given_bind (R := LoopsOverlay .server) (overlays_default _ _) ?_ fun server p2 => ?_
    · intro v hv
      exact loopTable_overlays v .server (by simpa [hv] using h.2) (by simpa [hv] using hs)
    exact ⟨_, rfl, p1, p2⟩
  | _ => simp [admitsLoops] at h

/-- A loops table that can be read gives the loops of both roles whole, or leaves them out. -/
theorem isWhole_of_loopTables (v : Toml) (p : LoopTable × LoopTable) (h : admitsLoops v)
    (hp : loopTables v = some p) :
    (under "client" v).all (isWhole loopKeys) ∧ (under "server" v).all (isWhole loopKeys) := by
  have whole (fs : List (Text × Toml)) (name : String) (d t : LoopTable)
      (ha : (look fs name).all (admitsTable loopKeys))
      (hg : given fs name d loopTable = some t) : (look fs name).all (isWhole loopKeys) := by
    cases hl : look fs name with
    | none => simp
    | some v =>
      cases v with
      | table gs => exact isWhole_of_loopTable gs t (by simpa [given, hl] using hg)
      | _ => simp [hl, admitsTable] at ha
  cases v with
  | table fs =>
    simp only [admitsLoops, Bool.and_eq_true] at h
    simp only [loopTables, fieldsOf, Option.bind_eq_bind, Option.bind_some,
      Option.bind_eq_some_iff] at hp
    obtain ⟨client, h1, server, h2, -⟩ := hp
    exact ⟨whole fs _ _ client h.1 h1, whole fs _ _ server h.2 h2⟩
  | _ => simp [admitsLoops] at h

/-! Whole files. -/

theorem find_concat (path : List String) (k : String) (v : Toml) :
    find (path ++ [k]) v = (find path v).bind (under k) := by
  induction path generalizing v with
  | nil => simp [find]
  | cons q qs ih =>
    cases h : under q v with
    | none => simp [find, h]
    | some w => simpa [find, h] using ih w

theorem find_loops (fs : List (Text × Toml)) (role : String) :
    find ["loops", role] (.table fs) = (look fs "loops").bind (under role) := by
  cases h : look fs "loops" <;> simp [find, h]

theorem ofFields_eq_none (fs : List (Text × Toml)) (hw : wellTyped fs) (hl : ¬loopsWhole fs) :
    ofFields fs = none := by
  simp only [wellTyped, Bool.and_eq_true] at hw
  rw [Option.eq_none_iff_forall_ne_some]
  intro c hc
  simp only [ofFields, Option.bind_eq_bind, Option.bind_eq_some_iff] at hc
  obtain ⟨_, -, _, -, p, hp, -⟩ := hc
  apply hl
  simp only [loopsWhole, find_loops, Bool.and_eq_true]
  cases hv : look fs "loops" with
  | none => simp
  | some v => exact isWhole_of_loopTables v p (by simpa [hv] using hw.2) (by simpa [given, hv] using hp)

abbrev BothOverlay (v : Option Toml) (p : LoopTable × LoopTable) : Prop :=
  LoopsOverlay .client (v.bind (under "client")) p.1 ∧
    LoopsOverlay .server (v.bind (under "server")) p.2

theorem ofFields_overlays (fs : List (Text × Toml)) (hw : wellTyped fs) (hl : loopsWhole fs) :
    ∃ c, ofFields fs = some c ∧ ∀ p ∈ tables, ∀ k ∈ p.2,
      find (p.1 ++ [k.1]) c.document =
        ((find (p.1 ++ [k.1]) (.table fs)).map k.2.kept).or
          (find (p.1 ++ [k.1]) (document {})) := by
  simp only [wellTyped, Bool.and_eq_true] at hw
  simp only [loopsWhole, find_loops, Bool.and_eq_true] at hl
  obtain ⟨⟨hc, hs⟩, hb⟩ := hw
  unfold ofFields
  refine given_bind (R := fun v t => Overlays clientKeys v (some (clientDocument {})) (clientDocument t))
    (overlays_default _ _) ?_ fun client p1 => ?_
  · intro v hv
    exact clientTable_overlays v (by simpa [hv] using hc)
  refine given_bind (R := fun v t => Overlays serverKeys v (some (serverDocument {})) (serverDocument t))
    (overlays_default _ _) ?_ fun server p2 => ?_
  · intro v hv
    exact serverTable_overlays v (by simpa [hv] using hs)
  refine given_bind (R := BothOverlay) ⟨overlays_default _ _, overlays_default _ _⟩ ?_
    fun loops p3 => ?_
  · intro v hv
    exact loopTables_overlays v (by simpa [hv] using hb) (by simpa [hv] using hl.1)
      (by simpa [hv] using hl.2)
  refine ⟨_, rfl, ?_⟩
  simp only [tables, List.forall_mem_cons, find_concat, find, document, under_written_cons,
    under_written_nil, String.reduceEq, ↓reduceIte, under_table, Option.bind_some, Option.bind_fun_some,
    Option.or_none]
  exact ⟨p1, p2, p3.1, p3.2, List.forall_mem_nil _⟩

/-- Any keys of the roles may be left out, and tables of loops. What is given is kept, what is not has
its default. Only where a table of loops is there in part the file is refused. -/
theorem loads_unless_loops_partial (e : Entry) (t : Text) (fs : List (Text × Toml))
    (ht : e.readText = .ok t) (hr : Toml.read? t = some fs) (hw : wellTyped fs) :
    (loopsWhole fs → ∃ c, ofFile e = .ok c ∧ ∀ p ∈ tables, ∀ k ∈ p.2,
      find (p.1 ++ [k.1]) c.document =
        ((find (p.1 ++ [k.1]) (.table fs)).map k.2.kept).or
          (find (p.1 ++ [k.1]) (document {}))) ∧
    (¬loopsWhole fs → ofFile e = .error (.config "Failed to parse config: ".toList)) := by
  constructor
  · intro hl
    obtain ⟨c, hc, ho⟩ := ofFields_overlays fs hw hl
    exact ⟨c, by simp [ofFile, ht, ofText, hr, hc], ho⟩
  · intro hl
    have hc := ofFields_eq_none fs hw hl
    simp [ofFile, ht, ofText, hr, hc]

def sparseText : Text :=
  ("[client]\nport = 5070\n\n[loops.server]\nmessage = \"Hi\"\nbuffersize = 64\n" ++
    "period_send_secs = 1\nperiod_recv_secs = 2\nperiod_sendrecv_secs = 3\n").toList

theorem loads_unless_loops_partial_sparse :
    ∃ fs, (Entry.file (Utf8.encode sparseText)).readText = .ok sparseText ∧
      Toml.read? sparseText = some fs ∧ wellTyped fs ∧ loopsWhole fs ∧
      ∃ c, ofFile (.file (Utf8.encode sparseText)) = .ok c ∧ ∀ p ∈ tables, ∀ k ∈ p.2,
        find (p.1 ++ [k.1]) c.document =
          ((find (p.1 ++ [k.1]) (.table fs)).map k.2.kept).or
            (find (p.1 ++ [k.1]) (document {})) := by
  have hs : (Toml.read? sparseText).any fun fs => wellTyped fs && loopsWhole fs := by
    decide +kernel
  obtain ⟨fs, hr, hf⟩ := (Option.any_eq_true _ _).1 hs
  obtain ⟨hw, hl⟩ := Bool.and_eq_true_iff.1 hf
  have ht : (Entry.file (Utf8.encode sparseText)).readText = .ok sparseText := by
    rw [Entry.readText, Entry.read]
    simp only [bind, Except.bind, Utf8.decode_encode]
  exact ⟨fs, ht, hr, hw, hl, (loads_unless_loops_partial _ sparseText fs ht hr hw).1 hl⟩

def partialText : Text :=
  ("[loops.client]\nmessage = \"OPTIONS sip:10.0.0.5 SIP/2.0\"\n" ++
    "period_sendrecv_secs = 1.5\n").toList

theorem partial_loops_refused :
    ∃ fs, Toml.read? partialText = some fs ∧ wellTyped fs ∧
      ofText partialText = .error (.config "Failed to parse config: ".toList) := by
  have hs : (Toml.read? partialText).any fun fs => wellTyped fs && !loopsWhole fs := by
    decide +kernel
  obtain ⟨fs, hr, hf⟩ := (Option.any_eq_true _ _).1 hs
  obtain ⟨hw, hl⟩ := Bool.and_eq_true_iff.1 hf
  have hn := ofFields_eq_none fs hw (by simpa using hl)
  exact ⟨fs, hr, hw, by simp [ofText, hr, hn]⟩

end Switchboard.Config
