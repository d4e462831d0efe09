import Switchboard.Text.Decimal

/-! Words of a command line, read from left to right into a value. A word that starts with a dash is an
option or a cluster of short ones, unless it is a lone dash; two dashes end all options. An option
that takes a value has it behind an equals sign, behind its letter, or in the next word, which then
is no option. No option may be given twice. The first word in the wrong place ends the reading, and so
does a request for help or the version. -/
namespace Switchboard.Cli

inductive Halt where
  | help | version | usage
  deriving DecidableEq, Repr

inductive Effect (σ : Type) where
  | halt (h : Halt)
  | switch (set : σ → σ)
  | value (set : Text → σ → Option σ)

structure Opt (σ : Type) where
  long : String
  short : Option Char
  effect : Effect σ

def Opt.lift {σ τ : Type} (get : τ → σ) (put : σ → τ → τ) (o : Opt σ) : Opt τ where
  long := o.long
  short := o.short
  effect := match o.effect with
    | .halt h => .halt h
    | .switch f => .switch fun t => put (f (get t)) t
    | .value f => .value fun v t => (f v (get t)).map fun s => put s t

inductive Word where
  | operand
  | border
  | long (name : Text) (value : Option Text)
  | short (letters : Text)
  deriving DecidableEq, Repr

def Word.of : Text → Word
  | ['-', '-'] => .border
  | '-' :: '-' :: r =>
    match Text.splitAt? '=' r with
    | some (name, value) => .long name (some value)
    | none => .long r none
  | '-' :: c :: r => .short (c :: r)
  | _ => .operand

structure Scan (σ : Type) where
  value : σ
  seen : List String := []
  operands : List (Text → σ → Option σ)

structure Waiting (σ : Type) where
  opt : Opt σ
  set : Text → σ → Option σ

inductive Ending (σ : Type) where
  | done (value : σ)
  | extra (word : Text) (rest : List Text) (value : σ)
  | halted (h : Halt)

namespace Scan
variable {σ : Type}

def apply (o : Opt σ) (f : σ → Option σ) (s : Scan σ) : Except Halt (Scan σ) :=
  if o.long ∈ s.seen then .error .usage
  else match f s.value with
    | some v => .ok { s with value := v, seen := o.long :: s.seen }
    | none => .error .usage

def long (opts : List (Opt σ)) (name : Text) (value : Option Text) (s : Scan σ) :
    Except Halt (Scan σ × Option (Waiting σ)) :=
  match opts.find? (·.long.toList = name) with
  | none => .error .usage
  | some o => match o.effect, value with
    | .halt h, none => .error h
    | .switch f, none => (s.apply o fun v => some (f v)).map (·, none)
    | .value f, none => .ok (s, some ⟨o, f⟩)
    | .value f, some t => (s.apply o (f t)).map (·, none)
    | _, some _ => .error .usage

def short (opts : List (Opt σ)) : Text → Scan σ → Except Halt (Scan σ × Option (Waiting σ))
  | [], s => .ok (s, none)
  | c :: r, s =>
    match opts.find? (·.short = some c) with
    | none => .error .usage
    | some o => match o.effect with
      | .halt h => .error h
      | .switch f => (s.apply o fun v => some (f v)).bind (short opts r)
      | .value f => match r with
        | [] => .ok (s, some ⟨o, f⟩)
        | '=' :: t => (s.apply o (f t)).map (·, none)
        | t => (s.apply o (f t)).map (·, none)

def operand (w : Text) (s : Scan σ) : Option (Except Halt (Scan σ)) :=
  match s.operands with
  | [] => none
  | f :: fs => some (match f w s.value with
    | some v => .ok { s with value := v, operands := fs }
    | none => .error .usage)

def behindBorder : List Text → Scan σ → Ending σ
  | [], s => .done s.value
  | w :: ws, s => match s.operand w with
    | some (.ok s) => behindBorder ws s
    | some (.error h) => .halted h
    | none => .halted .usage

def read (opts : List (Opt σ)) : List Text → Scan σ → Ending σ
  | [], s => .done s.value
  | w :: ws, s =>
    let goOn (r : Except Halt (Scan σ × Option (Waiting σ))) : Ending σ :=
      match r, ws with
      | .error h, _ => .halted h
      | .ok (s, none), ws => read opts ws s
      | .ok (s, some x), v :: ws =>
        if Word.of v = .operand then
          match s.apply x.opt (x.set v) with
          | .ok s => read opts ws s
          | .error h => .halted h
        else .halted .usage
      | .ok (_, some _), [] => .halted .usage
    match Word.of w with
    | .border => behindBorder ws s
    | .long name value => goOn (s.long opts name value)
    | .short letters => goOn (s.short opts letters)
    | .operand => match s.operand w with
      | some (.ok s) => read opts ws s
      | some (.error h) => .halted h
      | none => .extra w ws s.value

end Scan

/-! What options and operands do with a value. -/

variable {σ α : Type}

def anyText (set : Text → σ → σ) (t : Text) (s : σ) : Option σ := some (set t s)

def path (set : Text → σ → σ) (t : Text) (s : σ) : Option σ :=
  if t = [] then none else some (set t s)

def number (read : Text → Option α) (set : α → σ → σ) (t : Text) (s : σ) : Option σ :=
  (read t).map (set · s)

/-- A number in a range that small is read with its sign, so that zero may have a minus. -/
def readSmall? (bound : Nat) : Text → Option Nat
  | '-' :: r => (Text.readDecimal? r).filter (· = 0)
  | t => Text.readNat? bound t

end Switchboard.Cli
