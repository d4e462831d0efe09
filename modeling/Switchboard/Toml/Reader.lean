import Switchboard.Toml.Scalar

/-! The reader of TOML text: lines first, then the tables they build. -/
namespace Switchboard.Toml

/-- Containers in each other, and names joined by dots, stay below this number. -/
def nestingLimit : Nat := 80

def isBareKey (c : Char) : Bool :=
  ('a' ≤ c && c ≤ 'z') || ('A' ≤ c && c ≤ 'Z') || isDecimal c || c = '-' || c = '_'

def simpleKey (t : Text) : Option (Text × Text) :=
  match t with
  | '"' :: r => basicString r
  | '\'' :: r => literalString r
  | t =>
    match t.takeWhile isBareKey with
    | [] => none
    | k => some (k, t.dropWhile isBareKey)

def keyPath : Nat → Text → Option (List Text × Text)
  | 0, _ => none
  | n + 1, t => do
    let (k, r) ← simpleKey (skipTabs t)
    match skipTabs r with
    | '.' :: r => (keyPath n r).map fun p => (k :: p.1, p.2)
    | r => some ([k], r)

def key (t : Text) : Option ((List Text × Text) × Text) := do
  let (ks, r) ← keyPath (nestingLimit - 1) t
  match ks.reverse with
  | [] => none
  | k :: before => some ((before.reverse, k), r)

def skipComment (t : Text) : Text :=
  match t with
  | '#' :: r => r.dropWhile isPlainChar
  | t => t

def skipGaps : Nat → Text → Text
  | 0, t => t
  | n + 1, t =>
    let t := skipComment (skipTabs t)
    match newline? t with
    | some r => skipGaps n r
    | none => t

def gaps (t : Text) : Text := skipGaps (t.length + 1) t

mutual
/-- `room` is how many containers may still be opened. -/
def value : Nat → Nat → Text → Option (Toml × Text)
  | 0, _, _ => none
  | n + 1, room, t =>
    match t with
    | '[' :: r =>
      match room with
      | 0 => none
      | room + 1 => (items n room (gaps r)).map fun p => (.list p.1, p.2)
    | '{' :: r =>
      match room with
      | 0 => none
      | room + 1 =>
        match skipTabs r with
        | '}' :: r => some (.table [], r)
        | r => do
          let (es, r) ← entries n room r
          let ns ← es.foldlM (fun ns e => Nodes.insert e.1.1 e.1.2 e.2 .plain ns) []
          some (.table (Node.fieldValues ns), r)
    | t => scalar t
def items : Nat → Nat → Text → Option (List Toml × Text)
  | 0, _, _ => none
  | n + 1, room, t =>
    match t with
    | ']' :: r => some ([], r)
    | t => do
      let (v, r) ← value n room t
      match gaps r with
      | ',' :: r => (items n room (gaps r)).map fun p => (v :: p.1, p.2)
      | ']' :: r => some ([v], r)
      | _ => none
def entries : Nat → Nat → Text → Option (List ((List Text × Text) × Toml) × Text)
  | 0, _, _ => none
  | n + 1, room, t => do
    let (k, r) ← key t
    let r ← mark '=' r
    let (v, r) ← value n room (skipTabs r)
    match skipTabs r with
    | ',' :: r => (entries n room r).map fun p => ((k, v) :: p.1, p.2)
    | '}' :: r => some ([(k, v)], r)
    | _ => none
end

def lineEnd (t : Text) : Option Text :=
  match skipComment (skipTabs t) with
  | [] => some []
  | t => newline? t

def line (t : Text) : Option (Option Line × Text) :=
  match skipTabs t with
  | '[' :: '[' :: r => do
    let (k, r) ← key r
    let r ← (mark ']' r).bind (mark ']')
    some (some (.row k.1 k.2), ← lineEnd r)
  | '[' :: r => do
    let (k, r) ← key r
    let r ← mark ']' r
    some (some (.table k.1 k.2), ← lineEnd r)
  | r =>
    match lineEnd r with
    | some r => some (none, r)
    | none => do
      let (k, r) ← key r
      let r ← mark '=' r
      let (v, r) ← value (2 * r.length + 2) (nestingLimit - 1) (skipTabs r)
      some (some (.entry k.1 k.2 v), ← lineEnd r)

def lineList : Nat → Text → Option (List Line)
  | 0, _ => none
  | n + 1, t =>
    match t with
    | [] => some []
    | t => do
      let (l, r) ← line t
      let ls ← lineList n r
      some (l.toList ++ ls)

def read? (t : Text) : Option (List (Text × Toml)) := do
  let t := match t with
    | '\ufeff' :: r => r
    | t => t
  let ls ← lineList (t.length + 1) t
  let ns ← build [] ls []
  some (Node.fieldValues ns)

end Switchboard.Toml
