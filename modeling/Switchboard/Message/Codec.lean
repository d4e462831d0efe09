import Switchboard.Message.Basic

/-! The wire form of a message and its reader. The reader takes more than the writer gives: blank
lines in front, any blanks between the three words, line feeds without carriage returns, lines
without a colon among the headers. `WellFormed` says which messages the wire carries unchanged. -/
namespace Switchboard.Message

def encode (m : Message) : Text :=
  let (a, b, c) := m.start.tokens
  a ++ ' ' :: (b ++ ' ' :: (c ++ '\r' :: '\n' ::
    ((m.headers.flatMap fun h => h.line ++ ['\r', '\n']) ++ '\r' :: '\n' :: (m.body ++ ['\r', '\n']))))

def isBlankLine (l : Text) : Bool := l.all Text.isBlank

def ofLines (start : StartLine) (ls : List Text) : Message where
  start := start
  headers := (ls.takeWhile (!isBlankLine ·)).filterMap Header.ofLine?
  body := Text.unlines ((ls.dropWhile (!isBlankLine ·)).drop 1)

def decode (t : Text) : Option Message :=
  match (Text.lines t).dropWhile isBlankLine with
  | [] => none
  | intro :: ls =>
    match Text.words intro with
    | [a, b, c] => some (ofLines (.ofTokens a b c) ls)
    | _ => none

def introLine (t : Text) : Text := ((Text.lines t).find? (!isBlankLine ·)).getD []

def parse (t : Text) : Except Error Message :=
  match decode t with
  | some m => .ok m
  | none => .error (.decode (.intro (introLine t)))

def decodeBytes (b : Bytes) : Except Error Message :=
  match Utf8.decode b with
  | .ok t => parse t
  | .error f => .error (.decode (.notUtf8 f))

def encodeBytes (m : Message) : Bytes := Utf8.encode m.encode

def IsToken (t : Text) : Prop := t ≠ [] ∧ ∀ c ∈ t, Text.isBlank c = false

instance (t : Text) : Decidable (IsToken t) := inferInstanceAs (Decidable (_ ∧ _))

def StartWellFormed : StartLine → Prop
  | .request m u v =>
    IsToken m ∧ IsToken u ∧ IsToken v ∧ ¬('/' ∈ m ∧ (StartLine.code? u).isSome)
  | .response v _ r => IsToken v ∧ IsToken r ∧ '/' ∈ v

instance : (s : StartLine) → Decidable (StartWellFormed s)
  | .request .. => inferInstanceAs (Decidable (_ ∧ _))
  | .response .. => inferInstanceAs (Decidable (_ ∧ _))

def HeaderWellFormed (h : Header) : Prop :=
  Text.trim h.name = h.name ∧ Text.trim h.value = h.value ∧
    '\n' ∉ h.name ∧ '\n' ∉ h.value ∧ ':' ∉ h.name

instance (h : Header) : Decidable (HeaderWellFormed h) := inferInstanceAs (Decidable (_ ∧ _))

def returnsBeforeFeeds : Text → Bool
  | [] => true
  | '\n' :: _ => false
  | '\r' :: '\n' :: r => returnsBeforeFeeds r
  | _ :: r => returnsBeforeFeeds r

def WellFormed (m : Message) : Prop :=
  StartWellFormed m.start ∧ (∀ h ∈ m.headers, HeaderWellFormed h) ∧ returnsBeforeFeeds m.body

instance (m : Message) : Decidable m.WellFormed := inferInstanceAs (Decidable (_ ∧ _))

end Switchboard.Message
