import Switchboard.Files
import Switchboard.Text.Quoted
import Switchboard.Tls.Selector

/-! The certificates of a file to trust. Sections stand between marked lines; between them anything
may stand, inside them base64. -/
namespace Switchboard.Tls

def markedLines : Bytes → List Bytes
  | [] => []
  | b :: r =>
    if b = 10 ∨ b = 13 then [b] :: markedLines r
    else match markedLines r with
      | [] => [[b]]
      | l :: ls => (b :: l) :: ls

def isLineTail (b : UInt8) : Bool := b = 10 || b = 13 || b = 32

def bare (l : Bytes) : Bytes := (l.reverse.dropWhile isLineTail).reverse

def dash : UInt8 := 45

def startMark : Bytes := Utf8.encode "-----BEGIN ".toList

def behindDashes : Nat → Bytes → Bytes
  | 0, r => r
  | _, [] => []
  | n + 1, b :: r => if b = dash then behindDashes n r else behindDashes (n + 1) r

/-- The title of a section, from the line that starts it. Just five dashes follow it, perhaps with
blanks between them. -/
def sectionTitle? (l : Bytes) : Option Bytes :=
  let dashes := ((l.reverse.filter (!isLineTail ·)).takeWhile (· = dash)).length
  if dashes = 5 then some ((behindDashes 5 l.reverse).reverse.drop startMark.length) else none

def endMark (title : Bytes) : Bytes :=
  Utf8.encode "-----END ".toList ++ title ++ List.replicate 5 dash

def isSymbol (b : UInt8) : Bool :=
  (65 ≤ b && b ≤ 90) || (97 ≤ b && b ≤ 122) || (48 ≤ b && b ≤ 57) || b = 43 || b = 47

def symbolValue (b : UInt8) : Nat :=
  if 97 ≤ b then b.toNat - 71
  else if 65 ≤ b then b.toNat - 65
  else if b = 43 then 62
  else if b = 47 then 63
  else b.toNat + 4

/-- Symbols, then no more padding than fills up a group of four. The bits that fill no byte are
zero. -/
def isBase64 (t : Bytes) : Bool :=
  let symbols := t.takeWhile isSymbol
  let padding := t.drop symbols.length
  let last := symbolValue (symbols.getLast?.getD 65)
  padding.all (· = 61) &&
    match symbols.length % 4 with
    | 0 => padding.isEmpty
    | 2 => padding.length ≤ 2 && last % 16 = 0
    | 3 => padding.length ≤ 1 && last % 4 = 0
    | _ => false

def certificateTitle : Bytes := Utf8.encode "CERTIFICATE".toList

def countCertificates : Option Bytes → Bytes → List Bytes → Option Nat
  | none, _, [] => some 0
  | some _, _, [] => none
  | open?, text, l :: ls =>
    if startMark.isPrefixOf l then
      match sectionTitle? l with
      | some title => countCertificates (some title) text ls
      | none => none
    else match open? with
      | none => countCertificates none text ls
      | some title =>
        if (endMark title).isPrefixOf l then
          if isBase64 text then
            if title = certificateTitle then (countCertificates none [] ls).map (· + 1)
            else countCertificates none [] ls
          else none
        else countCertificates (some title) (text ++ bare l) ls

/-- Whether the trust that the settings ask for can be set up. Certificates themselves are not looked
into here: the first is taken to be malformed. -/
def Settings.checkRoots (s : Settings) (files : Files) : Except Error Unit :=
  match s.caFile with
  | none => .ok ()
  | some path =>
    match (files path).read with
    | .error why =>
      .error (.config ("Failed to read CA file ".toList ++ Text.quoted path ++ ':' :: ' ' :: why))
    | .ok b =>
      match countCertificates none [] (markedLines b) with
      | none => .error (.config "Failed to parse CA PEM: ".toList)
      | some 0 => .error (.config "No certificates found in CA file".toList)
      | some _ =>
        .error (.tls "invalid CA certificate: invalid peer certificate: BadEncoding".toList)

end Switchboard.Tls
