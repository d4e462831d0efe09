import Switchboard.Message.Basic
import Switchboard.Json.Reader

/-! Messages as JSON. A record may also stand as the list of its fields in their order; unknown
fields are skipped, a field that is missing, doubled or of another type is refused. -/
namespace Switchboard

namespace StartLine

def toJson : StartLine → Json
  | request m u v =>
    .obj [("type".toList, .str "request".toList), ("method".toList, .str m), ("uri".toList, .str u),
      ("version".toList, .str v)]
  | response v c r =>
    .obj [("type".toList, .str "response".toList), ("version".toList, .str v),
      ("code".toList, .nat c.toNat), ("reason".toList, .str r)]

end StartLine

def Header.toJson (h : Header) : Json :=
  .obj [("name".toList, .str h.name), ("value".toList, .str h.value)]

def Message.toJson (m : Message) : Json :=
  .obj [("start".toList, m.start.toJson), ("headers".toList, .arr (m.headers.map Header.toJson)),
    ("body".toList, .str m.body)]

namespace Json

def sole? (name : Text) (fs : List (Text × Json)) : Option Json :=
  match fs.filter (·.1 = name) with
  | [(_, x)] => some x
  | _ => none

def text? : Json → Option Text
  | str t => some t
  | _ => none

def code? : Json → Option UInt16
  | num (.natural n) => if n < 65536 then some n.toUInt16 else none
  | _ => none

/-- The values of the named fields: of an object by name, of a list by place. -/
def parts? (names : List Text) : Json → Option (List Json)
  | obj fs => names.mapM (sole? · fs)
  | arr xs => if xs.length = names.length then some xs else none
  | _ => none

end Json

def StartLine.ofTagged? (tag : Text) (rest : Json) : Option StartLine := do
  if tag = "request".toList then
    match ← rest.parts? ["method".toList, "uri".toList, "version".toList] with
    | [m, u, v] => some (.request (← m.text?) (← u.text?) (← v.text?))
    | _ => none
  else if tag = "response".toList then
    match ← rest.parts? ["version".toList, "code".toList, "reason".toList] with
    | [v, c, r] => some (.response (← v.text?) (← c.code?) (← r.text?))
    | _ => none
  else none

/-- The type is told by the field `type`, wherever it stands, or by the first item of a list. All
of a start line is looked at, known or not. -/
def StartLine.ofJson? (j : Json) : Option StartLine := do
  if !j.isPlain 1 then none
  else match j with
    | .obj fs => do
      let tag ← (← Json.sole? "type".toList fs).text?
      ofTagged? tag (.obj fs)
    | .arr (tag :: xs) => do ofTagged? (← tag.text?) (.arr xs)
    | _ => none

def Header.ofJson? (j : Json) : Option Header := do
  match ← j.parts? ["name".toList, "value".toList] with
  | [n, v] => some ⟨← n.text?, ← v.text?⟩
  | _ => none

def Message.ofJson? (j : Json) : Option Message := do
  match ← j.parts? ["start".toList, "headers".toList, "body".toList] with
  | [s, .arr hs, b] => some ⟨← StartLine.ofJson? s, ← hs.mapM Header.ofJson?, ← b.text?⟩
  | _ => none

def Message.readJson? (t : Text) : Option Message := (Json.read? t).bind Message.ofJson?

end Switchboard
