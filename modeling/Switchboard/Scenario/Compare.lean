import Switchboard.Scenario.Template

/-! What of a template a message does not meet. Headers may come in any order and with others
between them, names in any letter case; bodies are compared line by line. -/
namespace Switchboard

inductive Mismatch where
  | kind (expected got : Kind)
  | word (field expected got : Text)
  | headerMissing (name : Text)
  | headerValue (name value : Text)
  | content (expected got : Text)
  deriving DecidableEq, Repr

namespace Mismatch

def message : Mismatch → Text
  | kind e g => "kind: expected ".toList ++ e.name ++ ", got ".toList ++ g.name
  | word f e g => f ++ ": expected ".toList ++ e ++ ", got ".toList ++ g
  | headerMissing n => "header ".toList ++ n ++ ": missing".toList
  | headerValue n v => "header ".toList ++ n ++ ": no value equal to ".toList ++ Text.quoted v
  | content e g =>
    "content: expected ".toList ++ Text.quoted e ++ ", got ".toList ++ Text.quoted g

end Mismatch

namespace Template

def wordMismatch (field : String) (expected got : Text) : List Mismatch :=
  if expected = got then [] else [.word field.toList expected got]

def headerMismatch (m : Message) (h : Header) : List Mismatch :=
  match m.valuesOf h.name with
  | [] => [.headerMissing h.name]
  | vs => if h.value ∈ vs then [] else [.headerValue h.name h.value]

def contentMismatch (content body : Text) : List Mismatch :=
  if content = [] ∨ Text.lines content = Text.lines body then [] else [.content content body]

def restMismatches (t : Template) (m : Message) : List Mismatch :=
  t.headers.flatMap (headerMismatch m) ++ contentMismatch t.content m.body

def mismatches (t : Template) (m : Message) : List Mismatch :=
  match t.start, m.start with
  | .request a b c, .request a' b' c' =>
    wordMismatch "method" a a' ++ wordMismatch "uri" b b' ++ wordMismatch "version" c c' ++
      restMismatches t m
  | .response a b c, .response a' b' c' =>
    wordMismatch "version" a a' ++
      (if b = b' then [] else
        [.word "code".toList (Text.decimal b.toNat) (Text.decimal b'.toNat)]) ++
      wordMismatch "reason" c c' ++ restMismatches t m
  | _, _ => [.kind t.kind m.kind]

end Template
end Switchboard
