import Switchboard.Message.Codec
import Switchboard.Message.Describe

/-! A scripted step: a template, and whether it is sent or expected. -/
namespace Switchboard

inductive Action where
  | send | recv
  deriving DecidableEq, Repr

namespace Action

def name : Action → Text
  | send => "send".toList
  | recv => "recv".toList

def parse (t : Text) : Except Error Action :=
  if t = "send".toList then .ok send
  else if t = "recv".toList then .ok recv
  else .error (.protocolMismatch ("unknown action: ".toList ++ t))

end Action

structure Template where
  start : StartLine
  headers : List Header
  /-- Empty when any body will do. -/
  content : Text
  deriving DecidableEq, Repr

namespace Template

def kind (t : Template) : Kind := t.start.kind

def build (t : Template) : Message := ⟨t.start, t.headers, t.content⟩

def ofMessage (m : Message) : Template := ⟨m.start, m.headers, m.body⟩

end Template

structure Step where
  action : Action
  template : Template
  deriving DecidableEq, Repr

def dashed (title : String) (value : Text) : Text := titled "---".toList title.toList value

def Step.describe (s : Step) : Text :=
  let common (version : Text) := dashed "version" version ++ dashed "action" s.action.name
  "### ".toList ++ s.template.kind.small ++ " MESSAGE ###\n".toList ++
    (match s.template.start with
      | .request method uri version =>
        common version ++ dashed "method" method ++ dashed "uri" uri
      | .response version code reason =>
        common version ++ dashed "code" (Text.decimal code.toNat) ++ dashed "reason" reason) ++
    (s.template.headers.flatMap fun h => titled "$$$".toList h.name h.value) ++
    dashed "content" s.template.content ++ "###\n".toList

end Switchboard
