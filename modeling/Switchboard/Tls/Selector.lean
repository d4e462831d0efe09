import Switchboard.Error

/-! Which protocol versions a connection may use, and in which order they are tried. -/
namespace Switchboard.Tls

inductive Version where
  | v12 | v13
  deriving DecidableEq, Repr

def Version.name : Version → Text
  | .v12 => "tlsv12".toList
  | .v13 => "tlsv13".toList

def Version.preference : List Version := [.v13, .v12]

inductive Selector where
  | only (version : Version)
  | all
  deriving DecidableEq, Repr

namespace Selector

def candidates : Selector → List Version
  | only v => [v]
  | all => Version.preference

def parse (t : Text) : Except Error Selector :=
  let isNamed (names : List String) : Bool := names.any (·.toList = Text.lower t)
  if isNamed ["tlsv12", "tls12", "1.2"] then .ok (.only .v12)
  else if isNamed ["tlsv13", "tls13", "1.3"] then .ok (.only .v13)
  else if isNamed ["all"] then .ok .all
  else .error (.config ("invalid ssl version: ".toList ++ t))

end Selector

structure Settings where
  selector : Selector
  /-- Certificates to trust; without them any certificate will do. -/
  caFile : Option Text
  /-- Shown instead of the host. -/
  serverName : Option Text
  deriving DecidableEq, Repr

end Switchboard.Tls
