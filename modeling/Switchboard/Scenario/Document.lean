import Switchboard.Files
import Switchboard.Json.Reader
import Switchboard.Scenario.Basic
import Switchboard.Toml.Reader

/-! Scenarios as documents: JSON, TOML, or a file whose name tells which. -/
namespace Switchboard.Scenario

def ofJsonText (t : Text) : Except Error Scenario :=
  match (Json.read? t).filter (·.isPlain 0) with
  | some j => ofJson j
  | none => .error (.config "invalid json content: ".toList)

def ofTomlText (t : Text) : Except Error Scenario :=
  match Toml.read? t with
  | some fs => ofJson (Toml.table fs).toJson
  | none => .error (.config "TOML parse error".toList)

def ofFile (path : Text) (e : Entry) : Except Error Scenario :=
  if !e.isFile then .error (.config ("scenario path is not a file: ".toList ++ path))
  else match e.readText with
    | .error why =>
      .error (.config ("unable to read ".toList ++ path ++ ':' :: ' ' :: why))
    | .ok t =>
      if (extension? path).any (Text.sameLetters "toml".toList) then ofTomlText t
      else ofJsonText t

end Switchboard.Scenario
