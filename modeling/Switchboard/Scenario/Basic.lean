import Switchboard.Scenario.Field
import Switchboard.Scenario.Template
import Switchboard.Transport.Basic

/-! Scenarios: an agent and its steps. A document is checked field by field in a fixed order and
refused at the first fault. -/
namespace Switchboard

inductive Role where
  | client (ip : Text) (timeout : Nat)
  | server
  deriving DecidableEq, Repr

def Role.name : Role → Text
  | .client .. => "client".toList
  | .server => "server".toList

structure Agent where
  transport : Transport
  port : Nat
  buffersize : Nat
  role : Role
  deriving DecidableEq, Repr

structure Scenario where
  agent : Agent
  steps : List Step
  deriving DecidableEq, Repr

def maxPort : Nat := 65535
def maxWord : Nat := Nat.pow 2 64 - 1

namespace Agent

def defaultBuffersize : Nat := 1024

def positive (r : Record) (key : String) (n : Nat) : Except Error Nat :=
  if n = 0 then r.fault key "must be greater than zero" else .ok n

def ofJson (j : Json) : Except Error Agent := do
  let r ← Record.ofJson "agent".toList j
  let role ← r.text "type"
  let transport ← Transport.parse (← r.text "protocol")
  let port ← r.nat "port" maxPort
  let size ← r.optional "buffersize" fun r k => r.nat k maxWord
  let size ← positive r "buffersize" (size.getD defaultBuffersize)
  let role ←
    if role = "client".toList then do
      let ip ← r.token "ip"
      let timeout ← positive r "timeout" (← r.nat "timeout" maxWord)
      pure (Role.client ip timeout)
    else if role = "server".toList then pure Role.server
    else .error (.protocolMismatch ("unknown agent type: ".toList ++ role))
  return ⟨transport, port, size, role⟩

def describe (a : Agent) : Text :=
  let common := dashed "port" (Text.decimal a.port) ++
    dashed "buffersize" (Text.decimal a.buffersize)
  "### ".toList ++ a.role.name ++ " AGENT ###\n".toList ++ dashed "protocol" a.transport.name ++
    (match a.role with
      | .client ip timeout => dashed "ip" ip ++ common ++ dashed "timeout" (Text.decimal timeout)
      | .server => common) ++
    "###\n".toList

end Agent

namespace Step

def indexed (name : String) (i : Nat) : Text :=
  name.toList ++ '[' :: (Text.decimal i ++ [']'])

def headerOfJson (path : Text) (j : Json) : Except Error Header := do
  let r ← Record.ofJson path j
  let name ← r.token "name"
  if ':' ∈ name then r.fault "name" "must not contain ':'"
  else return ⟨name, Text.trim (← r.line "value")⟩

def each {α : Type} (read : Nat → Json → Except Error α) : Nat → List Json → Except Error (List α)
  | _, [] => .ok []
  | i, x :: xs => do
    let a ← read i x
    return a :: (← each read (i + 1) xs)

/-- A response's version must have a slash, or a peer would take its start line for a request. -/
def startOf (r : Record) (kind version : Text) : Except Error StartLine := do
  if kind = "request".toList then
    return .request (← r.token "method") (← r.token "uri") version
  else if kind = "response".toList then
    if '/' ∈ version then
      return .response version (← r.nat "code" 65535).toUInt16 (← r.token "reason")
    else r.fault "version" "must be a protocol version like SIP/2.0"
  else .error (.protocolMismatch ("unknown message type: ".toList ++ kind))

def ofJson (i : Nat) (j : Json) : Except Error Step := do
  let r ← Record.ofJson (indexed "messages" i) j
  let kind ← r.text "type"
  let action ← Action.parse (← r.text "action")
  let version ← r.token "version"
  let start ← startOf r kind version
  let items ← r.optional "headers" Record.list
  let headers ← each (fun k => headerOfJson (r.pathOf (indexed "headers" k))) 0 (items.getD [])
  let content ← r.optional "content" Record.text
  return ⟨action, ⟨start, headers, content.getD []⟩⟩

end Step

namespace Scenario

def ofJson (j : Json) : Except Error Scenario := do
  let r ← Record.ofJson [] j
  let agent ← Agent.ofJson (← r.require "agent")
  let steps ← Step.each Step.ofJson 0 (← r.list "messages")
  return ⟨agent, steps⟩

def describe (s : Scenario) : Text :=
  "*** SCENARIO ***\n".toList ++ s.agent.describe ++ s.steps.flatMap Step.describe ++
    "*** END ***\n".toList

end Scenario
end Switchboard
