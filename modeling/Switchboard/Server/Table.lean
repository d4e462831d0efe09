import Switchboard.Net.Address

/-! The sessions of a server by the address of their peer, at most one for each. Sessions are named
by their place among all that the server has made. -/
namespace Switchboard.Server

structure Table where
  entries : List (Address × Nat) := []
  deriving DecidableEq, Repr

namespace Table

def get? (t : Table) (peer : Address) : Option Nat :=
  (t.entries.find? (·.1 = peer)).map (·.2)

def erase (t : Table) (peer : Address) : Table := ⟨t.entries.filter (·.1 ≠ peer)⟩

def insert (t : Table) (peer : Address) (session : Nat) : Table :=
  ⟨(t.erase peer).entries ++ [(peer, session)]⟩

def holds (t : Table) (peer : Address) (session : Nat) : Bool := t.get? peer = some session

def eraseIf (t : Table) (peer : Address) (session : Nat) : Table :=
  if t.holds peer session then t.erase peer else t

def sessions (t : Table) : List Nat := t.entries.map (·.2)

def size (t : Table) : Nat := t.entries.length

end Table
end Switchboard.Server
