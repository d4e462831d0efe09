import Switchboard.Number.Duration

/-! Things to come, each with its time. -/
namespace Switchboard.Schedule

/-- The one that comes first; of several at one time, the one named first. -/
def earliest {α : Type} : List (Duration × α) → Option (Duration × α)
  | [] => none
  | a :: as => match earliest as with
    | none => some a
    | some b => some (if b.1 < a.1 then b else a)

/-- Far more turns than there are in a play that ends. -/
def turns : Nat := 4000000

end Switchboard.Schedule
