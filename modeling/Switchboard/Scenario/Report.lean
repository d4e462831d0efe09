import Switchboard.Scenario.Compare
import Switchboard.Message.Json

/-! The account of a run, step by step, for people and as JSON. -/
namespace Switchboard

structure Outcome where
  index : Nat
  action : Action
  kind : Kind
  /-- Empty when the step passed. -/
  mismatches : List Text
  received : Option Message
  deriving DecidableEq, Repr

namespace Outcome

def passed (o : Outcome) : Bool := o.mismatches.isEmpty

def render (o : Outcome) : Text :=
  (if o.passed then "[PASS] #".toList else "[FAIL] #".toList) ++ Text.decimal o.index ++
    ' ' :: (o.action.name ++ ' ' :: (o.kind.small ++
      o.mismatches.flatMap fun m => "\n    ".toList ++ m))

def toJson (o : Outcome) : Json :=
  .obj ([("index".toList, .nat o.index), ("action".toList, .str o.action.name),
    ("kind".toList, .str o.kind.small),
    ("mismatches".toList, .arr (o.mismatches.map .str))] ++
    (o.received.map fun m => ("received".toList, m.toJson)).toList)

end Outcome

structure Report where
  outcomes : List Outcome := []
  deriving DecidableEq, Repr

namespace Report

def passed (r : Report) : Bool := r.outcomes.all (·.passed)
def failures (r : Report) : Nat := (r.outcomes.filter (!·.passed)).length

def render (r : Report) : Text :=
  (r.outcomes.flatMap fun o => o.render ++ ['\n']) ++ Text.decimal r.outcomes.length ++
    " action(s), ".toList ++ Text.decimal r.failures ++ " failed: ".toList ++
    if r.passed then "PASSED".toList else "FAILED".toList

def toJson (r : Report) : Json := .obj [("outcomes".toList, .arr (r.outcomes.map Outcome.toJson))]

end Report
end Switchboard
