import Switchboard.Cli.Plan
import Switchboard.Proofs.Scenario.Field

/-! Where the settings of a role come from, field by field. The options of the command stand above the
variables, and these above the configuration of the file; a layer that says nothing of a field lets the
one below through. A variable that cannot be read says nothing. -/
namespace Switchboard
namespace Config

def word32 : Nat := Nat.pow 2 32 - 1

section Environment
variable (c : Config)

end Environment

def Environment.without (env : Environment) (name : String) : Environment :=
  fun n => if n = name.toList then none else env n

end Config

namespace Cli
open Config

def bound (o : ServerOptions) (s : Server.Settings) : Server.Settings :=
  if o.bindAll then { s with host := "0.0.0.0".toList } else s

end Cli
end Switchboard
