import SchemeMachine.Fault
import SchemeMachine.Value.Text

/-!
# Parameters and arguments

The parameters of a procedure are a list of symbols, proper or ending in a
symbol, or a single symbol.  A call binds them one by one to its arguments; a
symbol at the end takes the arguments that are left, as they are.
-/

namespace SchemeMachine.Parameters

/-- The first parameter that is no symbol, or whether the list ends properly. -/
def firstFault [Saving] (s : Store) (whole : Value) : Value → Option Fault
  | .pair _ (.symbol _) rest => firstFault s whole rest
  | .pair _ other _ => some (.badParameter (other.written s))
  | .nil => none
  | .symbol _ => none
  | _ => some (.badParameterList (whole.written s))

/-- What is wrong with the parameters of a procedure, if anything is. -/
def check [Saving] (s : Store) (parameters : Value) : Option Fault :=
  firstFault s parameters parameters

/-- The bindings that a call makes, in the order of the parameters. -/
def bindings [Saving] (s : Store) : Value → Value → Except Fault (List (String × Value))
  | .pair _ (.symbol name) parameters, .pair _ argument arguments =>
    (bindings s parameters arguments).map ((name, argument) :: ·)
  | .pair _ _ parameters, .pair _ _ arguments => bindings s parameters arguments
  | .pair stamp head tail, _ =>
    .error (.surplusParameters ((Value.pair stamp head tail).written s))
  | .symbol name, arguments => .ok [(name, arguments)]
  | _, .nil => .ok []
  | _, arguments => .error (.surplusArguments (arguments.written s))

end SchemeMachine.Parameters
