import ByteComputer.CommandLine.Arguments
import ByteComputer.Log
import ByteComputer.Machine.Basic

/-!
# Environment

Variables that set a flag without an argument, and the one that says how much of the log is shown.
A flag among the arguments wins over its variable. Without a word on the log, errors are shown.
-/

namespace ByteComputer.CommandLine

structure Environment where
  settings : List (String × String) := []
deriving DecidableEq, Repr

def Flag.variable : Flag → String
  | .trace => "LS8_TRACE"
  | .echoOnHalt => "LS8_ECHO_ON_HALT"
  | .unguardedCall => "LS8_UNGUARDED_CALL"

namespace Environment

def logVariable : String := "RUST_LOG"

/-- The names of the variables that count. -/
def names : List String :=
  [Flag.trace.variable, Flag.echoOnHalt.variable, Flag.unguardedCall.variable, logVariable]

def value? (env : Environment) (name : String) : Option String := env.settings.lookup name

/-- Whether a flag is on, from the arguments or else from the environment. -/
def isOn (env : Environment) (given : Arguments) (flag : Flag) : Except UsageError Bool :=
  if flag ∈ given.flags then .ok true
  else
    match env.value? flag.variable with
    | none => .ok false
    | some "true" => .ok true
    | some "false" => .ok false
    | some value => .error (.notBoolean value)

def config (env : Environment) (given : Arguments) : Except UsageError Config := do
  let trace ← env.isOn given .trace
  let echoOnHalt ← env.isOn given .echoOnHalt
  let unguardedCall ← env.isOn given .unguardedCall
  return { trace, echoOnHalt, guardCall := !unguardedCall }

/-- The least severe level of the log that is shown; without one, nothing is. -/
def logLimit (env : Environment) : Option Log.Level :=
  match (env.value? logVariable).map String.toLower with
  | none => some .error
  | some "" => some .error
  | some "error" => some .error
  | some "warn" => some .warn
  | some "info" => some .info
  | some "debug" => some .debug
  | some "trace" => some .trace
  | some _ => none

end Environment

end ByteComputer.CommandLine
