import ByteComputer.Flags

/-!
# Jump conditions

When a jump is taken, as a question to the flags. While no comparison has been made only the
unconditional jump and the jump on inequality are taken.
-/

namespace ByteComputer

inductive Condition where
  | always
  | equal
  | notEqual
  | greater
  | less
  | lessOrEqual
  | greaterOrEqual
deriving DecidableEq, Repr

def Condition.holds : Condition → Flags → Bool
  | .always, _ => true
  | .equal, f => f = .equal
  | .notEqual, f => f ≠ .equal
  | .greater, f => f = .greater
  | .less, f => f = .less
  | .lessOrEqual, f => f = .less || f = .equal
  | .greaterOrEqual, f => f = .greater || f = .equal

end ByteComputer
