/-!
# Arithmetic on bytes

The operations that compute a register value from one or two others. All of them wrap around at
256. Only a division or remainder by zero has no result (`BinaryOp.result?_eq_none_iff`).
-/

namespace ByteComputer

inductive UnaryOp where
  | increment
  | decrement
  | complement
deriving DecidableEq, Repr

def UnaryOp.apply : UnaryOp → UInt8 → UInt8
  | .increment, x => x + 1
  | .decrement, x => x - 1
  | .complement, x => ~~~x

inductive BinaryOp where
  | add
  | sub
  | mul
  | div
  | mod
  | and
  | or
  | xor
  | shiftLeft
  | shiftRight
deriving DecidableEq, Repr

/-- The result of an operation on two bytes. A shift by eight or more moves every bit out. -/
def BinaryOp.result? : BinaryOp → UInt8 → UInt8 → Option UInt8
  | .add, x, y => some (x + y)
  | .sub, x, y => some (x - y)
  | .mul, x, y => some (x * y)
  | .div, x, y => if y = 0 then none else some (x / y)
  | .mod, x, y => if y = 0 then none else some (x % y)
  | .and, x, y => some (x &&& y)
  | .or, x, y => some (x ||| y)
  | .xor, x, y => some (x ^^^ y)
  | .shiftLeft, x, y => some (if y < 8 then x <<< y else 0)
  | .shiftRight, x, y => some (if y < 8 then x >>> y else 0)

end ByteComputer
