/-!
# Flags

The flag register holds the outcome of the latest comparison, or nothing before the first. As a
byte it has at most one bit set, at the places `0b00000LGE`.
-/

namespace ByteComputer

inductive Flags where
  | clear
  | equal
  | greater
  | less
deriving DecidableEq, Repr

namespace Flags

/-- The flags after a comparison of unsigned bytes. -/
def compare (lhs rhs : UInt8) : Flags :=
  if lhs < rhs then less else if lhs = rhs then equal else greater

def bits : Flags → UInt8
  | clear => 0b000
  | equal => 0b001
  | greater => 0b010
  | less => 0b100

def text : Flags → String
  | clear => "Flags(0x0)"
  | equal => "Flags(EQUAL)"
  | greater => "Flags(GREATER)"
  | less => "Flags(LESS)"

end Flags

end ByteComputer
