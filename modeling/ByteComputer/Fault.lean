import ByteComputer.Memory
import ByteComputer.SystemError

/-!
# Faults

What stops the machine. Division by zero is not among them: it is noted in the log and the machine
goes on.
-/

namespace ByteComputer

/-- Why the machine cannot do what it was asked to. -/
inductive Fault where
  /-- The byte at the program counter is not the byte of an opcode. -/
  | unknownOpcode (opcode pc : UInt8)
  /-- The stack pointer is at the stack floor already. -/
  | stackOverflow (sp pc : UInt8)
  /-- The stack pointer is at the stack base or above. -/
  | stackUnderflow (sp pc : UInt8)
  /-- An operand that is used names no register. -/
  | noSuchRegister (index pc : UInt8)
  | programTooLarge (size : Nat)
  /-- The console refused to write or to flush. -/
  | outputRefused (cause : SystemError)
  /-- The machine has halted and takes no further step. -/
  | halted
deriving DecidableEq, Repr

namespace Fault

def message : Fault → String
  | unknownOpcode opcode pc =>
    "unknown opcode 0x" ++ Hex.byte opcode ++ " at address 0x" ++ Hex.byte pc
  | stackOverflow sp pc =>
    "stack overflow at address 0x" ++ Hex.byte pc ++ ": SP 0x" ++ Hex.byte sp ++
      " is at the stack floor"
  | stackUnderflow sp pc =>
    "stack underflow at address 0x" ++ Hex.byte pc ++ ": SP 0x" ++ Hex.byte sp ++
      ", nothing to pop"
  | noSuchRegister index pc =>
    "invalid register R" ++ toString index.toNat ++ " at address 0x" ++ Hex.byte pc
  | programTooLarge size =>
    "program is " ++ toString size ++ " bytes but memory holds " ++ toString Memory.size
  | outputRefused _ => "failed to write to console"
  | halted => "machine is halted"

def cause? : Fault → Option SystemError
  | outputRefused cause => some cause
  | _ => none

end Fault

end ByteComputer
