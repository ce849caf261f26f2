import ByteComputer.Opcode
import ByteComputer.Registers

/-!
# Instructions

An instruction is an opcode whose operand bytes have been read: every register operand is known to
name a register. Operand bytes that an opcode does not use are ignored.
-/

namespace ByteComputer

/-- An opcode with its operands. -/
inductive Instruction where
  | nop
  | halt
  | loadImmediate (target : Register) (value : UInt8)
  /-- Loads from the address that a register holds. -/
  | load (target address : Register)
  /-- Stores to the address that a register holds. -/
  | store (address source : Register)
  | push (source : Register)
  | pop (target : Register)
  | printNumber (source : Register)
  | printChar (source : Register)
  | call (target : Register)
  | ret
  | jump (condition : Condition) (target : Register)
  | unary (op : UnaryOp) (target : Register)
  | binary (op : BinaryOp) (target source : Register)
  | compare (lhs rhs : Register)
deriving DecidableEq, Repr

namespace Instruction

def opcode : Instruction → Opcode
  | nop => .nop
  | halt => .halt
  | loadImmediate _ _ => .loadImmediate
  | load _ _ => .load
  | store _ _ => .store
  | push _ => .push
  | pop _ => .pop
  | printNumber _ => .printNumber
  | printChar _ => .printChar
  | call _ => .call
  | ret => .ret
  | jump condition _ => .jump condition
  | unary op _ => .unary op
  | binary op _ _ => .binary op
  | compare _ _ => .compare

/-- The register that an operand byte names; a byte that names none is handed back. -/
def operand (b : UInt8) : Except UInt8 Register :=
  match Register.ofByte? b with
  | some r => .ok r
  | none => .error b

/-- Reads the operands of an opcode from the two bytes behind it. A byte that should name a
register and does not is the error; of two such bytes the one that is looked at first. -/
def decode (op : Opcode) (first second : UInt8) : Except UInt8 Instruction :=
  match op with
  | .nop => .ok nop
  | .halt => .ok halt
  | .ret => .ok ret
  | .loadImmediate => return loadImmediate (← operand first) second
  | .load => do
    -- the address comes before the register it is loaded into
    let address ← operand second
    return load (← operand first) address
  | .store => return store (← operand first) (← operand second)
  | .push => return push (← operand first)
  | .pop => return pop (← operand first)
  | .printNumber => return printNumber (← operand first)
  | .printChar => return printChar (← operand first)
  | .call => return call (← operand first)
  | .jump condition => return jump condition (← operand first)
  | .unary op => return unary op (← operand first)
  | .binary op => return binary op (← operand first) (← operand second)
  | .compare => return compare (← operand first) (← operand second)

theorem operand_eq_ok_iff {b : UInt8} {r : Register} : operand b = .ok r ↔ b.toNat = r.val := by
  rw [← Register.ofByte?_eq_some_iff]
  cases h : Register.ofByte? b <;> simp [operand, h]

theorem operand_eq_error_iff {b i : UInt8} : operand b = .error i ↔ 8 ≤ b.toNat ∧ i = b := by
  rw [← Register.ofByte?_eq_none_iff]
  cases h : Register.ofByte? b <;> simp [operand, h, eq_comm]

end Instruction

end ByteComputer
