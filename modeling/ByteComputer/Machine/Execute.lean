import ByteComputer.Instruction
import ByteComputer.Log
import ByteComputer.Console.Basic

/-!
# Executing an instruction

What one instruction means, in parts that do not depend on each other: which fault keeps it from
being executed (`Machine.stackFault?`), what it does to memory, registers and state
(`Machine.effect`), where the program counter goes (`Machine.successor`), what is written to the
console (`Machine.output?`), and what is noted in the log (`Machine.notes`).

`Machine.ready` is all that can go wrong before anything happens: it fetches the instruction at the
program counter and looks for a fault, and changes nothing.
-/

namespace ByteComputer.Machine

/-! ## Before the instruction -/

def fetch (m : Machine) : Except Fault Instruction :=
  let byte := m.read m.pc
  match Opcode.ofByte? byte with
  | none => .error (.unknownOpcode byte m.pc)
  | some op =>
    match Instruction.decode op (m.read (m.pc + 1)) (m.read (m.pc + 2)) with
    | .ok i => .ok i
    | .error index => .error (.noSuchRegister index m.pc)

/-- The fault of pushing when the stack has grown down to its floor. -/
def overflow? (m : Machine) : Option Fault :=
  if m.sp.toNat ≤ m.stackFloor then some (.stackOverflow m.sp m.pc) else none

/-- The fault of popping when nothing is on the stack. -/
def underflow? (m : Machine) : Option Fault :=
  if Registers.stackBase ≤ m.sp then some (.stackUnderflow m.sp m.pc) else none

/-- The fault that keeps the stack from serving an instruction. -/
def stackFault? (m : Machine) : Instruction → Option Fault
  | .push _ => m.overflow?
  | .call _ => if m.config.guardCall then m.overflow? else none
  | .pop _ => m.underflow?
  | .ret => m.underflow?
  | _ => none

/-- The instruction at the program counter, if the machine can execute it. -/
def ready (m : Machine) : Except Fault Instruction := do
  let i ← m.fetch
  match m.stackFault? i with
  | some fault => .error fault
  | none => .ok i

/-! ## What the instruction does -/

/-- Puts a byte on top of the stack; the stack pointer wraps around below address 0. -/
def pushByte (m : Machine) (value : UInt8) : Machine :=
  (m.setSp (m.sp - 1)).write (m.sp - 1) value

/-- Takes the top off the stack. -/
def dropTop (m : Machine) : Machine := m.setSp (m.sp + 1)

/-- Memory, registers, flags and state after an instruction. -/
def effect (m : Machine) : Instruction → Machine
  | .nop => m
  | .halt => { m with state := .halted }
  | .loadImmediate target value => m.setRegister target value
  | .load target address => m.setRegister target (m.read (m.register address))
  | .store address source => m.write (m.register address) (m.register source)
  | .push source => m.pushByte (m.register source)
  -- the stack pointer moves last, also when it is what has been popped
  | .pop target => (m.setRegister target m.top).dropTop
  | .printNumber _ => m
  | .printChar _ => m
  | .call _ => m.pushByte (m.pc + 2)
  | .ret => m.dropTop
  | .jump _ _ => m
  | .unary op target => m.setRegister target (op.apply (m.register target))
  | .binary op target source =>
    match op.result? (m.register target) (m.register source) with
    | some value => m.setRegister target value
    | none => m
  | .compare lhs rhs =>
    { m with
      registers := { m.registers with flags := .compare (m.register lhs) (m.register rhs) } }

/-- The program counter after an instruction. -/
def successor (m : Machine) : Instruction → UInt8
  | .halt => m.pc
  | .call target => m.register target
  | .ret => m.top
  | .jump condition target =>
    if condition.holds m.registers.flags then m.register target
    else m.pc + (Opcode.jump condition).length
  | i => m.pc + i.opcode.length

def execute (m : Machine) (i : Instruction) : Machine :=
  { m.effect i with pc := m.successor i, steps := m.steps + 1 }

/-! ## What the world sees of it -/

/-- What an instruction writes to the console. -/
def output? (m : Machine) : Instruction → Option Output
  | .printNumber source => some (.number (m.register source))
  | .printChar source => some (.char (m.register source))
  | .halt => if m.config.echoOnHalt then some (.number (m.register .first)) else none
  | _ => none

/-- What the log notes about an instruction. -/
def notes (m : Machine) : Instruction → List Log.Entry
  | .halt => [.halting m.pc m.registers.values]
  | .binary op target source =>
    match op.result? (m.register target) (m.register source) with
    | some _ => []
    | none => [.dividedByZero op target source m.pc]
  | _ => []

/-- The machine after an instruction whose output was refused. A machine that was about to halt
has halted all the same. -/
def refused (m : Machine) : Instruction → Machine
  | .halt => { m with state := .halted }
  | _ => m

end ByteComputer.Machine
