import ByteComputer.Fault
import ByteComputer.Registers

/-!
# The machine

The state of a machine, and the operations on it that execute nothing: power-on, loading a
program, reset, and access to memory and registers.
-/

namespace ByteComputer

structure Config where
  /-- Whether each step is noted in the log before it is taken. -/
  trace : Bool := false
  /-- Whether halting writes the first register to the console. -/
  echoOnHalt : Bool := false
  /-- Whether a call respects the stack floor as a push does. -/
  guardCall : Bool := true
deriving DecidableEq, Repr

/-- Whether a machine still takes steps. -/
inductive State where
  | running
  | halted
deriving DecidableEq, Repr

structure Machine where
  memory : Memory := .zero
  registers : Registers := .powerOn
  pc : UInt8 := 0
  state : State := .running
  /-- The address that the stack does not grow past: the length of the program. -/
  stackFloor : Nat := 0
  config : Config := {}
  /-- The number of instructions executed since the last reset. -/
  steps : Nat := 0
deriving DecidableEq

namespace Machine

def powerOn (config : Config) : Machine := { config }

/-- Registers, flags, counters and state as at power-on; the memory and the stack floor stay. -/
def reset (m : Machine) : Machine :=
  { m with registers := .powerOn, pc := 0, state := .running, steps := 0 }

/-- Fills the memory with a program and resets the machine. -/
def load (m : Machine) (program : List UInt8) : Except Fault Machine :=
  match Memory.ofProgram? program with
  | some memory => .ok { m with memory, stackFloor := program.length }.reset
  | none => .error (.programTooLarge program.length)

def read (m : Machine) (address : UInt8) : UInt8 := m.memory.read address

def write (m : Machine) (address value : UInt8) : Machine :=
  { m with memory := m.memory.write address value }

def register (m : Machine) (r : Register) : UInt8 := m.registers.get r

def setRegister (m : Machine) (r : Register) (value : UInt8) : Machine :=
  { m with registers := m.registers.set r value }

def sp (m : Machine) : UInt8 := m.registers.sp

def setSp (m : Machine) (value : UInt8) : Machine :=
  { m with registers := m.registers.setSp value }

def top (m : Machine) : UInt8 := m.read m.sp

/-- The machine as text: the counters, registers and state, without the memory. -/
def text (m : Machine) : String :=
  let state := match m.state with
    | .running => "Running"
    | .halted => "Halted"
  "Machine \x7b pc: " ++ toString m.pc.toNat ++ ", regs: " ++ m.registers.text ++
    ", state: " ++ state ++ ", steps: " ++ toString m.steps ++ ", .. \x7d"

end Machine

end ByteComputer
