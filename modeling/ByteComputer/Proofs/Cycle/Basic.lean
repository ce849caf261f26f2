import ByteComputer.Machine.Step

/-!
# The order of work in a step

A step as a sequence of actions. The byte at the program counter is routed by its bits to the
arithmetic unit, to the halt, or to the other instructions. Each instruction then checks its
operands and the stack while it goes, one check or change at a time, and a fault in the middle
leaves behind what was done up to there. A place that no instruction should lead to ends the cycle
without an answer.

`Machine.step` looks for all faults first and changes the machine at once. That a cycle comes to the
same is `Machine.cycle_eq_step`, in `ByteComputer.Proofs.Cycle.Agreement`.
-/

namespace ByteComputer

/-- What actions work on. -/
structure Bench (κ : Type) where
  machine : Machine
  console : κ
  log : List Log.Entry

/-- A part of a cycle, or of loading. One that fails keeps what it has changed so far; one without an answer has
come to a place that no instruction should lead to. -/
abbrev Action (κ : Type) : Type → Type := ExceptT Fault (StateT (Bench κ) Option)

namespace Action

variable {κ α : Type}

/-! ## Single actions -/

def machine : Action κ Machine := return (← get).machine

def change (f : Machine → Machine) : Action κ Unit :=
  modify fun b => { b with machine := f b.machine }

def note (e : Log.Entry) : Action κ Unit := modify fun b => { b with log := b.log ++ [e] }

/-- The end of a cycle at a place that no instruction should lead to. -/
def stray : Action κ α := fun _ => none

def write [Console κ] (o : Output) : Action κ Unit := do
  let b ← get
  let (console, result) := Console.write b.console o
  set { b with console }
  match result with
  | .ok () => return
  | .error e => throw (.outputRefused e)

/-- The register that an operand byte names. -/
def operand (index : UInt8) : Action κ Register := do
  match Instruction.operand index with
  | .ok r => return r
  | .error index => throw (.noSuchRegister index (← machine).pc)

/-- The value of the register that an operand byte names. -/
def value (index : UInt8) : Action κ UInt8 := do
  let r ← operand index
  return (← machine).register r

/-- Gives a value to the register that an operand byte names. -/
def assign (index v : UInt8) : Action κ Unit := do
  let r ← operand index
  change (·.setRegister r v)

/-! ## The stack -/

/-- Moves the stack pointer down, then fills the cell it points to. -/
def pushFreely (v : UInt8) : Action κ Unit := do
  change fun m => m.setSp (m.sp - 1)
  change fun m => m.write m.sp v

def push (v : UInt8) : Action κ Unit := do
  let m ← machine
  if m.sp.toNat ≤ m.stackFloor then throw (.stackOverflow m.sp m.pc)
  pushFreely v

/-- Pushes the address to return to; whether the stack floor counts is a matter of setting. -/
def pushReturn (v : UInt8) : Action κ Unit := do
  let m ← machine
  if m.config.guardCall then push v else pushFreely v

def peek : Action κ UInt8 := do
  let m ← machine
  if Registers.stackBase ≤ m.sp then throw (.stackUnderflow m.sp m.pc)
  return m.top

def pop : Action κ UInt8 := do
  let v ← peek
  change Machine.dropTop
  return v

/-! ## Instructions -/

/-- The arithmetic unit. -/
def arithmetic (op : Opcode) (first second : UInt8) : Action κ Unit := do
  if ¬ Encoding.isArithmetic op.byte then stray
  let target ← operand first
  let lhs := (← machine).register target
  match op with
  | .unary op => assign first (op.apply lhs)
  | .binary op =>
    let source ← operand second
    match op.result? lhs ((← machine).register source) with
    | some v => assign first v
    | none => note (.dividedByZero op target source (← machine).pc)
  | .compare =>
    let rhs ← value second
    change fun m => { m with registers := { m.registers with flags := .compare lhs rhs } }
  | _ => stray

/-- Whether a jump is taken. -/
def taken (op : Opcode) : Action κ Bool := do
  match op with
  | .jump condition => return condition.holds (← machine).registers.flags
  | _ => stray

def jump (op : Opcode) (first : UInt8) : Action κ Unit := do
  let target ← value first
  if ← taken op then change ({ · with pc := target })
  else change fun m => { m with pc := m.pc + op.length }

/-- The instructions that neither compute nor halt. -/
def general [Console κ] (op : Opcode) (first second : UInt8) : Action κ Unit := do
  match op with
  | .nop => return
  | .loadImmediate => assign first second
  | .load =>
    let address ← value second
    assign first ((← machine).read address)
  | .store =>
    let address ← value first
    let v ← value second
    change (·.write address v)
  | .push => push (← value first)
  | .pop =>
    let _ ← value first
    let v ← peek
    assign first v
    change Machine.dropTop
  | .printNumber => write (.number (← value first))
  | .printChar => write (.char (← value first))
  | .call =>
    let target ← value first
    pushReturn ((← machine).pc + 2)
    change ({ · with pc := target })
  | .ret =>
    let next ← pop
    change ({ · with pc := next })
  | .jump condition => jump (.jump condition) first
  | .halt | .unary _ | .binary _ | .compare => stray

def halt [Console κ] : Action κ Unit := do
  change ({ · with state := .halted })
  let m ← machine
  note (.halting m.pc m.registers.values)
  if m.config.echoOnHalt then write (.number (m.register .first))

/-! ## The cycle -/

/-- The opcode that a byte stands for. -/
def decode (byte : UInt8) : Action κ Opcode := do
  match Opcode.ofByte? byte with
  | some op => return op
  | none => throw (.unknownOpcode byte (← machine).pc)

def count : Action κ Unit := change fun m => { m with steps := m.steps + 1 }

/-- Leaves an instruction behind, unless it has set the program counter itself. -/
def moveOn (byte : UInt8) : Action κ State := do
  if ¬ Encoding.setsCounter byte then
    change fun m => { m with pc := m.pc + Encoding.length byte }
  count
  return .running

/-- Carries out the instruction that begins with a byte. -/
def route [Console κ] (byte first second : UInt8) : Action κ State := do
  if Encoding.isArithmetic byte then
    arithmetic (← decode byte) first second
    moveOn byte
  else if byte = Opcode.halt.byte then
    halt
    count
    return .halted
  else
    general (← decode byte) first second
    moveOn byte

def cycle [Console κ] : Action κ State := do
  let m ← machine
  if m.state = .halted then throw .halted
  if m.config.trace then note (.aboutToStep m.snapshot)
  route (m.read m.pc) (m.read (m.pc + 1)) (m.read (m.pc + 2))

end Action

/-- A step, taken as a cycle. -/
def Machine.cycle {κ : Type} [Console κ] (m : Machine) (c : κ) : Option (Transition κ) :=
  (Action.cycle ⟨m, c, []⟩).map fun (result, b) => ⟨result, b.machine, b.console, b.log⟩

end ByteComputer
