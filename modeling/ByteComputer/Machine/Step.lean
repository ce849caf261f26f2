import ByteComputer.Machine.Execute

/-!
# Steps

A step executes one instruction. It changes the machine and the console together, or it fails with
a fault; in both cases it may add to the log. A step that fails leaves the machine as it was, with
one exception: a machine that was about to halt when the console refused its output has halted.
-/

namespace ByteComputer

/-- What came of an operation on a machine with a console: the state of the machine or the fault
that stopped it, machine and console afterwards, and what was added to the log. -/
structure Transition (κ : Type) where
  result : Except Fault State
  machine : Machine
  console : κ
  log : List Log.Entry

namespace Machine

variable {κ : Type} [Console κ]

/-- What the log notes ahead of a step. -/
def traceNotes (m : Machine) : List Log.Entry :=
  if m.config.trace then [.aboutToStep m.snapshot] else []

/-- Executes an instruction that the machine is ready for. -/
def perform (m : Machine) (i : Instruction) (c : κ) : Transition κ :=
  let log := m.traceNotes ++ m.notes i
  match m.output? i with
  | none => ⟨.ok (m.execute i).state, m.execute i, c, log⟩
  | some o =>
    match Console.write c o with
    | (c, .ok ()) => ⟨.ok (m.execute i).state, m.execute i, c, log⟩
    | (c, .error e) => ⟨.error (.outputRefused e), m.refused i, c, log⟩

def step (m : Machine) (c : κ) : Transition κ :=
  match m.state with
  | .halted => ⟨.error .halted, m, c, []⟩
  | .running =>
    match m.ready with
    | .error fault => ⟨.error fault, m, c, m.traceNotes⟩
    | .ok i => m.perform i c

end Machine

end ByteComputer
