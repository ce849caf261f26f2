import ByteComputer.Proofs.Machine.Fields

/-!
# Machines in another frame

The frame of a machine is what a step only ever reads: the stack floor and the configuration. It can
keep an instruction from being executed, and it decides what is seen of it; what the instruction does
to the machine is the same in every frame.
-/

namespace ByteComputer.Machine

/-- The machine with another stack floor and another configuration. -/
def inFrame (m : Machine) (floor : Nat) (config : Config) : Machine :=
  { m with stackFloor := floor, config }

variable (m : Machine) (floor : Nat) (config : Config) (i : Instruction)

theorem effect_inFrame :
    (m.inFrame floor config).effect i = (m.effect i).inFrame floor config := by
  cases i with
  | binary op target source =>
    exact effect_binary_comm (f := (inFrame · floor config)) rfl (fun _ _ => rfl) op target source
  | _ => rfl

theorem execute_inFrame :
    (m.inFrame floor config).execute i = (m.execute i).inFrame floor config := by
  have hsuccessor : (m.inFrame floor config).successor i = m.successor i := by
    cases i <;> rfl
  simp only [execute, effect_inFrame, hsuccessor]
  rfl

/-- Of the configuration only what is said about halts decides what is written. -/
theorem output?_inFrame (hecho : config.echoOnHalt = m.config.echoOnHalt) :
    (m.inFrame floor config).output? i = m.output? i := by
  cases i with
  | halt =>
    simp only [output?, inFrame, hecho]
    rfl
  | _ => rfl

theorem output?_inFrame_of_ne_halt {i : Instruction} (hi : i ≠ .halt) :
    (m.inFrame floor config).output? i = m.output? i := by
  cases i with
  | halt => exact absurd rfl hi
  | _ => rfl

theorem notes_inFrame : (m.inFrame floor config).notes i = m.notes i := by
  cases i <;> rfl

end ByteComputer.Machine
