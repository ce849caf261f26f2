import ByteComputer.Machine.Run

/-!
# Operations

What can be asked of a machine from outside, each of it a transition. An operation answers with the
state that it leaves the machine in, or with a fault; a program that cannot be loaded leaves
everything as it was. Only a run may fail to come to an end.

`Machine.install` decides at once whether a program can be loaded, and with what. That checking and
changing one thing at a time comes to the same is `Machine.loading_eq_install`, in
`ByteComputer.Proofs.Cycle.Loading`.
-/

namespace ByteComputer

/-- What can be asked of a machine. -/
inductive Operation where
  | load (program : List UInt8)
  | reset
  | write (address value : UInt8)
  | step
  | run
deriving DecidableEq, Repr

namespace Machine

variable {κ : Type} [Console κ]

/-- Loads a program and notes that in the log. -/
def install (m : Machine) (program : List UInt8) (c : κ) : Transition κ :=
  match m.load program with
  | .ok loaded => ⟨.ok loaded.state, loaded, c, [.loadedProgram program.length]⟩
  | .error fault => ⟨.error fault, m, c, []⟩

/-- Carries out an operation, if a run that it asks for ends within `fuel` steps. -/
def apply (fuel : Nat) (m : Machine) (c : κ) : Operation → Option (Transition κ)
  | .load program => some (m.install program c)
  | .reset => some ⟨.ok m.reset.state, m.reset, c, []⟩
  | .write address value => some ⟨.ok m.state, m.write address value, c, []⟩
  | .step => some (m.step c)
  | .run => m.run fuel c

end Machine

end ByteComputer
