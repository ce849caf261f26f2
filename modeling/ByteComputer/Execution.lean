import ByteComputer.Machine.Operation
import ByteComputer.Report

/-!
# Executions

Running a program from beginning to end on a machine that has just been switched on, and running
the program that a file holds.
-/

namespace ByteComputer

/-- What came of running a program: the machine at its end or a report, the console afterwards,
and the log. -/
structure Execution (κ : Type) where
  result : Except Report Machine
  console : κ
  log : List Log.Entry

namespace Execution

variable {κ : Type} [Console κ]

/-- An execution that ends as a run of the machine ended. -/
def ofTransition (t : Transition κ) : Execution κ where
  result := match t.result with
    | .ok _ => .ok t.machine
    | .error fault => .error (.failure (.machine fault))
  console := t.console
  log := t.log

def inContext (text : String) (e : Execution κ) : Execution κ :=
  { e with result := e.result.mapError (.context text) }

def loggedAfter (entries : List Log.Entry) (e : Execution κ) : Execution κ :=
  { e with log := entries ++ e.log }

/-- Runs a program, if its end comes within `fuel` steps. -/
def ofProgram (fuel : Nat) (program : List UInt8) (config : Config) (c : κ) :
    Option (Execution κ) :=
  let t := (Machine.powerOn config).install program c
  match t.result with
  | .error _ => some (ofTransition t)
  | .ok _ => (t.machine.run fuel t.console).map fun u => ofTransition (t.followedBy u)

/-- The context of what goes wrong while the program in a file is run. -/
def contextOf (path : String) : String := "while running '" ++ path ++ "'"

/-- Runs the program in a file, given what reading the file gave. -/
def ofFile (fuel : Nat) (path : String) (contents : Except SystemError (List UInt8))
    (config : Config) (c : κ) : Option (Execution κ) :=
  match Program.ofFile path contents with
  | .error e => some ⟨.error (.failure (.load e)), c, []⟩
  | .ok program =>
    (ofProgram fuel program config c).map fun e =>
      (e.inContext (contextOf path)).loggedAfter [.loadedFile program.length path]

end Execution

end ByteComputer
