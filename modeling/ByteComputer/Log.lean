import ByteComputer.Machine.Snapshot
import ByteComputer.Opcode

/-!
# The log

What a machine, or a run of it, has to say about itself. Each entry has a level of severity, and
a log can be cut down to the entries of a level and those more severe.
-/

namespace ByteComputer.Log

inductive Level where
  | error
  | warn
  | info
  | debug
  | trace
deriving DecidableEq, Repr

/-- The place of a level, the most severe first. -/
def Level.rank : Level → Nat
  | .error => 0
  | .warn => 1
  | .info => 2
  | .debug => 3
  | .trace => 4

def Level.name : Level → String
  | .error => "ERROR"
  | .warn => "WARN"
  | .info => "INFO"
  | .debug => "DEBUG"
  | .trace => "TRACE"

inductive Entry where
  | loadedProgram (size : Nat)
  | loadedFile (size : Nat) (path : String)
  | aboutToStep (before : Snapshot)
  /-- A quotient or remainder has been left undefined. -/
  | dividedByZero (op : BinaryOp) (target source : Register) (pc : UInt8)
  /-- The instruction that halts has been reached. -/
  | halting (pc : UInt8) (registers : Vector UInt8 8)
  | halted (steps : Nat)
  | stopped (steps : Nat) (fault : Fault)
  /-- Output that was held back until the end is lost. -/
  | flushFailed (cause : SystemError)
deriving DecidableEq

namespace Entry

def level : Entry → Level
  | loadedProgram _ => .info
  | loadedFile _ _ => .info
  | aboutToStep _ => .trace
  | dividedByZero _ _ _ _ => .warn
  | halting _ _ => .debug
  | halted _ => .info
  | stopped _ _ => .error
  | flushFailed _ => .warn

def message : Entry → String
  | loadedProgram size => "Loaded " ++ toString size ++ " byte program"
  | loadedFile size path => "Loaded " ++ toString size ++ " bytes from '" ++ path ++ "'"
  | aboutToStep before => before.line
  | dividedByZero op target source pc =>
    "division by zero is undefined: " ++ (Opcode.binary op).mnemonic ++ " R" ++
      toString target.val ++ ", R" ++ toString source.val ++ " at 0x" ++ Hex.byte pc
  | halting pc registers =>
    "HLT at 0x" ++ Hex.byte pc ++ ", registers [" ++
      ", ".intercalate (registers.toList.map Hex.byte) ++ "]"
  | halted steps => "Halted after " ++ toString steps ++ " instructions"
  | stopped steps fault =>
    "Stopped after " ++ toString steps ++ " instructions: " ++ fault.message
  | flushFailed cause => "Failed to flush stdout: " ++ cause.message

/-- The line of an entry: the name of its level and its text. -/
def line (e : Entry) : String := e.level.name ++ " " ++ e.message

end Entry

/-- The entries at least as severe as a level; without a level, none. -/
def atLeast (limit : Option Level) (entries : List Entry) : List Entry :=
  match limit with
  | none => []
  | some l => entries.filter fun e => e.level.rank ≤ l.rank

end ByteComputer.Log
