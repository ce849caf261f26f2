import ByteComputer.Machine.Basic

/-!
# Snapshots

What a trace shows of a machine before a step: the program counter, the three bytes from there on,
and the registers.
-/

namespace ByteComputer

/-- The part of a machine that a trace shows. -/
structure Snapshot where
  pc : UInt8
  opcode : UInt8
  first : UInt8
  second : UInt8
  registers : Vector UInt8 8
deriving DecidableEq

/-- The snapshot of a machine. The addresses behind the program counter wrap around. -/
def Machine.snapshot (m : Machine) : Snapshot where
  pc := m.pc
  opcode := m.read m.pc
  first := m.read (m.pc + 1)
  second := m.read (m.pc + 2)
  registers := m.registers.values

/-- Bytes in hexadecimal, a blank between each two. -/
def Hex.separated (bs : List UInt8) : String := " ".intercalate (bs.map Hex.byte)

def Snapshot.line (s : Snapshot) : String :=
  "TRACE: " ++ Hex.byte s.pc ++ " | " ++ Hex.separated [s.opcode, s.first, s.second] ++ " | " ++
    Hex.separated s.registers.toList

end ByteComputer
