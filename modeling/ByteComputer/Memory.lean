import ByteComputer.Text.Hex

/-!
# Memory

256 cells of one byte each. An address is a byte, so every address names a cell and no access can
miss. `Memory.read_write` says what a write changes: one cell, and nothing else.
-/

namespace ByteComputer

structure Memory where
  cells : Vector UInt8 256
deriving DecidableEq

namespace Memory

def size : Nat := 256

def zero : Memory := ⟨Vector.replicate 256 0⟩

def read (m : Memory) (address : UInt8) : UInt8 :=
  have : address.toNat < 256 := address.toNat_lt
  m.cells[address.toNat]

def write (m : Memory) (address value : UInt8) : Memory :=
  ⟨m.cells.set address.toNat value address.toNat_lt⟩

/-- The memory that holds a program from address 0 on and zeros behind it; a program longer than
the memory has none. -/
def ofProgram? (program : List UInt8) : Option Memory :=
  if program.length ≤ size then some ⟨Vector.ofFn fun i => program.getD i 0⟩ else none

/-! ## Reading what was written -/

theorem read_write (m : Memory) (a b v : UInt8) :
    (m.write a v).read b = if a = b then v else m.read b := by
  simp only [read, write, Vector.getElem_set, UInt8.toNat_inj]

@[simp] theorem read_write_self (m : Memory) (a v : UInt8) : (m.write a v).read a = v := by
  simp [read_write]

theorem read_write_of_ne (m : Memory) {a b : UInt8} (v : UInt8) (h : a ≠ b) :
    (m.write a v).read b = m.read b := by
  simp [read_write, h]

@[simp] theorem read_zero (a : UInt8) : zero.read a = 0 := by
  simp [read, zero]

/-- The cell that a number below 256 names as an address. -/
theorem read_ofNat (m : Memory) {i : Nat} (hi : i < 256) :
    m.read (UInt8.ofNat i) = m.cells[i] := by
  simp only [read, UInt8.toNat_ofNat_of_lt' hi]

theorem ext_read {m n : Memory} (h : ∀ a, m.read a = n.read a) : m = n := by
  obtain ⟨cells⟩ := m
  obtain ⟨others⟩ := n
  refine congrArg mk (Vector.ext fun i hi => ?_)
  have hread := h (UInt8.ofNat i)
  rw [read_ofNat _ hi, read_ofNat _ hi] at hread
  exact hread

theorem read_of_ofProgram? {program : List UInt8} {m : Memory} (h : ofProgram? program = some m)
    (a : UInt8) : m.read a = program.getD a.toNat 0 := by
  simp only [ofProgram?] at h
  split at h
  · rw [← Option.some.inj h]
    simp only [read, Vector.getElem_ofFn]
  · contradiction

theorem ofProgram?_eq_none_iff {program : List UInt8} :
    ofProgram? program = none ↔ size < program.length := by
  simp only [ofProgram?]
  split <;> simp <;> omega

/-! ## The dump -/

/-- The sixteen cells from an address on, each as a blank and two digits. -/
def row (m : Memory) (start : UInt8) : String :=
  String.join ((List.range 16).map fun i => " " ++ Hex.byte (m.read (start + i.toUInt8)))

/-- Sixteen lines of sixteen cells, each line led by the address of its first cell. -/
def dump (m : Memory) : String :=
  String.join ((List.range 16).map fun r =>
    let start := (16 * r).toUInt8
    Hex.byte start ++ ":" ++ m.row start ++ "\n")

end Memory

end ByteComputer
