import ByteComputer.Proofs.Text.Columns
import ByteComputer.Proofs.Text.Lines

/-!
# Diagnostic texts

A dump shows the cells of a memory, and a trace line what a machine sees of itself before a step.
Every byte stands in a column of its own there, so it can be read back, and equal texts come from
equal bytes.

* `Memory.WrittenOn`: where a dump has its labels and its cells.
* `Machine.WrittenOn`: where a trace line has its fields.
* `Machine.LooksLike`: machines that no trace line tells apart.
* `diagnostics_read_back`: both texts are read back.
-/

namespace ByteComputer

/-! ## Dumps -/

namespace Memory

/-- A memory on sixteen lines: sixteen cells on each, behind the address of the first of them. -/
structure WrittenOn (m : Memory) (ls : Vector (List Char) 16) : Prop where
  width : ∀ r : Fin 16, ls[r].length = 51
  label : ∀ r : Fin 16, (Hex.at? ls[r] 0).map UInt8.toNat = some (16 * r.val)
  cell : ∀ r c : Fin 16, Hex.at? ls[r] (4 + 3 * c.val) = some m.cells[16 * r.val + c.val]

/-- The sixteen cells from an address on. -/
def rowCells (m : Memory) (start : UInt8) : List UInt8 :=
  (List.range 16).map fun i => m.read (start + i.toUInt8)

/-- What stands in front of the cells that begin at an address. -/
def rowLabel (start : UInt8) : List Char := (Hex.byte start).toList ++ [':']

/-- A line of a dump, without its line feed. -/
def dumpLine (m : Memory) (r : Nat) : List Char :=
  rowLabel (16 * r).toUInt8 ++ Hex.spaced (m.rowCells (16 * r).toUInt8)

/-- The lines of a dump. -/
def dumpLines (m : Memory) : Vector (List Char) 16 := (Vector.range 16).map m.dumpLine

variable (m : Memory)

theorem toList_row (start : UInt8) : (m.row start).toList = Hex.spaced (m.rowCells start) := by
  simp [row, rowCells, Hex.spaced, String.toList_join, List.flatMap_map]

theorem toList_dump :
    m.dump.toList = (List.range 16).flatMap fun r => m.dumpLine r ++ ['\n'] := by
  simp [dump, dumpLine, rowLabel, toList_row, String.toList_join, List.flatMap_map]

theorem newline_not_mem_dumpLine (r : Nat) : '\n' ∉ m.dumpLine r := by
  have hlabel := Hex.not_mem_byte (c := '\n') (by decide) (16 * r).toUInt8
  have hcells := Hex.not_mem_spaced (c := '\n') (by decide) (by decide)
    (m.rowCells (16 * r).toUInt8)
  simp only [dumpLine, rowLabel, List.mem_append, List.mem_singleton, not_or]
  exact ⟨⟨hlabel, by decide⟩, hcells⟩

theorem listed_dump : Text.Listed m.dump.toList m.dumpLines.toList := by
  rw [toList_dump, dumpLines, Vector.toList_map, Vector.toList_range]
  exact Text.listed_flatMap m.newline_not_mem_dumpLine (List.range 16)

theorem getElem_dumpLines (r : Fin 16) : m.dumpLines[r] = m.dumpLine r.val := by
  rw [dumpLines, Fin.getElem_fin, Vector.getElem_map, Vector.getElem_range]

theorem length_rowCells (start : UInt8) : (m.rowCells start).length = 16 := by
  rw [rowCells, List.length_map, List.length_range]

theorem length_rowLabel (start : UInt8) : (rowLabel start).length = 3 := by
  rw [rowLabel, List.length_append, Hex.length_byte]
  rfl

theorem getElem_rowCells (r c : Fin 16) {h : c.val < (m.rowCells (16 * r.val).toUInt8).length} :
    (m.rowCells (16 * r.val).toUInt8)[c.val] = m.cells[16 * r.val + c.val] := by
  have haddress : (16 * r.val).toUInt8 + c.val.toUInt8 = UInt8.ofNat (16 * r.val + c.val) :=
    (UInt8.ofNat_add _ _).symm
  simp only [rowCells, List.getElem_map, List.getElem_range]
  rw [haddress, read_ofNat]

theorem writtenOn_dumpLines : m.WrittenOn m.dumpLines where
  width r := by
    rw [getElem_dumpLines, dumpLine, List.length_append, length_rowLabel, Hex.length_spaced,
      length_rowCells]
  label r := by
    have hlabel : Hex.at? (m.dumpLine r.val) 0 = some (16 * r.val).toUInt8 := by
      rw [dumpLine, rowLabel, List.append_assoc]
      exact Hex.at?_append_left (Hex.at?_byte _) _
    have hr : 16 * r.val < 256 := by omega
    rw [getElem_dumpLines, hlabel, Option.map_some, Nat.toUInt8_eq, UInt8.toNat_ofNat_of_lt' hr]
  cell r c := by
    have hc : c.val < (m.rowCells (16 * r.val).toUInt8).length := by
      rw [length_rowCells]
      exact c.isLt
    have hcolumn : 4 + 3 * c.val = (rowLabel (16 * r.val).toUInt8).length + (3 * c.val + 1) := by
      rw [length_rowLabel]
      omega
    rw [getElem_dumpLines, dumpLine, Hex.at?_append_right hcolumn, Hex.at?_spaced hc,
      getElem_rowCells]

/-- The last cell of the second row. -/
example : (zero.write 0x1F 0xAB).dumpLine 1 =
    "10: 00 00 00 00 00 00 00 00 00 00 00 00 00 00 00 AB".toList := by
  decide

/-- Every cell is in a row and a column. -/
theorem ext_cells {m n : Memory}
    (h : ∀ r c : Fin 16, m.cells[16 * r.val + c.val] = n.cells[16 * r.val + c.val]) : m = n := by
  obtain ⟨cells⟩ := m
  obtain ⟨others⟩ := n
  refine congrArg mk (Vector.ext fun i hi => ?_)
  have hcell := h ⟨i / 16, by omega⟩ ⟨i % 16, by omega⟩
  simpa only [Nat.div_add_mod] using hcell

/-- On the same lines stands one memory only. -/
theorem WrittenOn.unique {m n : Memory} {ls : Vector (List Char) 16} (hm : m.WrittenOn ls)
    (hn : n.WrittenOn ls) : m = n := by
  refine ext_cells fun r c => ?_
  have hsome := (hm.cell r c).symm.trans (hn.cell r c)
  exact Option.some.inj hsome

theorem dump_inj {m n : Memory} : m.dump = n.dump ↔ m = n := by
  constructor
  · intro h
    have hlines : n.dumpLines = m.dumpLines := by
      have hlisted := n.listed_dump
      rw [← h, Text.listed_iff m.listed_dump] at hlisted
      exact Vector.toList_inj.1 hlisted
    have hn := n.writtenOn_dumpLines
    rw [hlines] at hn
    exact m.writtenOn_dumpLines.unique hn
  · rintro rfl
    rfl

end Memory

/-! ## Trace lines -/

namespace Snapshot

/-- What a trace line begins with. -/
def mark : List Char := "TRACE: ".toList

/-- What ends a part of a trace line. -/
def bar : List Char := " |".toList

/-- The bytes from the program counter on. -/
def window (s : Snapshot) : List UInt8 := [s.opcode, s.first, s.second]

/-- A trace line as far as the bar behind the program counter. -/
def lead (s : Snapshot) : List Char := mark ++ ((Hex.byte s.pc).toList ++ bar)

/-- A trace line as far as the bar in front of the registers. -/
def front (s : Snapshot) : List Char := s.lead ++ (Hex.spaced s.window ++ bar)

variable (s : Snapshot)

theorem length_mark : mark.length = 7 := rfl

theorem length_bar : bar.length = 2 := rfl

theorem length_lead : s.lead.length = 11 := by
  rw [lead, List.length_append, List.length_append, Hex.length_byte, length_mark, length_bar]

theorem length_front : s.front.length = 22 := by
  have hwindow : (Hex.spaced s.window).length = 9 := Hex.length_spaced s.window
  rw [front, List.length_append, length_lead, List.length_append, hwindow, length_bar]

theorem toList_line : s.line.toList = s.front ++ Hex.spaced s.registers.toList := by
  have hregisters : s.registers.toList ≠ [] := by
    intro h
    simpa [h] using s.registers.length_toList
  have hwindow : s.window ≠ [] := List.cons_ne_nil _ _
  have hbar : " | ".toList = bar ++ [' '] := rfl
  rw [front, ← Hex.toList_separated hregisters, ← Hex.toList_separated hwindow]
  unfold line lead
  simp only [String.toList_append]
  rw [hbar]
  simp only [List.append_assoc, List.cons_append, List.nil_append]
  rfl

theorem length_line : s.line.toList.length = 46 := by
  rw [toList_line, List.length_append, length_front, Hex.length_spaced, Vector.length_toList]

theorem at?_line_pc : Hex.at? s.line.toList 7 = some s.pc := by
  have hcolumn : 7 = mark.length + 0 := rfl
  rw [toList_line, front, lead]
  -- the mark, the byte, and what is behind it
  simp only [List.append_assoc]
  rw [Hex.at?_append_right hcolumn]
  exact Hex.at?_append_left (Hex.at?_byte s.pc) _

theorem at?_line_window {i : Nat} (hi : i < s.window.length) :
    Hex.at? s.line.toList (12 + 3 * i) = some s.window[i] := by
  have hcolumn : 12 + 3 * i = s.lead.length + (3 * i + 1) := by
    rw [length_lead]
    omega
  rw [toList_line, front]
  apply Hex.at?_append_left
  rw [Hex.at?_append_right hcolumn]
  exact Hex.at?_append_left (Hex.at?_spaced hi) bar

theorem at?_line_register {i : Nat} (hi : i < 8) :
    Hex.at? s.line.toList (23 + 3 * i) = some s.registers[i] := by
  have hlength : i < s.registers.toList.length := by
    rw [Vector.length_toList]
    exact hi
  have hcolumn : 23 + 3 * i = s.front.length + (3 * i + 1) := by
    rw [length_front]
    omega
  rw [toList_line, Hex.at?_append_right hcolumn, Hex.at?_spaced hlength, Vector.getElem_toList]

end Snapshot

namespace Machine

/-- A machine on a trace line: the program counter, the three bytes from there on, whose addresses
wrap around, and the eight registers. -/
structure WrittenOn (m : Machine) (line : List Char) : Prop where
  width : line.length = 46
  pc : Hex.at? line 7 = some m.pc
  opcode : Hex.at? line 12 = some (m.read m.pc)
  first : Hex.at? line 15 = some (m.read (m.pc + 1))
  second : Hex.at? line 18 = some (m.read (m.pc + 2))
  register : ∀ r : Register, Hex.at? line (23 + 3 * r.val) = some (m.register r)

/-- Machines with the same program counter, the same three bytes from there on and the same
registers. -/
structure LooksLike (m n : Machine) : Prop where
  pc : m.pc = n.pc
  opcode : m.read m.pc = n.read n.pc
  first : m.read (m.pc + 1) = n.read (n.pc + 1)
  second : m.read (m.pc + 2) = n.read (n.pc + 2)
  register : ∀ r : Register, m.register r = n.register r

variable {m n : Machine}

theorem writtenOn_line (m : Machine) : m.WrittenOn m.snapshot.line.toList where
  width := m.snapshot.length_line
  pc := m.snapshot.at?_line_pc
  opcode := m.snapshot.at?_line_window (show 0 < 3 by decide)
  first := m.snapshot.at?_line_window (show 1 < 3 by decide)
  second := m.snapshot.at?_line_window (show 2 < 3 by decide)
  register r := m.snapshot.at?_line_register r.isLt

/-- Machines on the same line look alike. -/
theorem WrittenOn.looksLike {line : List Char} (hm : m.WrittenOn line) (hn : n.WrittenOn line) :
    m.LooksLike n where
  pc := Option.some.inj (hm.pc.symm.trans hn.pc)
  opcode := Option.some.inj (hm.opcode.symm.trans hn.opcode)
  first := Option.some.inj (hm.first.symm.trans hn.first)
  second := Option.some.inj (hm.second.symm.trans hn.second)
  register r := Option.some.inj ((hm.register r).symm.trans (hn.register r))

theorem LooksLike.snapshot_eq (h : m.LooksLike n) : m.snapshot = n.snapshot := by
  have hregisters : m.registers.values = n.registers.values :=
    Vector.ext fun i hi => h.register ⟨i, hi⟩
  rw [snapshot, h.opcode, h.first, h.second, h.pc, hregisters, snapshot]

theorem line_eq_iff : m.snapshot.line = n.snapshot.line ↔ m.LooksLike n := by
  constructor
  · intro h
    have hm := m.writtenOn_line
    rw [h] at hm
    exact hm.looksLike n.writtenOn_line
  · intro h
    rw [h.snapshot_eq]

end Machine

/-! ## Both texts -/

/-- **Diagnostic texts are read back.** A dump is sixteen lines, each with its end, and on them each
cell of the memory stands in its row and column, behind the address of the row; so equal dumps are
dumps of one memory. A trace line has the program counter, the bytes from there on and the registers
in columns of their own; so two machines have the same trace line if and only if they agree on
those. -/
theorem diagnostics_read_back :
    (∀ m : Memory, ∃ ls : Vector (List Char) 16,
      (∀ ms, Text.Listed m.dump.toList ms ↔ ms = ls.toList) ∧ m.WrittenOn ls) ∧
    (∀ m n : Memory, m.dump = n.dump ↔ m = n) ∧
    (∀ m : Machine, m.WrittenOn m.snapshot.line.toList) ∧
    ∀ m n : Machine, m.snapshot.line = n.snapshot.line ↔ m.LooksLike n := by
  refine ⟨fun m => ?_, fun m n => Memory.dump_inj, Machine.writtenOn_line,
    fun m n => Machine.line_eq_iff⟩
  exact ⟨m.dumpLines, fun ms => Text.listed_iff m.listed_dump, m.writtenOn_dumpLines⟩

/-- The last address with the two behind it, which are the first two of the memory. -/
example :
    let memory := ((Memory.zero.write 0xFF 0x82).write 0 0x07).write 1 0xA5
    ({ memory, pc := 0xFF } : Machine).snapshot.line =
      "TRACE: FF | 82 07 A5 | 00 00 00 00 00 00 00 F4" := by
  decide

end ByteComputer
