import ByteComputer.Machine.Operation
import ByteComputer.Proofs.Cycle.Handling

/-!
# The order of work in loading

A program is loaded by actions like those of a cycle, one check or change at a time: the program is
measured, the memory cleared and the program copied into it byte by byte, then the stack floor is
set, the machine is reset part by part, and the log is told. What a fault in the middle has changed
by then stays changed.

`Machine.install` decides at once and takes the whole memory for a program from
`Memory.ofProgram?`.

* `Memory.ofProgram?_eq_writeAll`: that memory is the one that is cleared and copied into.
* `Machine.loading_eq_install`: the actions come to the same as `Machine.install`; in particular
  nothing has been changed when a program is refused.
-/

namespace ByteComputer

/-! ## Copying -/

namespace Memory

/-- Fills the cells from an address on with bytes, one after the other. -/
def writeAll (m : Memory) (start : Nat) : List UInt8 → Memory
  | [] => m
  | b :: bs => (m.write (UInt8.ofNat start) b).writeAll (start + 1) bs

theorem read_writeAll_of_outside {start : Nat} {bs : List UInt8} {a : UInt8}
    (hfits : start + bs.length ≤ 256)
    (houtside : a.toNat < start ∨ start + bs.length ≤ a.toNat) (m : Memory) :
    (m.writeAll start bs).read a = m.read a := by
  induction bs generalizing m start with
  | nil => rfl
  | cons b bs ih =>
    rw [List.length_cons] at hfits houtside
    have hstart : (UInt8.ofNat start).toNat = start :=
      UInt8.toNat_ofNat_of_lt' (show start < 256 by omega)
    have hne : UInt8.ofNat start ≠ a := by
      rintro rfl
      omega
    rw [writeAll, ih (by omega) (by omega), read_write_of_ne m b hne]

theorem read_writeAll_inside {start i : Nat} {bs : List UInt8} (hfits : start + bs.length ≤ 256)
    (hi : i < bs.length) (m : Memory) :
    (m.writeAll start bs).read (UInt8.ofNat (start + i)) = bs[i] := by
  induction bs generalizing m start i with
  | nil => exact absurd hi (Nat.not_lt_zero i)
  | cons b bs ih =>
    rw [List.length_cons] at hfits hi
    have htail : start + 1 + bs.length ≤ 256 := by omega
    rw [writeAll]
    cases i with
    | zero =>
      -- the bytes behind the first one do not reach back to its cell
      have hstart : (UInt8.ofNat start).toNat = start :=
        UInt8.toNat_ofNat_of_lt' (show start < 256 by omega)
      have hbefore : (UInt8.ofNat start).toNat < start + 1 := by
        rw [hstart]
        exact Nat.lt_succ_self start
      rw [Nat.add_zero start, read_writeAll_of_outside htail (Or.inl hbefore), read_write_self]
      rfl
    | succ i =>
      have hcell : start + (i + 1) = start + 1 + i := by omega
      rw [hcell]
      exact ih htail (Nat.lt_of_succ_lt_succ hi) _

/-- The memory for a program is what copying makes of a memory that has been cleared. -/
theorem ofProgram?_eq_writeAll {program : List UInt8} (hsize : program.length ≤ size) :
    ofProgram? program = some (zero.writeAll 0 program) := by
  obtain ⟨memory, hmemory⟩ := Option.ne_none_iff_exists'.1
    (mt ofProgram?_eq_none_iff.1 (Nat.not_lt.2 hsize))
  have hfits : 0 + program.length ≤ 256 := by
    rw [Nat.zero_add]
    exact hsize
  rw [hmemory]
  refine congrArg some (ext_read fun a => ?_)
  rw [read_of_ofProgram? hmemory]
  by_cases ha : a.toNat < program.length
  · have hread := read_writeAll_inside hfits ha zero
    rw [Nat.zero_add, UInt8.ofNat_toNat] at hread
    rw [hread]
    exact (List.getElem_eq_getD 0).symm
  · rw [read_writeAll_of_outside hfits (by omega), read_zero, List.getD_eq_getElem?_getD,
      List.getElem?_eq_none (Nat.le_of_not_lt ha)]
    rfl

end Memory

/-! ## The actions -/

namespace Action

variable {κ : Type}

/-- Copies bytes into the memory, one after the other, from an address on. -/
def copy (start : Nat) : List UInt8 → Action κ Unit
  | [] => return
  | b :: bs => do
    change (·.write (UInt8.ofNat start) b)
    copy (start + 1) bs

/-- Clears the memory and copies a program to its beginning, if there is room for it. -/
def fill (program : List UInt8) : Action κ Unit := do
  if Memory.size < program.length then throw (.programTooLarge program.length)
  change ({ · with memory := .zero })
  copy 0 program

def reset : Action κ Unit := do
  change ({ · with registers := .powerOn })
  change ({ · with pc := 0 })
  change ({ · with state := .running })
  change ({ · with steps := 0 })

def load (program : List UInt8) : Action κ State := do
  fill program
  change ({ · with stackFloor := program.length })
  reset
  note (.loadedProgram program.length)
  return (← machine).state

/-! ## What they do -/

theorem copy_apply (start : Nat) (bs : List UInt8) (b : Bench κ) :
    copy start bs b =
      some (.ok (),
        { b with
          machine := { b.machine with memory := b.machine.memory.writeAll start bs } }) := by
  induction bs generalizing start b with
  | nil => rfl
  | cons byte bs ih =>
    rw [copy, bind_apply, change_apply]
    exact ih (start + 1) _

theorem fill_apply_of_le {program : List UInt8} (hsize : program.length ≤ Memory.size)
    (b : Bench κ) :
    fill program b =
      some (.ok (),
        { b with machine := { b.machine with memory := Memory.zero.writeAll 0 program } }) := by
  simp only [fill, if_neg (Nat.not_lt.2 hsize), bind_apply, change_apply, copy_apply]

/-- A program that is too long is refused before the memory is cleared. -/
theorem fill_apply_of_lt {program : List UInt8} (hsize : Memory.size < program.length)
    (b : Bench κ) : fill program b = some (.error (.programTooLarge program.length), b) := by
  simp only [fill, if_pos hsize, bind_apply, throw_apply]

theorem reset_apply (b : Bench κ) :
    reset b = some (.ok (), { b with machine := b.machine.reset }) := rfl

end Action

/-! ## Loading -/

namespace Machine

variable {κ : Type}

/-- Loading a program, taken one action at a time. -/
def loading (m : Machine) (program : List UInt8) (c : κ) : Option (Transition κ) :=
  (Action.load program ⟨m, c, []⟩).map fun (result, b) => ⟨result, b.machine, b.console, b.log⟩

/-- **Loading one action at a time** has an answer, and it is that of loading at once. A program
that is too long leaves behind the machine that was there. -/
theorem loading_eq_install [Console κ] (m : Machine) (program : List UInt8) (c : κ) :
    m.loading program c = some (m.install program c) := by
  unfold loading install load Action.load
  by_cases hsize : program.length ≤ Memory.size
  · rw [Memory.ofProgram?_eq_writeAll hsize, Action.bind_apply, Action.fill_apply_of_le hsize]
    rfl
  · have hlong := Nat.lt_of_not_le hsize
    rw [Memory.ofProgram?_eq_none_iff.2 hlong, Action.bind_apply, Action.fill_apply_of_lt hlong]
    rfl

end Machine

end ByteComputer
