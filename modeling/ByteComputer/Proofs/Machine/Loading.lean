import ByteComputer.Machine.Basic

/-!
# Loading a program

A program of at most 256 bytes can be loaded into every machine (`Machine.exists_load_iff`). What is
left of the machine is its configuration (`Machine.frame_of_load`); the memory holds the program and
zeros behind it, and all else is as at power-on.
-/

namespace ByteComputer.Machine

theorem load_eq_ok_iff {m fresh : Machine} {program : List UInt8} :
    m.load program = .ok fresh ↔
      ∃ memory, Memory.ofProgram? program = some memory ∧
        fresh = { m with memory, stackFloor := program.length }.reset := by
  unfold load
  split
  · rename_i memory hmemory
    rw [hmemory]
    constructor
    · intro h
      exact ⟨memory, rfl, (Except.ok.inj h).symm⟩
    · rintro ⟨_, h, rfl⟩
      rw [Option.some.inj h]
  · rename_i hmemory
    simp [hmemory]

theorem exists_load_iff {m : Machine} {program : List UInt8} :
    (∃ fresh, m.load program = .ok fresh) ↔ program.length ≤ 256 := by
  constructor
  · rintro ⟨fresh, hload⟩
    obtain ⟨memory, hmemory, -⟩ := load_eq_ok_iff.1 hload
    refine Nat.le_of_not_lt fun hlt => ?_
    rw [Memory.ofProgram?_eq_none_iff.2 hlt] at hmemory
    cases hmemory
  · intro hle
    obtain ⟨memory, hmemory⟩ := Option.ne_none_iff_exists'.1
      (mt Memory.ofProgram?_eq_none_iff.1 (Nat.not_lt.2 hle))
    exact ⟨_, load_eq_ok_iff.2 ⟨memory, hmemory, rfl⟩⟩

variable {origin fresh : Machine} {program : List UInt8}

theorem length_le_of_load (hload : origin.load program = .ok fresh) : program.length ≤ 256 :=
  exists_load_iff.1 ⟨fresh, hload⟩

theorem frame_of_load (hload : origin.load program = .ok fresh) :
    fresh.stackFloor = program.length ∧ fresh.config = origin.config ∧
      ∀ a : UInt8, fresh.read a = program.getD a.toNat 0 := by
  obtain ⟨memory, hmemory, rfl⟩ := load_eq_ok_iff.1 hload
  exact ⟨rfl, rfl, fun a => Memory.read_of_ofProgram? hmemory a⟩

/-- The cells after loading, from address 0 on. -/
theorem cells_of_load (hload : origin.load program = .ok fresh) :
    fresh.memory.cells.toList = program ++ List.replicate (256 - program.length) 0 := by
  have hsize := length_le_of_load hload
  have hread := (frame_of_load hload).2.2
  refine List.ext_getElem ?_ fun i hi _ => ?_
  · rw [Vector.length_toList, List.length_append, List.length_replicate]
    omega
  · rw [Vector.length_toList] at hi
    have hcell := hread (UInt8.ofNat i)
    rw [read, Memory.read_ofNat _ hi, UInt8.toNat_ofNat_of_lt' hi] at hcell
    rw [Vector.getElem_toList, hcell, List.getElem_append]
    split
    · exact (List.getElem_eq_getD 0).symm
    · rename_i hge
      rw [List.getElem_replicate, List.getD_eq_getElem?_getD,
        List.getElem?_eq_none (Nat.le_of_not_lt hge)]
      rfl

theorem pc_of_load (hload : origin.load program = .ok fresh) : fresh.pc = 0 := by
  obtain ⟨memory, -, rfl⟩ := load_eq_ok_iff.1 hload
  rfl

theorem state_of_load (hload : origin.load program = .ok fresh) : fresh.state = .running := by
  obtain ⟨memory, -, rfl⟩ := load_eq_ok_iff.1 hload
  rfl

/-- A run of a machine that is running begins with that machine. -/
theorem running_eq_self {m : Machine} (h : m.state = .running) :
    { m with state := .running } = m := by
  rw [← h]

end ByteComputer.Machine
