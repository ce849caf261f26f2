import ByteComputer.Proofs.Machine.Outcome

/-!
# The cells of a step

Which cells of the memory a step reads, and which one it fills. Whatever the other cells hold, the
step does the same, and fills the same cell with the same.

* `Machine.cellsRead`: the cells of the instruction, as many as its opcode says, and the cell that
  it loads or pops.
* `Machine.stores?`: the cell that is filled, and what it is filled with.
* `Machine.step_withMemory`: the step in another memory that holds the same in the cells that are
  read.
-/

namespace ByteComputer

/-- The machine with another memory. -/
def Machine.withMemory (m : Machine) (memory : Memory) : Machine := { m with memory }

/-- The transition with another memory at its end. -/
def Transition.withMemory {κ : Type} (t : Transition κ) (memory : Memory) : Transition κ :=
  { t with machine := t.machine.withMemory memory }

/-! ## Cells that are filled -/

/-- The memory with one cell filled, or with none. -/
def Memory.fill (memory : Memory) : Option (UInt8 × UInt8) → Memory
  | some (address, value) => memory.write address value
  | none => memory

theorem Memory.read_fill_some (memory : Memory) (a v : UInt8) :
    (memory.fill (some (a, v))).read a = v := memory.read_write_self a v

theorem Memory.read_fill_of_ne {memory : Memory} {stored : Option (UInt8 × UInt8)} {a : UInt8}
    (h : ∀ v, stored ≠ some (a, v)) : (memory.fill stored).read a = memory.read a := by
  match stored with
  | none => rfl
  | some (b, v) =>
    have hne : b ≠ a := by
      rintro rfl
      exact h v rfl
    exact memory.read_write_of_ne v hne

/-! ## How many bytes are decoded -/

theorem Opcode.length_pos (op : Opcode) : 0 < op.length.toNat := by
  cases op with
  | jump condition => simp [length_jump]
  | unary op => simp [length_unary]
  | binary op => simp [length_binary]
  | _ => decide

/-- Decoding does not look behind the bytes that the opcode counts. -/
theorem Instruction.decode_congr {op : Opcode} {first second first' second' : UInt8}
    (hfirst : 1 < op.length.toNat → first' = first)
    (hsecond : 2 < op.length.toNat → second' = second) :
    decode op first' second' = decode op first second := by
  cases op with
  | nop | halt | ret => rfl
  | loadImmediate | load | store | compare => rw [hfirst (by decide), hsecond (by decide)]
  | binary op =>
    rw [Opcode.length_binary] at hfirst hsecond
    rw [hfirst (by decide), hsecond (by decide)]
  | push | pop | printNumber | printChar | call =>
    rw [hfirst (by decide)]
    rfl
  | jump condition =>
    rw [Opcode.length_jump] at hfirst
    rw [hfirst (by decide)]
    rfl
  | unary op =>
    rw [Opcode.length_unary] at hfirst
    rw [hfirst (by decide)]
    rfl

namespace Machine

variable {m : Machine} {memory : Memory} {i : Instruction}

/-! ## What a step reads and fills -/

/-- The cells of the instruction at the program counter: as many as its opcode says. Of a byte that
is no opcode there is no more to read. -/
def instructionCells (m : Machine) : List UInt8 :=
  match Opcode.ofByte? (m.read m.pc) with
  | some op => (List.range op.length.toNat).map fun k => m.pc + k.toUInt8
  | none => [m.pc]

/-- The cells that an instruction reads as data. -/
def dataCells (m : Machine) : Instruction → List UInt8
  | .load _ address => [m.register address]
  | .pop _ | .ret => [m.sp]
  | _ => []

/-- The cell that an instruction fills, and what it fills it with. -/
def stored? (m : Machine) : Instruction → Option (UInt8 × UInt8)
  | .store address source => some (m.register address, m.register source)
  | .push source => some (m.sp - 1, m.register source)
  | .call _ => some (m.sp - 1, m.pc + 2)
  | _ => none

/-- The cells that the next step reads. A machine that has halted reads none. -/
def cellsRead (m : Machine) : List UInt8 :=
  match m.state, m.ready with
  | .running, .ok i => m.instructionCells ++ m.dataCells i
  | .running, .error _ => m.instructionCells
  | .halted, _ => []

/-- The cell that the next step fills, and what it fills it with. -/
def stores? (m : Machine) : Option (UInt8 × UInt8) :=
  match m.state, m.ready with
  | .running, .ok i => m.stored? i
  | _, _ => none

theorem instructionCells_subset_cellsRead (hstate : m.state = .running) :
    m.instructionCells ⊆ m.cellsRead := by
  unfold cellsRead
  rw [hstate]
  cases m.ready with
  | ok i => exact List.subset_append_left _ _
  | error fault => exact List.Subset.refl _

theorem dataCells_subset_cellsRead (hstate : m.state = .running) (hready : m.ready = .ok i) :
    m.dataCells i ⊆ m.cellsRead := by
  simp only [cellsRead, hstate, hready]
  exact List.subset_append_right _ _

theorem stores?_of_ready (hstate : m.state = .running) (hready : m.ready = .ok i) :
    m.stores? = m.stored? i := by
  simp only [stores?, hstate, hready]

/-! ## The instruction in another memory -/

theorem mem_instructionCells {op : Opcode} (hop : Opcode.ofByte? (m.read m.pc) = some op) {k : Nat}
    (hk : k < op.length.toNat) : m.pc + k.toUInt8 ∈ m.instructionCells := by
  simp only [instructionCells, hop]
  exact List.mem_map_of_mem (List.mem_range.2 hk)

theorem pc_mem_instructionCells (m : Machine) : m.pc ∈ m.instructionCells := by
  cases hop : Opcode.ofByte? (m.read m.pc) with
  | none => simp [instructionCells, hop]
  | some op => simpa using mem_instructionCells hop op.length_pos

theorem fetch_withMemory (hread : ∀ a ∈ m.instructionCells, memory.read a = m.read a) :
    (m.withMemory memory).fetch = m.fetch := by
  have hbyte : (m.withMemory memory).read (m.withMemory memory).pc = m.read m.pc :=
    hread _ m.pc_mem_instructionCells
  cases hop : Opcode.ofByte? (m.read m.pc) with
  | none =>
    simp only [fetch, hbyte, hop]
    rfl
  | some op =>
    have hdecode : Instruction.decode op (memory.read (m.pc + 1)) (memory.read (m.pc + 2)) =
        Instruction.decode op (m.read (m.pc + 1)) (m.read (m.pc + 2)) :=
      Instruction.decode_congr (fun h => hread _ (mem_instructionCells hop h))
        (fun h => hread _ (mem_instructionCells hop h))
    simp only [fetch, hbyte, hop, ← hdecode]
    rfl

theorem ready_withMemory (hread : ∀ a ∈ m.instructionCells, memory.read a = m.read a) :
    (m.withMemory memory).ready = m.ready := by
  have hstack : (m.withMemory memory).stackFault? = m.stackFault? := by
    funext i
    cases i <;> rfl
  simp only [ready, fetch_withMemory hread, hstack]

/-! ## Its execution in another memory -/

theorem output?_withMemory : (m.withMemory memory).output? i = m.output? i := by
  cases i <;> rfl

theorem notes_withMemory : (m.withMemory memory).notes i = m.notes i := by
  cases i <;> rfl

theorem refused_withMemory : (m.withMemory memory).refused i = (m.refused i).withMemory memory := by
  cases i <;> rfl

theorem effect_withMemory (hread : ∀ a ∈ m.dataCells i, memory.read a = m.read a) :
    (m.withMemory memory).effect i = (m.effect i).withMemory (memory.fill (m.stored? i)) := by
  cases i with
  | load target address =>
    have hdata : (m.withMemory memory).read ((m.withMemory memory).register address) =
        m.read (m.register address) := hread _ List.mem_cons_self
    simp only [effect, hdata]
    rfl
  | pop target =>
    have hdata : (m.withMemory memory).top = m.top := hread _ List.mem_cons_self
    simp only [effect, hdata]
    rfl
  | binary op target source =>
    exact effect_binary_comm (f := (withMemory · memory)) rfl (fun _ _ => rfl) op target source
  | _ => rfl

theorem successor_withMemory (hread : ∀ a ∈ m.dataCells i, memory.read a = m.read a) :
    (m.withMemory memory).successor i = m.successor i := by
  cases i with
  | ret => exact hread _ List.mem_cons_self
  | _ => rfl

theorem execute_withMemory (hread : ∀ a ∈ m.dataCells i, memory.read a = m.read a) :
    (m.withMemory memory).execute i = (m.execute i).withMemory (memory.fill (m.stored? i)) := by
  simp only [execute, effect_withMemory hread, successor_withMemory hread]
  rfl

/-- An instruction that writes to the console fills no cell. -/
theorem stored?_of_output {o : Output} (houtput : m.output? i = some o) : m.stored? i = none := by
  cases i with
  | halt | printNumber | printChar => rfl
  | _ => cases houtput

/-! ## The step in another memory -/

variable {κ : Type} [Console κ]

theorem traceNotes_withMemory (htrace : m.config.trace = false) :
    (m.withMemory memory).traceNotes = m.traceNotes := by
  have htrace' : (m.withMemory memory).config.trace = false := htrace
  simp [traceNotes, htrace, htrace']

/-- A step that is not traced depends on the memory only where it reads it. -/
theorem step_withMemory (htrace : m.config.trace = false)
    (hread : ∀ a ∈ m.cellsRead, memory.read a = m.read a) (c : κ) :
    (m.withMemory memory).step c = (m.step c).withMemory (memory.fill m.stores?) := by
  have hstate : (m.withMemory memory).state = m.state := rfl
  have hready : m.state = .running → (m.withMemory memory).ready = m.ready := fun hrunning =>
    ready_withMemory fun a ha => hread a (instructionCells_subset_cellsRead hrunning ha)
  have hjoint := jointOutcome_step hstate hready (fun _ => output?_withMemory) c
  generalize m.step c = t, (m.withMemory memory).step c = u at hjoint ⊢
  cases hjoint with
  | atRest hstate =>
    have hstores : m.stores? = none := by simp [stores?, hstate]
    rw [hstores]
    rfl
  | @faulted fault c hstate hfault =>
    have hstores : m.stores? = none := by simp [stores?, hstate, hfault]
    rw [hstores, traceNotes_withMemory htrace]
    rfl
  | @executed i d hstate hi =>
    have hexecute : (m.withMemory memory).execute i =
        (m.execute i).withMemory (memory.fill (m.stored? i)) :=
      execute_withMemory fun a ha => hread a (dataCells_subset_cellsRead hstate hi ha)
    rw [stores?_of_ready hstate hi, traceNotes_withMemory htrace, notes_withMemory, hexecute]
    rfl
  | @refused i o d e hstate hi houtput =>
    have hstores : m.stores? = none :=
      (stores?_of_ready hstate hi).trans (stored?_of_output houtput)
    rw [hstores, traceNotes_withMemory htrace, notes_withMemory, refused_withMemory]
    rfl

/-- The memory after a step is that before it, with a cell filled. -/
theorem memory_step (htrace : m.config.trace = false) (c : κ) :
    (m.step c).machine.memory = m.memory.fill m.stores? := by
  have hsame : m.step c = (m.step c).withMemory (m.memory.fill m.stores?) :=
    step_withMemory htrace (fun _ _ => rfl) c
  exact congrArg (fun t => t.machine.memory) hsame

end Machine

end ByteComputer
