import ByteComputer.Console.Transcript
import ByteComputer.Proofs.Atomicity

/-!
# The stack in memory

The cells from the stack pointer up to the base of the stack, read as a list, are a stack: what an
instruction does to the list is what its name says (`Machine.Serves`), as long as no other
instruction touches the stack pointer or those cells (`Machine.KeepsStack`).

* `Machine.serves_execute`: one instruction, on a machine whose stack pointer is where it belongs
  (`Machine.Upright`).
* `Machine.upright_of_reaches`: the invariant, along every run; `Machine.reaches_advance` and
  `Machine.upright_run` say that the runs of a program are among these.
* `Machine.stack_of_reaches`: a run from a freshly loaded program works on a stack, which is full
  when it has come down to the program and empty at the start.
-/

namespace ByteComputer

/-- The opcodes that are about the stack. -/
def Opcode.stacks : Opcode → Bool
  | .push | .pop | .call | .ret => true
  | _ => false

namespace Machine

/-! ## The cells of the stack -/

/-- The bytes on the stack, the top first. -/
def stack (m : Machine) : List UInt8 :=
  (List.range' m.sp.toNat (0xF4 - m.sp.toNat)).map fun n => m.read n.toUInt8

theorem length_stack (m : Machine) : m.stack.length = 0xF4 - m.sp.toNat := by
  simp [stack]

/-- The stack depends on the stack pointer and on the cells from there to the base. -/
theorem stack_congr {m n : Machine} (hsp : n.sp = m.sp)
    (hread : ∀ a : UInt8, m.sp ≤ a → a < Registers.stackBase → n.read a = m.read a) :
    n.stack = m.stack := by
  unfold stack
  rw [hsp]
  refine List.map_congr_left fun k hk => ?_
  obtain ⟨hlow, hhigh⟩ := List.mem_range'_1.1 hk
  have hsize : k < UInt8.size := by
    show k < 256
    omega
  have hk : k.toUInt8.toNat = k := UInt8.toNat_ofNat_of_lt' hsize
  apply hread
  · exact UInt8.le_iff_toNat_le.2 (by omega)
  · refine UInt8.lt_iff_toNat_lt.2 ?_
    show _ < 0xF4
    omega

theorem stack_eq_of_registers {m n : Machine} (hsp : n.sp = m.sp)
    (hread : ∀ a, n.read a = m.read a) : n.stack = m.stack :=
  stack_congr hsp fun a _ _ => hread a

theorem stack_eq_cons {m : Machine} (h : m.sp.toNat < 0xF4) :
    m.stack = m.top :: m.dropTop.stack := by
  have hsp := toNat_sp_dropTop h
  have hlength : 0xF4 - m.sp.toNat = (0xF4 - (m.sp.toNat + 1)) + 1 := by omega
  unfold stack
  rw [hsp, hlength, List.range'_succ, List.map_cons]
  refine List.cons_eq_cons.2 ⟨?_, rfl⟩
  show m.read m.sp.toNat.toUInt8 = m.read m.sp
  rw [show m.sp.toNat.toUInt8 = m.sp from UInt8.ofNat_toNat]

theorem stack_eq_nil_iff {m : Machine} (h : m.sp.toNat ≤ 0xF4) :
    m.stack = [] ↔ 0xF4 ≤ m.sp.toNat := by
  rw [← List.length_eq_zero_iff, length_stack]
  omega

theorem stack_pushByte {m : Machine} {v : UInt8} (hpos : 0 < m.sp.toNat) (hle : m.sp.toNat ≤ 0xF4) :
    (m.pushByte v).stack = v :: m.stack := by
  have hsp : (m.pushByte v).sp.toNat = m.sp.toNat - 1 := toNat_sp_pushByte hpos
  have hlt : (m.pushByte v).sp.toNat < 0xF4 := by omega
  rw [stack_eq_cons hlt]
  refine List.cons_eq_cons.2 ⟨?_, stack_congr ?_ fun a hlow _ => ?_⟩
  · show (m.pushByte v).read (m.pushByte v).sp = v
    rw [sp_pushByte, read_pushByte, if_pos rfl]
  · rw [sp_dropTop, sp_pushByte, UInt8.sub_add_cancel]
  · -- the cell that was filled lies below the others
    have hne : m.sp - 1 ≠ a := by
      rintro rfl
      have hbelow := UInt8.le_iff_toNat_le.1 hlow
      rw [sp_pushByte] at hsp
      omega
    rw [read_dropTop, read_pushByte, if_neg hne]

/-! ## Instructions on a stack -/

/-- An instruction leaves the stack pointer and the cells of the stack to the stack. -/
def KeepsStack (m : Machine) : Instruction → Prop
  | .loadImmediate target _ | .load target _ | .pop target | .unary _ target | .binary _ target _ =>
    target ≠ Register.stackPointer
  | .store address _ => ¬ (m.sp ≤ m.register address ∧ m.register address < Registers.stackBase)
  | _ => True

/-- What an instruction that turns `m` into `n` does to the stack. -/
def Serves (m n : Machine) : Instruction → Prop
  | .push source => n.stack = m.register source :: m.stack
  | .call _ => n.stack = (m.pc + 2) :: m.stack
  | .pop target => m.stack = n.register target :: n.stack
  | .ret => m.stack = n.pc :: n.stack
  | _ => n.stack = m.stack

/-- A machine with the stack pointer in its range, and calls that respect the stack floor. -/
structure Upright (floor : Nat) (m : Machine) : Prop where
  guarded : m.config.guardCall = true
  floor_eq : m.stackFloor = floor
  sp_le : m.sp.toNat ≤ 0xF4

variable {floor : Nat}

theorem sp_of_push {m : Machine} {i : Instruction} (hm : m.Upright floor)
    (hready : m.ready = .ok i) (hi : i.opcode = .push ∨ i.opcode = .call) :
    floor < m.sp.toNat := by
  have hlt := floor_lt_of_ready hready (hi.imp_right fun hcall => ⟨hcall, hm.guarded⟩)
  rw [hm.floor_eq] at hlt
  exact hlt

theorem stack_setRegister {m : Machine} {r : Register} (hr : r ≠ Register.stackPointer)
    (v : UInt8) : (m.setRegister r v).stack = m.stack :=
  stack_eq_of_registers (sp_setRegister_of_ne m v hr) fun _ => rfl

/-- The instructions that are not about the stack. -/
theorem aside_effect {m : Machine} {i : Instruction} (hkeeps : m.KeepsStack i)
    (hi : i.opcode.stacks = false) :
    (m.effect i).sp = m.sp ∧ (m.effect i).stack = m.stack := by
  cases i with
  | push source | pop target | call target | ret => cases hi
  | loadImmediate target value | load target address | unary op target =>
    exact ⟨sp_setRegister_of_ne m _ hkeeps, stack_setRegister hkeeps _⟩
  | binary op target source =>
    rcases m.effect_binary op target source with h | ⟨v, h⟩
    · rw [h]
      exact ⟨rfl, rfl⟩
    · rw [h]
      exact ⟨sp_setRegister_of_ne m v hkeeps, stack_setRegister hkeeps v⟩
  | store address source =>
    refine ⟨rfl, stack_congr rfl fun a hlow hhigh => ?_⟩
    have hne : m.register address ≠ a := by
      rintro rfl
      exact hkeeps ⟨hlow, hhigh⟩
    exact (read_write m _ a _).trans (if_neg hne)
  | nop | halt | printNumber source | printChar source | jump condition target | compare lhs rhs =>
    exact ⟨rfl, rfl⟩

theorem serves_of_aside {m n : Machine} {i : Instruction} (hi : i.opcode.stacks = false)
    (h : n.stack = m.stack) : m.Serves n i := by
  cases i with
  | push source | pop target | call target | ret => cases hi
  | _ => exact h

/-- An instruction that is executed serves as the stack operation that it is. -/
theorem serves_execute {m : Machine} {i : Instruction} (hm : m.Upright floor)
    (hready : m.ready = .ok i) (hkeeps : m.KeepsStack i) : m.Serves (m.execute i) i := by
  cases hi : i.opcode.stacks with
  | false => exact serves_of_aside hi (aside_effect hkeeps hi).2
  | true =>
    cases i with
    | push source =>
      have hsp := sp_of_push hm hready (Or.inl rfl)
      exact stack_pushByte (by omega) hm.sp_le
    | call target =>
      have hsp := sp_of_push hm hready (Or.inr rfl)
      exact stack_pushByte (by omega) hm.sp_le
    | pop target =>
      have htarget : target ≠ Register.stackPointer := hkeeps
      have hvalue : (m.execute (.pop target)).register target = m.top := by
        show ((m.setRegister target m.top).setRegister Register.stackPointer _).register target = _
        rw [register_setRegister, if_neg htarget.symm, register_setRegister, if_pos rfl]
      have hrest : (m.execute (.pop target)).stack = m.dropTop.stack := by
        refine stack_eq_of_registers ?_ fun _ => rfl
        show (m.setRegister target m.top).dropTop.sp = m.dropTop.sp
        rw [sp_dropTop, sp_dropTop, sp_setRegister_of_ne m _ htarget]
      show m.stack = _ :: _
      rw [hvalue, hrest]
      exact stack_eq_cons (sp_lt_of_ready hready (Or.inl rfl))
    | ret => exact stack_eq_cons (sp_lt_of_ready hready (Or.inr rfl))
    | _ => cases hi

theorem sp_execute_le {m : Machine} {i : Instruction} (hm : m.Upright floor)
    (hready : m.ready = .ok i) (hkeeps : m.KeepsStack i) : (m.execute i).sp.toNat ≤ 0xF4 := by
  have hle := hm.sp_le
  rw [sp_execute]
  cases hi : i.opcode.stacks with
  | false =>
    rw [(aside_effect hkeeps hi).1]
    exact hle
  | true =>
    have hdown : ∀ v, floor < m.sp.toNat → (m.pushByte v).sp.toNat ≤ 0xF4 := by
      intro v hroom
      rw [toNat_sp_pushByte (by omega)]
      omega
    have hup : m.sp.toNat < 0xF4 → m.dropTop.sp.toNat ≤ 0xF4 := by
      intro hlt
      rw [toNat_sp_dropTop hlt]
      omega
    cases i with
    | push source => exact hdown _ (sp_of_push hm hready (Or.inl rfl))
    | call target => exact hdown _ (sp_of_push hm hready (Or.inr rfl))
    | pop target =>
      show (m.setRegister target m.top).dropTop.sp.toNat ≤ _
      rw [sp_dropTop, sp_setRegister_of_ne m _ hkeeps, ← sp_dropTop]
      exact hup (sp_lt_of_ready hready (Or.inl rfl))
    | ret => exact hup (sp_lt_of_ready hready (Or.inr rfl))
    | _ => cases hi

theorem upright_execute {m : Machine} {i : Instruction} (hm : m.Upright floor)
    (hready : m.ready = .ok i) (hkeeps : m.KeepsStack i) : (m.execute i).Upright floor where
  guarded := by
    rw [config_execute]
    exact hm.guarded
  floor_eq := by
    rw [stackFloor_execute]
    exact hm.floor_eq
  sp_le := sp_execute_le hm hready hkeeps

/-! ## Steps and runs -/

variable {κ : Type} [Console κ]

/-- A step that fails touches neither stack pointer nor memory. -/
theorem stack_of_step_error {m : Machine} {c : κ} {fault : Fault}
    (h : (m.step c).result = .error fault) : (m.step c).machine.stack = m.stack := by
  by_cases hne : (m.step c).machine = m
  · rw [hne]
  · rw [(changed_of_step_error h hne).2.2.2]
    rfl

theorem upright_of_state {m : Machine} (hm : m.Upright floor) (s : State) :
    Upright floor { m with state := s } := ⟨hm.guarded, hm.floor_eq, hm.sp_le⟩

/-- What one step preserves. -/
theorem upright_step {m : Machine} {c : κ} (hm : m.Upright floor)
    (hkeeps : ∀ i, m.ready = .ok i → m.KeepsStack i) : (m.step c).machine.Upright floor := by
  cases hresult : (m.step c).result with
  | ok s =>
    obtain ⟨i, -, hready, hmachine, -⟩ := execute_of_step_ok hresult
    rw [hmachine]
    exact upright_execute hm hready (hkeeps i hready)
  | error fault =>
    by_cases hne : (m.step c).machine = m
    · rw [hne]
      exact hm
    · rw [(changed_of_step_error hresult hne).2.2.2]
      exact upright_of_state hm _

/-- The machines that a machine can become in steps, each on any console, when no instruction that
is executed interferes with the stack. A machine that has halted may be set running again. -/
inductive Reaches (origin : Machine) : Machine → Prop
  | refl : Reaches origin origin
  | step {κ : Type} [Console κ] {m : Machine} (c : κ) (h : Reaches origin m)
      (hkeeps : ∀ i, m.ready = .ok i → m.KeepsStack i) : Reaches origin (m.step c).machine
  | resume {m : Machine} (h : Reaches origin m) : Reaches origin { m with state := .running }

/-- What every run preserves. -/
theorem upright_of_reaches {origin m : Machine} (hreach : origin.Reaches m)
    (horigin : origin.Upright floor) : m.Upright floor := by
  induction hreach with
  | refl => exact horigin
  | step c h hkeeps ih => exact upright_step ih hkeeps
  | resume h ih => exact upright_of_state ih _

/-- Steps in a row, of a program none of whose instructions interferes with the stack. -/
theorem reaches_advance {origin m : Machine}
    (hkeeps : ∀ n, origin.Reaches n → ∀ i, n.ready = .ok i → n.KeepsStack i)
    (hreach : origin.Reaches m) (k : Nat) (c : κ) : origin.Reaches (m.advance k c).machine := by
  induction k generalizing m c with
  | zero => exact hreach
  | succ k ih =>
    have hstep : origin.Reaches (m.step c).machine := .step c hreach (hkeeps m hreach)
    rw [advance_succ]
    split
    · exact ih hstep (m.step c).console
    · exact hstep

/-- Such a program keeps the stack pointer in its range until the end of its run. -/
theorem upright_run {origin : Machine} {fuel : Nat} {c : κ} {t : Transition κ}
    (hkeeps : ∀ n, origin.Reaches n → ∀ i, n.ready = .ok i → n.KeepsStack i)
    (horigin : origin.Upright floor) (hrun : origin.run fuel c = some t) :
    t.machine.Upright floor := by
  have hreach := reaches_advance hkeeps (.resume .refl) fuel c
  rw [machine_of_run hrun]
  exact upright_of_reaches hreach horigin

theorem upright_of_load {origin fresh : Machine} {program : List UInt8}
    (hload : origin.load program = .ok fresh) (hguard : origin.config.guardCall = true) :
    fresh.Upright program.length ∧ fresh.stack = [] := by
  unfold load at hload
  split at hload
  · cases hload
    exact ⟨⟨hguard, rfl, (by decide : Registers.powerOn.sp.toNat ≤ 0xF4)⟩, rfl⟩
  · cases hload

/-- Pushing fails when there is no room above the program. -/
theorem overflow_iff {m : Machine} {i : Instruction} (hm : m.Upright floor)
    (hstate : m.state = .running) (hfetch : m.fetch = .ok i)
    (hi : i.opcode = .push ∨ i.opcode = .call) (c : κ) (sp pc : UInt8) :
    (m.step c).result = .error (.stackOverflow sp pc) ↔
      (0xF4 - floor : Int) ≤ m.stack.length ∧ sp = m.sp ∧ pc = m.pc := by
  have hop : i.opcode = .push ∨ i.opcode = .call ∧ m.config.guardCall = true :=
    hi.imp_right fun h => ⟨h, hm.guarded⟩
  have hover : m.Overflows i.opcode ↔ (0xF4 - floor : Int) ≤ m.stack.length := by
    have hle := hm.sp_le
    unfold Overflows
    rw [hm.floor_eq, length_stack]
    constructor
    · rintro ⟨-, h⟩
      omega
    · intro h
      exact ⟨hop, by omega⟩
  rw [result_step_eq_fault_iff hstate hfetch (by simp), stackFault?_eq_some_iff, hover]
  simp

/-- Popping fails when nothing has been pushed. -/
theorem underflow_iff {m : Machine} {i : Instruction} (hm : m.Upright floor)
    (hstate : m.state = .running) (hfetch : m.fetch = .ok i)
    (hi : i.opcode = .pop ∨ i.opcode = .ret) (c : κ) (sp pc : UInt8) :
    (m.step c).result = .error (.stackUnderflow sp pc) ↔
      m.stack = [] ∧ sp = m.sp ∧ pc = m.pc := by
  have hunder : m.Underflows i.opcode ↔ m.stack = [] := by
    rw [stack_eq_nil_iff hm.sp_le]
    exact and_iff_right hi
  rw [result_step_eq_fault_iff hstate hfetch (by simp), stackFault?_eq_some_iff, hunder]
  simp

/-- **A run works on a stack.** From a freshly loaded program on, each step that succeeds does to
the stack what its instruction is meant to do, a step that fails leaves it alone, and the two ways
to fail are a stack that has grown down to the program and an empty one. -/
theorem stack_of_reaches {origin fresh m : Machine} {program : List UInt8}
    (hload : origin.load program = .ok fresh) (hguard : origin.config.guardCall = true)
    (hreach : fresh.Reaches m) (c : κ) :
    fresh.stack = [] ∧
    m.sp.toNat + m.stack.length = 0xF4 ∧
    ((∀ i, m.ready = .ok i → m.KeepsStack i) → ∀ s, (m.step c).result = .ok s →
      ∃ i, m.fetch = .ok i ∧ m.Serves (m.step c).machine i) ∧
    (∀ fault, (m.step c).result = .error fault → (m.step c).machine.stack = m.stack) ∧
    (m.state = .running → ∀ i, m.fetch = .ok i →
      (i.opcode = .push ∨ i.opcode = .call →
        ∀ sp pc, (m.step c).result = .error (.stackOverflow sp pc) ↔
          (0xF4 - program.length : Int) ≤ m.stack.length ∧ sp = m.sp ∧ pc = m.pc) ∧
      (i.opcode = .pop ∨ i.opcode = .ret →
        ∀ sp pc, (m.step c).result = .error (.stackUnderflow sp pc) ↔
          m.stack = [] ∧ sp = m.sp ∧ pc = m.pc)) := by
  obtain ⟨hfresh, hempty⟩ := upright_of_load hload hguard
  have hm := upright_of_reaches hreach hfresh
  have hle := hm.sp_le
  refine ⟨hempty, ?_, ?_, fun fault h => stack_of_step_error h, ?_⟩
  · rw [length_stack]
    omega
  · intro hkeeps s h
    obtain ⟨i, -, hready, hmachine, -⟩ := execute_of_step_ok h
    refine ⟨i, (ready_eq_ok_iff.1 hready).1, ?_⟩
    rw [hmachine]
    exact serves_execute hm hready (hkeeps i hready)
  · intro hstate i hfetch
    exact ⟨fun hi sp pc => overflow_iff hm hstate hfetch hi c sp pc,
      fun hi sp pc => underflow_iff hm hstate hfetch hi c sp pc⟩

/-- A program that pushes the stack pointer: what is pushed is its value from before. -/
theorem stack_of_reaches_at_push :
    let program : List UInt8 := [0x45, 7]
    let memory : Memory := ⟨Vector.ofFn fun i => program.getD i 0⟩
    let fresh := { powerOn {} with memory, stackFloor := 2 }
    let m := (fresh.step Transcript.empty).machine
    (powerOn {}).load program = .ok fresh ∧ fresh.Reaches m ∧ m.stack = [0xF4] ∧
      m.sp.toNat + m.stack.length = 0xF4 := by
  intro program memory fresh m
  have hmemory : Memory.ofProgram? program = some memory := if_pos (by decide)
  have hread := Memory.read_of_ofProgram? hmemory
  have hload : (powerOn {}).load program = .ok fresh := by
    unfold load
    rw [hmemory]
    rfl
  have hfetch : fresh.fetch = .ok (.push 7) :=
    fetch_eq_ok_iff.2 ⟨(hread 0).symm, congrArg UInt8.toNat (hread 1)⟩
  have hfault : fresh.stackFault? (.push 7) = none := by decide
  have hkeeps : ∀ i, fresh.ready = .ok i → fresh.KeepsStack i := by
    intro i hi
    obtain rfl := Except.ok.inj (hfetch.symm.trans (ready_eq_ok_iff.1 hi).1)
    trivial
  have hresult : (fresh.step Transcript.empty).result = .ok .running :=
    (result_step_eq_ok_iff rfl hfetch _).2 ⟨hfault, nofun, rfl⟩
  obtain ⟨-, -, hserves, -, -⟩ := stack_of_reaches hload rfl .refl Transcript.empty
  obtain ⟨i, hi, hstack⟩ := hserves hkeeps .running hresult
  obtain rfl := Except.ok.inj (hfetch.symm.trans hi)
  have hreach : fresh.Reaches m := .step Transcript.empty .refl hkeeps
  obtain ⟨-, hheight, -, -, -⟩ := stack_of_reaches hload rfl hreach Transcript.empty
  exact ⟨hload, hreach, hstack, hheight⟩

end Machine

end ByteComputer
