import ByteComputer.Console.Transcript
import ByteComputer.Proofs.Cycle.Agreement

/-!
# When a step fails

The exact condition for each answer of a step, in the order of precedence: the machine has halted,
the byte at the program counter is no opcode, an operand names no register, the stack cannot serve
the instruction, the console refuses the output.

* `Machine.result_step_of_fetch`: what becomes of an instruction that can be read.
* `Machine.result_step_iff`: all conditions together, and that a step taken as a cycle never comes
  to a place it should not come to.
-/

namespace ByteComputer.Machine

/-! ## Conditions on the opcode -/

/-- The opcode pushes with regard to the stack floor, and the stack has grown down to it. -/
def Overflows (m : Machine) (op : Opcode) : Prop :=
  (op = .push ∨ op = .call ∧ m.config.guardCall = true) ∧ m.sp.toNat ≤ m.stackFloor

/-- The opcode pops, and the stack pointer is not below the base of the stack. -/
def Underflows (m : Machine) (op : Opcode) : Prop :=
  (op = .pop ∨ op = .ret) ∧ 0xF4 ≤ m.sp.toNat

/-- What an opcode writes when its first operand is the given byte. -/
def attempt? (m : Machine) (first : UInt8) : Opcode → Option Output
  | .printNumber => some (.number (m.registers.values[first.toNat]?.getD 0))
  | .printChar => some (.char (m.registers.values[first.toNat]?.getD 0))
  | .halt => if m.config.echoOnHalt then some (.number (m.register .first)) else none
  | _ => none

theorem overflow?_eq_some_iff {m : Machine} {fault : Fault} :
    m.overflow? = some fault ↔ m.sp.toNat ≤ m.stackFloor ∧ fault = .stackOverflow m.sp m.pc := by
  by_cases h : m.sp.toNat ≤ m.stackFloor <;> simp [overflow?, h, eq_comm]

theorem underflow?_eq_some_iff {m : Machine} {fault : Fault} :
    m.underflow? = some fault ↔ 0xF4 ≤ m.sp.toNat ∧ fault = .stackUnderflow m.sp m.pc := by
  have hbase : Registers.stackBase ≤ m.sp ↔ 0xF4 ≤ m.sp.toNat := UInt8.le_iff_toNat_le
  by_cases h : 0xF4 ≤ m.sp.toNat <;> simp [underflow?, hbase, h, eq_comm]

theorem stackFault?_eq_some_iff {m : Machine} {i : Instruction} {fault : Fault} :
    m.stackFault? i = some fault ↔
      (m.Overflows i.opcode ∧ fault = .stackOverflow m.sp m.pc) ∨
        (m.Underflows i.opcode ∧ fault = .stackUnderflow m.sp m.pc) := by
  cases i with
  | push source =>
    show m.overflow? = some fault ↔ _
    simp [overflow?_eq_some_iff, Instruction.opcode, Overflows, Underflows]
  | call target =>
    show (if m.config.guardCall then m.overflow? else none) = some fault ↔ _
    cases hg : m.config.guardCall <;>
      simp [overflow?_eq_some_iff, Instruction.opcode, Overflows, Underflows, hg]
  | pop target | ret =>
    show m.underflow? = some fault ↔ _
    simp [underflow?_eq_some_iff, Instruction.opcode, Overflows, Underflows]
  | _ => simp [stackFault?, Instruction.opcode, Overflows, Underflows]

theorem stackFault?_eq_none_iff {m : Machine} {i : Instruction} :
    m.stackFault? i = none ↔ ¬ m.Overflows i.opcode ∧ ¬ m.Underflows i.opcode := by
  rw [Option.eq_none_iff_forall_ne_some]
  constructor
  · intro h
    constructor
    · intro hover
      exact h _ (stackFault?_eq_some_iff.2 (Or.inl ⟨hover, rfl⟩))
    · intro hunder
      exact h _ (stackFault?_eq_some_iff.2 (Or.inr ⟨hunder, rfl⟩))
  · rintro ⟨hover, hunder⟩ fault h
    rcases stackFault?_eq_some_iff.1 h with ⟨h, -⟩ | ⟨h, -⟩
    · exact hover h
    · exact hunder h

/-- There is room for what is pushed with regard to the stack floor. -/
theorem floor_lt_of_ready {m : Machine} {i : Instruction} (hready : m.ready = .ok i)
    (hi : i.opcode = .push ∨ i.opcode = .call ∧ m.config.guardCall = true) :
    m.stackFloor < m.sp.toNat := by
  have hover := (stackFault?_eq_none_iff.1 (ready_eq_ok_iff.1 hready).2).1
  exact Nat.lt_of_not_le fun hle => hover ⟨hi, hle⟩

/-- There is something to be popped. -/
theorem sp_lt_of_ready {m : Machine} {i : Instruction} (hready : m.ready = .ok i)
    (hi : i.opcode = .pop ∨ i.opcode = .ret) : m.sp.toNat < 0xF4 := by
  have hunder := (stackFault?_eq_none_iff.1 (ready_eq_ok_iff.1 hready).2).2
  exact Nat.lt_of_not_le fun hle => hunder ⟨hi, hle⟩

/-- An instruction that writes leaves the stack alone. -/
theorem stackFault?_of_output {m : Machine} {i : Instruction} {o : Output}
    (houtput : m.output? i = some o) : m.stackFault? i = none := by
  cases i with
  | halt | printNumber source | printChar source => rfl
  | _ => cases houtput

theorem getElem?_registers {m : Machine} {b : UInt8} {r : Register} (h : b.toNat = r.val) :
    m.registers.values[b.toNat]?.getD 0 = m.register r := by
  simp [h, register, Registers.get]

theorem attempt?_opcode {m : Machine} {i : Instruction} {first second : UInt8}
    (hreads : i.Reads first second) : m.attempt? first i.opcode = m.output? i := by
  cases i with
  | printNumber source | printChar source =>
    simp only [Instruction.opcode, attempt?, output?, getElem?_registers hreads]
  | _ => rfl

/-! ## What becomes of an instruction -/

variable {κ : Type} [Console κ]

theorem result_step_of_halted {m : Machine} (h : m.state = .halted) (c : κ) :
    (m.step c).result = .error .halted := by
  simp only [step, h]

theorem result_step_of_fetch_error {m : Machine} {fault : Fault} (hstate : m.state = .running)
    (hfetch : m.fetch = .error fault) (c : κ) : (m.step c).result = .error fault := by
  have hready := ready_eq_error_iff.2 (Or.inl hfetch)
  simp only [step, hstate, hready]

theorem result_step_of_fetch {m : Machine} {i : Instruction} (hstate : m.state = .running)
    (hfetch : m.fetch = .ok i) (c : κ) :
    (m.step c).result =
      match m.stackFault? i with
      | some fault => .error fault
      | none =>
        match (m.output? i).map (Console.write c) with
        | some (_, .error e) => .error (.outputRefused e)
        | _ => .ok (if i = .halt then .halted else .running) := by
  cases hstack : m.stackFault? i with
  | some fault =>
    have hready := ready_eq_error_iff.2 (Or.inr ⟨i, hfetch, hstack⟩)
    simp only [step, hstate, hready]
  | none =>
    have hready := ready_eq_ok_iff.2 ⟨hfetch, hstack⟩
    simp only [step, hstate, hready, perform]
    have hok : (m.execute i).state = if i = .halt then .halted else .running := by
      rw [state_execute, hstate]
    cases houtput : m.output? i with
    | none => simp [hok]
    | some o =>
      rcases hwrite : Console.write c o with ⟨d, e | done⟩
      · simp [hwrite]
      · simp [hwrite, hok]

theorem result_step_eq_fault_iff {m : Machine} {i : Instruction} {fault : Fault}
    (hstate : m.state = .running) (hfetch : m.fetch = .ok i)
    (hfault : ∀ e, fault ≠ .outputRefused e) (c : κ) :
    (m.step c).result = .error fault ↔ m.stackFault? i = some fault := by
  rw [result_step_of_fetch hstate hfetch]
  split
  · rename_i f hstack
    simp [hstack]
  · rename_i hstack
    split
    · rename_i e _
      simp [hstack, (hfault e).symm]
    · simp [hstack]

theorem result_step_eq_refused_iff {m : Machine} {i : Instruction} {e : SystemError}
    (hstate : m.state = .running) (hfetch : m.fetch = .ok i) (c : κ) :
    (m.step c).result = .error (.outputRefused e) ↔
      ∃ o d, m.output? i = some o ∧ Console.write c o = (d, .error e) := by
  rw [result_step_of_fetch hstate hfetch]
  constructor
  · intro h
    split at h
    · rename_i fault hstack
      cases h
      rcases stackFault?_eq_some_iff.1 hstack with ⟨-, h⟩ | ⟨-, h⟩ <;> cases h
    · split at h
      · rename_i hwrite
        obtain ⟨o, houtput, hwrite⟩ := Option.map_eq_some_iff.1 hwrite
        cases h
        exact ⟨o, _, houtput, hwrite⟩
      · cases h
  · rintro ⟨o, d, houtput, hwrite⟩
    rw [stackFault?_of_output houtput, houtput, Option.map_some, hwrite]

theorem result_step_eq_ok_iff {m : Machine} {i : Instruction} {s : State}
    (hstate : m.state = .running) (hfetch : m.fetch = .ok i) (c : κ) :
    (m.step c).result = .ok s ↔
      m.stackFault? i = none ∧ (∀ o, m.output? i = some o → (Console.write c o).2 = .ok ()) ∧
        s = if i = .halt then .halted else .running := by
  rw [result_step_of_fetch hstate hfetch]
  cases hstack : m.stackFault? i with
  | some fault => simp
  | none =>
    cases houtput : m.output? i with
    | none => simp [eq_comm]
    | some o => rcases hwrite : Console.write c o with ⟨d, e | done⟩ <;> simp [hwrite, eq_comm]

/-! ## All answers -/

/-- The conditions for the answers of a step when the byte at the program counter is that of an
opcode. Each of them comes after those above it. -/
structure Answers (m : Machine) (c : κ) (op : Opcode) : Prop where
  register : ∀ i pc,
    (m.step c).result = .error (.noSuchRegister i pc) ↔
      Instruction.misnamed? (op.operands (m.read (m.pc + 1)) (m.read (m.pc + 2))) = some i ∧
        pc = m.pc
  overflow :
    Instruction.misnamed? (op.operands (m.read (m.pc + 1)) (m.read (m.pc + 2))) = none →
      ∀ sp pc, (m.step c).result = .error (.stackOverflow sp pc) ↔
        m.Overflows op ∧ sp = m.sp ∧ pc = m.pc
  underflow :
    Instruction.misnamed? (op.operands (m.read (m.pc + 1)) (m.read (m.pc + 2))) = none →
      ∀ sp pc, (m.step c).result = .error (.stackUnderflow sp pc) ↔
        m.Underflows op ∧ sp = m.sp ∧ pc = m.pc
  refusal :
    Instruction.misnamed? (op.operands (m.read (m.pc + 1)) (m.read (m.pc + 2))) = none →
      ∀ e, (m.step c).result = .error (.outputRefused e) ↔
        ∃ o d, m.attempt? (m.read (m.pc + 1)) op = some o ∧ Console.write c o = (d, .error e)
  success : ∀ s,
    (m.step c).result = .ok s ↔
      Instruction.misnamed? (op.operands (m.read (m.pc + 1)) (m.read (m.pc + 2))) = none ∧
        ¬ m.Overflows op ∧ ¬ m.Underflows op ∧
        (∀ o, m.attempt? (m.read (m.pc + 1)) op = some o → (Console.write c o).2 = .ok ()) ∧
        s = if op = .halt then .halted else .running

theorem answers_of_misnamed {m : Machine} {op : Opcode} {i : UInt8} (hstate : m.state = .running)
    (hop : op.byte = m.read m.pc)
    (hi : Instruction.misnamed? (op.operands (m.read (m.pc + 1)) (m.read (m.pc + 2))) = some i)
    (c : κ) : Answers m c op := by
  have hfetch : m.fetch = .error (.noSuchRegister i m.pc) :=
    (fetch_eq_error_of_byte hop).2 ⟨i, rfl, hi⟩
  have hresult := result_step_of_fetch_error hstate hfetch c
  constructor <;> simp [hi, hresult, eq_comm]

theorem answers_of_fetch {m : Machine} {i : Instruction} (hstate : m.state = .running)
    (hfetch : m.fetch = .ok i) (c : κ) : Answers m c i.opcode := by
  obtain ⟨hbyte, hreads⟩ := fetch_eq_ok_iff.1 hfetch
  have hnamed : Instruction.misnamed?
      (i.opcode.operands (m.read (m.pc + 1)) (m.read (m.pc + 2))) = none := by
    rw [Option.eq_none_iff_forall_ne_some]
    intro j hj
    have hd := Instruction.decode_of_reads hreads
    rw [Instruction.decode_eq_error_iff.2 hj] at hd
    cases hd
  constructor
  · intro j pc
    rw [result_step_eq_fault_iff hstate hfetch (by simp), stackFault?_eq_some_iff, hnamed]
    simp
  · intro _ sp pc
    rw [result_step_eq_fault_iff hstate hfetch (by simp), stackFault?_eq_some_iff]
    simp
  · intro _ sp pc
    rw [result_step_eq_fault_iff hstate hfetch (by simp), stackFault?_eq_some_iff]
    simp
  · intro _ e
    rw [result_step_eq_refused_iff hstate hfetch, attempt?_opcode hreads]
  · intro s
    rw [result_step_eq_ok_iff hstate hfetch, stackFault?_eq_none_iff, attempt?_opcode hreads,
      hnamed]
    simp [and_assoc, Instruction.opcode_eq_halt_iff]

theorem answers_of_byte {m : Machine} {op : Opcode} (hstate : m.state = .running)
    (hop : op.byte = m.read m.pc) (c : κ) : Answers m c op := by
  cases hfetch : m.fetch with
  | ok i =>
    have hi := (fetch_eq_ok_iff.1 hfetch).1
    rw [← hop] at hi
    obtain rfl := Opcode.byte_injective hi
    exact answers_of_fetch hstate hfetch c
  | error fault =>
    obtain ⟨i, -, hi⟩ := (fetch_eq_error_of_byte hop).1 hfetch
    exact answers_of_misnamed hstate hop hi c

/-- The faults that are found before anything is done. -/
theorem fault_of_ready {m : Machine} {fault : Fault} (h : m.ready = .error fault) :
    (∃ k, fault = .unknownOpcode k m.pc) ∨ (∃ i, fault = .noSuchRegister i m.pc) ∨
      fault = .stackOverflow m.sp m.pc ∨ fault = .stackUnderflow m.sp m.pc := by
  rcases ready_eq_error_iff.1 h with hfetch | ⟨i, -, hstack⟩
  · by_cases hop : ∃ op : Opcode, op.byte = m.read m.pc
    · obtain ⟨op, hop⟩ := hop
      obtain ⟨i, rfl, -⟩ := (fetch_eq_error_of_byte hop).1 hfetch
      exact Or.inr (Or.inl ⟨i, rfl⟩)
    · have hunknown : m.fetch = .error (.unknownOpcode (m.read m.pc) m.pc) :=
        fetch_eq_unknown_iff.2 ⟨not_exists.1 hop, rfl, rfl⟩
      exact Or.inl ⟨_, Except.error.inj (hfetch.symm.trans hunknown)⟩
  · rcases stackFault?_eq_some_iff.1 hstack with ⟨-, rfl⟩ | ⟨-, rfl⟩
    · exact Or.inr (Or.inr (Or.inl rfl))
    · exact Or.inr (Or.inr (Or.inr rfl))

theorem result_step_eq_halted_iff {m : Machine} {c : κ} :
    (m.step c).result = .error .halted ↔ m.state = .halted := by
  refine ⟨fun h => ?_, fun h => result_step_of_halted h c⟩
  have ho := m.outcome_step c
  generalize m.step c = t at ho h
  cases ho with
  | atRest hstate => exact hstate
  | faulted _ hready =>
    cases h
    rcases fault_of_ready hready with ⟨_, h⟩ | ⟨_, h⟩ | h | h <;> cases h
  | silent | written | refused => cases h

theorem result_step_ne_programTooLarge (m : Machine) (c : κ) (size : Nat) :
    (m.step c).result ≠ .error (.programTooLarge size) := by
  intro h
  have ho := m.outcome_step c
  generalize m.step c = t at ho h
  cases ho with
  | faulted _ hready =>
    cases h
    rcases fault_of_ready hready with ⟨_, h⟩ | ⟨_, h⟩ | h | h <;> cases h
  | atRest | silent | written | refused => cases h

theorem result_step_eq_unknown_iff {m : Machine} {c : κ} {k pc : UInt8}
    (hstate : m.state = .running) :
    (m.step c).result = .error (.unknownOpcode k pc) ↔
      (∀ op : Opcode, op.byte ≠ m.read m.pc) ∧ k = m.read m.pc ∧ pc = m.pc := by
  rw [← fetch_eq_unknown_iff]
  cases hfetch : m.fetch with
  | ok i =>
    rw [result_step_eq_fault_iff hstate hfetch (by simp), stackFault?_eq_some_iff]
    simp
  | error fault =>
    rw [result_step_of_fetch_error hstate hfetch]
    simp

/-- **When a step fails, and with what.** A step taken action by action comes to the same answer,
and never to a place that no instruction should lead to. -/
theorem result_step_iff (m : Machine) (c : κ) :
    ((m.step c).result = .error .halted ↔ m.state = .halted) ∧
    (∀ size, (m.step c).result ≠ .error (.programTooLarge size)) ∧
    m.cycle c = some (m.step c) ∧
    (m.state = .running →
      (∀ k pc, (m.step c).result = .error (.unknownOpcode k pc) ↔
        (∀ op : Opcode, op.byte ≠ m.read m.pc) ∧ k = m.read m.pc ∧ pc = m.pc) ∧
      ∀ op : Opcode, op.byte = m.read m.pc → Answers m c op) := by
  refine ⟨result_step_eq_halted_iff, result_step_ne_programTooLarge m c, cycle_eq_step m c, ?_⟩
  intro hstate
  exact ⟨fun k pc => result_step_eq_unknown_iff hstate,
    fun op hop => answers_of_byte hstate hop c⟩

/-- A store of which both operands name no register. -/
theorem result_step_iff_at_store :
    let m := (((powerOn {}).write 0 0x84).write 1 9).write 2 8
    (m.step Transcript.empty).result = .error (.noSuchRegister 9 0) := by
  intro m
  obtain ⟨-, -, -, hrunning⟩ := result_step_iff m Transcript.empty
  obtain ⟨-, hanswers⟩ := hrunning rfl
  exact ((hanswers .store rfl).register 9 0).2 ⟨rfl, rfl⟩

end ByteComputer.Machine
