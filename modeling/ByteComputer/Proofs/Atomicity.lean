import ByteComputer.Console.Limited
import ByteComputer.Console.Transcript
import ByteComputer.Proofs.Console.Recorded
import ByteComputer.Proofs.Faults

/-!
# A step that fails changes nothing

* `Machine.step_of_fault`: a step that fails before it comes to the console.
* `Machine.step_of_refused`: a step that fails there. It has made one request, and the machine is
  what it was unless it was about to halt.
* `Machine.failed_step_atomic`: both together. A step taken action by action, where checks and
  changes follow one another, leaves the same behind.
-/

namespace ByteComputer.Machine

variable {κ : Type} [Console κ]

/-! ## Instructions that write -/

theorem opcode_of_output {m : Machine} {i : Instruction} {o : Output}
    (houtput : m.output? i = some o) (hi : i ≠ .halt) :
    i.opcode = .printNumber ∨ i.opcode = .printChar := by
  cases i with
  | halt => exact absurd rfl hi
  | printNumber source => exact Or.inl rfl
  | printChar source => exact Or.inr rfl
  | _ => cases houtput

theorem echo_of_output {m : Machine} {o : Output} (houtput : m.output? .halt = some o) :
    m.config.echoOnHalt = true := by
  cases hecho : m.config.echoOnHalt with
  | true => rfl
  | false => simp [output?, hecho] at houtput

theorem refused_of_ne_halt {m : Machine} {i : Instruction} (hi : i ≠ .halt) : m.refused i = m := by
  cases i with
  | halt => exact absurd rfl hi
  | _ => rfl

/-! ## What a failed step leaves behind -/

/-- A step that fails before it comes to the console leaves everything as it was. -/
theorem step_of_fault {m : Machine} {c : κ} {fault : Fault}
    (h : (m.step c).result = .error fault) (hfault : ∀ e, fault ≠ .outputRefused e) :
    (m.step c).machine = m ∧ (m.step c).console = c ∧ m.calls c = [] := by
  rw [calls_eq]
  unfold offered
  have ho := m.outcome_step c
  generalize m.step c = t at ho h
  cases ho with
  | atRest hstate => simp [hstate]
  | faulted hstate hready => simp [hstate, hready]
  | silent | written => cases h
  | refused =>
    cases h
    exact absurd rfl (hfault _)

/-- A step that the console has failed. -/
theorem step_of_refused {m : Machine} {c : κ} {e : SystemError}
    (h : (m.step c).result = .error (.outputRefused e)) :
    ∃ i o, m.ready = .ok i ∧ m.output? i = some o ∧ m.calls c = [.write o] ∧
      Console.write c o = ((m.step c).console, .error e) ∧ (m.step c).machine = m.refused i := by
  rw [calls_eq]
  unfold offered
  have ho := m.outcome_step c
  generalize m.step c = t at ho h
  cases ho with
  | atRest | silent | written => cases h
  | faulted _ hready =>
    cases h
    rcases fault_of_ready hready with ⟨_, h⟩ | ⟨_, h⟩ | h | h <;> cases h
  | @refused i o d _ hstate hready houtput hwrite =>
    cases h
    exact ⟨i, o, hready, houtput, by simp [hstate, hready, houtput], hwrite, rfl⟩

theorem byte_of_ready {m : Machine} {i : Instruction} (hready : m.ready = .ok i) :
    m.read m.pc = i.opcode.byte :=
  (fetch_eq_ok_iff.1 (ready_eq_ok_iff.1 hready).1).1.symm

theorem byte_eq_halt_iff {m : Machine} {i : Instruction} (hready : m.ready = .ok i) :
    m.read m.pc = Opcode.halt.byte ↔ i = .halt := by
  rw [byte_of_ready hready, ← Instruction.opcode_eq_halt_iff]
  constructor
  · exact Opcode.byte_injective
  · intro h
    rw [h]

/-- The one step that fails and leaves a change. -/
theorem changed_of_step_error {m : Machine} {c : κ} {fault : Fault}
    (h : (m.step c).result = .error fault) (hne : (m.step c).machine ≠ m) :
    m.read m.pc = Opcode.halt.byte ∧ m.config.echoOnHalt = true ∧
      (∃ e, fault = .outputRefused e) ∧ (m.step c).machine = { m with state := .halted } := by
  by_cases hfault : ∃ e, fault = .outputRefused e
  · obtain ⟨e, rfl⟩ := hfault
    obtain ⟨i, o, hready, houtput, -, -, hmachine⟩ := step_of_refused h
    by_cases hi : i = .halt
    · subst hi
      exact ⟨(byte_eq_halt_iff hready).2 rfl, echo_of_output houtput, ⟨e, rfl⟩, hmachine⟩
    · rw [hmachine, refused_of_ne_halt hi] at hne
      exact absurd rfl hne
  · exact absurd (step_of_fault h (not_exists.1 hfault)).1 hne

theorem machine_of_step_error {m : Machine} {c : κ} {fault : Fault}
    (h : (m.step c).result = .error fault) (hbyte : m.read m.pc ≠ Opcode.halt.byte) :
    (m.step c).machine = m := by
  by_cases hne : (m.step c).machine = m
  · exact hne
  · exact absurd (changed_of_step_error h hne).1 hbyte

/-- **A step that fails changes nothing**, and makes no request but the one that failed. The
exception is a halt whose output the console refuses: it has halted. -/
theorem failed_step_atomic {m : Machine} {c : κ} {fault : Fault}
    (h : (m.step c).result = .error fault) :
    m.cycle c = some (m.step c) ∧
    ((∀ e, fault ≠ .outputRefused e) →
      (m.step c).machine = m ∧ (m.step c).console = c ∧ m.calls c = []) ∧
    (∀ e, fault = .outputRefused e →
      (∃ o, m.calls c = [.write o] ∧ Console.write c o = ((m.step c).console, .error e)) ∧
      (m.read m.pc ≠ Opcode.halt.byte →
        (m.read m.pc = Opcode.printNumber.byte ∨ m.read m.pc = Opcode.printChar.byte) ∧
        (m.step c).machine = m)) ∧
    ((m.step c).machine ≠ m →
      m.read m.pc = Opcode.halt.byte ∧ m.config.echoOnHalt = true ∧
        (∃ e, fault = .outputRefused e) ∧ (m.step c).machine = { m with state := .halted }) ∧
    (m.read m.pc = Opcode.call.byte →
      (m.step c).machine.sp = m.sp ∧ (m.step c).machine.pc = m.pc ∧
        (m.step c).machine.read (m.sp - 1) = m.read (m.sp - 1)) ∧
    (m.read m.pc = Opcode.pop.byte → (m.step c).machine.sp = m.sp) := by
  refine ⟨cycle_eq_step m c, step_of_fault h, ?_, changed_of_step_error h, ?_, ?_⟩
  · rintro e rfl
    obtain ⟨i, o, hready, houtput, hcalls, hwrite, -⟩ := step_of_refused h
    refine ⟨⟨o, hcalls, hwrite⟩, fun hbyte => ⟨?_, machine_of_step_error h hbyte⟩⟩
    rw [byte_of_ready hready]
    have hi := mt (byte_eq_halt_iff hready).2 hbyte
    exact (opcode_of_output houtput hi).imp (congrArg Opcode.byte) (congrArg Opcode.byte)
  · intro hbyte
    rw [machine_of_step_error h (by rw [hbyte]; decide)]
    exact ⟨rfl, rfl, rfl⟩
  · intro hbyte
    rw [machine_of_step_error h (by rw [hbyte]; decide)]

/-- A machine that is about to halt, before a console that takes nothing. -/
theorem failed_step_atomic_at_halt :
    let m := (powerOn { echoOnHalt := true }).write 0 0x01
    let c : Limited Transcript := { inner := .empty, writesLeft := some 0 }
    (m.step c).result = .error (.outputRefused .noSpace) ∧
      (m.step c).machine = { m with state := .halted } ∧
      ∃ o, m.calls c = [.write o] := by
  intro m c
  have hresult : (m.step c).result = .error (.outputRefused .noSpace) := rfl
  obtain ⟨-, -, hrefused, hchanged, -, -⟩ := failed_step_atomic hresult
  have hne : (m.step c).machine ≠ m := by
    intro h
    have hstate : State.halted = State.running := congrArg Machine.state h
    cases hstate
  obtain ⟨⟨o, hcalls, -⟩, -⟩ := hrefused .noSpace rfl
  obtain ⟨-, -, -, hmachine⟩ := hchanged hne
  exact ⟨hresult, hmachine, o, hcalls⟩

end ByteComputer.Machine
