import ByteComputer.Proofs.Cycle.Basic
import ByteComputer.Proofs.Machine.Outcome

/-!
# What the actions of a cycle do

Each action is described by what it makes of the things on the bench. From these descriptions come
those of a whole instruction:

* `Action.handle_silent`, `Action.handle_output`: an instruction that finds no fault comes to its
  effect, or to the output it writes.
* `Action.handle_misnamed`, `Action.handle_stackFault`: one that finds a fault has changed nothing
  by then.
* `Encoding.isArithmetic_byte`, `Encoding.setsCounter_byte`: the bits of an opcode byte say what the
  opcode is, so routing by the bits never goes astray (`Action.route_handle`).
-/

namespace ByteComputer

/-! ## What single actions do -/

namespace Action

variable {κ α β : Type}

theorem bind_apply (x : Action κ α) (f : α → Action κ β) (b : Bench κ) :
    (x >>= f) b =
      match x b with
      | none => none
      | some (.error e, b) => some (.error e, b)
      | some (.ok a, b) => f a b := by
  simp only [bind, ExceptT.bind, ExceptT.mk, StateT.bind, Option.bind]
  cases x b with
  | none => rfl
  | some r => obtain ⟨_ | _, b⟩ := r <;> rfl

@[simp] theorem pure_apply (a : α) (b : Bench κ) :
    (pure a : Action κ α) b = some (.ok a, b) := rfl

@[simp] theorem throw_apply (fault : Fault) (b : Bench κ) :
    (throw fault : Action κ α) b = some (.error fault, b) := rfl

@[simp] theorem machine_apply (b : Bench κ) : machine b = some (.ok b.machine, b) := rfl

@[simp] theorem change_apply (f : Machine → Machine) (b : Bench κ) :
    change f b = some (.ok (), { b with machine := f b.machine }) := rfl

@[simp] theorem note_apply (e : Log.Entry) (b : Bench κ) :
    note e b = some (.ok (), { b with log := b.log ++ [e] }) := rfl

@[simp] theorem get_apply (b : Bench κ) : (get : Action κ (Bench κ)) b = some (.ok b, b) := rfl

@[simp] theorem set_apply (b d : Bench κ) : (set d : Action κ Unit) b = some (.ok (), d) := rfl

theorem write_apply_ok [Console κ] {o : Output} {c d : κ}
    (h : Console.write c o = (d, .ok ())) (m : Machine) (log : List Log.Entry) :
    write o ⟨m, c, log⟩ = some (.ok (), ⟨m, d, log⟩) := by
  simp only [write, bind_apply, get_apply, set_apply, h, pure_apply]

theorem write_apply_error [Console κ] {o : Output} {c d : κ} {e : SystemError}
    (h : Console.write c o = (d, .error e)) (m : Machine) (log : List Log.Entry) :
    write o ⟨m, c, log⟩ = some (.error (.outputRefused e), ⟨m, d, log⟩) := by
  simp only [write, bind_apply, get_apply, set_apply, h, throw_apply]

theorem operand_apply_ok {index : UInt8} {r : Register} (h : index.toNat = r.val)
    (b : Bench κ) : operand index b = some (.ok r, b) := by
  simp only [operand, Instruction.operand_eq_ok_iff.2 h, pure_apply]

theorem operand_apply_error {index : UInt8} (h : 8 ≤ index.toNat) (b : Bench κ) :
    operand index b = some (.error (.noSuchRegister index b.machine.pc), b) := by
  simp only [operand, Instruction.operand_eq_error_iff.2 ⟨h, rfl⟩, bind_apply, machine_apply,
    throw_apply]

theorem value_apply_ok {index : UInt8} {r : Register} (h : index.toNat = r.val)
    (b : Bench κ) : value index b = some (.ok (b.machine.register r), b) := by
  simp only [value, bind_apply, operand_apply_ok h, machine_apply, pure_apply]

theorem value_apply_error {index : UInt8} (h : 8 ≤ index.toNat) (b : Bench κ) :
    value index b = some (.error (.noSuchRegister index b.machine.pc), b) := by
  simp only [value, bind_apply, operand_apply_error h]

theorem assign_apply_ok {index v : UInt8} {r : Register} (h : index.toNat = r.val)
    (b : Bench κ) :
    assign index v b = some (.ok (), { b with machine := b.machine.setRegister r v }) := by
  simp only [assign, bind_apply, operand_apply_ok h, change_apply]

theorem assign_apply_error {index v : UInt8} (h : 8 ≤ index.toNat) (b : Bench κ) :
    assign index v b = some (.error (.noSuchRegister index b.machine.pc), b) := by
  simp only [assign, bind_apply, operand_apply_error h]

theorem pushFreely_apply (v : UInt8) (b : Bench κ) :
    pushFreely v b = some (.ok (), { b with machine := b.machine.pushByte v }) := by
  simp only [pushFreely, bind_apply, change_apply, Machine.sp_setSp, Machine.pushByte]

theorem push_apply (v : UInt8) (b : Bench κ) :
    push v b =
      match b.machine.overflow? with
      | some fault => some (.error fault, b)
      | none => some (.ok (), { b with machine := b.machine.pushByte v }) := by
  by_cases h : b.machine.sp.toNat ≤ b.machine.stackFloor <;>
    simp [push, bind_apply, Machine.overflow?, h, pushFreely_apply]

theorem pushReturn_apply (v : UInt8) (r : Register) (b : Bench κ) :
    pushReturn v b =
      match b.machine.stackFault? (.call r) with
      | some fault => some (.error fault, b)
      | none => some (.ok (), { b with machine := b.machine.pushByte v }) := by
  cases hg : b.machine.config.guardCall with
  | true => simp [pushReturn, bind_apply, Machine.stackFault?, hg, push_apply]
  | false => simp [pushReturn, bind_apply, Machine.stackFault?, hg, pushFreely_apply]

theorem peek_apply (b : Bench κ) :
    peek b =
      match b.machine.underflow? with
      | some fault => some (.error fault, b)
      | none => some (.ok b.machine.top, b) := by
  by_cases h : Registers.stackBase ≤ b.machine.sp <;>
    simp [peek, bind_apply, Machine.underflow?, h]

theorem pop_apply (b : Bench κ) :
    pop b =
      match b.machine.underflow? with
      | some fault => some (.error fault, b)
      | none => some (.ok b.machine.top, { b with machine := b.machine.dropTop }) := by
  simp only [pop, bind_apply, peek_apply]
  cases b.machine.underflow? with
  | none => rfl
  | some fault => rfl

theorem jump_apply {first : UInt8} {r : Register} (condition : Condition)
    (h : first.toNat = r.val) (b : Bench κ) :
    jump (.jump condition) first b =
      some (.ok (),
        { b with
          machine := { b.machine with pc := b.machine.successor (.jump condition r) } }) := by
  by_cases hc : condition.holds b.machine.registers.flags <;>
    simp [jump, taken, bind_apply, value_apply_ok h, Machine.successor, hc]

end Action

/-! ## Routing -/

/-- Whether an opcode belongs to the arithmetic unit. -/
def Opcode.computes : Opcode → Bool
  | .unary _ | .binary _ | .compare => true
  | _ => false

/-- Whether an opcode sets the program counter itself. -/
def Opcode.jumps : Opcode → Bool
  | .call | .ret | .jump _ => true
  | _ => false

/-- The bit that leads to the arithmetic unit is that of the opcodes that belong there. -/
theorem Encoding.isArithmetic_byte (op : Opcode) : isArithmetic op.byte = op.computes := by
  cases op with
  | jump condition => cases condition <;> rfl
  | unary op => cases op <;> rfl
  | binary op => cases op <;> rfl
  | _ => rfl

theorem Encoding.setsCounter_byte (op : Opcode) : setsCounter op.byte = op.jumps := by
  cases op with
  | jump condition => cases condition <;> rfl
  | unary op => cases op <;> rfl
  | binary op => cases op <;> rfl
  | _ => rfl

namespace Action

variable {κ : Type}

/-- The actions between decoding and moving on. -/
def handle [Console κ] (op : Opcode) (first second : UInt8) : Action κ Unit :=
  if op.computes then arithmetic op first second else general op first second

theorem route_handle [Console κ] {op : Opcode} (hop : op ≠ .halt) (first second : UInt8)
    (b : Bench κ) :
    route op.byte first second b =
      (do handle op first second; moveOn op.byte : Action κ State) b := by
  have hbyte : op.byte ≠ Opcode.halt.byte := fun h => hop (Opcode.byte_injective h)
  have hdecode : (decode op.byte : Action κ Opcode) = pure op := by
    simp only [decode, Opcode.ofByte?_byte]
  unfold route handle
  rw [Encoding.isArithmetic_byte, hdecode]
  by_cases hc : op.computes = true <;> simp [hc, hbyte]

theorem route_halt [Console κ] (first second : UInt8) (b : Bench κ) :
    route Opcode.halt.byte first second b =
      (do halt; count; return .halted : Action κ State) b := rfl

theorem route_unknown [Console κ] {byte : UInt8} (h : Opcode.ofByte? byte = none)
    (first second : UInt8) (b : Bench κ) :
    route byte first second b = some (.error (.unknownOpcode byte b.machine.pc), b) := by
  have hbyte : byte ≠ Opcode.halt.byte := by
    rintro rfl
    cases h
  have hdecode : decode byte b = some (.error (.unknownOpcode byte b.machine.pc), b) := by
    simp only [decode, h, bind_apply, machine_apply, throw_apply]
  unfold route
  by_cases hc : Encoding.isArithmetic byte = true <;>
    simp [hc, hbyte, bind_apply, hdecode]

/-! ## Instructions that find no fault -/

/-- The machine when the actions of an instruction are done and it has not moved on. -/
def handled (m : Machine) (i : Instruction) : Machine :=
  if i.opcode.jumps then { m.effect i with pc := m.successor i } else m.effect i

theorem handled_of_jumps {i : Instruction} (h : i.opcode.jumps = true) (m : Machine) :
    handled m i = { m.effect i with pc := m.successor i } := by
  rw [handled, if_pos h]

theorem handled_of_not_jumps {i : Instruction} (h : i.opcode.jumps = false) (m : Machine) :
    handled m i = m.effect i := by
  rw [handled, if_neg (by simp [h])]

theorem general_silent [Console κ] {i : Instruction} {first second : UInt8} {b : Bench κ}
    (hi : i ≠ .halt) (hc : i.opcode.computes = false) (hreads : i.Reads first second)
    (hstack : b.machine.stackFault? i = none) (houtput : b.machine.output? i = none) :
    general i.opcode first second b =
      some (.ok (), { b with machine := handled b.machine i }) := by
  cases i with
  | halt => exact absurd rfl hi
  | unary op target | binary op target source | compare lhs rhs => cases hc
  | printNumber source | printChar source => cases houtput
  | nop => rfl
  | loadImmediate target v =>
    obtain ⟨ht, rfl⟩ := hreads
    exact assign_apply_ok ht b
  | load target address =>
    simp only [Instruction.opcode, general, bind_apply, value_apply_ok hreads.2, machine_apply,
      assign_apply_ok hreads.1]
    rfl
  | store address source =>
    simp only [Instruction.opcode, general, bind_apply, value_apply_ok hreads.1,
      value_apply_ok hreads.2, change_apply]
    rfl
  | push source =>
    have hroom : b.machine.overflow? = none := hstack
    simp only [Instruction.opcode, general, bind_apply, value_apply_ok hreads, push_apply, hroom]
    rfl
  | pop target =>
    have hfull : b.machine.underflow? = none := hstack
    simp only [Instruction.opcode, general, bind_apply, value_apply_ok hreads, peek_apply, hfull,
      assign_apply_ok hreads, change_apply]
    rfl
  | call target =>
    simp only [Instruction.opcode, general, bind_apply, value_apply_ok hreads, machine_apply,
      pushReturn_apply _ target, hstack, change_apply]
    rfl
  | ret =>
    have hfull : b.machine.underflow? = none := hstack
    simp only [Instruction.opcode, general, bind_apply, pop_apply, hfull, change_apply]
    rfl
  | jump condition target => exact jump_apply condition hreads b

theorem arithmetic_apply {i : Instruction} {first second : UInt8} {b : Bench κ}
    (hc : i.opcode.computes = true) (hreads : i.Reads first second) :
    arithmetic i.opcode first second b =
      some (.ok (),
        { b with machine := b.machine.effect i, log := b.log ++ b.machine.notes i }) := by
  have hbit : Encoding.isArithmetic i.opcode.byte = true :=
    (Encoding.isArithmetic_byte i.opcode).trans hc
  unfold arithmetic
  simp only [hbit, not_true_eq_false, if_false]
  cases i with
  | unary op target =>
    simp only [Instruction.opcode, bind_apply, operand_apply_ok hreads, machine_apply,
      assign_apply_ok hreads, Machine.notes, List.append_nil]
    rfl
  | binary op target source =>
    cases hv : op.result? (b.machine.register target) (b.machine.register source) with
    | some v =>
      simp only [Instruction.opcode, bind_apply, operand_apply_ok hreads.1, machine_apply,
        operand_apply_ok hreads.2, hv, assign_apply_ok hreads.1, Machine.effect, Machine.notes,
        List.append_nil]
    | none =>
      simp only [Instruction.opcode, bind_apply, operand_apply_ok hreads.1, machine_apply,
        operand_apply_ok hreads.2, hv, note_apply, Machine.effect, Machine.notes]
  | compare lhs rhs =>
    simp only [Instruction.opcode, bind_apply, operand_apply_ok hreads.1, machine_apply,
      value_apply_ok hreads.2, change_apply, Machine.notes, List.append_nil]
    rfl
  | _ => cases hc

theorem halt_apply [Console κ] (b : Bench κ) :
    halt b =
      match b.machine.output? .halt with
      | none => some (.ok (),
          { b with machine := b.machine.effect .halt, log := b.log ++ b.machine.notes .halt })
      | some o => write o
          { b with machine := b.machine.effect .halt, log := b.log ++ b.machine.notes .halt } := by
  cases he : b.machine.config.echoOnHalt with
  | true =>
    simp only [halt, bind_apply, change_apply, machine_apply, note_apply, he, Machine.output?]
    rfl
  | false =>
    simp only [halt, bind_apply, change_apply, machine_apply, note_apply, he, Machine.output?]
    rfl

theorem handle_silent [Console κ] {i : Instruction} {first second : UInt8} {b : Bench κ}
    (hi : i ≠ .halt) (hreads : i.Reads first second) (hstack : b.machine.stackFault? i = none)
    (houtput : b.machine.output? i = none) :
    handle i.opcode first second b =
      some (.ok (),
        { b with machine := handled b.machine i, log := b.log ++ b.machine.notes i }) := by
  unfold handle
  cases hc : i.opcode.computes with
  | true =>
    have hj : i.opcode.jumps = false := by
      cases i with
      | unary op target | binary op target source | compare lhs rhs => rfl
      | _ => cases hc
    rw [if_pos rfl, arithmetic_apply hc hreads, handled_of_not_jumps hj]
  | false =>
    have hnotes : b.machine.notes i = [] := by
      cases i with
      | halt => exact absurd rfl hi
      | binary op target source => cases hc
      | _ => rfl
    rw [if_neg (by simp), general_silent hi hc hreads hstack houtput, hnotes, List.append_nil]

/-- An instruction other than the halt that writes has nothing else to do. -/
theorem handle_output [Console κ] {i : Instruction} {first second : UInt8} {b : Bench κ}
    {o : Output} (hi : i ≠ .halt) (hreads : i.Reads first second)
    (houtput : b.machine.output? i = some o) : handle i.opcode first second b = write o b := by
  cases i with
  | halt => exact absurd rfl hi
  | printNumber source =>
    cases houtput
    show general .printNumber first second b = _
    simp only [general, bind_apply, value_apply_ok hreads]
  | printChar source =>
    cases houtput
    show general .printChar first second b = _
    simp only [general, bind_apply, value_apply_ok hreads]
  | _ => cases houtput

/-! ## Instructions that find a fault -/

theorem misnamed?_cons_cases {index i : UInt8} {bs : List UInt8}
    (h : Instruction.misnamed? (index :: bs) = some i) :
    (8 ≤ index.toNat ∧ i = index) ∨
      ((∃ r : Register, index.toNat = r.val) ∧ Instruction.misnamed? bs = some i) := by
  rw [Instruction.misnamed?_cons] at h
  split at h
  · rename_i hbad
    exact Or.inl ⟨hbad, (Option.some.inj h).symm⟩
  · rename_i hgood
    exact Or.inr ⟨⟨⟨index.toNat, by omega⟩, rfl⟩, h⟩

theorem general_misnamed [Console κ] {op : Opcode} {first second i : UInt8}
    (hc : op.computes = false) (h : Instruction.misnamed? (op.operands first second) = some i)
    (b : Bench κ) :
    general op first second b = some (.error (.noSuchRegister i b.machine.pc), b) := by
  cases op with
  | unary op | binary op | compare => cases hc
  | nop | halt | ret => cases h
  | load =>
    rcases misnamed?_cons_cases h with ⟨hs, rfl⟩ | ⟨⟨s, hs⟩, h⟩
    · simp only [general, bind_apply, value_apply_error hs]
    · rcases misnamed?_cons_cases h with ⟨hr, rfl⟩ | ⟨-, h⟩
      · simp only [general, bind_apply, value_apply_ok hs, machine_apply, assign_apply_error hr]
      · cases h
  | store =>
    rcases misnamed?_cons_cases h with ⟨hr, rfl⟩ | ⟨⟨r, hr⟩, h⟩
    · simp only [general, bind_apply, value_apply_error hr]
    · rcases misnamed?_cons_cases h with ⟨hs, rfl⟩ | ⟨-, h⟩
      · simp only [general, bind_apply, value_apply_ok hr, value_apply_error hs]
      · cases h
  | loadImmediate =>
    rcases misnamed?_cons_cases h with ⟨hr, rfl⟩ | ⟨-, h⟩
    · exact assign_apply_error hr b
    · cases h
  | push | pop | printNumber | printChar | call | jump condition =>
    rcases misnamed?_cons_cases h with ⟨hr, rfl⟩ | ⟨-, h⟩
    · simp only [general, jump, bind_apply, value_apply_error hr]
    · cases h

theorem arithmetic_misnamed {op : Opcode} {first second i : UInt8}
    (hc : op.computes = true) (h : Instruction.misnamed? (op.operands first second) = some i)
    (b : Bench κ) :
    arithmetic op first second b = some (.error (.noSuchRegister i b.machine.pc), b) := by
  have hbit : Encoding.isArithmetic op.byte = true := (Encoding.isArithmetic_byte op).trans hc
  unfold arithmetic
  simp only [hbit, not_true_eq_false, if_false]
  cases op with
  | unary op =>
    rcases misnamed?_cons_cases h with ⟨hr, rfl⟩ | ⟨-, h⟩
    · simp only [bind_apply, operand_apply_error hr]
    · cases h
  | binary op | compare =>
    rcases misnamed?_cons_cases h with ⟨hr, rfl⟩ | ⟨⟨r, hr⟩, h⟩
    · simp only [bind_apply, operand_apply_error hr]
    · rcases misnamed?_cons_cases h with ⟨hs, rfl⟩ | ⟨-, h⟩
      · simp only [bind_apply, operand_apply_ok hr, machine_apply, operand_apply_error hs,
          value_apply_error hs]
      · cases h
  | _ => cases hc

theorem handle_misnamed [Console κ] {op : Opcode} {first second i : UInt8}
    (h : Instruction.misnamed? (op.operands first second) = some i) (b : Bench κ) :
    handle op first second b = some (.error (.noSuchRegister i b.machine.pc), b) := by
  unfold handle
  cases hc : op.computes with
  | true => exact arithmetic_misnamed hc h b
  | false => exact general_misnamed hc h b

/-- The stack is looked at before anything is changed, and after the operands. -/
theorem handle_stackFault [Console κ] {i : Instruction} {first second : UInt8} {b : Bench κ}
    {fault : Fault} (hreads : i.Reads first second)
    (hstack : b.machine.stackFault? i = some fault) :
    handle i.opcode first second b = some (.error fault, b) := by
  cases i with
  | push source =>
    have hfull : b.machine.overflow? = some fault := hstack
    show general .push first second b = _
    simp only [general, bind_apply, value_apply_ok hreads, push_apply, hfull]
  | pop target =>
    have hempty : b.machine.underflow? = some fault := hstack
    show general .pop first second b = _
    simp only [general, bind_apply, value_apply_ok hreads, peek_apply, hempty]
  | call target =>
    show general .call first second b = _
    simp only [general, bind_apply, value_apply_ok hreads, machine_apply,
      pushReturn_apply _ target, hstack]
  | ret =>
    have hempty : b.machine.underflow? = some fault := hstack
    show general .ret first second b = _
    simp only [general, bind_apply, pop_apply, hempty]
  | _ => cases hstack

/-! ## Moving on -/

theorem successor_of_not_jumps {i : Instruction} (hi : i ≠ .halt) (hj : i.opcode.jumps = false)
    (m : Machine) : m.successor i = m.pc + i.opcode.length := by
  cases i with
  | halt => exact absurd rfl hi
  | call target | ret | jump condition target => cases hj
  | _ => rfl

theorem moveOn_apply {i : Instruction} (hi : i ≠ .halt) (m : Machine) (c : κ)
    (log : List Log.Entry) :
    moveOn i.opcode.byte ⟨handled m i, c, log⟩ = some (.ok .running, ⟨m.execute i, c, log⟩) := by
  unfold moveOn Machine.execute
  rw [Encoding.setsCounter_byte, ← Machine.steps_effect m i]
  cases hj : i.opcode.jumps with
  | true =>
    rw [handled_of_jumps hj]
    rfl
  | false =>
    rw [handled_of_not_jumps hj, successor_of_not_jumps hi hj, ← Machine.pc_effect m i]
    rfl

end Action

end ByteComputer
