import ByteComputer.Machine.Execute

/-!
# What the operations on a machine leave alone

Each operation changes the parts of a machine that it names and keeps the others. The statements
about whole instructions follow from those about the operations that make them up:

* `register_setRegister`, `read_write`: the part that is set.
* `effect_frame`: an effect moves neither the counters nor the stack floor nor the configuration;
  only a halt touches the state (`state_effect`).
* `sp_pushByte`, `read_pushByte`, `sp_dropTop`: the two ways to move the stack pointer.
-/

namespace ByteComputer

theorem Registers.ext_get {rs ss : Registers} (hget : ∀ r, rs.get r = ss.get r)
    (hflags : rs.flags = ss.flags) : rs = ss := by
  obtain ⟨values, flags⟩ := rs
  obtain ⟨others, _⟩ := ss
  cases hflags
  refine congrArg (Registers.mk · flags) (Vector.ext fun i hi => ?_)
  exact hget ⟨i, hi⟩

namespace Machine

/-! ## Memory -/

theorem read_write (m : Machine) (a b v : UInt8) :
    (m.write a v).read b = if a = b then v else m.read b :=
  Memory.read_write m.memory a b v

@[simp] theorem sp_write (m : Machine) (a v : UInt8) : (m.write a v).sp = m.sp := rfl

/-! ## Registers -/

theorem register_setRegister (m : Machine) (r s : Register) (v : UInt8) :
    (m.setRegister r v).register s = if r = s then v else m.register s :=
  Registers.get_set m.registers r s v

@[simp] theorem read_setRegister (m : Machine) (r : Register) (v a : UInt8) :
    (m.setRegister r v).read a = m.read a := rfl

/-- The stack pointer is a register like the others. -/
theorem sp_eq (m : Machine) : m.sp = m.register Register.stackPointer := rfl

theorem setSp_eq (m : Machine) (v : UInt8) :
    m.setSp v = m.setRegister Register.stackPointer v := rfl

@[simp] theorem sp_setSp (m : Machine) (v : UInt8) : (m.setSp v).sp = v := by
  simp [setSp_eq, sp_eq, register_setRegister]

theorem sp_setRegister_of_ne (m : Machine) {r : Register} (v : UInt8)
    (h : r ≠ Register.stackPointer) : (m.setRegister r v).sp = m.sp := by
  rw [sp_eq, register_setRegister, if_neg h, sp_eq]

/-! ## The stack -/

@[simp] theorem sp_pushByte (m : Machine) (v : UInt8) : (m.pushByte v).sp = m.sp - 1 := by
  simp [pushByte]

theorem read_pushByte (m : Machine) (v a : UInt8) :
    (m.pushByte v).read a = if m.sp - 1 = a then v else m.read a := by
  simp [pushByte, setSp_eq, read_write]

@[simp] theorem sp_dropTop (m : Machine) : m.dropTop.sp = m.sp + 1 := by
  simp [dropTop]

@[simp] theorem read_dropTop (m : Machine) (a : UInt8) : m.dropTop.read a = m.read a := rfl

theorem toNat_sp_dropTop {m : Machine} (h : m.sp.toNat < 0xF4) :
    m.dropTop.sp.toNat = m.sp.toNat + 1 := by
  rw [sp_dropTop, UInt8.toNat_add]
  show (m.sp.toNat + 1) % 2 ^ 8 = _
  omega

theorem toNat_sp_pushByte {m : Machine} {v : UInt8} (hpos : 0 < m.sp.toNat) :
    (m.pushByte v).sp.toNat = m.sp.toNat - 1 := by
  have hlt := m.sp.toNat_lt
  rw [sp_pushByte, UInt8.toNat_sub]
  show (2 ^ 8 - 1 + m.sp.toNat) % 2 ^ 8 = _
  omega

/-! ## Effects of instructions -/

/-- An operation on two registers sets the first of them, if it has a result. -/
theorem effect_binary (m : Machine) (op : BinaryOp) (target source : Register) :
    m.effect (.binary op target source) = m ∨
      ∃ v, m.effect (.binary op target source) = m.setRegister target v := by
  cases hresult : op.result? (m.register target) (m.register source) with
  | none =>
    left
    simp only [effect, hresult]
  | some v =>
    right
    refine ⟨v, ?_⟩
    simp only [effect, hresult]

/-- An operation on two registers can be done before or after a change to the machine that lets the
registers alone. -/
theorem effect_binary_comm {f : Machine → Machine} {m : Machine}
    (hregister : (f m).register = m.register)
    (hset : ∀ r v, (f m).setRegister r v = f (m.setRegister r v)) (op : BinaryOp)
    (target source : Register) :
    (f m).effect (.binary op target source) = f (m.effect (.binary op target source)) := by
  simp only [effect, hregister]
  cases op.result? (m.register target) (m.register source) with
  | none => rfl
  | some value => exact hset target value

theorem effect_frame (m : Machine) (i : Instruction) :
    (m.effect i).pc = m.pc ∧ (m.effect i).stackFloor = m.stackFloor ∧
      (m.effect i).config = m.config ∧ (m.effect i).steps = m.steps := by
  cases i with
  | binary op target source =>
    rcases m.effect_binary op target source with h | ⟨v, h⟩
    · rw [h]
      exact ⟨rfl, rfl, rfl, rfl⟩
    · rw [h]
      exact ⟨rfl, rfl, rfl, rfl⟩
  | _ => exact ⟨rfl, rfl, rfl, rfl⟩

@[simp] theorem pc_effect (m : Machine) (i : Instruction) : (m.effect i).pc = m.pc :=
  (m.effect_frame i).1

@[simp] theorem stackFloor_effect (m : Machine) (i : Instruction) :
    (m.effect i).stackFloor = m.stackFloor := (m.effect_frame i).2.1

@[simp] theorem config_effect (m : Machine) (i : Instruction) :
    (m.effect i).config = m.config := (m.effect_frame i).2.2.1

@[simp] theorem steps_effect (m : Machine) (i : Instruction) : (m.effect i).steps = m.steps :=
  (m.effect_frame i).2.2.2

theorem state_effect (m : Machine) (i : Instruction) :
    (m.effect i).state = if i = .halt then .halted else m.state := by
  cases i with
  | binary op target source =>
    rcases m.effect_binary op target source with h | ⟨v, h⟩
    · rw [h]
      rfl
    · rw [h]
      rfl
  | _ => rfl

/-! ## Executed instructions -/

@[simp] theorem read_execute (m : Machine) (i : Instruction) (a : UInt8) :
    (m.execute i).read a = (m.effect i).read a := rfl

@[simp] theorem sp_execute (m : Machine) (i : Instruction) :
    (m.execute i).sp = (m.effect i).sp := rfl

@[simp] theorem stackFloor_execute (m : Machine) (i : Instruction) :
    (m.execute i).stackFloor = m.stackFloor := stackFloor_effect m i

@[simp] theorem config_execute (m : Machine) (i : Instruction) :
    (m.execute i).config = m.config := config_effect m i

theorem state_execute (m : Machine) (i : Instruction) :
    (m.execute i).state = if i = .halt then .halted else m.state := state_effect m i

/-- Only a comparison changes the flags. -/
theorem flags_execute {m : Machine} {i : Instruction} (hi : i.opcode ≠ .compare) :
    (m.execute i).registers.flags = m.registers.flags := by
  show (m.effect i).registers.flags = _
  cases i with
  | compare lhs rhs => exact absurd rfl hi
  | binary op r s =>
    rcases m.effect_binary op r s with h | ⟨v, h⟩
    · rw [h]
    · rw [h]
      rfl
  | _ => rfl

/-- Only three instructions change the memory, each of them one cell. -/
theorem eq_of_read_execute {m : Machine} {i : Instruction} {a : UInt8}
    (h : (m.execute i).read a ≠ m.read a) :
    (∃ r s, i = .store r s ∧ a = m.register r) ∨
      (i.opcode = .push ∨ i.opcode = .call) ∧ a = m.sp - 1 := by
  rw [read_execute] at h
  cases i with
  | store r s =>
    refine Or.inl ⟨r, s, rfl, ?_⟩
    by_cases ha : m.register r = a
    · exact ha.symm
    · exact absurd ((m.read_write _ a _).trans (if_neg ha)) h
  | push r =>
    refine Or.inr ⟨Or.inl rfl, ?_⟩
    by_cases ha : m.sp - 1 = a
    · exact ha.symm
    · exact absurd ((m.read_pushByte _ a).trans (if_neg ha)) h
  | call r =>
    refine Or.inr ⟨Or.inr rfl, ?_⟩
    by_cases ha : m.sp - 1 = a
    · exact ha.symm
    · exact absurd ((m.read_pushByte _ a).trans (if_neg ha)) h
  | binary op r s =>
    rcases m.effect_binary op r s with he | ⟨v, he⟩
    · rw [he] at h
      exact absurd rfl h
    · rw [he] at h
      exact absurd rfl h
  | _ => exact absurd rfl h

end Machine

end ByteComputer
