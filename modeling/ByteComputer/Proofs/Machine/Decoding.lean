import ByteComputer.Machine.Execute

/-!
# Reading an instruction

Which bytes at the program counter give which instruction, and what is wrong with bytes that give
none.

* `Instruction.decode_eq_ok_iff`: the operands are the registers, or the value, that the two bytes
  behind the opcode stand for (`Instruction.Reads`).
* `Instruction.decode_eq_error_iff`: the byte at fault is the first of `Opcode.operands` that names
  no register. Bytes that an opcode does not use are not among them.
* `Machine.fetch_eq_ok_iff` and `Machine.ready_eq_ok_iff`: the same for the instruction at the
  program counter, and for an instruction that the stack can serve.
-/

namespace ByteComputer

/-! ## Results of a computation in two parts -/

theorem bind_eq_ok_iff {ε α β : Type} {x : Except ε α} {f : α → Except ε β} {b : β} :
    (x >>= f) = .ok b ↔ ∃ a, x = .ok a ∧ f a = .ok b := by
  cases x with
  | error e => simp [bind, Except.bind]
  | ok a => simp [bind, Except.bind]

theorem bind_eq_error_iff {ε α β : Type} {x : Except ε α} {f : α → Except ε β} {e : ε} :
    (x >>= f) = .error e ↔ x = .error e ∨ ∃ a, x = .ok a ∧ f a = .error e := by
  cases x with
  | error e => simp [bind, Except.bind]
  | ok a => simp [bind, Except.bind]

theorem pure_ne_error {ε α : Type} {a : α} {e : ε} : (pure a : Except ε α) ≠ .error e := by
  intro h
  cases h

/-! ## Opcodes and their bytes -/

theorem Opcode.byte_injective {op op' : Opcode} (h : op.byte = op'.byte) : op = op' := by
  have := ofByte?_byte op
  rw [h, ofByte?_byte] at this
  exact (Option.some.inj this).symm

theorem Opcode.length_jump (condition : Condition) : (jump condition).length = 2 := by
  cases condition <;> rfl

theorem Opcode.length_unary (op : UnaryOp) : (unary op).length = 2 := by
  cases op <;> rfl

theorem Opcode.length_binary (op : BinaryOp) : (binary op).length = 3 := by
  cases op <;> rfl

/-! ## Bytes that must name registers -/

/-- The bytes behind an opcode that must name registers, in the order in which they are looked
at. -/
def Opcode.operands (first second : UInt8) : Opcode → List UInt8
  | .nop | .halt | .ret => []
  | .load => [second, first]
  | .store | .binary _ | .compare => [first, second]
  | _ => [first]

namespace Instruction

/-- The operands of an instruction are what the two bytes behind its opcode stand for. -/
def Reads (first second : UInt8) : Instruction → Prop
  | nop | halt | ret => True
  | loadImmediate target value => first.toNat = target.val ∧ second = value
  | load target address => first.toNat = target.val ∧ second.toNat = address.val
  | store address source => first.toNat = address.val ∧ second.toNat = source.val
  | binary _ target source => first.toNat = target.val ∧ second.toNat = source.val
  | compare lhs rhs => first.toNat = lhs.val ∧ second.toNat = rhs.val
  | push r | pop r | printNumber r | printChar r | call r | jump _ r | unary _ r =>
    first.toNat = r.val

/-! ## Decoding -/

theorem opcode_eq_halt_iff {i : Instruction} : i.opcode = .halt ↔ i = .halt := by
  cases i <;> simp [opcode]

theorem decode_of_reads {i : Instruction} {first second : UInt8} (h : i.Reads first second) :
    decode i.opcode first second = .ok i := by
  cases i with
  | nop | halt | ret => rfl
  | loadImmediate target value =>
    obtain ⟨ht, rfl⟩ := h
    simp only [opcode, decode, operand_eq_ok_iff.2 ht]
    rfl
  | load target address | store address source | binary op target source | compare lhs rhs =>
    simp only [opcode, decode, operand_eq_ok_iff.2 h.1, operand_eq_ok_iff.2 h.2]
    rfl
  | push r | pop r | printNumber r | printChar r | call r | jump condition r | unary op r =>
    simp only [opcode, decode, operand_eq_ok_iff.2 h]
    rfl

theorem reads_of_decode {op : Opcode} {i : Instruction} {first second : UInt8}
    (h : decode op first second = .ok i) : i.opcode = op ∧ i.Reads first second := by
  cases op with
  | nop | halt | ret =>
    cases h
    exact ⟨rfl, trivial⟩
  | loadImmediate =>
    obtain ⟨r, hr, h⟩ := bind_eq_ok_iff.1 h
    cases h
    exact ⟨rfl, operand_eq_ok_iff.1 hr, rfl⟩
  | load =>
    obtain ⟨s, hs, h⟩ := bind_eq_ok_iff.1 h
    obtain ⟨r, hr, h⟩ := bind_eq_ok_iff.1 h
    cases h
    exact ⟨rfl, operand_eq_ok_iff.1 hr, operand_eq_ok_iff.1 hs⟩
  | store | binary op | compare =>
    obtain ⟨r, hr, h⟩ := bind_eq_ok_iff.1 h
    obtain ⟨s, hs, h⟩ := bind_eq_ok_iff.1 h
    cases h
    exact ⟨rfl, operand_eq_ok_iff.1 hr, operand_eq_ok_iff.1 hs⟩
  | push | pop | printNumber | printChar | call | jump condition | unary op =>
    obtain ⟨r, hr, h⟩ := bind_eq_ok_iff.1 h
    cases h
    exact ⟨rfl, operand_eq_ok_iff.1 hr⟩

theorem decode_eq_ok_iff {op : Opcode} {i : Instruction} {first second : UInt8} :
    decode op first second = .ok i ↔ i.opcode = op ∧ i.Reads first second := by
  constructor
  · exact reads_of_decode
  · rintro ⟨rfl, h⟩
    exact decode_of_reads h

/-! ## Operands that name no register -/

/-- The first of some bytes that names no register. -/
def misnamed? (bs : List UInt8) : Option UInt8 := bs.find? fun b => decide (8 ≤ b.toNat)

theorem misnamed?_nil : misnamed? [] = none := rfl

theorem misnamed?_cons (b : UInt8) (bs : List UInt8) :
    misnamed? (b :: bs) = if 8 ≤ b.toNat then some b else misnamed? bs := by
  by_cases h : 8 ≤ b.toNat <;> simp [misnamed?, h]

/-- Looking at an operand first is looking at the first of the bytes. -/
theorem operand_bind_eq_error_iff {α : Type} {f : Register → Except UInt8 α} {b i : UInt8}
    {bs : List UInt8} (hf : ∀ r, f r = .error i ↔ misnamed? bs = some i) :
    (operand b >>= f) = .error i ↔ misnamed? (b :: bs) = some i := by
  rw [bind_eq_error_iff, misnamed?_cons]
  by_cases h : 8 ≤ b.toNat
  · have hb : operand b = .error b := operand_eq_error_iff.2 ⟨h, rfl⟩
    simp [h, hb]
  · have hb : operand b = .ok ⟨b.toNat, by omega⟩ := operand_eq_ok_iff.2 rfl
    simp [h, hb, hf]

theorem decode_eq_error_iff {op : Opcode} {first second i : UInt8} :
    decode op first second = .error i ↔ misnamed? (op.operands first second) = some i := by
  have hdone : ∀ j : Instruction,
      (pure j : Except UInt8 Instruction) = .error i ↔ misnamed? [] = some i := by
    intro j
    simp [pure_ne_error, misnamed?_nil]
  cases op with
  | nop | halt | ret => exact hdone _
  | load | store | binary op | compare =>
    exact operand_bind_eq_error_iff fun r => operand_bind_eq_error_iff fun s => hdone _
  | loadImmediate | push | pop | printNumber | printChar | call | jump condition | unary op =>
    exact operand_bind_eq_error_iff fun r => hdone _

end Instruction

/-! ## The instruction at the program counter -/

namespace Machine

theorem fetch_eq_ok_iff {m : Machine} {i : Instruction} :
    m.fetch = .ok i ↔
      i.opcode.byte = m.read m.pc ∧ i.Reads (m.read (m.pc + 1)) (m.read (m.pc + 2)) := by
  rw [← Opcode.ofByte?_eq_some_iff]
  simp only [fetch]
  cases hop : Opcode.ofByte? (m.read m.pc) with
  | none => simp
  | some op =>
    simp only [Option.some.injEq]
    cases hd : Instruction.decode op (m.read (m.pc + 1)) (m.read (m.pc + 2)) with
    | ok j =>
      obtain ⟨rfl, hj⟩ := Instruction.decode_eq_ok_iff.1 hd
      simp only [Except.ok.injEq]
      constructor
      · rintro rfl
        exact ⟨rfl, hj⟩
      · rintro ⟨hop, hi⟩
        rw [hop, Instruction.decode_of_reads hi] at hd
        cases hd
        rfl
    | error b =>
      simp only [reduceCtorEq, false_iff]
      rintro ⟨rfl, hi⟩
      rw [Instruction.decode_of_reads hi] at hd
      cases hd

theorem fetch_eq_unknown_iff {m : Machine} {k pc : UInt8} :
    m.fetch = .error (.unknownOpcode k pc) ↔
      (∀ op : Opcode, op.byte ≠ m.read m.pc) ∧ k = m.read m.pc ∧ pc = m.pc := by
  simp only [fetch]
  cases hop : Opcode.ofByte? (m.read m.pc) with
  | none =>
    have hno : ∀ op : Opcode, op.byte ≠ m.read m.pc := by
      intro op h
      rw [Opcode.ofByte?_eq_some_iff.2 h] at hop
      cases hop
    simp [hno, eq_comm]
  | some op =>
    have hbyte := Opcode.ofByte?_eq_some_iff.1 hop
    have hno : ¬ ∀ op : Opcode, op.byte ≠ m.read m.pc := fun h => h op hbyte
    simp only [hno, false_and, iff_false]
    split <;> simp

/-- An operand at fault is reported with the address of the instruction. -/
theorem fetch_eq_error_of_byte {m : Machine} {op : Opcode} (hop : op.byte = m.read m.pc)
    {fault : Fault} :
    m.fetch = .error fault ↔
      ∃ i, fault = .noSuchRegister i m.pc ∧
        Instruction.misnamed? (op.operands (m.read (m.pc + 1)) (m.read (m.pc + 2))) = some i := by
  simp only [fetch, Opcode.ofByte?_eq_some_iff.2 hop, ← Instruction.decode_eq_error_iff]
  cases hd : Instruction.decode op (m.read (m.pc + 1)) (m.read (m.pc + 2)) with
  | ok j => simp
  | error b => simp [eq_comm]

theorem ready_eq_ok_iff {m : Machine} {i : Instruction} :
    m.ready = .ok i ↔ m.fetch = .ok i ∧ m.stackFault? i = none := by
  simp only [ready, bind_eq_ok_iff]
  constructor
  · rintro ⟨j, hj, h⟩
    split at h
    · cases h
    · cases h
      exact ⟨hj, by assumption⟩
  · rintro ⟨hi, hnone⟩
    exact ⟨i, hi, by rw [hnone]⟩

theorem ready_eq_error_iff {m : Machine} {fault : Fault} :
    m.ready = .error fault ↔
      m.fetch = .error fault ∨ ∃ i, m.fetch = .ok i ∧ m.stackFault? i = some fault := by
  simp only [ready, bind_eq_error_iff]
  refine or_congr_right (exists_congr fun i => and_congr_right fun _ => ?_)
  split
  · rename_i hsome
    simp [hsome]
  · rename_i hnone
    simp [hnone]

end Machine

end ByteComputer
