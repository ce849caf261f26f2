import ByteComputer.Proofs.Atomicity
import ByteComputer.Proofs.Table.Basic

/-!
# Steps and the table of instructions

* `Numbers.wrap_add` and its companions: the arithmetic of bytes is that of the integers, wrapped.
* `Machine.line?_of_reads`: the line of an instruction describes its execution.
* `Machine.step_eq_table`: a step that succeeds is a line of the table.
-/

namespace ByteComputer

/-! ## Bytes as integers -/

namespace Numbers

theorem wrap_toNat (x : UInt8) : wrap x.toNat = x.toNat := by
  have := x.toNat_lt
  unfold wrap
  omega

theorem wrap_add (x y : UInt8) : wrap (x.toNat + y.toNat : Int) = (x + y).toNat := by
  rw [UInt8.toNat_add]
  unfold wrap
  omega

theorem wrap_sub (x y : UInt8) : wrap (x.toNat - y.toNat : Int) = (x - y).toNat := by
  have hy := y.toNat_lt
  rw [UInt8.toNat_sub]
  unfold wrap
  omega

theorem wrap_mul (x y : UInt8) : wrap (x.toNat * y.toNat : Int) = (x * y).toNat := by
  rw [UInt8.toNat_mul]
  unfold wrap
  rw [← Int.natCast_mul]
  omega

theorem wrap_complement (x : UInt8) : wrap (255 - x.toNat : Int) = (~~~x).toNat := by
  have hx := x.toNat_lt
  rw [UInt8.toNat_not]
  unfold wrap
  simp only [UInt8.size]
  omega

theorem wrap_shiftLeft (x y : UInt8) :
    wrap (x.toNat * 2 ^ y.toNat : Nat) = (if y < 8 then x <<< y else 0).toNat := by
  unfold wrap
  by_cases hy : y.toNat < 8
  · have h : y < 8 := UInt8.lt_iff_toNat_lt.2 hy
    rw [if_pos h, UInt8.toNat_shiftLeft, Nat.mod_eq_of_lt hy, Nat.shiftLeft_eq]
    omega
  · have h : ¬ y < 8 := fun h => hy (UInt8.lt_iff_toNat_lt.1 h)
    -- from eight on the power is a multiple of 256
    obtain ⟨d, hd⟩ := Nat.exists_eq_add_of_le (Nat.le_of_not_lt hy)
    rw [if_neg h, hd, Nat.pow_add, Nat.mul_left_comm, Int.natCast_mul]
    simp

theorem wrap_shiftRight (x y : UInt8) :
    wrap (x.toNat / 2 ^ y.toNat : Nat) = (if y < 8 then x >>> y else 0).toNat := by
  have hx := x.toNat_lt
  by_cases hy : y.toNat < 8
  · have h : y < 8 := UInt8.lt_iff_toNat_lt.2 hy
    have hshift : (x >>> y).toNat = x.toNat / 2 ^ y.toNat := by
      rw [UInt8.toNat_shiftRight, Nat.mod_eq_of_lt hy, Nat.shiftRight_eq_div_pow]
    rw [if_pos h, ← hshift, wrap_toNat]
  · have h : ¬ y < 8 := fun h => hy (UInt8.lt_iff_toNat_lt.1 h)
    have hpow : 2 ^ 8 ≤ 2 ^ y.toNat := Nat.pow_le_pow_right (by omega) (Nat.le_of_not_lt hy)
    rw [if_neg h, Nat.div_eq_of_lt (by omega)]
    rfl

/-- The distance to the next instruction. -/
theorem wrap_length (pc : UInt8) (op : Opcode) :
    wrap (pc.toNat + op.byte.toNat / 64 + 1 : Int) = (pc + op.length).toNat := by
  have hlength : op.length.toNat = op.byte.toNat / 64 + 1 := by
    cases op with
    | jump c => cases c <;> rfl
    | unary op => cases op <;> rfl
    | binary op => cases op <;> rfl
    | _ => rfl
  rw [UInt8.toNat_add, hlength]
  unfold wrap
  omega

end Numbers

/-! ## The numbers of a machine -/

theorem Flags.bits_injective {f g : Flags} (h : f.bits.toNat = g.bits.toNat) : f = g := by
  revert h
  cases f <;> cases g <;> decide

namespace Machine

theorem numbers_cell (m : Machine) (a : UInt8) : m.numbers.cell a.toNat = (m.read a).toNat := by
  show (if a.toNat < 256 then _ else _) = _
  rw [if_pos a.toNat_lt]
  simp

theorem numbers_register (m : Machine) (r : Register) :
    m.numbers.register r.val = (m.register r).toNat := by
  show (if h : r.val < 8 then _ else _) = _
  rw [dif_pos r.isLt]

theorem numbers_setRegister (m : Machine) (r : Register) {v : UInt8} {w : Int}
    (h : Numbers.wrap w = v.toNat) : (m.setRegister r v).numbers = m.numbers.give r.val w := by
  ext n
  · rfl
  · show (if h : n < 8 then ((m.setRegister r v).register ⟨n, h⟩).toNat else 0) =
      if n = r.val then Numbers.wrap w else m.numbers.register n
    rw [h]
    by_cases hn : n = r.val
    · subst hn
      simp [register_setRegister]
    · have hne : ∀ hlt, r ≠ (⟨n, hlt⟩ : Register) := by
        rintro hlt rfl
        exact hn rfl
      simp only [register_setRegister, hne, if_false, if_neg hn]
      rfl
  all_goals rfl

theorem numbers_write (m : Machine) (a : UInt8) {v : UInt8} {w : Int}
    (h : Numbers.wrap w = v.toNat) :
    (m.write a v).numbers = { m.numbers with cell := Numbers.put m.numbers.cell a.toNat w } := by
  ext n
  · show (if n < 256 then ((m.write a v).read n.toUInt8).toNat else 0) =
      if n = a.toNat then Numbers.wrap w else m.numbers.cell n
    rw [h]
    by_cases hn : n = a.toNat
    · subst hn
      simp [read_write, a.toNat_lt]
    · by_cases hlt : n < 256
      · have hne : a ≠ n.toUInt8 := by
          rintro rfl
          exact hn (by simp [Nat.mod_eq_of_lt hlt])
        simp [read_write, hne, hn, hlt, numbers]
      · simp [hlt, hn, numbers]
  all_goals rfl

theorem numbers_fetch (m : Machine) :
    m.numbers.fetch 0 = (m.read m.pc).toNat ∧ m.numbers.fetch 1 = (m.read (m.pc + 1)).toNat ∧
      m.numbers.fetch 2 = (m.read (m.pc + 2)).toNat := by
  have hpc := m.pc.toNat_lt
  refine ⟨?_, ?_, ?_⟩
  · rw [← numbers_cell]
    exact congrArg m.numbers.cell (Nat.mod_eq_of_lt hpc)
  · rw [← numbers_cell, UInt8.toNat_add]
    rfl
  · rw [← numbers_cell, UInt8.toNat_add]
    rfl

/-- The numbers leave out nothing but the stack floor and the configuration. -/
theorem ext_numbers {m n : Machine} (h : m.numbers = n.numbers)
    (hfloor : m.stackFloor = n.stackFloor) (hconfig : m.config = n.config) : m = n := by
  have hmemory : m.memory = n.memory := by
    refine Memory.ext_read fun a => UInt8.toNat_inj.1 ?_
    exact (m.numbers_cell a).symm.trans ((congrArg (·.cell a.toNat) h).trans (n.numbers_cell a))
  have hregisters : m.registers = n.registers := by
    refine Registers.ext_get (fun r => UInt8.toNat_inj.1 ?_) ?_
    · exact (m.numbers_register r).symm.trans
        ((congrArg (·.register r.val) h).trans (n.numbers_register r))
    · exact Flags.bits_injective (congrArg Numbers.flags h)
  have hpc : m.pc = n.pc := UInt8.toNat_inj.1 (congrArg Numbers.pc h)
  have hstate : m.state = n.state := by
    have hhalted : decide (m.state = .halted) = decide (n.state = .halted) :=
      congrArg Numbers.halted h
    revert hhalted
    cases m.state <;> cases n.state <;> decide
  have hsteps : m.steps = n.steps := congrArg Numbers.steps h
  cases m
  cases n
  simp only [mk.injEq]
  exact ⟨hmemory, hregisters, hpc, hstate, hfloor, hconfig, hsteps⟩

/-! ## Instructions -/

theorem numbers_execute (m : Machine) (i : Instruction) :
    (m.execute i).numbers =
      { (m.effect i).numbers with pc := (m.successor i).toNat, steps := m.steps + 1 } := rfl

/-- The instruction is left behind for the next one in memory. -/
theorem numbers_of_onward {m : Machine} {i : Instruction}
    (hnext : m.successor i = m.pc + i.opcode.length) :
    (m.execute i).numbers = (m.effect i).numbers.ahead i.opcode.byte.toNat := by
  have hpc : (m.effect i).numbers.pc = m.pc.toNat := congrArg UInt8.toNat (m.pc_effect i)
  have hsteps : (m.effect i).numbers.steps = m.steps := m.steps_effect i
  unfold Numbers.ahead
  rw [numbers_execute, hnext, ← Numbers.wrap_length, hpc, hsteps]

theorem numbers_of_quiet {m : Machine} {i : Instruction} (heffect : m.effect i = m)
    (hnext : m.successor i = m.pc + i.opcode.length) :
    (m.execute i).numbers = m.numbers.ahead i.opcode.byte.toNat := by
  rw [numbers_of_onward hnext, heffect]

theorem numbers_of_set {m : Machine} {i : Instruction} {r : Register} {v : UInt8} {w : Int}
    (heffect : m.effect i = m.setRegister r v) (hnext : m.successor i = m.pc + i.opcode.length)
    (h : Numbers.wrap w = v.toNat) :
    (m.execute i).numbers = (m.numbers.ahead i.opcode.byte.toNat).give r.val w := by
  rw [numbers_of_onward hnext, heffect, numbers_setRegister m r h]
  rfl

theorem numbers_pushByte (m : Machine) {v : UInt8} {w : Int} (h : Numbers.wrap w = v.toNat) :
    (m.pushByte v).numbers = m.numbers.push w := by
  have hsp : m.numbers.register 7 = m.sp.toNat := m.numbers_register Register.stackPointer
  have hwrap : Numbers.wrap (m.sp.toNat - 1 : Int) = (m.sp - 1).toNat := Numbers.wrap_sub m.sp 1
  unfold pushByte Numbers.push
  rw [numbers_write _ _ h, setSp_eq, numbers_setRegister _ _ hwrap, hsp, hwrap]
  rfl

theorem numbers_dropTop (m : Machine) :
    m.dropTop.numbers = m.numbers.give 7 (m.numbers.register 7 + 1 : Int) := by
  have hsp : m.numbers.register 7 = m.sp.toNat := m.numbers_register Register.stackPointer
  have hwrap : Numbers.wrap (m.sp.toNat + 1 : Int) = (m.sp + 1).toNat := Numbers.wrap_add m.sp 1
  rw [hsp]
  exact m.numbers_setRegister Register.stackPointer hwrap

/-! ## Lines of the table -/

theorem line?_unary (m : Machine) (op : UnaryOp) (r : Register) (b : Nat) :
    m.numbers.line? (Opcode.unary op).byte.toNat r.val b =
      some (m.execute (.unary op r)).numbers := by
  have hx := m.numbers_register r
  cases op with
  | increment =>
    rw [numbers_of_set rfl rfl (Numbers.wrap_add _ 1), ← hx]
    rfl
  | decrement =>
    rw [numbers_of_set rfl rfl (Numbers.wrap_sub _ 1), ← hx]
    rfl
  | complement =>
    rw [numbers_of_set rfl rfl (Numbers.wrap_complement _), ← hx]
    rfl

theorem numbers_of_result {m : Machine} {op : BinaryOp} {r s : Register} {v : UInt8} {w : Int}
    (hresult : op.result? (m.register r) (m.register s) = some v)
    (h : Numbers.wrap w = v.toNat) :
    (m.execute (.binary op r s)).numbers =
      (m.numbers.ahead (Opcode.binary op).byte.toNat).give r.val w := by
  refine numbers_of_set ?_ rfl h
  simp only [effect, hresult]

theorem numbers_of_no_result {m : Machine} {op : BinaryOp} {r s : Register}
    (hresult : op.result? (m.register r) (m.register s) = none) :
    (m.execute (.binary op r s)).numbers = m.numbers.ahead (Opcode.binary op).byte.toNat := by
  refine numbers_of_quiet ?_ rfl
  simp only [effect, hresult]

/-- Division and remainder: nothing is given when the divisor is zero. -/
theorem numbers_of_division {m : Machine} {op : BinaryOp} {r s : Register}
    {q : UInt8 → UInt8 → UInt8} {w : Nat}
    (hop : ∀ x y, op.result? x y = if y = 0 then none else some (q x y))
    (hq : (q (m.register r) (m.register s)).toNat = w) :
    (if m.numbers.register s.val = 0 then m.numbers.ahead (Opcode.binary op).byte.toNat
      else (m.numbers.ahead (Opcode.binary op).byte.toNat).give r.val w) =
      (m.execute (.binary op r s)).numbers := by
  have hresult := hop (m.register r) (m.register s)
  have hy := m.numbers_register s
  by_cases hs : m.register s = 0
  · have hzero : m.numbers.register s.val = 0 := by
      rw [hy, hs]
      rfl
    rw [if_pos hs] at hresult
    rw [if_pos hzero, numbers_of_no_result hresult]
  · have hne : m.numbers.register s.val ≠ 0 := by
      rw [hy]
      exact fun h => hs (UInt8.toNat_inj.1 h)
    rw [if_neg hs] at hresult
    rw [if_neg hne, numbers_of_result hresult (Numbers.wrap_toNat _), hq]

theorem line?_binary (m : Machine) (op : BinaryOp) (r s : Register) :
    m.numbers.line? (Opcode.binary op).byte.toNat r.val s.val =
      some (m.execute (.binary op r s)).numbers := by
  have hx := m.numbers_register r
  have hy := m.numbers_register s
  cases op with
  | add =>
    rw [numbers_of_result rfl (Numbers.wrap_add _ _), ← hx, ← hy]
    rfl
  | sub =>
    rw [numbers_of_result rfl (Numbers.wrap_sub _ _), ← hx, ← hy]
    rfl
  | mul =>
    rw [numbers_of_result rfl (Numbers.wrap_mul _ _), ← hx, ← hy]
    rfl
  | div =>
    rw [← numbers_of_division (fun _ _ => rfl) (UInt8.toNat_div _ _), ← hx, ← hy]
    rfl
  | mod =>
    rw [← numbers_of_division (fun _ _ => rfl) (UInt8.toNat_mod _ _), ← hx, ← hy]
    rfl
  | and =>
    rw [numbers_of_result rfl (Numbers.wrap_toNat _), UInt8.toNat_and, ← hx, ← hy]
    rfl
  | or =>
    rw [numbers_of_result rfl (Numbers.wrap_toNat _), UInt8.toNat_or, ← hx, ← hy]
    rfl
  | xor =>
    rw [numbers_of_result rfl (Numbers.wrap_toNat _), UInt8.toNat_xor, ← hx, ← hy]
    rfl
  | shiftLeft =>
    rw [numbers_of_result rfl (Numbers.wrap_shiftLeft _ _), ← hx, ← hy]
    rfl
  | shiftRight =>
    rw [numbers_of_result rfl (Numbers.wrap_shiftRight _ _), ← hx, ← hy]
    rfl

theorem numbers_of_jump (m : Machine) (condition : Condition) (r : Register) :
    (m.execute (.jump condition r)).numbers =
      if condition.holds m.registers.flags then m.numbers.goTo (m.numbers.register r.val)
      else m.numbers.ahead (Opcode.jump condition).byte.toNat := by
  rw [numbers_register]
  by_cases h : condition.holds m.registers.flags = true
  · rw [if_pos h, numbers_execute]
    simp only [successor, h, if_true]
    rfl
  · have hnext : m.successor (.jump condition r) = m.pc + (Opcode.jump condition).length := if_neg h
    rw [if_neg h]
    exact numbers_of_quiet rfl hnext

theorem flags_numbers (m : Machine) :
    m.numbers.equal = Condition.equal.holds m.registers.flags ∧
      m.numbers.greater = Condition.greater.holds m.registers.flags ∧
      m.numbers.less = Condition.less.holds m.registers.flags := by
  show m.registers.flags.bits.toNat.testBit 0 = _ ∧ m.registers.flags.bits.toNat.testBit 1 = _ ∧
    m.registers.flags.bits.toNat.testBit 2 = _
  cases m.registers.flags with
  | clear | equal | greater | less => decide

theorem line?_jump (m : Machine) (condition : Condition) (r : Register) (b : Nat) :
    m.numbers.line? (Opcode.jump condition).byte.toNat r.val b =
      some (m.execute (.jump condition r)).numbers := by
  obtain ⟨hequal, hgreater, hless⟩ := m.flags_numbers
  rw [numbers_of_jump]
  cases condition with
  | always => rfl
  | equal =>
    rw [← hequal]
    rfl
  | notEqual =>
    have h : Condition.notEqual.holds m.registers.flags = !m.numbers.equal := by
      rw [hequal]
      exact decide_not
    rw [h]
    rfl
  | greater =>
    rw [← hgreater]
    rfl
  | less =>
    rw [← hless]
    rfl
  | lessOrEqual =>
    have h : Condition.lessOrEqual.holds m.registers.flags =
        (m.numbers.less || m.numbers.equal) := by
      rw [hless, hequal]
      rfl
    rw [h]
    rfl
  | greaterOrEqual =>
    have h : Condition.greaterOrEqual.holds m.registers.flags =
        (m.numbers.greater || m.numbers.equal) := by
      rw [hgreater, hequal]
      rfl
    rw [h]
    rfl

theorem flags_compare (x y : UInt8) :
    (Flags.compare x y).bits.toNat =
      if x.toNat < y.toNat then 0b100 else if x.toNat = y.toNat then 0b001 else 0b010 := by
  unfold Flags.compare
  by_cases hlt : x.toNat < y.toNat
  · rw [if_pos hlt, if_pos (UInt8.lt_iff_toNat_lt.2 hlt)]
    rfl
  · rw [if_neg hlt, if_neg (mt UInt8.lt_iff_toNat_lt.1 hlt)]
    by_cases heq : x = y
    · rw [if_pos heq, if_pos (UInt8.toNat_inj.2 heq)]
      rfl
    · rw [if_neg heq, if_neg (mt UInt8.toNat_inj.1 heq)]
      rfl

/-- The line of an instruction says what executing it comes to. -/
theorem line?_of_reads {m : Machine} {i : Instruction} {first second : UInt8}
    (h : i.Reads first second) :
    m.numbers.line? i.opcode.byte.toNat first.toNat second.toNat = some (m.execute i).numbers := by
  cases i with
  | nop => exact congrArg some (numbers_of_quiet rfl rfl).symm
  | halt => rfl
  | ret =>
    rw [numbers_execute]
    show some _ = some { m.dropTop.numbers with pc := m.top.toNat, steps := m.steps + 1 }
    rw [numbers_dropTop, top, ← numbers_cell, sp_eq, ← numbers_register]
    rfl
  | printNumber r => exact congrArg some (numbers_of_quiet rfl rfl).symm
  | printChar r => exact congrArg some (numbers_of_quiet rfl rfl).symm
  | loadImmediate r v =>
    obtain ⟨hr, rfl⟩ := h
    rw [hr, numbers_of_set rfl rfl (Numbers.wrap_toNat second)]
    rfl
  | load r s =>
    rw [h.1, h.2, numbers_of_set rfl rfl (Numbers.wrap_toNat _), ← numbers_cell, ← numbers_register]
    rfl
  | store r s =>
    rw [h.1, h.2, numbers_of_onward rfl]
    show _ = some ((m.write (m.register r) (m.register s)).numbers.ahead _)
    rw [numbers_write _ _ (Numbers.wrap_toNat _), ← numbers_register, ← numbers_register]
    rfl
  | push r =>
    rw [show first.toNat = r.val from h, numbers_of_onward rfl]
    show _ = some ((m.pushByte (m.register r)).numbers.ahead _)
    rw [numbers_pushByte _ (Numbers.wrap_toNat _), ← numbers_register]
    rfl
  | pop r =>
    rw [show first.toNat = r.val from h, numbers_of_onward rfl]
    show _ = some ((m.setRegister r m.top).dropTop.numbers.ahead _)
    rw [numbers_dropTop, numbers_setRegister _ _ (Numbers.wrap_toNat _), top, ← numbers_cell, sp_eq,
      ← numbers_register]
    rfl
  | call r =>
    rw [show first.toNat = r.val from h, numbers_execute]
    show some _ =
      some { (m.pushByte (m.pc + 2)).numbers with pc := (m.register r).toNat, steps := m.steps + 1 }
    rw [numbers_pushByte _ (Numbers.wrap_add m.pc 2), ← numbers_register]
    rfl
  | jump condition r =>
    rw [show first.toNat = r.val from h]
    exact line?_jump m condition r _
  | unary op r =>
    rw [show first.toNat = r.val from h]
    exact line?_unary m op r _
  | binary op r s =>
    rw [h.1, h.2]
    exact line?_binary m op r s
  | compare r s =>
    have heffect : (m.effect (.compare r s)).numbers =
        { m.numbers with flags := (Flags.compare (m.register r) (m.register s)).bits.toNat } := rfl
    rw [h.1, h.2, numbers_of_onward rfl, heffect, flags_compare, ← numbers_register,
      ← numbers_register]
    rfl

/-! ## Output, memory and counter -/

theorem output?_numbers {m : Machine} {i : Instruction} (hfetch : m.fetch = .ok i) :
    m.numbers.output? m.config.echoOnHalt = m.output? i := by
  obtain ⟨hbyte, hreads⟩ := fetch_eq_ok_iff.1 hfetch
  obtain ⟨hzero, hone, -⟩ := m.numbers_fetch
  have hback : ∀ r : Register, (m.numbers.register r.val).toUInt8 = m.register r := by
    intro r
    rw [numbers_register]
    exact UInt8.ofNat_toNat
  unfold Numbers.output?
  rw [hzero, hone, ← hbyte]
  cases i with
  | halt =>
    have hfirst : (m.numbers.register 0).toUInt8 = m.register .first := hback .first
    rw [hfirst]
    rfl
  | printNumber r =>
    have hr : (m.read (m.pc + 1)).toNat = r.val := hreads
    rw [hr]
    exact congrArg (fun v => some (Output.number v)) (hback r)
  | printChar r =>
    have hr : (m.read (m.pc + 1)).toNat = r.val := hreads
    rw [hr]
    exact congrArg (fun v => some (Output.char v)) (hback r)
  | jump condition r => cases condition <;> rfl
  | unary op r => cases op <;> rfl
  | binary op r s => cases op <;> rfl
  | _ => rfl

theorem testBit_byte (op : Opcode) : op.byte.toNat.testBit 4 = op.jumps := by
  cases op with
  | jump condition => cases condition <;> rfl
  | unary op => cases op <;> rfl
  | binary op => cases op <;> rfl
  | _ => rfl

/-! ## Steps -/

variable {κ : Type} [Console κ]

theorem calls_of_step_ok {m : Machine} {c : κ} {s : State} {i : Instruction}
    (h : (m.step c).result = .ok s) (hready : m.ready = .ok i) :
    m.calls c = (m.output? i).toList.map .write := by
  obtain ⟨_, hstate, -⟩ := execute_of_step_ok h
  rw [calls_eq]
  unfold offered
  rw [hstate, hready]

/-- **A step that succeeds is a line of the table.** What the table does not mention stays as it
is, and the console gets the output of the line and nothing else. -/
theorem step_eq_table {m : Machine} {c : κ} {s : State} (h : (m.step c).result = .ok s) :
    m.numbers.next? = some (m.step c).machine.numbers ∧
    (m.step c).machine.stackFloor = m.stackFloor ∧
    (m.step c).machine.config = m.config ∧
    (∀ n : Machine, m.numbers.next? = some n.numbers → n.stackFloor = m.stackFloor →
      n.config = m.config → (m.step c).machine = n) ∧
    (s = .halted ↔ m.numbers.fetch 0 = 0x01) ∧
    m.calls c = (m.numbers.output? m.config.echoOnHalt).toList.map .write ∧
    (match m.numbers.output? m.config.echoOnHalt with
      | some o => Console.write c o = ((m.step c).console, .ok ())
      | none => (m.step c).console = c) ∧
    (∀ a, (m.step c).machine.read a ≠ m.read a →
      m.numbers.fetch 0 = 0x84 ∧ a.toNat = m.numbers.register (m.numbers.fetch 1) ∨
        (m.numbers.fetch 0 = 0x45 ∨ m.numbers.fetch 0 = 0x50) ∧
          a.toNat = Numbers.wrap (m.numbers.register 7 - 1)) ∧
    ((m.numbers.fetch 0).testBit 4 = false → m.numbers.fetch 0 ≠ 0x01 →
      (m.step c).machine.numbers.pc = (m.numbers.pc + m.numbers.fetch 0 / 64 + 1) % 256) := by
  obtain ⟨i, hstate, hready, hmachine, hs⟩ := execute_of_step_ok h
  obtain ⟨hfetch, -⟩ := ready_eq_ok_iff.1 hready
  obtain ⟨hbyte, hreads⟩ := fetch_eq_ok_iff.1 hfetch
  obtain ⟨hzero, hone, htwo⟩ := m.numbers_fetch
  rw [← hbyte] at hzero
  have hhalt : i.opcode.byte.toNat = 0x01 ↔ i = .halt := by
    rw [← Instruction.opcode_eq_halt_iff]
    refine ⟨fun hop => Opcode.byte_injective (UInt8.toNat_inj.1 hop), fun hop => ?_⟩
    rw [hop]
    rfl
  have hnext : m.numbers.next? = some (m.execute i).numbers := by
    unfold Numbers.next?
    rw [hzero, hone, htwo]
    exact line?_of_reads hreads
  rw [hmachine, hzero, output?_numbers hfetch]
  refine ⟨hnext, stackFloor_execute m i, config_execute m i, ?_, ?_, calls_of_step_ok h hready,
    ?_, ?_, ?_⟩
  · intro n hn hfloor hconfig
    rw [hnext] at hn
    exact ext_numbers (Option.some.inj hn) ((stackFloor_execute m i).trans hfloor.symm)
      ((config_execute m i).trans hconfig.symm)
  · rw [hs, state_execute, hstate, hhalt]
    simp
  · rcases console_of_step_ok h hready with ⟨houtput, hconsole⟩ | ⟨o, houtput, hwrite⟩
    · rw [houtput]
      exact hconsole
    · rw [houtput]
      exact hwrite
  · intro a ha
    rcases eq_of_read_execute ha with ⟨r, t, rfl, hr⟩ | ⟨hop, hsp⟩
    · refine Or.inl ⟨rfl, ?_⟩
      rw [hone, show (m.read (m.pc + 1)).toNat = r.val from hreads.1, numbers_register, hr]
    · refine Or.inr ⟨hop.imp (fun h => by rw [h]; rfl) (fun h => by rw [h]; rfl), ?_⟩
      rw [hsp, ← Numbers.wrap_sub]
      rw [show m.numbers.register 7 = m.sp.toNat from m.numbers_register Register.stackPointer]
      rfl
  · intro hjumps hne
    rw [testBit_byte] at hjumps
    have hsuccessor := Action.successor_of_not_jumps (mt hhalt.2 hne) hjumps m
    show (m.successor i).toNat = (m.pc.toNat + i.opcode.byte.toNat / 64 + 1) % 256
    rw [hsuccessor, ← Numbers.wrap_length]
    unfold Numbers.wrap
    omega

/-- A subtraction below zero. -/
theorem step_eq_table_at_sub :
    let m := ((((powerOn {}).write 0 0xA1).write 2 1).setRegister 0 3).setRegister 1 5
    let t := m.step Transcript.empty
    t.result = .ok .running ∧ m.numbers.next? = some t.machine.numbers ∧
      t.machine.register 0 = 254 := by
  intro m t
  have hresult : t.result = .ok .running := rfl
  obtain ⟨hnext, -⟩ := step_eq_table hresult
  exact ⟨hresult, hnext, rfl⟩

end Machine

end ByteComputer
