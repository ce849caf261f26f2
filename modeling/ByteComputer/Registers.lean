import ByteComputer.Flags

/-!
# Registers

Eight byte-wide registers and the flags. The last register is also the stack pointer; it starts at
the base of the stack, which grows downwards from there. Only eight of the 256 values of an
operand byte name a register (`Register.ofByte?`).
-/

namespace ByteComputer

abbrev Register := Fin 8

namespace Register

def count : Nat := 8

/-- The register that a machine may be set up to print when it halts. -/
def first : Register := ⟨0, by decide⟩

/-- The register that points to the top of the stack. -/
def stackPointer : Register := 7

/-- The register that an operand byte names. -/
def ofByte? (b : UInt8) : Option Register :=
  if h : b.toNat < 8 then some ⟨b.toNat, h⟩ else none

theorem ofByte?_eq_none_iff {b : UInt8} : ofByte? b = none ↔ 8 ≤ b.toNat := by
  simp only [ofByte?]
  split <;> simp <;> omega

theorem ofByte?_eq_some_iff {b : UInt8} {r : Register} : ofByte? b = some r ↔ b.toNat = r.val := by
  simp only [ofByte?]
  split
  · simp [Fin.ext_iff]
  · simp only [reduceCtorEq, false_iff]
    omega

end Register

structure Registers where
  values : Vector UInt8 8
  flags : Flags
deriving DecidableEq

namespace Registers

/-- Where the stack begins: the value of the stack pointer while the stack is empty. -/
def stackBase : UInt8 := 0xF4

def powerOn : Registers := ⟨(Vector.replicate 8 0).set 7 stackBase, .clear⟩

def get (rs : Registers) (r : Register) : UInt8 := rs.values[r.val]

def set (rs : Registers) (r : Register) (value : UInt8) : Registers :=
  { rs with values := rs.values.set r.val value }

def sp (rs : Registers) : UInt8 := rs.get Register.stackPointer

def setSp (rs : Registers) (value : UInt8) : Registers := rs.set Register.stackPointer value

theorem get_set (rs : Registers) (r s : Register) (v : UInt8) :
    (rs.set r v).get s = if r = s then v else rs.get s := by
  simp only [get, set, Vector.getElem_set, Fin.ext_iff]

@[simp] theorem get_set_self (rs : Registers) (r : Register) (v : UInt8) :
    (rs.set r v).get r = v := by
  simp [get_set]

theorem get_set_of_ne (rs : Registers) {r s : Register} (v : UInt8) (h : r ≠ s) :
    (rs.set r v).get s = rs.get s := by
  simp [get_set, h]

@[simp] theorem flags_set (rs : Registers) (r : Register) (v : UInt8) :
    (rs.set r v).flags = rs.flags := rfl

def text (rs : Registers) : String :=
  let values := ", ".intercalate (rs.values.toList.map fun v => toString v.toNat)
  "Registers \x7b gpr: [" ++ values ++ "], fl: " ++ rs.flags.text ++ " \x7d"

end Registers

end ByteComputer
