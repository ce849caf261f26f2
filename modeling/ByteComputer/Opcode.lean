import ByteComputer.Arithmetic
import ByteComputer.Condition
import ByteComputer.Encoding

/-!
# Opcodes

The 32 operations of the machine, their bytes and their names. A byte is decoded by looking it up
among the bytes of `Opcode.all`; `Opcode.ofByte?_eq_some_iff` says that decoding and encoding are
inverse to each other.
-/

namespace ByteComputer

/-- What an instruction does, without its operands. -/
inductive Opcode where
  | nop
  | halt
  | loadImmediate
  | load
  | store
  | push
  | pop
  | printNumber
  | printChar
  | call
  | ret
  | jump (condition : Condition)
  | unary (op : UnaryOp)
  | binary (op : BinaryOp)
  | compare
deriving DecidableEq, Repr

namespace Opcode

/-- The byte that stands for an opcode in memory. -/
def byte : Opcode → UInt8
  | nop => 0x00
  | halt => 0x01
  | loadImmediate => 0x82
  | load => 0x83
  | store => 0x84
  | push => 0x45
  | pop => 0x46
  | printNumber => 0x47
  | printChar => 0x48
  | call => 0x50
  | ret => 0x11
  | jump .always => 0x54
  | jump .equal => 0x55
  | jump .notEqual => 0x56
  | jump .greater => 0x57
  | jump .less => 0x58
  | jump .lessOrEqual => 0x59
  | jump .greaterOrEqual => 0x5A
  | binary .add => 0xA0
  | binary .sub => 0xA1
  | binary .mul => 0xA2
  | binary .div => 0xA3
  | binary .mod => 0xA4
  | unary .increment => 0x65
  | unary .decrement => 0x66
  | compare => 0xA7
  | binary .and => 0xA8
  | unary .complement => 0x69
  | binary .or => 0xAA
  | binary .xor => 0xAB
  | binary .shiftLeft => 0xAC
  | binary .shiftRight => 0xAD

def mnemonic : Opcode → String
  | nop => "NOP"
  | halt => "HLT"
  | loadImmediate => "LDI"
  | load => "LD"
  | store => "ST"
  | push => "PUSH"
  | pop => "POP"
  | printNumber => "PRN"
  | printChar => "PRA"
  | call => "CALL"
  | ret => "RET"
  | jump .always => "JMP"
  | jump .equal => "JEQ"
  | jump .notEqual => "JNE"
  | jump .greater => "JGT"
  | jump .less => "JLT"
  | jump .lessOrEqual => "JLE"
  | jump .greaterOrEqual => "JGE"
  | binary .add => "ADD"
  | binary .sub => "SUB"
  | binary .mul => "MUL"
  | binary .div => "DIV"
  | binary .mod => "MOD"
  | unary .increment => "INC"
  | unary .decrement => "DEC"
  | compare => "CMP"
  | binary .and => "AND"
  | unary .complement => "NOT"
  | binary .or => "OR"
  | binary .xor => "XOR"
  | binary .shiftLeft => "SHL"
  | binary .shiftRight => "SHR"

/-- Every opcode: the plain ones, then those that set the program counter, then arithmetic. -/
def all : List Opcode :=
  [nop, halt, loadImmediate, load, store, push, pop, printNumber, printChar,
   call, ret, jump .always, jump .equal, jump .notEqual, jump .greater, jump .less,
   jump .lessOrEqual, jump .greaterOrEqual,
   binary .add, binary .sub, binary .mul, binary .div, binary .mod,
   unary .increment, unary .decrement, compare, binary .and, unary .complement, binary .or,
   binary .xor, binary .shiftLeft, binary .shiftRight]

/-- The opcode that a byte stands for. -/
def ofByte? (b : UInt8) : Option Opcode := all.find? fun op => op.byte = b

/-- The number of bytes of an instruction with this opcode. -/
def length (op : Opcode) : UInt8 := Encoding.length op.byte

theorem ofByte?_byte (op : Opcode) : ofByte? op.byte = some op := by
  cases op with
  | jump c => cases c <;> rfl
  | unary op => cases op <;> rfl
  | binary op => cases op <;> rfl
  | _ => rfl

/-- A byte is decoded to an opcode exactly if it is the byte of that opcode. -/
theorem ofByte?_eq_some_iff {b : UInt8} {op : Opcode} : ofByte? b = some op ↔ op.byte = b := by
  constructor
  · intro h
    simpa using List.find?_some h
  · rintro rfl
    exact ofByte?_byte op

/-! ## The table of opcodes -/

/-- The bytes that stand for an opcode, in ascending order. -/
def table : List (UInt8 × Opcode) :=
  (List.range 256).filterMap fun n => (ofByte? n.toUInt8).map (n.toUInt8, ·)

/-- The table as text: each byte in decimal with the capitalized name of its opcode. -/
def tableText : String :=
  let entries := table.map fun (b, op) =>
    toString b.toNat ++ ": " ++ op.mnemonic.toLower.capitalize
  "\x7b" ++ ", ".intercalate entries ++ "\x7d"

end Opcode

end ByteComputer
