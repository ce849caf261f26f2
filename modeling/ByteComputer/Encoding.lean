/-!
# The fields of an opcode byte

An opcode byte says how it is to be handled, whether or not an instruction has it:

```text
bit  7 6            5            4                  3 2 1 0
     operand count  arithmetic   sets the counter   identity
```
-/

namespace ByteComputer.Encoding

/-- The number of operand bytes behind the opcode. -/
def operandCount (b : UInt8) : UInt8 := b >>> 6

/-- Whether the arithmetic unit handles the instruction. -/
def isArithmetic (b : UInt8) : Bool := (b >>> 5) &&& 1 = 1

/-- Whether the instruction sets the program counter itself. -/
def setsCounter (b : UInt8) : Bool := (b >>> 4) &&& 1 = 1

/-- The number of bytes of the instruction, opcode and operands together. -/
def length (b : UInt8) : UInt8 := operandCount b + 1

end ByteComputer.Encoding
