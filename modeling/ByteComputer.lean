import ByteComputer.Arithmetic
import ByteComputer.CommandLine.Arguments
import ByteComputer.CommandLine.Environment
import ByteComputer.CommandLine.Request
import ByteComputer.CommandLine.Session
import ByteComputer.Condition
import ByteComputer.Console.Basic
import ByteComputer.Console.Limited
import ByteComputer.Console.LineBuffered
import ByteComputer.Console.Transcript
import ByteComputer.Encoding
import ByteComputer.Execution
import ByteComputer.Fault
import ByteComputer.FileTree
import ByteComputer.Flags
import ByteComputer.Instruction
import ByteComputer.Log
import ByteComputer.Machine.Basic
import ByteComputer.Machine.Execute
import ByteComputer.Machine.Operation
import ByteComputer.Machine.Run
import ByteComputer.Machine.Snapshot
import ByteComputer.Machine.Step
import ByteComputer.Main
import ByteComputer.Memory
import ByteComputer.Opcode
import ByteComputer.Program
import ByteComputer.Registers
import ByteComputer.Report
import ByteComputer.SystemError
import ByteComputer.Text.Blank
import ByteComputer.Text.Hex
import ByteComputer.Text.Lines
import ByteComputer.Text.Numeral
import ByteComputer.Text.Utf8
import ByteComputer.Proofs.Machine.Decoding
import ByteComputer.Proofs.Machine.Fields
import ByteComputer.Proofs.Machine.Outcome
import ByteComputer.Proofs.Cycle.Agreement
import ByteComputer.Proofs.Atomicity
import ByteComputer.Proofs.Table.Agreement
import ByteComputer.Proofs.Stack
import ByteComputer.Proofs.ProgramText
import ByteComputer.Proofs.Text.Lines
import ByteComputer.Proofs.Text.Numerals
import ByteComputer.Proofs.Text.Utf8
import ByteComputer.Proofs.History
import ByteComputer.Proofs.StackFloor
import ByteComputer.Proofs.ReturnAddress
import ByteComputer.Proofs.Console.Ledger
import ByteComputer.Proofs.Console.Refusal
import ByteComputer.Proofs.Machine.Loop
import ByteComputer.Proofs.Console.Flushing
import ByteComputer.Proofs.Machine.Loading
import ByteComputer.Proofs.Execution.Basic
import ByteComputer.Proofs.Execution.ExitStatus
import ByteComputer.Proofs.Execution.LostFault
import ByteComputer.Proofs.Machine.View
import ByteComputer.Proofs.Guarding
import ByteComputer.Proofs.Tracing
import ByteComputer.Proofs.SingleSteps
import ByteComputer.Proofs.Console.Behaviour
import ByteComputer.Proofs.Machine.Commands
import ByteComputer.Proofs.Forgetting
import ByteComputer.Proofs.Comparison
import ByteComputer.Proofs.Endings
import ByteComputer.Proofs.Halting
import ByteComputer.Proofs.Echo
import ByteComputer.Proofs.Accounting
import ByteComputer.Proofs.Machine.Cells
import ByteComputer.Proofs.UnreadCells
import ByteComputer.Proofs.Reports
import ByteComputer.Proofs.Recurrence
import ByteComputer.Proofs.Layout
import ByteComputer.Proofs.PrintedNumbers
import ByteComputer.Proofs.Text.Columns
import ByteComputer.Proofs.Diagnostics
import ByteComputer.Proofs.Cycle.Loading
