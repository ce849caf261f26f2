import ByteComputer.Fault
import ByteComputer.Program

/-!
# Reports

An error as it is shown to the user: the failure itself, possibly under contexts that say what was
being done. A report is a chain of causes, the outermost context first and the failure's own
sources last, and its status is that of the first cause that has one.
-/

namespace ByteComputer

inductive ExitStatus where
  | halted
  | failure
  | programNotFound
  | malformedProgram
  | unknownOpcode
  | stackFault
  | invalidRegister
deriving DecidableEq, Repr

def ExitStatus.code : ExitStatus → UInt8
  | halted => 0
  | failure => 1
  | programNotFound => 2
  | malformedProgram => 3
  | unknownOpcode => 4
  | stackFault => 5
  | invalidRegister => 6

/-- The status of a process that a fault has ended. -/
def Fault.status : Fault → ExitStatus
  | unknownOpcode _ _ => .unknownOpcode
  | stackOverflow _ _ => .stackFault
  | stackUnderflow _ _ => .stackFault
  | noSuchRegister _ _ => .invalidRegister
  | programTooLarge _ => .malformedProgram
  | outputRefused _ => .failure
  | halted => .failure

/-- The status of a process that had no program to run. -/
def LoadError.status : LoadError → ExitStatus
  | notFound _ => .programNotFound
  | unreadable _ _ => .programNotFound
  | notText _ => .malformedProgram
  | badLiteral _ _ => .malformedProgram
  | tooLarge _ => .malformedProgram

/-! ## Failures and their contexts -/

inductive Failure where
  | machine (fault : Fault)
  | load (error : LoadError)
  /-- A failure known by its text, with the texts of its sources. -/
  | other (text : String) (sources : List String)
deriving DecidableEq, Repr

def Failure.message : Failure → String
  | machine fault => fault.message
  | load error => error.message
  | other text _ => text

/-- The texts of the errors behind a failure. -/
def Failure.sources : Failure → List String
  | machine fault => fault.cause?.toList.flatMap SystemError.texts
  | load error => error.cause?.toList.flatMap SystemError.texts
  | other _ sources => sources

/-- A failure under any number of contexts. -/
inductive Report where
  | failure (why : Failure)
  | context (text : String) (inner : Report)
deriving DecidableEq, Repr

/-- A member of the chain that a report is. -/
inductive Cause where
  | context (text : String)
  | failure (why : Failure)
  | source (text : String)
deriving DecidableEq, Repr

def Cause.text : Cause → String
  | context text => text
  | failure why => why.message
  | source text => text

/-- The status that a cause calls for. -/
def Cause.status? : Cause → Option ExitStatus
  | failure (.machine fault) => some fault.status
  | failure (.load error) => some error.status
  | _ => none

namespace Report

/-- The causes of a report, the outermost first. -/
def chain : Report → List Cause
  | failure why => .failure why :: why.sources.map .source
  | context text inner => .context text :: inner.chain

/-- The whole chain on one line. -/
def message (r : Report) : String := ": ".intercalate (r.chain.map Cause.text)

/-- The status of a process that ends with a report. -/
def status (r : Report) : ExitStatus := (r.chain.findSome? Cause.status?).getD .failure

end Report

end ByteComputer
