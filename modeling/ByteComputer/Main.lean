import ByteComputer.CommandLine.Session

/-!
# The command line

Reads the program file, takes steps until the machine halts or faults, and passes on what each of
them sends to the output and to the log as soon as it is there. What a step means is decided in the
modules below. They are told in advance that the output takes every byte; where the system then
refuses some, what was done is done again with an output that refuses them.
-/

namespace ByteComputer.Main

open CommandLine

/-! ## The surrounding system -/

/-- The error behind a failed action. Its number may come with the sign turned round. -/
def systemError (e : IO.Error) : SystemError :=
  let numbered (code : UInt32) : SystemError :=
    let number := if code < 0x80000000 then code else 0 - code
    (SystemError.ofNumber? number.toNat).getD (.other (toString e))
  match e with
  | .noFileOrDirectory _ code _ => numbered code
  | .inappropriateType _ code _ => numbered code
  | .invalidArgument _ code _ => numbered code
  | .resourceExhausted _ code _ => numbered code
  | _ => .other (toString e)

/-- Runs an action and keeps its error as a value. -/
def attempt {α : Type} (action : IO α) : IO (Except SystemError α) := do
  try
    return .ok (← action)
  catch e =>
    return .error (systemError e)

def showLog (limit : Option Log.Level) (entries : List Log.Entry) : IO Unit :=
  (Log.atLeast limit entries).forM fun e => IO.eprintln e.line

def send (bytes : Array UInt8) : IO (Except SystemError Unit) := do
  if bytes.isEmpty then return .ok ()
  let out ← IO.getStdout
  attempt do
    out.write ⟨bytes⟩
    out.flush

/-- What comes of a console with some bytes waiting, once the standard output has got what it was
sent or has refused it. -/
def deliver {α : Type} (device : α → Device) (f : LineBuffered → α) (waiting : Array UInt8) :
    IO α := do
  let taken := f { device := {}, waiting }
  match ← send (device taken).received with
  | .ok () => return taken
  | .error why => return f { device := { refusal? := some why }, waiting }

/-! ## Running a program -/

/-- Carries out a transition and shows what it notes in the log. -/
def transit (limit : Option Log.Level) (f : LineBuffered → Transition LineBuffered)
    (waiting : Array UInt8) : IO (Transition LineBuffered) := do
  let t ← deliver (·.console.device) f waiting
  showLog limit t.log
  return t

partial def drive (limit : Option Log.Level) (m : Machine) (waiting : Array UInt8) :
    IO (Transition LineBuffered) := do
  let t ← transit limit m.step waiting
  if t.goesOn then drive limit t.machine t.console.waiting else return t

/-- Runs a program on a machine that has just been switched on. -/
def runProgram (limit : Option Log.Level) (program : List UInt8) (config : Config) :
    IO (Execution LineBuffered) := do
  let start ← transit limit ((Machine.powerOn config).install program) #[]
  match start.result with
  | .error _ => return Execution.ofTransition start
  | .ok _ =>
    let t ← drive limit start.machine start.console.waiting
    let ended ← transit limit (fun c => { t with console := c, log := [] }.conclude)
      t.console.waiting
    return Execution.ofTransition ended

/-- Runs the program in a file: its report if it has failed, and the bytes still waiting to be
sent. -/
def runFile (limit : Option Log.Level) (path : String) (config : Config) :
    IO (Except Report Machine × Array UInt8) := do
  let contents ← attempt do return (← IO.FS.readBinFile path).toList
  match Program.ofFile path contents with
  | .error e => return (.error (.failure (.load e)), #[])
  | .ok program =>
    showLog limit [.loadedFile program.length path]
    let e ← runProgram limit program config
    return ((e.inContext (Execution.contextOf path)).result, e.console.waiting)

def complain (why : Complaint) : IO Unit := IO.eprint why.text

end ByteComputer.Main

open ByteComputer ByteComputer.CommandLine ByteComputer.Main in
def main (arguments : List String) : IO UInt32 := do
  let settings ← Environment.names.filterMapM fun name => do
    return (← IO.getEnv name).map (name, ·)
  let env : Environment := { settings }
  let status ← match Request.of env arguments with
    | .error why =>
      complain (.usage why)
      pure ExitStatus.failure
    | .ok .help =>
      discard (send helpText.toUTF8.data)
      pure ExitStatus.halted
    | .ok .version =>
      discard (send versionText.toUTF8.data)
      pure ExitStatus.halted
    | .ok (.run path config) =>
      let (result, waiting) ← runFile env.logLimit path config
      let status ← match result with
        | .ok _ => pure ExitStatus.halted
        | .error why =>
          complain (.report why)
          pure why.status
      let (_, lost) ← deliver (·.1) Session.close waiting
      showLog env.logLimit lost
      pure status
  return status.code.toUInt32
