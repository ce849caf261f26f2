import ByteComputer.CommandLine.Request
import ByteComputer.Console.LineBuffered
import ByteComputer.Execution
import ByteComputer.FileTree

/-!
# Sessions

One call of the program, from its arguments to its exit code, in a directory of files and with a
device for its output.
-/

namespace ByteComputer.CommandLine

inductive Complaint where
  | usage (why : UsageError)
  | report (why : Report)
deriving DecidableEq, Repr

def Complaint.text : Complaint → String
  | .usage why => why.complaint
  | .report why => "Error: " ++ why.message ++ "\n"

/-- What a call of the program leaves behind. -/
structure Session where
  status : ExitStatus
  output : Device
  complaint? : Option Complaint := none
  /-- The entries of the log that are shown. -/
  log : List Log.Entry := []

namespace Session

/-- A session that writes a text and nothing else. That the device may refuse it is ignored. -/
def ofText (text : String) (device : Device) : Session where
  status := .halted
  output := (device.take text.toUTF8.toList).1

/-- Lets go of a console: what waits is written if it can be. The log is told what got lost. -/
def close (b : LineBuffered) : Device × List Log.Entry :=
  match b.drain with
  | (b, .ok ()) => (b.device, [])
  | (b, .error cause) => (b.device, [.flushFailed cause])

def ofExecution (limit : Option Log.Level) (e : Execution LineBuffered) : Session :=
  let (output, lost) := close e.console
  let log := Log.atLeast limit (e.log ++ lost)
  match e.result with
  | .ok _ => { status := .halted, output, log }
  | .error why => { status := why.status, output, complaint? := some (.report why), log }

/-- Carries out a call of the program, if the run it asks for ends within `fuel` steps. -/
def of (fuel : Nat) (env : Environment) (files : FileTree) (device : Device)
    (arguments : List String) : Option Session :=
  match Request.of env arguments with
  | .error why => some { status := .failure, output := device, complaint? := some (.usage why) }
  | .ok .help => some (ofText helpText device)
  | .ok .version => some (ofText versionText device)
  | .ok (.run path config) =>
    (Execution.ofFile fuel path (files.read path) config { device }).map
      (ofExecution env.logLimit)

end Session

end ByteComputer.CommandLine
