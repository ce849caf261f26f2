import ByteComputer.CommandLine.Environment

/-!
# Requests

What a command line asks for, once its arguments and the environment have been read, and the texts
that answer without running anything.
-/

namespace ByteComputer.CommandLine

inductive Request where
  | help
  | version
  | run (path : String) (config : Config)
deriving DecidableEq, Repr

def Request.of (env : Environment) (arguments : List String) : Except UsageError Request :=
  match Arguments.ofList arguments with
  | .error .help => .ok .help
  | .error .version => .ok .version
  | .error (.refused why) => .error why
  | .ok given => do
    let config ← env.config given
    match given.program? with
    | some path => return .run path config
    | none => throw .missingProgram

/-- The name and version of the program, as a line. -/
def versionText : String := "ls8 0.1.0\n"

/-- How the program is called, as a line. -/
def usageText : String := "Usage: ls8 [OPTIONS] <PROGRAM>\n"

def helpText : String :=
  "Run an LS-8 program.\n\n" ++ usageText ++ "\n" ++
  "Arguments:\n" ++
  "  <PROGRAM>         Path to the `.ls8` program\n\n" ++
  "Options:\n" ++
  "      --trace           Log a trace line before every instruction\n" ++
  "      --echo-on-halt    Print R0 when the program halts\n" ++
  "      --unguarded-call  Let CALL push its return address without the stack floor check\n" ++
  "  -h, --help            Print help\n" ++
  "  -V, --version         Print version\n"

/-- The complaint about a command line that is not accepted. -/
def UsageError.complaint (why : UsageError) : String :=
  "error: " ++ why.message ++ "\n\n" ++ usageText

end ByteComputer.CommandLine
