/-!
# Arguments

The words behind the name of the program, read from the left. The first word that settles what is
to be done ends the reading: a request for help or for the version, or a word that cannot be
accepted. Flags may stand before or behind the path of the program to run; behind `--` every word
is a path.
-/

namespace ByteComputer.CommandLine

/-- A switch that can be given once. -/
inductive Flag where
  | trace
  | echoOnHalt
  | unguardedCall
deriving DecidableEq, Repr

def Flag.name : Flag → String
  | .trace => "trace"
  | .echoOnHalt => "echo-on-halt"
  | .unguardedCall => "unguarded-call"

def Flag.ofName? (name : String) : Option Flag :=
  [Flag.trace, .echoOnHalt, .unguardedCall].find? (·.name = name)

inductive UsageError where
  | missingProgram
  | emptyProgram
  | secondProgram (argument : String)
  | unknownFlag (argument : String)
  | repeatedFlag (flag : Flag)
  | unexpectedValue (argument : String)
  /-- An environment variable for a flag holds neither of the two truth values. -/
  | notBoolean (value : String)
deriving DecidableEq, Repr

def UsageError.message : UsageError → String
  | .missingProgram => "no program given"
  | .emptyProgram => "the path of the program is empty"
  | .secondProgram argument => "unexpected argument '" ++ argument ++ "'"
  | .unknownFlag argument => "unexpected argument '" ++ argument ++ "'"
  | .repeatedFlag flag => "the flag '--" ++ flag.name ++ "' is given more than once"
  | .unexpectedValue argument => "unexpected value in '" ++ argument ++ "'"
  | .notBoolean value => "'" ++ value ++ "' is neither 'true' nor 'false'"

/-- What ends the reading of the arguments. -/
inductive Interruption where
  | help
  | version
  | refused (why : UsageError)
deriving DecidableEq, Repr

structure Arguments where
  flags : List Flag := []
  program? : Option String := none
deriving DecidableEq, Repr

namespace Arguments

def addProgram (given : Arguments) (path : String) : Except Interruption Arguments :=
  if path = "" then .error (.refused .emptyProgram)
  else if given.program?.isSome then .error (.refused (.secondProgram path))
  else .ok { given with program? := some path }

def addFlag (given : Arguments) (flag : Flag) : Except Interruption Arguments :=
  if flag ∈ given.flags then .error (.refused (.repeatedFlag flag))
  else .ok { given with flags := flag :: given.flags }

/-- Takes a word that starts with two dashes; what follows an equals sign is a value, and no word
takes one. -/
def addLong (given : Arguments) (argument : String) (word : List Char) :
    Except Interruption Arguments :=
  let name := String.ofList (word.takeWhile (· ≠ '='))
  let hasValue := '=' ∈ word
  let accept (r : Except Interruption Arguments) : Except Interruption Arguments :=
    if hasValue then .error (.refused (.unexpectedValue argument)) else r
  if name = "help" then accept (.error .help)
  else if name = "version" then accept (.error .version)
  else
    match Flag.ofName? name with
    | some flag => accept (given.addFlag flag)
    | none => .error (.refused (.unknownFlag argument))

/-- Takes a word that starts with one dash; its first letter decides. -/
def addShort (argument : String) (letter : Char) : Interruption :=
  if letter = 'h' then .help
  else if letter = 'V' then .version
  else .refused (.unknownFlag argument)

/-- Takes a word ahead of `--`. -/
def add (given : Arguments) (argument : String) : Except Interruption Arguments :=
  match argument.toList with
  | '-' :: '-' :: word => given.addLong argument word
  | '-' :: letter :: _ => .error (addShort argument letter)
  | _ => given.addProgram argument

def addAll (given : Arguments) : List String → Except Interruption Arguments
  | [] => .ok given
  | argument :: rest =>
    if argument = "--" then rest.foldlM addProgram given
    else do addAll (← given.add argument) rest

def ofList (arguments : List String) : Except Interruption Arguments := addAll {} arguments

end Arguments

end ByteComputer.CommandLine
