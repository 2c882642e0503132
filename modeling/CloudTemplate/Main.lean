import CloudTemplate.Command.Arguments
import CloudTemplate.Command.Run

/-!
# The program

The command line on the files of the system.
-/

namespace CloudTemplate

/-- The number of a system error, which may be given with a minus sign. -/
def systemNumber (code : UInt32) : UInt32 :=
  min code (0 - code)

/-- What an error of the system says about a file. -/
def fileFault : IO.Error → FileFault
  | .noFileOrDirectory .. => .notFound
  | .inappropriateType _ code details =>
    match systemNumber code with
    | 20 => .notDirectory
    | 21 => .isDirectory
    | _ => .other details
  | .invalidArgument _ code details =>
    if systemNumber code = 36 then .nameTooLong else .other details
  | e => .other (toString e)

/-- Use a path, which the system takes as a text. -/
def withPath {α : Type} (path : FilePath) (use : String → IO α) : IO (Except FileFault α) := do
  match path.text? with
  | none => return .error (.other "the path is no text")
  | some text =>
    try return .ok (← use text)
    catch e => return .error (fileFault e)

/-- The files of the system. -/
def systemFiles : FileAccess IO where
  read path := withPath path fun text => return (← IO.FS.readBinFile text).toList
  write path content := withPath path fun text => IO.FS.writeBinFile text ⟨content.toArray⟩
  isThere path := do
    match ← withPath path fun text => IO.FS.readBinFile text with
    | .ok _ => return true
    | .error fault => return !([.notFound, .notDirectory, .nameTooLong].contains fault)

/-- What is said about a command line that runs no command. -/
def usage : UsageFault → String
  | .help | .nothingGiven =>
    "usage: stackgraph [-v | -q] [-c PATH] (order | graph | import | validate | build) FILE"
  | .version => "stackgraph"
  | .missingCommand => "error: a command is missing"
  | .missingFile => "error: a file is missing"
  | .unknownArgument => "error: unexpected argument"
  | .unknownCommand => "error: unknown command"
  | .conflict => "error: arguments that cannot be used together"
  | .invalidValue => "error: a value is missing"
  | .needlessValue => "error: a value where none is taken"

/-- Run a command line. -/
def runProgram (arguments : List String) : IO UInt32 := do
  match Invocation.ofArguments arguments with
  | .error fault =>
    let stream ← if fault.exitCode = 0 then IO.getStdout else IO.getStderr
    stream.putStrLn (usage fault)
    return fault.exitCode.toUInt32
  | .ok invocation =>
    let configuration ← IO.getEnv "STACKGRAPH_CONFIG"
    let home ← IO.getEnv "HOME"
    match ← invocation.run systemFiles ⟨configuration, .ofText (home.getD ".")⟩ with
    | .ok printed =>
      (← IO.getStdout).putStr printed.output
      (← IO.getStderr).putStr printed.remarks
      return 0
    | .error failure =>
      (← IO.getStderr).putStr failure.explain.lines
      return 1

end CloudTemplate

/-- The program: its arguments are a command line. -/
def main (arguments : List String) : IO UInt32 :=
  CloudTemplate.runProgram arguments
