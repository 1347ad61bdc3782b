import Cellscript.CommandLine.Command

/-!
The program: reads files, the environment and the input, calls a command and writes its answer.
Without a script it answers line by line.
-/

set_option autoImplicit false

namespace Cellscript.CommandLine

/-- More instructions than any run gets through. -/
def endless : Nat := Nat.pow 2 62

/-- The number that the system gave to an error, for those that reading a file can meet. It may come
with a minus sign. -/
def systemCode : IO.Error → Nat
  | .noFileOrDirectory _ code _ | .inappropriateType _ code _ | .permissionDenied _ code _
  | .invalidArgument _ code _ => code.toInt32.toInt.natAbs
  | _ => 0

def readFile (path : String) : IO (Except ReadError String) := do
  try
    return fileText (← IO.FS.readBinFile path)
  catch e => return .error ((ReadError.ofCode? (systemCode e)).getD .missing)

/-- What a command finds around it, with the files that it may ask for. -/
def lookAround (paths : List String) : IO Surroundings := do
  let folder ←
    match ← IO.getEnv "XDG_CONFIG_HOME" with
    | some folder => pure folder
    | none => pure ((← IO.getEnv "HOME").getD "" ++ "/.config")
  let userSettings := folder ++ "/tether/config.toml"
  let texts ← (userSettings :: paths).mapM fun path => return (path, ← readFile path)
  return {
    read := fun path => (texts.lookup path).getD (.error .missing)
    userSettings
    traceSwitch := ← IO.getEnv "TETHER_TRACE"
    input := "" }

def write (response : Response) : IO Unit := do
  (← IO.getStdout).write response.output
  (← IO.getStdout).flush
  (← IO.getStderr).putStr response.report

/-- Answers lines until the input ends. -/
partial def converse (i : Interpreter) : IO Unit := do
  let line ← (← IO.getStdin).getLine
  unless line.isEmpty do
    let (i, response) := answerLine i (lineText line) endless
    write response
    converse i

def Wish.files : Wish → List String
  | .run a => a.config.toList ++ a.script.toList
  | _ => []

def runMain (arguments : List String) : IO UInt32 := do
  let wish := Wish.ofList arguments
  let around ← lookAround wish.files
  let response := runCommand around arguments endless
  write response
  match wish with
  | .run a =>
    match a.script, prepareRun around a with
    | none, .ok i => converse i
    | _, _ => pure ()
  | _ => pure ()
  return response.status.toUInt32

def listMain (arguments : List String) : IO UInt32 := do
  let response := listCommand (← lookAround (arguments.take 1)) arguments
  write response
  return response.status.toUInt32

end Cellscript.CommandLine

def main (arguments : List String) : IO UInt32 := do
  if (← IO.appPath).fileName == some "tether_disasm" then
    Cellscript.CommandLine.listMain arguments
  else Cellscript.CommandLine.runMain arguments
