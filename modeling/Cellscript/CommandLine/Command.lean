import Cellscript.CommandLine.Arguments
import Cellscript.CommandLine.FileTree
import Cellscript.Interpreter
import Cellscript.Settings
import Cellscript.Text.Typed

/-!
The two commands as functions from what they find around them to what they answer. One runs a script
or, without one, every line of its input; the other lists the code of a script.
-/

set_option autoImplicit false

namespace Cellscript.CommandLine

structure Surroundings where
  read : String → Except ReadError String
  /-- Where the settings of the user are, if there are any. -/
  userSettings : String
  /-- The value of the environment's switch for tracing. -/
  traceSwitch : Option String
  input : String

structure Response where
  status : Nat
  output : ByteArray := .empty
  report : String := ""

/-- Two answers one after the other, with the status of the later one. -/
def Response.followedBy (first second : Response) : Response where
  status := second.status
  output := first.output ++ second.output
  report := first.report ++ second.report

/-! ## Settings -/

/-- Why a command has no settings: they cannot be read, make no sense, or hold a bad rule. -/
inductive SettingsError
  | unreadable (path : String) (error : ReadError)
  | malformed (path : String)
  | badRule (rule : Substitution.Rule)

/-- The complaint and the separate cause, if there is one. -/
def SettingsError.parts : SettingsError → String × Option String
  | .unreadable path error => ("reading configuration from " ++ path, some error.message)
  | .malformed path => ("parsing configuration " ++ path, none)
  | .badRule rule => (rule.message, none)

/-- A malformed document is named without a line break, since its details would follow. -/
def SettingsError.ending : SettingsError → String
  | .malformed _ => ""
  | _ => "\n"

def readSettings (around : Surroundings) (path : String) : Except SettingsError Settings :=
  match around.read path with
  | .error error => .error (.unreadable path error)
  | .ok text =>
    match Settings.ofToml? text with
    | some settings => .ok settings
    | none => .error (.malformed path)

/-- The settings in the file that is asked for, which has to exist, or else those of the user, which
need not. -/
def loadSettings (around : Surroundings) : Option String → Except SettingsError Settings
  | some path => readSettings around path
  | none =>
    match readSettings around around.userSettings with
    | .error (.unreadable path error) =>
      if error.isAbsence then .ok {} else .error (.unreadable path error)
    | settings => settings

def prepare (around : Surroundings) (config : Option String) (trace : Bool) :
    Except SettingsError Interpreter :=
  match loadSettings around config with
  | .error error => .error error
  | .ok settings =>
    match settings.substitutions with
    | .error rule => .error (.badRule rule)
    | .ok table => .ok (.new (settings.withTrace trace).limits {} table)

/-! ## Lines of input -/

def withoutBreak (line : String) : String :=
  match line.toList.reverse with
  | '\n' :: '\r' :: rest => String.ofList rest.reverse
  | '\n' :: rest => String.ofList rest.reverse
  | _ => line

/-- What a line of input says: it has no line break, and its backspaces are carried out. -/
def lineText (line : String) : String := typedLine (withoutBreak line)

def inputLines (input : String) : List String :=
  let lines := input.splitOn "\n"
  (lines.dropLast.map fun line => lineText (line ++ "\n")) ++
    (lines.getLast?.toList.filter fun last => !last.isEmpty).map lineText

/-- Runs one line of input as a script of its own. A blank line does nothing. -/
def answerLine (i : Interpreter) (line : String) (steps : Nat) : Interpreter × Response :=
  if line.toList.all isWhiteSpace then (i, { status := 0 })
  else
    let (i, verdict) := i.execute line steps
    let (i, output) := i.drain
    (i, { status := 0, output, report := verdict.report })

def answerLines (i : Interpreter) (lines : List String) (steps : Nat) : Response :=
  (lines.foldl
    (fun (i, before) line =>
      let (i, answer) := answerLine i line steps
      (i, before.followedBy answer))
    (i, ({ status := 0 } : Response))).2

/-! ## Commands -/

def versionText : String := "tether 0.1.0\n"

/-- The status of a command that could not start. -/
def failureStatus : Nat := 1

def misuseStatus : Nat := 2

def unreadableStatus : Nat := 74

def runScript (i : Interpreter) (source : String) (steps : Nat) : Response :=
  let (i, verdict) := i.execute source steps
  { status := verdict.status, output := i.drain.2, report := verdict.report }

/-- Lists the code of a script. `rejected` is the answer to a script that has mistakes. -/
def listScript (i : Interpreter) (source : String) (rejected : List Diagnostic → Response) :
    Response :=
  match i.listing source with
  | (_, .ok listing) => { status := 0, output := listing.toUTF8 }
  | (_, .error diagnostics) => rejected diagnostics

def rejectedResponse (diagnostics : List Diagnostic) : Response :=
  let verdict := Verdict.rejected diagnostics
  { status := verdict.status, report := verdict.report }

def prepareRun (around : Surroundings) (a : Arguments) : Except SettingsError Interpreter :=
  prepare around a.config (a.trace || Settings.isSwitchedOn around.traceSwitch)

/-- The command that runs scripts, each for at most `steps` instructions. -/
def runCommand (around : Surroundings) (arguments : List String) (steps : Nat) : Response :=
  match Wish.ofList arguments with
  | .misuse => { status := misuseStatus, report := "tether: wrong arguments\n" }
  | .version => { status := 0, output := versionText.toUTF8 }
  | .run a =>
    match prepareRun around a with
    | .error error =>
      let (complaint, cause) := error.parts
      let cause := (cause.map (": " ++ ·)).getD ""
      { status := failureStatus, report := "tether: " ++ complaint ++ cause ++ error.ending }
    | .ok i =>
      match a.script with
      | none => answerLines i (inputLines around.input) steps
      | some path =>
        match around.read path with
        | .error error =>
          { status := unreadableStatus
            report := "tether: reading " ++ path ++ ": " ++ error.message ++ "\n" }
        | .ok source =>
          if a.disassemble then listScript i source rejectedResponse
          else runScript i source steps

def causedBy (complaint : String) (cause : Option String) : String :=
  "Error: " ++ complaint ++ (cause.map ("\n\nCaused by:\n    " ++ ·)).getD ""

/-- The command that lists the code of the script that its first argument names. -/
def listCommand (around : Surroundings) (arguments : List String) : Response :=
  match arguments with
  | [] => { status := failureStatus, report := causedBy "no input file provided" none ++ "\n" }
  | path :: _ =>
    match around.read path with
    | .error error =>
      { status := failureStatus
        report := causedBy ("reading " ++ path) (some error.message) ++ "\n" }
    | .ok source =>
      match prepare around none false with
      | .error error =>
        let (complaint, cause) := error.parts
        { status := failureStatus, report := causedBy complaint cause ++ error.ending }
      | .ok i =>
        listScript i source fun diagnostics =>
          { status := failureStatus
            report := (Verdict.rejected diagnostics).report ++
              causedBy (Diagnostic.summary diagnostics) none ++ "\n" }

end Cellscript.CommandLine
