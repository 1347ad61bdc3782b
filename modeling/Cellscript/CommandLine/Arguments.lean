/-!
The arguments of the command that runs scripts.
-/

set_option autoImplicit false

namespace Cellscript.CommandLine

structure Arguments where
  script : Option String := none
  config : Option String := none
  trace : Bool := false
  disassemble : Bool := false
  verbose : Bool := false
deriving DecidableEq

/-- What a list of arguments asks for. -/
inductive Wish
  | run (arguments : Arguments)
  | version
  | misuse
deriving DecidableEq

/-- Whether an argument can be the value of an option: anything but another option. -/
def isPlain (argument : String) : Bool :=
  match argument.toList with
  | [] => false
  | ['-'] => true
  | '-' :: _ => false
  | _ => true

namespace Arguments

/-- Takes a script. There is at most one. -/
def withScript? (a : Arguments) (path : String) : Option Arguments :=
  if path.isEmpty || a.script.isSome then none else some { a with script := some path }

def withConfig? (a : Arguments) (path : String) : Option Arguments :=
  if path.isEmpty || a.config.isSome then none else some { a with config := some path }

/-- Turns a switch on. No switch is given twice. -/
def withSwitch? (a : Arguments) (word : String) : Option Arguments :=
  if word == "--trace" && !a.trace then some { a with trace := true }
  else if word == "--disassemble" && !a.disassemble then some { a with disassemble := true }
  else if (word == "--verbose" || word == "-v") && !a.verbose then some { a with verbose := true }
  else none

/-- A listing needs a script. -/
def finish (a : Arguments) : Wish :=
  if a.disassemble && a.script.isNone then .misuse else .run a

/-- Takes short switches that share one dash. The letter for the version ends everything. -/
def shortSwitches (a : Arguments) (andThen : Arguments → Wish) : List Char → Wish
  | [] => andThen a
  | 'V' :: _ => .version
  | c :: rest =>
    match a.withSwitch? (String.ofList ['-', c]) with
    | some a => shortSwitches a andThen rest
    | none => .misuse

/-- Takes scripts only, as after two dashes. -/
def scriptsOnly (a : Arguments) : List String → Wish
  | [] => a.finish
  | path :: rest =>
    match a.withScript? path with
    | some a => scriptsOnly a rest
    | none => .misuse

def take (a : Arguments) : List String → Wish
  | [] => a.finish
  | ["--config"] => .misuse
  | "--config" :: path :: rest =>
    if isPlain path then
      match a.withConfig? path with
      | some a => take a rest
      | none => .misuse
    else .misuse
  | word :: rest =>
    if word == "--version" then .version
    else if word == "--" then scriptsOnly a rest
    else if word.startsWith "--config=" then
      match a.withConfig? (word.drop "--config=".length).toString with
      | some a => take a rest
      | none => .misuse
    else if isPlain word || word.isEmpty then
      match a.withScript? word with
      | some a => take a rest
      | none => .misuse
    else if word.startsWith "--" then
      match a.withSwitch? word with
      | some a => take a rest
      | none => .misuse
    else shortSwitches a (fun a => take a rest) (word.toList.drop 1)

end Arguments

def Wish.ofList (arguments : List String) : Wish := Arguments.take {} arguments

end Cellscript.CommandLine
