import Cellscript.Compile.Program
import Cellscript.Machine.Run

/-!
The interpreter: a machine and a compiler that work through one script after the other. Names, cells
and the numbers of loops carry over.
-/

set_option autoImplicit false

namespace Cellscript

structure Interpreter where
  machine : Machine
  compiler : Compiler

inductive Verdict
  | done
  | rejected (diagnostics : List Diagnostic)
  | failed (failure : Failure)
  | unfinished
deriving DecidableEq

def Verdict.ofOutcome : Machine.Outcome → Verdict
  | .returned => .done
  | .failed failure => .failed failure
  | .unfinished => .unfinished

/-- The exit status that tells a verdict. A script that has not ended counts as failed. -/
def Verdict.status : Verdict → Nat
  | .done => 0
  | .rejected _ => 65
  | .failed _ => 70
  | .unfinished => 70

/-- What is reported about a script that was not done, line by line. -/
def Verdict.report : Verdict → String
  | .done => ""
  | .rejected diagnostics => String.join (diagnostics.map (·.text ++ "\n"))
  | .failed failure => failure.text ++ "\n"
  | .unfinished => ""

namespace Interpreter

def new (limits : Limits) (sink : Sink) (substitutions : List Substitution) : Interpreter where
  machine := .new limits sink
  compiler := { substitutions }

def compile (i : Interpreter) (source : String) : Interpreter × Except (List Diagnostic) Chunk :=
  let (compiler, result) := i.compiler.compile source
  ({ i with compiler }, result)

/-- Runs a chunk for at most `steps` instructions. -/
def run (i : Interpreter) (chunk : Chunk) (steps : Nat) : Interpreter × Machine.Outcome :=
  let (machine, outcome) := i.machine.run chunk steps
  ({ i with machine }, outcome)

def execute (i : Interpreter) (source : String) (steps : Nat) : Interpreter × Verdict :=
  match i.compile source with
  | (i, .error diagnostics) => (i, .rejected diagnostics)
  | (i, .ok chunk) =>
    let (i, outcome) := i.run chunk steps
    (i, .ofOutcome outcome)

def listing (i : Interpreter) (source : String) : Interpreter × Except (List Diagnostic) String :=
  let (i, result) := i.compile source
  (i, result.map Chunk.listing)

/-- Hands over what has been printed since the last time. -/
def drain (i : Interpreter) : Interpreter × ByteArray :=
  let (sink, printed) := i.machine.sink.drain
  ({ i with machine := { i.machine with sink } }, printed)

/-- Forgets every value, name and cell, but not the numbers of loops. -/
def reset (i : Interpreter) : Interpreter := { i with machine := i.machine.reset }

end Interpreter

end Cellscript
