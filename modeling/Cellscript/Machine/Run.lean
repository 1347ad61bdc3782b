import Cellscript.Machine.Step

/-!
Running a chunk from its first instruction until it returns or fails. A failure empties the stack; a
return leaves it for the next run.
-/

set_option autoImplicit false

namespace Cellscript

namespace Machine

/-- How a run ended. A run that used up its steps has not ended. -/
inductive Outcome
  | returned
  | failed (failure : Failure)
  | unfinished
deriving DecidableEq

end Machine

/-- Logs the instruction at `ip`, if the machine keeps a log and there is one. -/
def MachineOf.note {V S : Type} (m : MachineOf V S) (chunk : Chunk) (ip : Nat) : MachineOf V S :=
  if m.limits.trace && ip < chunk.size then
    { m with log := m.log.push ⟨m.stack.length, chunk.instructionText ip⟩ }
  else m

/-- Runs from the instruction at `ip` for at most `steps` instructions. -/
def Dialect.runFrom {V S : Type} (d : Dialect V S) (chunk : Chunk) :
    Nat → Nat → MachineOf V S → MachineOf V S × Machine.Outcome
  | 0, _, m => (m, .unfinished)
  | steps + 1, ip, m =>
    match d.step chunk ip (m.note chunk ip) with
    | .ok none m => (m, .returned)
    | .ok (some ip) m => d.runFrom chunk steps ip m
    | .error fault m => ({ m with stack := [] }, .failed ⟨fault, chunk.lineAt ip⟩)

namespace Machine

def runFrom (chunk : Chunk) (steps ip : Nat) (m : Machine) : Machine × Outcome :=
  (dialect chunk).runFrom chunk steps ip m

section Stepping

variable {chunk : Chunk} {ip next : Nat} {m n : Machine} {fault : Fault}

theorem runFrom_returned (stepped : step chunk ip (m.note chunk ip) = .ok none n) (steps : Nat) :
    runFrom chunk (steps + 1) ip m = (n, .returned) := by
  rw [runFrom, Dialect.runFrom, show (dialect chunk).step chunk ip _ = _ from stepped]

theorem runFrom_next (stepped : step chunk ip (m.note chunk ip) = .ok (some next) n) (steps : Nat) :
    runFrom chunk (steps + 1) ip m = runFrom chunk steps next n := by
  rw [runFrom, Dialect.runFrom, show (dialect chunk).step chunk ip _ = _ from stepped]
  rfl

theorem runFrom_failed (stepped : step chunk ip (m.note chunk ip) = .error fault n) (steps : Nat) :
    runFrom chunk (steps + 1) ip m =
      ({ n with stack := [] }, .failed ⟨fault, chunk.lineAt ip⟩) := by
  rw [runFrom, Dialect.runFrom, show (dialect chunk).step chunk ip _ = _ from stepped]

end Stepping

def run (chunk : Chunk) (steps : Nat) (m : Machine) : Machine × Outcome := runFrom chunk steps 0 m

end Machine

end Cellscript
