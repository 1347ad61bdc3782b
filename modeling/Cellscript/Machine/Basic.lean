import Cellscript.Chunk.Listing
import Cellscript.Store

/-!
The machine: a stack of values, a store, and a sink for what is printed.
-/

set_option autoImplicit false

namespace Cellscript

/-- How large a machine may grow, and whether it keeps a log. -/
structure Limits where
  stackMax : Nat := 256
  arenaCapacity : Nat := 1024
  trace : Bool := false
deriving DecidableEq

/-- Takes the bytes that are printed, if need be only so many more. -/
structure Sink where
  taken : ByteArray := .empty
  room : Option Nat := none

instance : DecidableEq Sink := fun a b =>
  decidable_of_iff (a.taken.data = b.taken.data ∧ a.room = b.room) <| by
    rw [Sink.mk.injEq, ByteArray.ext_iff]

/-- Takes bytes as far as there is room, and says whether all of them were taken. -/
def Sink.write (sink : Sink) (bytes : ByteArray) : Sink × Bool :=
  match sink.room with
  | none => (⟨sink.taken ++ bytes, none⟩, true)
  | some room =>
    if bytes.size ≤ room then (⟨sink.taken ++ bytes, some (room - bytes.size)⟩, true)
    else (⟨sink.taken ++ bytes.extract 0 room, some 0⟩, false)

/-- Hands over what was taken so far. The room stays used up. -/
def Sink.drain (sink : Sink) : Sink × ByteArray := ({ sink with taken := .empty }, sink.taken)

/-- What a log says about an instruction that is about to run: how many values are on the stack, and
the instruction's line in a listing. -/
structure TraceEntry where
  depth : Nat
  text : String
deriving DecidableEq

/-- A machine, whatever its values and its store are made of. -/
structure MachineOf (V S : Type) where
  limits : Limits
  /-- The top of the stack comes first. -/
  stack : List V
  store : S
  sink : Sink
  log : Array TraceEntry
deriving DecidableEq

abbrev Machine := MachineOf Value Store

namespace Machine

variable {V S α : Type}

/-- Something that a machine does. Where it fails, what was done before that stays. -/
abbrev ActionOf (V S : Type) := EStateM Fault (MachineOf V S)

abbrev Action := EStateM Fault Machine

def new (limits : Limits) (sink : Sink) : Machine where
  limits
  stack := []
  store := .empty limits.arenaCapacity
  sink
  log := #[]

def reset (m : Machine) : Machine := { m with stack := [], store := m.store.clear }

def push (value : V) : ActionOf V S Unit := fun m =>
  if m.limits.stackMax ≤ m.stack.length then .error .stackOverflow m
  else .ok () { m with stack := value :: m.stack }

def pop : ActionOf V S V := fun m =>
  match m.stack with
  | value :: stack => .ok value { m with stack }
  | [] => .error .stackUnderflow m

/-- Takes two numbers off the stack, the second from the top first. -/
def popNumbers (number? : V → Option Float) : ActionOf V S (Float × Float) := do
  let b ← pop
  let a ← pop
  match number? a, number? b with
  | some x, some y => return (x, y)
  | _, _ => throw .numberOperands

/-- Does something to the store. -/
def onStore (action : EStateM Fault S α) : ActionOf V S α := fun m =>
  match action m.store with
  | .ok a store => .ok a { m with store }
  | .error fault store => .error fault { m with store }

def ofStore (read : S → Except Fault α) : ActionOf V S α := fun m =>
  match read m.store with
  | .ok a => .ok a m
  | .error fault => .error fault m

def print (text : String) : ActionOf V S Unit := fun m =>
  match m.sink.write (text ++ "\n").toUTF8 with
  | (sink, true) => .ok () { m with sink }
  | (sink, false) => .error (.output "sink full") { m with sink }

end Machine

end Cellscript
