import Cellscript.Proofs.Machine.Assignments
import Cellscript.Proofs.Machine.Control
import Cellscript.Proofs.Store.Assignment
import Cellscript.Proofs.Store.Exchange

/-!
What an instruction that fails leaves in the store. Only assignments and exchanges change the store;
what they push afterwards has room, since they took more from the stack, so they fail where the
store refuses them. A refusal changes nothing, except that a name without a cell has got one before
it is refused as its own alias.
-/

set_option autoImplicit false

namespace Cellscript

namespace Machine

/-- The instruction at `ip` is about to assign the value through the operand. -/
def Assigning (chunk : Chunk) (ip : Nat) (m : Machine) (operand value : Value) : Prop :=
  ∃ op below, chunk.opcodeAt? ip = some op ∧
    ((op = .setPointer ∨ op = .setPointerNoPush) ∧ m.stack = value :: operand :: below ∨
      op = .setPointerInverse ∧ m.stack = operand :: value :: below)

/-- What is in the store after the instruction at `ip` has failed is what was there before. The one
exception is an alias that is refused to a name without a cell: the name keeps the cell it got.
While cells can be numbered, it is the name itself that was to be its alias. -/
def Spares (chunk : Chunk) (ip : Nat) (m : Machine) (fault : Fault) (t : Store) : Prop :=
  t = m.store ∨
    ∃ operand n name c, Assigning chunk ip m operand (.text name) ∧ operand.name? = some n ∧
      m.store.bound? n = none ∧ Store.bind n m.store = .ok c t ∧ fault = .aliasCycle name ∧
      (m.store.cells.size < UInt32.size → name = n)

/-- Most instructions leave the store alone. -/
theorem aside : Manner fun m n => n.store = m.store where
  refl _ := rfl
  trans first second := second.trans first
  stack _ _ _ := rfl
  sink _ _ := rfl

/-! ## Instructions that change the store -/

section Failing

variable {α : Type} {m n : Machine} {fault : Fault}

theorem Assigning.of_note {chunk : Chunk} {ip : Nat} {operand value : Value} :
    Assigning chunk ip (m.note chunk ip) operand value ↔ Assigning chunk ip m operand value := by
  rw [Assigning, Assigning, note_stack]

theorem Spares.of_note {chunk : Chunk} {ip : Nat} {t : Store}
    (spares : Spares chunk ip (m.note chunk ip) fault t) : Spares chunk ip m fault t := by
  simpa only [Spares, note_store, Assigning.of_note] using spares

end Failing

end Machine

namespace Interpreter

/-- The code of a line that assigns one name to another. A name is in the pool once. -/
def naming (name other : String) : Chunk where
  code := [Opcode.constant.byte, 0, Opcode.constant.byte, if name = other then 0 else 1,
    Opcode.setPointer.byte, Opcode.pop.byte, Opcode.halt.byte].toArray.map (⟨·, 1⟩)
  constants := if name = other then #[.text name] else #[.text name, .text other]

end Interpreter

end Cellscript
