import Cellscript.Chunk.Basic

/-!
Splicing: the instructions of one chunk are copied onto the end of another. Constants move to the
other pool and get new numbers, labels keep their place in the copied code. When something is wrong
with the code, what was copied before that stays.
-/

set_option autoImplicit false

namespace Cellscript.Chunk

/-- Copies instructions that stand at `offset` and refer to `pool`. -/
def copyCode (pool : Array Value) : Nat → List CodeByte → Chunk → Chunk × Option Error
  | _, [], c => (c, none)
  | offset, first :: rest, c =>
    match Opcode.ofByte? first.value with
    | none => (c, some (.invalidOpcode first.value))
    | some op =>
      if op.operandWidth = 0 then copyCode pool (offset + 1) rest (c.push first)
      else
        match rest with
        | [] => (c, some (.truncatedInstruction offset))
        | operand :: rest =>
          if op = .constant then
            match pool[operand.value.toNat]? with
            | none => (c, some (.missingConstant operand.value.toNat))
            | some value =>
              match c.addConstant value with
              | .error e => (c, some e)
              | .ok (index, c) =>
                copyCode pool (offset + 2) rest (c.emitPair .constant index first.line)
          else copyCode pool (offset + 2) rest ((c.push first).push operand)

/-- Adds labels whose offsets count from `base`. -/
def copyLabels (base : Nat) : List (String × Nat) → Chunk → Chunk × Option Error
  | [], c => (c, none)
  | (name, offset) :: rest, c =>
    match c.insertLabel name (base + offset) with
    | .error e => (c, some e)
    | .ok c => copyLabels base rest c

/-- Copies `other` onto the end of `c`, as far as it goes. -/
def splice (c other : Chunk) : Chunk × Option Error :=
  match copyCode other.constants 0 other.code.toList c with
  | (copied, some e) => (copied, some e)
  | (copied, none) => copyLabels c.size other.labels copied

end Cellscript.Chunk
