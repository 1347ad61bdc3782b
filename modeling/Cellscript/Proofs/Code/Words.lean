import Cellscript.Proofs.Code.Heights

/-!
Words: code read byte by byte as instructions at their offsets. Where a chunk holds lines, reading
its bytes finds the instructions of the lines and nothing else.
-/

set_option autoImplicit false

namespace Cellscript

/-- An instruction as it is found in code. -/
structure Word where
  offset : Nat
  op : Opcode
  operand : Option UInt8
deriving DecidableEq

namespace Word

/-- Reads bytes that start at an offset as instructions. There is no answer where a byte is no
opcode or where an operand is missing. -/
def decodeFrom : Nat → List UInt8 → Option (List Word)
  | _, [] => some []
  | offset, byte :: rest =>
    match Opcode.ofByte? byte with
    | none => none
    | some op =>
      if op.operandWidth = 0 then (decodeFrom (offset + 1) rest).map (⟨offset, op, none⟩ :: ·)
      else
        match rest with
        | [] => none
        | operand :: rest => (decodeFrom (offset + 2) rest).map (⟨offset, op, some operand⟩ :: ·)

/-- How an instruction at an offset is read where constants are numbered by `pool`. -/
inductive Stands (pool : Array Value) (offset : Nat) : Instruction → Word → Prop
  | plain {op : Opcode} (single : op.operandWidth = 0) :
      Stands pool offset (.plain op) ⟨offset, op, none⟩
  | load {value : Value} {index : UInt8} (found : pool[index.toNat]? = some value) :
      Stands pool offset (.load value) ⟨offset, .constant, some index⟩
  | jump (distance : UInt8) :
      Stands pool offset (.jump distance.toNat) ⟨offset, .jump, some distance⟩
  | jumpIfFalse (distance : UInt8) :
      Stands pool offset (.jumpIfFalse distance.toNat) ⟨offset, .jumpIfFalse, some distance⟩

theorem Stands.offset_eq {pool : Array Value} {offset : Nat} {i : Instruction} {w : Word}
    (stands : Stands pool offset i w) : w.offset = offset := by
  cases stands <;> rfl

theorem decodeFrom_single (offset : Nat) {op : Opcode} (single : op.operandWidth = 0)
    (rest : List UInt8) :
    decodeFrom offset (op.byte :: rest) =
      (decodeFrom (offset + 1) rest).map (⟨offset, op, none⟩ :: ·) := by
  simp only [decodeFrom, Opcode.ofByte?_byte, single, ↓reduceIte]

theorem decodeFrom_pair (offset : Nat) {op : Opcode} (pair : op.operandWidth = 1) (operand : UInt8)
    (rest : List UInt8) :
    decodeFrom offset (op.byte :: operand :: rest) =
      (decodeFrom (offset + 2) rest).map (⟨offset, op, some operand⟩ :: ·) := by
  rw [decodeFrom, Opcode.ofByte?_byte]
  simp only [pair, Nat.one_ne_zero, ↓reduceIte]

/-- The bytes of an instruction are read as that instruction. -/
theorem decodeFrom_code {pool : Array Value} {i : Instruction} {bytes : List UInt8}
    (encoded : i.Encodes pool bytes) (offset : Nat) (rest : List UInt8) :
    ∃ w, Stands pool offset i w ∧
      decodeFrom offset (bytes ++ rest) = (decodeFrom (offset + i.width) rest).map (w :: ·) := by
  cases i with
  | plain op =>
    obtain ⟨single, rfl⟩ := encoded
    exact ⟨_, .plain single, decodeFrom_single offset single rest⟩
  | load value =>
    obtain ⟨index, found, rfl⟩ := encoded
    exact ⟨_, .load found, decodeFrom_pair offset rfl index rest⟩
  | jump distance =>
    obtain ⟨operand, rfl, rfl⟩ := encoded
    exact ⟨_, .jump operand, decodeFrom_pair offset rfl operand rest⟩
  | jumpIfFalse distance =>
    obtain ⟨operand, rfl, rfl⟩ := encoded
    exact ⟨_, .jumpIfFalse operand, decodeFrom_pair offset rfl operand rest⟩

end Word

/-- The lines from an offset on are read as these words. -/
inductive Reads (pool : Array Value) : Nat → List Line → List Word → Prop
  | nil {offset : Nat} : Reads pool offset [] []
  | mark {offset : Nat} {lines : List Line} {words : List Word} (name : String)
      (rest : Reads pool offset lines words) : Reads pool offset (.mark name :: lines) words
  | code {offset : Nat} {i : Instruction} {w : Word} {lines : List Line} {words : List Word}
      (stands : Word.Stands pool offset i w) (rest : Reads pool (offset + i.width) lines words) :
      Reads pool offset (.code i :: lines) (w :: words)

theorem Encodes.reads {pool : Array Value} {bytes : List UInt8} {lines : List Line}
    (encoded : Encodes pool bytes lines) (offset : Nat) :
    ∃ words, Word.decodeFrom offset bytes = some words ∧ Reads pool offset lines words := by
  induction lines generalizing bytes offset with
  | nil =>
    rw [show bytes = [] from encoded]
    exact ⟨[], rfl, .nil⟩
  | cons line rest ih =>
    cases line with
    | mark name =>
      obtain ⟨words, decoded, reads⟩ := ih encoded offset
      exact ⟨words, decoded, .mark name reads⟩
    | code i =>
      obtain ⟨first, others, rfl, head, tail⟩ := encoded
      obtain ⟨w, stands, decodes⟩ := Word.decodeFrom_code head offset others
      obtain ⟨words, decoded, reads⟩ := ih tail (offset + i.width)
      exact ⟨w :: words, by rw [decodes, decoded]; rfl, .code stands reads⟩

namespace Reads

variable {pool : Array Value} {offset : Nat} {front back lines : List Line}
  {words before after : List Word}

/-- Words that are read from two stretches of lines are read from one after the other. -/
theorem of_append (reads : Reads pool offset (front ++ back) words) :
    ∃ before after, words = before ++ after ∧ Reads pool offset front before ∧
      Reads pool (offset + codeSize front) back after := by
  induction front generalizing offset words with
  | nil => exact ⟨[], words, rfl, .nil, reads⟩
  | cons line rest ih =>
    cases reads with
    | mark name later =>
      obtain ⟨before, after, rfl, first, second⟩ := ih later
      exact ⟨before, after, rfl, .mark name first, second⟩
    | code stands later =>
      obtain ⟨before, after, rfl, first, second⟩ := ih later
      rw [Nat.add_assoc] at second
      exact ⟨_ :: before, after, rfl, .code stands first, second⟩

/-- Where a word is, there is the instruction that it was read from. -/
theorem split {w : Word} (reads : Reads pool offset lines (before ++ w :: after)) :
    ∃ front i back, lines = front ++ .code i :: back ∧ Reads pool offset front before ∧
      Word.Stands pool (offset + codeSize front) i w := by
  induction lines generalizing offset before with
  | nil => cases before <;> cases reads
  | cons line rest ih =>
    cases line with
    | mark name =>
      cases reads with
      | mark _ later =>
        obtain ⟨front, i, back, rfl, first, stands⟩ := ih later
        exact ⟨.mark name :: front, i, back, rfl, .mark name first, stands⟩
    | code j =>
      cases before with
      | nil =>
        cases reads with
        | code stands later => exact ⟨[], j, rest, rfl, .nil, stands⟩
      | cons v before =>
        cases reads with
        | code here later =>
          obtain ⟨front, i, back, rfl, first, stands⟩ := ih later
          rw [Nat.add_assoc] at stands
          exact ⟨.code j :: front, i, back, rfl, .code here first, stands⟩

/-- Lines with an instruction start with a word at their offset. -/
theorem first {i : Instruction} (reads : Reads pool offset (front ++ .code i :: back) words) :
    ∃ w later, words = w :: later ∧ w.offset = offset := by
  induction front generalizing offset words with
  | nil =>
    cases reads with
    | code stands later => exact ⟨_, _, rfl, stands.offset_eq⟩
  | cons line rest ih =>
    cases reads with
    | mark name later => exact ih later
    | code stands later => exact ⟨_, _, rfl, stands.offset_eq⟩

end Reads

end Cellscript
