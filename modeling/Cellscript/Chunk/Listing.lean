import Cellscript.Chunk.Basic
import Cellscript.Text.Column

/-!
Listings: one line for every instruction of a chunk, in the order of the code, and one for every
label in front of the first instruction that does not stand before it.
-/

set_option autoImplicit false

namespace Cellscript.Chunk

def offsetText (offset : Nat) : String := rightAligned 4 '0' (toString offset)

/-- The offset and the line of an instruction; a bar stands for a line that has not changed. -/
def lead (c : Chunk) (offset : Nat) : String :=
  let line := c.lineAt offset
  if 0 < offset && c.lineAt (offset - 1) == line then offsetText offset ++ "    | "
  else offsetText offset ++ " " ++ rightAligned 4 ' ' (toString line) ++ " "

/-- How many bytes the instruction at an offset takes in a listing. What is no instruction takes
one. -/
def width (c : Chunk) (offset : Nat) : Nat :=
  match (c.byteAt? offset).bind Opcode.ofByte? with
  | some op => 1 + op.operandWidth
  | none => 1

theorem width_pos (c : Chunk) (offset : Nat) : 0 < c.width offset := by
  unfold width
  split <;> omega

def operandText (c : Chunk) (offset : Nat) (op : Opcode) (operand : UInt8) : String :=
  let number := rightAligned 3 ' ' (toString operand.toNat)
  if op = .constant then
    match c.constants[operand.toNat]? with
    | some value => number ++ " " ++ value.tagged
    | none => number ++ " <missing>"
  else number ++ " -> " ++ offsetText (offset + 2 + operand.toNat)

/-- The instruction at an offset, with its operand if that is there. -/
def body (c : Chunk) (offset : Nat) : String :=
  match c.byteAt? offset with
  | none => "<end of chunk>"
  | some byte =>
    match Opcode.ofByte? byte with
    | none => "Unknown OP " ++ toString byte.toNat
    | some op =>
      match op.operandWidth, c.byteAt? (offset + 1) with
      | 1, some operand => leftAligned 26 op.name ++ " " ++ c.operandText offset op operand
      | _, _ => op.name

def instructionText (c : Chunk) (offset : Nat) : String := c.lead offset ++ c.body offset

/-- The offsets at which instructions start, from `offset` on. -/
def sweepFrom (c : Chunk) (offset : Nat) : List Nat :=
  if offset < c.size then offset :: c.sweepFrom (offset + c.width offset) else []
termination_by c.size - offset
decreasing_by
  have positive := c.width_pos offset
  omega

/-- The labels by offset, and by name where offsets agree. -/
def sortedLabels (c : Chunk) : List (String × Nat) :=
  c.labels.mergeSort fun a b => a.2 < b.2 || a.2 == b.2 && a.1 ≤ b.1

def labelLine (label : String × Nat) : String := label.1 ++ ":"

/-- Puts the lines of labels between those of instructions. -/
def interleave (c : Chunk) : List (String × Nat) → List Nat → List String
  | labels, [] => labels.map labelLine
  | labels, offset :: offsets =>
    (labels.takeWhile (·.2 ≤ offset)).map labelLine ++
      c.instructionText offset :: c.interleave (labels.dropWhile (·.2 ≤ offset)) offsets

def listingLines (c : Chunk) : List String := c.interleave c.sortedLabels (c.sweepFrom 0)

/-- The listing of a chunk. Every line ends with a line break. -/
def listing (c : Chunk) : String := String.join (c.listingLines.map (· ++ "\n"))

end Cellscript.Chunk
