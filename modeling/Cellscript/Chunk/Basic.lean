import Cellscript.Opcode
import Cellscript.Value

/-!
Chunks: code with the source line of every byte, a pool of constants that one byte can number, and
labels. Code is written front to back; forward jumps are written with a placeholder that is patched
once their target is known.
-/

set_option autoImplicit false

namespace Cellscript

/-- A byte of code and the source line that it comes from. -/
structure CodeByte where
  value : UInt8
  line : Nat
deriving DecidableEq

/-- Code with its constants and labels. The jump table is what the labels were when the chunk was
last finalized. -/
structure Chunk where
  code : Array CodeByte := #[]
  constants : Array Value := #[]
  labels : List (String × Nat) := []
  jumps : List (String × Nat) := []

inductive Chunk.Error
  | tooManyConstants
  | jumpTooLarge (distance : Nat)
  | duplicateLabel (name : String)
  | invalidOpcode (byte : UInt8)
  | truncatedInstruction (offset : Nat)
  | missingConstant (index : Nat)
deriving DecidableEq

/-- Two hexadecimal digits in upper case. -/
def hexByte (b : UInt8) : String :=
  String.ofList ((Nat.toDigits 16 (256 + b.toNat)).drop 1 |>.map Char.toUpper)

def Chunk.Error.message : Chunk.Error → String
  | .tooManyConstants => "Too many constants in one chunk."
  | .jumpTooLarge distance => "Too much code to jump over (" ++ toString distance ++ " bytes)."
  | .duplicateLabel name => "Label '" ++ name ++ "' is already defined."
  | .invalidOpcode byte => "Invalid opcode 0x" ++ hexByte byte ++ "."
  | .truncatedInstruction offset =>
    "Instruction at offset " ++ toString offset ++ " is missing its operand."
  | .missingConstant index => "Constant index " ++ toString index ++ " is outside the pool."

namespace Chunk

def size (c : Chunk) : Nat := c.code.size

def push (c : Chunk) (b : CodeByte) : Chunk := { c with code := c.code.push b }

def emit (c : Chunk) (byte : UInt8) (line : Nat) : Chunk := c.push ⟨byte, line⟩

def emitPair (c : Chunk) (op : Opcode) (operand : UInt8) (line : Nat) : Chunk :=
  (c.emit op.byte line).emit operand line

/-- What stands for a distance that is not known yet. -/
def placeholder : UInt8 := 0xFF

/-- Appends a jump whose distance is not known yet. The placeholder is its last byte. -/
def emitJump (c : Chunk) (op : Opcode) (line : Nat) : Chunk := c.emitPair op placeholder line

/-- Whether two constants can share a place in the pool. Numbers have to agree in every bit, so the
two zeros keep apart; values other than numbers and texts are never shared. -/
def shares : Value → Value → Bool
  | .number x, .number y => x.toBits == y.toBits
  | .text s, .text t => s == t
  | _, _ => false

/-- How many constants one operand byte can number. -/
def maxConstants : Nat := 256

/-- The number of a constant, which joins the pool unless it can share a place there. -/
def addConstant (c : Chunk) (value : Value) : Except Error (UInt8 × Chunk) :=
  match c.constants.findIdx? (shares · value) with
  | some index => .ok (index.toUInt8, c)
  | none =>
    if maxConstants ≤ c.constants.size then .error .tooManyConstants
    else .ok (c.constants.size.toUInt8, { c with constants := c.constants.push value })

/-- Overwrites the byte at an offset. Past the end nothing happens. -/
def patch (c : Chunk) (offset : Nat) (byte : UInt8) : Chunk :=
  { c with code := c.code.modify offset fun b => { b with value := byte } }

/-- Lets the jump whose operand is at `offset` reach the present end of the code. -/
def patchJump (c : Chunk) (offset : Nat) : Except Error Chunk :=
  let distance := c.size - offset - 1
  if distance < 256 then .ok (c.patch offset distance.toUInt8)
  else .error (.jumpTooLarge distance)

def label? (c : Chunk) (name : String) : Option Nat := c.labels.lookup name

/-- Gives a name to an offset, unless the name is taken. -/
def insertLabel (c : Chunk) (name : String) (offset : Nat) : Except Error Chunk :=
  match c.label? name with
  | some _ => .error (.duplicateLabel name)
  | none => .ok { c with labels := c.labels ++ [(name, offset)] }

/-- Gives a name to the present end of the code. -/
def defineLabel (c : Chunk) (name : String) : Except Error Chunk := c.insertLabel name c.size

/-- Takes the labels over into the jump table. -/
def finalize (c : Chunk) : Chunk := { c with jumps := c.labels }

/-- Where a goto to `name` leads, by the jump table. -/
def resolve? (c : Chunk) (name : String) : Option Nat := c.jumps.lookup name

def byteAt? (c : Chunk) (offset : Nat) : Option UInt8 := c.code[offset]?.map (·.value)

/-- The source line of a byte, and 0 past the end. -/
def lineAt (c : Chunk) (offset : Nat) : Nat :=
  match c.code[offset]? with
  | some b => b.line
  | none => 0

end Chunk

end Cellscript
