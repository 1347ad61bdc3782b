/-!
The instructions of the machine, each written as one byte that at most one operand byte follows.
-/

set_option autoImplicit false

namespace Cellscript

inductive Opcode
  | halt | constant | yes | no | negate | not
  | add | subtract | multiply | divide | less | greater | equal
  | print | pop
  | setPointer | setPointerNoPush | setPointerInverse | getPointer | exchange
  | jumpIfFalseToLabel | jump | jumpIfFalse
deriving DecidableEq

namespace Opcode

/-- Every instruction, in the order of its byte. -/
def all : List Opcode :=
  [halt, constant, yes, no, negate, not, add, subtract, multiply, divide, less, greater, equal,
    print, pop, setPointer, setPointerNoPush, setPointerInverse, getPointer, exchange,
    jumpIfFalseToLabel, jump, jumpIfFalse]

def byte : Opcode → UInt8
  | halt => 0
  | constant => 1
  | yes => 2
  | no => 3
  | negate => 4
  | not => 5
  | add => 6
  | subtract => 7
  | multiply => 8
  | divide => 9
  | less => 10
  | greater => 11
  | equal => 12
  | print => 13
  | pop => 14
  | setPointer => 15
  | setPointerNoPush => 16
  | setPointerInverse => 17
  | getPointer => 18
  | exchange => 19
  | jumpIfFalseToLabel => 20
  | jump => 21
  | jumpIfFalse => 22

def ofByte? (b : UInt8) : Option Opcode := all[b.toNat]?

theorem ofByte?_byte (op : Opcode) : ofByte? op.byte = some op := by
  cases op <;> rfl

def operandWidth : Opcode → Nat
  | constant | jump | jumpIfFalse => 1
  | _ => 0

def name : Opcode → String
  | halt => "OP_RETURN"
  | constant => "OP_CONSTANT"
  | yes => "OP_TRUE"
  | no => "OP_FALSE"
  | negate => "OP_NEGATE"
  | not => "OP_NOT"
  | add => "OP_ADD"
  | subtract => "OP_SUBTRACT"
  | multiply => "OP_MULTIPLY"
  | divide => "OP_DIVIDE"
  | less => "OP_LESS"
  | greater => "OP_GREATER"
  | equal => "OP_EQUAL"
  | print => "OP_PRINT"
  | pop => "OP_POP"
  | setPointer => "OP_SET_POINTER"
  | setPointerNoPush => "OP_SET_POINTER_NO_PUSH"
  | setPointerInverse => "OP_SET_POINTER_INVERSE"
  | getPointer => "OP_GET_POINTER"
  | exchange => "OP_EXCHANGE"
  | jumpIfFalseToLabel => "OP_JUMP_IF_FALSE_TO_LABEL"
  | jump => "OP_JUMP"
  | jumpIfFalse => "OP_JUMP_IF_FALSE"

end Opcode

end Cellscript
