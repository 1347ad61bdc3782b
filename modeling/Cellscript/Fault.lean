import Cellscript.Chunk.Basic

/-!
Faults: what can stop a running script.
-/

set_option autoImplicit false

namespace Cellscript

inductive Fault
  | numberOperands
  | numberOperand
  | invalidPointer (typeName : String)
  | undefinedVariable (name : String)
  | exchangeOperands (left right : String)
  | undefinedLabel (name : String)
  | invalidJumpTarget (target : String)
  | aliasCycle (name : String)
  | danglingPointer (index : Nat)
  | stackOverflow
  | stackUnderflow
  | arenaExhausted (capacity : Nat)
  | invalidOpcode (byte : UInt8)
  | invalidConstant (index : Nat)
  | missingReturn
  | output (reason : String)
deriving DecidableEq

def Fault.message : Fault → String
  | .numberOperands => "Operands must be numbers."
  | .numberOperand => "Operand must be a number."
  | .invalidPointer typeName =>
    "Expected pointers only of string or number, found " ++ typeName ++ "."
  | .undefinedVariable name => "Undefined variable '" ++ name ++ "'."
  | .exchangeOperands left right =>
    "Exchange requires two pointers, found " ++ left ++ " and " ++ right ++ "."
  | .undefinedLabel name => "Undefined label '" ++ name ++ "'."
  | .invalidJumpTarget target => "Invalid jump target " ++ target ++ "."
  | .aliasCycle name => "Binding '" ++ name ++ "' would create an alias cycle."
  | .danglingPointer index => "Dangling pointer to cell " ++ toString index ++ "."
  | .stackOverflow => "Stack overflow."
  | .stackUnderflow => "Stack underflow."
  | .arenaExhausted capacity => "Arena exhausted (" ++ toString capacity ++ " cells)."
  | .invalidOpcode byte => "Invalid opcode 0x" ++ hexByte byte ++ "."
  | .invalidConstant index => "Invalid constant index " ++ toString index ++ "."
  | .missingReturn => "No return statement."
  | .output reason => "Failed to write output: " ++ reason

/-- A fault and the source line of the instruction that met it. -/
structure Failure where
  fault : Fault
  line : Nat
deriving DecidableEq

def Failure.text (failure : Failure) : String :=
  failure.fault.message ++ "\n[line " ++ toString failure.line ++ "] in script"

end Cellscript
