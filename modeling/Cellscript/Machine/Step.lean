import Cellscript.Machine.Basic

/-!
One instruction at a time.
-/

set_option autoImplicit false

namespace Cellscript

/-- What instructions do with values and names. Apart from that they are the same
for all machines. -/
structure Dialect (V S : Type) where
  number : Float → V
  truth : Bool → V
  pointer : Cell → V
  number? : V → Option Float
  isFalsey : V → Bool
  equals : V → V → Bool
  constant? : Nat → Option V
  /-- What printing shows of a value. -/
  shown : S → V → String
  /-- Where a value sends control, if anywhere. -/
  goto : V → Machine.ActionOf V S (Option Nat)
  /-- The offset of the label that a value names. -/
  label : V → Machine.ActionOf V S Nat
  assign : (operand value : V) → Machine.ActionOf V S Cell
  read : V → Machine.ActionOf V S V
  exchange : (left right : V) → Machine.ActionOf V S Cell

namespace Machine

variable {V S : Type}

/-- The byte at an offset. Code has to return before it ends. -/
def fetch (chunk : Chunk) (offset : Nat) : ActionOf V S UInt8 := fun m =>
  match chunk.byteAt? offset with
  | some byte => .ok byte m
  | none => .error .missingReturn m

end Machine

namespace Dialect

open Machine (ActionOf fetch push pop popNumbers print)

variable {V S : Type} (d : Dialect V S)

def arithmetic (op : Opcode) (x y : Float) : V :=
  match op with
  | .add => d.number (x + y)
  | .subtract => d.number (x - y)
  | .multiply => d.number (x * y)
  | .divide => d.number (x / y)
  | .less => d.truth (x < y)
  | _ => d.truth (x > y)

/-- Carries out an instruction whose byte stands before `ip`. Gives the offset of the next one, or
none once the code returns. -/
def perform (chunk : Chunk) (op : Opcode) (ip : Nat) : ActionOf V S (Option Nat) :=
  match op with
  | .halt => return none
  | .constant => do
    let index ← fetch chunk ip
    match d.constant? index.toNat with
    | some value => push value
    | none => throw (.invalidConstant index.toNat)
    return some (ip + 1)
  | .yes => do
    push (d.truth true)
    return some ip
  | .no => do
    push (d.truth false)
    return some ip
  | .negate => do
    match d.number? (← pop) with
    | some x => push (d.number (-x))
    | none => throw .numberOperand
    return some ip
  | .not => do
    push (d.truth (d.isFalsey (← pop)))
    return some ip
  | .add | .subtract | .multiply | .divide | .less | .greater => do
    let (x, y) ← popNumbers d.number?
    push (d.arithmetic op x y)
    return some ip
  | .equal => do
    let b ← pop
    let a ← pop
    push (d.truth (d.equals a b))
    return some ip
  | .print => do
    let value ← pop
    print (d.shown (← EStateM.get).store value)
    return some ip
  | .pop => do
    let value ← pop
    let target ← d.goto value
    return some (target.getD ip)
  | .setPointer => do
    let value ← pop
    let operand ← pop
    push (d.pointer (← d.assign operand value))
    return some ip
  | .setPointerNoPush => do
    let value ← pop
    let operand ← pop
    let _ ← d.assign operand value
    return some ip
  | .setPointerInverse => do
    let operand ← pop
    let value ← pop
    push (d.pointer (← d.assign operand value))
    return some ip
  | .getPointer => do
    let operand ← pop
    push (← d.read operand)
    return some ip
  | .exchange => do
    let right ← pop
    let left ← pop
    push (d.pointer (← d.exchange left right))
    return some ip
  | .jumpIfFalseToLabel => do
    let label ← pop
    let predicate ← pop
    if d.isFalsey predicate then return some (← d.label label) else return some ip
  | .jump => do
    let distance ← fetch chunk ip
    return some (ip + 1 + distance.toNat)
  | .jumpIfFalse => do
    let distance ← fetch chunk ip
    let predicate ← pop
    return some (if d.isFalsey predicate then ip + 1 + distance.toNat else ip + 1)

def step (chunk : Chunk) (ip : Nat) : ActionOf V S (Option Nat) := do
  let byte ← fetch chunk ip
  match Opcode.ofByte? byte with
  | some op => d.perform chunk op (ip + 1)
  | none => throw (.invalidOpcode byte)

end Dialect

namespace Machine

/-! ## Values and names -/

/-- What printing shows of a value: a text that names a cell shows the value there. -/
def shown (s : Store) (value : Value) : Value :=
  match value with
  | .text name => (s.valueOf? name).getD value
  | _ => value

/-- A number can be an offset if it is whole and inside the code. -/
def offset? (chunk : Chunk) (x : Float) : Option Nat :=
  let offset := x.toUInt64
  if x ≥ 0 && offset.toFloat == x && offset.toNat < chunk.size then some offset.toNat else none

/-- Where a value sends control: to the label that it names, else to the offset that the cell it
names holds. Any other value sends it nowhere. -/
def gotoTarget (chunk : Chunk) (value : Value) (s : Store) : Except Fault (Option Nat) :=
  match value.name? with
  | none => .ok none
  | some name =>
    match chunk.resolve? name, s.bound? name with
    | some offset, _ => .ok (some offset)
    | none, none => .ok none
    | none, some c =>
      match s.get (s.root c) with
      | .error fault => .error fault
      | .ok (.number x) =>
        match offset? chunk x with
        | some offset => .ok (some offset)
        | none => .error (.invalidJumpTarget (plainText x))
      | .ok _ => .ok none

def labelOffset (chunk : Chunk) (label : Value) : Action Nat := fun m =>
  match label.name?.bind chunk.resolve? with
  | some offset => .ok offset m
  | none => .error (.undefinedLabel label.plain) m

/-- Texts are names by themselves. -/
def dialect (chunk : Chunk) : Dialect Value Store where
  number := .number
  truth := .truth
  pointer := .pointer
  number? := Value.number?
  isFalsey := Value.isFalsey
  equals := Value.equals
  constant? index := chunk.constants[index]?
  shown s value := (shown s value).plain
  goto value := ofStore (gotoTarget chunk value)
  label := labelOffset chunk
  assign operand value := onStore (Store.assign operand value)
  read operand := ofStore (·.read operand)
  exchange left right := onStore (Store.exchange left right)

def perform (chunk : Chunk) (op : Opcode) (ip : Nat) : Action (Option Nat) :=
  (dialect chunk).perform chunk op ip

def step (chunk : Chunk) (ip : Nat) : Action (Option Nat) := (dialect chunk).step chunk ip

end Machine

end Cellscript
