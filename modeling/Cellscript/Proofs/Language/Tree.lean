import Cellscript.Compile.Loop
import Cellscript.Proofs.Code.Writing

/-!
Scripts as trees, and the lines of code that a tree stands for.
-/

set_option autoImplicit false

namespace Cellscript

/-! ## Expressions -/

inductive UnaryOperator
  | negate | not | read
deriving DecidableEq

def UnaryOperator.code : UnaryOperator → Opcode
  | negate => .negate
  | not => .not
  | read => .getPointer

/-- An assignment names its target first; a reference names it last. -/
inductive BinaryOperator
  | assign | refer | exchange
  | equal | notEqual
  | greater | greaterEqual | less | lessEqual
  | add | subtract | multiply | divide
deriving DecidableEq

def BinaryOperator.code : BinaryOperator → List Opcode
  | assign => [.setPointer]
  | refer => [.setPointerInverse]
  | exchange => [.exchange]
  | equal => [.equal]
  | notEqual => [.equal, .not]
  | greater => [.greater]
  | greaterEqual => [.less, .not]
  | less => [.less]
  | lessEqual => [.greater, .not]
  | add => [.add]
  | subtract => [.subtract]
  | multiply => [.multiply]
  | divide => [.divide]

inductive Expression
  | number (x : Float)
  | text (s : String)
  | truth (b : Bool)
  | unary (op : UnaryOperator) (e : Expression)
  | binary (op : BinaryOperator) (left right : Expression)

/-- Instructions without operands. -/
def plainLines (ops : List Opcode) : List Line := ops.map fun op => .code (.plain op)

def truthCode (b : Bool) : Opcode := if b then .yes else .no

/-- Operands come before their operator. -/
def Expression.code : Expression → List Line
  | number x => [.code (.load (.number x))]
  | text s => [.code (.load (.text s))]
  | truth b => plainLines [truthCode b]
  | unary op e => e.code ++ plainLines [op.code]
  | binary op left right => left.code ++ right.code ++ plainLines op.code

/-! ## Statements without loops -/

inductive Simple
  | print (e : Expression)
  | stop
  | perform (e : Expression)
  | when (predicate : Expression) (body : Simple)
  | choose (predicate : Expression) (body other : Simple)

/-- The lines of a conditional. The first branch ends with a jump over the second one. -/
def conditionalLines (predicate body other : List Line) : List Line :=
  predicate ++ .code (.jumpIfFalse (codeSize body + 2)) ::
    (body ++ .code (.jump (codeSize other)) :: other)

def Simple.code : Simple → List Line
  | print e => e.code ++ plainLines [.print]
  | stop => plainLines [.halt]
  | perform e => e.code ++ plainLines [.pop]
  | when predicate body => conditionalLines predicate.code body.code []
  | choose predicate body other => conditionalLines predicate.code body.code other.code

/-! ## Loops -/

/-- When a part of a loop ends. -/
inductive Ending
  | value (target : Expression)
  | condition (predicate : Expression)

structure Part where
  init : Expression
  step : Expression
  finish : Ending
  parameters : List Expression

structure Header where
  parts : List Part
  start : String
  exit : String

/-- A parameter of a header with the part that drives it. -/
structure Link where
  part : Nat
  link : Nat
  source : Part
  parameter : Expression

/-- Every parameter in order. -/
def Header.links (header : Header) : List Link :=
  header.parts.zipIdx.flatMap fun (source, part) =>
    source.parameters.zipIdx.map fun (parameter, link) => { part, link, source, parameter }

namespace Link

def mark (l : Link) (block : LoopBlock) (number : Nat) : Line :=
  .mark (block.label number l.part l.link)

def init (number : Nat) (l : Link) : List Line :=
  l.mark .init number :: (l.source.init.code ++ l.parameter.code ++
    plainLines [.setPointerInverse, .pop])

def incr (number : Nat) (l : Link) : List Line :=
  l.mark .incr number :: (l.parameter.code ++ l.parameter.code ++ plainLines [.getPointer] ++
    l.source.step.code ++ plainLines [.add, .setPointerNoPush])

/-- What is computed before a test: whether the loop goes on. -/
def test (l : Link) : List Line :=
  match l.source.finish with
  | .value target =>
    l.parameter.code ++ plainLines [.getPointer] ++ target.code ++ plainLines [.equal, .not]
  | .condition predicate => predicate.code

def cond (number : Nat) (exit : String) (l : Link) : List Line :=
  l.mark .cond number :: (l.test ++ .code (.load (.text exit)) :: plainLines [.jumpIfFalseToLabel])

end Link

/-- Transfers control to a label. -/
def gotoLines (label : String) : List Line := .code (.load (.text label)) :: plainLines [.pop]

namespace Header

def initLines (header : Header) (number : Nat) : List Line :=
  header.links.flatMap (Link.init number) ++ gotoLines header.start

def incrLines (header : Header) (number : Nat) : List Line :=
  header.links.flatMap (Link.incr number)

def condLines (header : Header) (number : Nat) : List Line :=
  header.links.flatMap (Link.cond number header.exit) ++ gotoLines header.start

/-- All that stands before the body of loop `number`. -/
def code (header : Header) (number : Nat) : List Line :=
  header.initLines number ++ header.incrLines number ++ header.condLines number ++
    [.mark header.start]

end Header

/-! ## Scripts -/

/-- A script is read statement by statement; the body of a loop is a script of its own. -/
inductive Script
  | done
  | mark (name : String) (rest : Script)
  | simple (statement : Simple) (rest : Script)
  | loop (header : Header) (body rest : Script)

namespace Script

/-- How many loops a script has, those in bodies included. -/
def loops : Script → Nat
  | done => 0
  | mark _ rest => rest.loops
  | simple _ rest => rest.loops
  | loop _ body rest => 1 + body.loops + rest.loops

/-- The exit labels of all loops in a script. -/
def exits : Script → List String
  | done => []
  | mark _ rest => rest.exits
  | simple _ rest => rest.exits
  | loop header body rest => header.exit :: (body.exits ++ rest.exits)

/-- The lines of a script whose first loop gets this number. -/
def code : Nat → Script → List Line
  | _, done => []
  | number, mark name rest => .mark name :: rest.code number
  | number, simple statement rest => statement.code ++ rest.code number
  | number, loop header body rest =>
    header.code number ++ body.code (number + 1) ++
      gotoLines (LoopBlock.incr.label number 0 0) ++ rest.code (number + 1 + body.loops)

end Script

/-! ## Labels in lines -/

theorem Unmarked.plainLines (ops : List Opcode) : Unmarked (plainLines ops) := by
  intro name member
  obtain ⟨op, _, equal⟩ := List.mem_map.mp member
  cases equal

theorem Expression.code_unmarked (e : Expression) : Unmarked e.code := by
  induction e with
  | number x => exact .code _
  | text s => exact .code _
  | truth b => exact .plainLines _
  | unary op e ih => exact ih.append (.plainLines _)
  | binary op left right leftward rightward =>
    exact (leftward.append rightward).append (.plainLines _)

theorem Simple.code_unmarked (s : Simple) : Unmarked s.code := by
  have conditional {predicate : Expression} {body other : List Line} (first : Unmarked body)
      (second : Unmarked other) : Unmarked (conditionalLines predicate.code body other) := by
    refine predicate.code_unmarked.append ?_
    exact (Unmarked.code _).append (first.append ((Unmarked.code _).append second))
  induction s with
  | print e => exact e.code_unmarked.append (.plainLines _)
  | stop => exact .plainLines _
  | perform e => exact e.code_unmarked.append (.plainLines _)
  | when predicate body ih => exact conditional ih .nil
  | choose predicate body other chosen otherwise => exact conditional chosen otherwise

end Cellscript
