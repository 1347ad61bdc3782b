import Cellscript.Compile.Expression

/-!
Loops. A header holds parts, each with a start value, a step, an end and a chain of parameters. A
loop becomes labelled blocks that gotos string together:

* for every parameter, a block that gives it its start value; then a goto to the body,
* for every parameter, a block that adds the step,
* for every parameter, a block that leaves the loop when the end has come; then the body.

The body runs up to the declaration of the exit label and goes back to the first step block.
-/

set_option autoImplicit false

namespace Cellscript

/-- When a part of a loop ends: once the parameter equals a value, or once a condition fails. -/
inductive LoopEnd
  | value (target : Chunk)
  | condition (predicate : Chunk)

/-- One part of a header: code for its start, step and end, and for the addresses it drives. -/
structure LoopPart where
  init : Chunk
  step : Chunk
  finish : LoopEnd
  parameters : List Chunk

/-- A parameter with the part that drives it, and where it stands in the header. -/
structure LoopLink where
  part : Nat
  link : Nat
  source : LoopPart
  parameter : Chunk

def LoopLink.all (parts : List LoopPart) : List LoopLink :=
  parts.zipIdx.flatMap fun (source, part) =>
    source.parameters.zipIdx.map fun (parameter, link) => { part, link, source, parameter }

inductive LoopBlock
  | init | incr | cond
deriving DecidableEq

def LoopBlock.word : LoopBlock → String
  | .init => "init"
  | .incr => "incr"
  | .cond => "cond"

/-- The label of a block, by the loop's number and the parameter's place. -/
def LoopBlock.label (block : LoopBlock) (number part link : Nat) : String :=
  "_" ++ block.word ++ "_" ++ toString number ++ "_" ++ toString part ++ "_" ++ toString link

/-- A loop whose body is being read. -/
structure OpenLoop where
  number : Nat
  exit : String
deriving DecidableEq

namespace Pass

/-! ## Reading the header -/

def loopParameter (p : Pass) : Pass × Chunk :=
  (p.expect .quote .parameterQuote).apart address

/-- Reads the further parameters of a chain; at most `bound` of them. -/
def moreParameters : Nat → Pass → Pass × List Chunk
  | 0, p => (p, [])
  | bound + 1, p =>
    if p.sees .equalGreater then
      let (p, parameter) := p.advance.loopParameter
      let (p, rest) := moreParameters bound p
      (p, parameter :: rest)
    else (p, [])

def loopEnd (p : Pass) : Pass × LoopEnd :=
  if p.sees .leftCurly then
    let (p, predicate) := p.advance.apart expression
    (p.expect .rightCurly .predicateClosing, .condition predicate)
  else
    let (p, target) := p.apart expression
    (p, .value target)

/-- Reads the rest of a part whose start value has been read. -/
def loopPart (p : Pass) (init : Chunk) : Pass × LoopPart :=
  let (p, step) := (p.expect .leftParen .stepOpening).apart expression
  let (p, finish) := (p.expect .rightParen .stepClosing).loopEnd
  let p := (p.expect .dot .endDot).expect .equalGreater .parameterArrow
  let (p, parameter) := p.loopParameter
  let (p, rest) := moreParameters p.left p
  (p, { init, step, finish, parameters := parameter :: rest })

/-- Reads the further parts of a header; at most `bound` of them. -/
def moreParts : Nat → Pass → Pass × List LoopPart
  | 0, p => (p, [])
  | bound + 1, p =>
    if p.sees .divider then
      let (p, init) := p.advance.apart expression
      let (p, part) := p.loopPart init
      let (p, rest) := moreParts bound p
      (p, part :: rest)
    else (p, [])

/-! ## Writing the blocks -/

def emitInit (number : Nat) (p : Pass) (l : LoopLink) : Pass :=
  let p := p.defineLabel (LoopBlock.init.label number l.part l.link)
  ((p.splice l.source.init).splice l.parameter).emitAll [.setPointerInverse, .pop]

def emitIncr (number : Nat) (p : Pass) (l : LoopLink) : Pass :=
  let p := p.defineLabel (LoopBlock.incr.label number l.part l.link)
  let p := ((p.splice l.parameter).splice l.parameter).emit .getPointer
  (p.splice l.source.step).emitAll [.add, .setPointerNoPush]

/-- Writes the test of a link: true as long as the loop goes on. -/
def emitTest (p : Pass) (l : LoopLink) : Pass :=
  match l.source.finish with
  | .value target =>
    (((p.splice l.parameter).emit .getPointer).splice target).emitAll [.equal, .not]
  | .condition predicate => p.splice predicate

def emitCond (number : Nat) (exit : String) (p : Pass) (l : LoopLink) : Pass :=
  let p := p.defineLabel (LoopBlock.cond.label number l.part l.link)
  ((p.emitTest l).emitConstant (.text exit)).emit .jumpIfFalseToLabel

/-- Writes all blocks of a loop up to the place where its body starts. -/
def emitLoop (p : Pass) (number : Nat) (parts : List LoopPart) (start exit : String) : Pass :=
  let links := LoopLink.all parts
  let p := (links.foldl (emitInit number) p).emitGoto start
  let p := links.foldl (emitIncr number) p
  let p := (links.foldl (emitCond number exit) p).emitGoto start
  p.defineLabel start

/-- Writes the way back to the first step block. -/
def closeLoop (p : Pass) (loop : OpenLoop) : Pass :=
  p.emitGoto (LoopBlock.incr.label loop.number 0 0)

end Pass

end Cellscript
