import Cellscript.Compile.Loop

/-!
Statements: printing, returning, conditionals, expressions, labels and the headers of loops.
-/

set_option autoImplicit false

namespace Cellscript.Pass

/-- A statement ends at a terminator, which is read unless it finishes the script. -/
def endStatement (p : Pass) : Pass :=
  if p.atEnd then p
  else if p.sees .newline || p.sees .divider then p.advance
  else p.complainHere .unfinishedStatement

/-- A lone bang, with nothing after it that it could negate. -/
def seesReturn (p : Pass) : Bool :=
  p.sees .bang && (p.next.kind.isTerminator || p.seesNext .pipe)

/-- Writes a conditional whose predicate has been read. `branch` reads a branch. -/
def conditional (branch : Pass → Pass) (predicate : Chunk) (p : Pass) : Pass :=
  let (p, elseJump) := (p.splice predicate).emitJump .jumpIfFalse
  let (p, endJump) := (branch p).emitJump .jump
  let p := p.patchJump elseJump
  let p := if p.sees .pipe then branch p.advance else p
  p.patchJump endJump

/-- Reads an expression that is evaluated for its effect. -/
def expressionStatement (p : Pass) : Pass := p.expression.emit .pop

/-- Reads a statement that may be a branch of a conditional, when at most `bound` tokens are
left. -/
def simpleWithin : Nat → Pass → Pass
  | 0, p => p.expressionStatement
  | bound + 1, p =>
    if p.sees .print || p.sees .pr then p.advance.expression.emit .print
    else if p.seesReturn then p.advance.emit .halt
    else if p.sees .leftCurly then
      let (p, predicate) := p.advance.apart expression
      if p.sees .leftParen then p.complainHere .loopInBranch
      else conditional (simpleWithin bound) predicate (p.expect .rightCurly .unclosedCondition)
    else p.expressionStatement

def simpleStatement (p : Pass) : Pass := simpleWithin p.left p

/-- Reads the rest of a loop's header, whose first start value has been read, and writes the blocks
of the loop. Gives the loop whose body follows, if the header is sound. -/
def loopHeader (p : Pass) (init : Chunk) : Pass × Option OpenLoop :=
  let (p, first) := p.loopPart init
  let (p, rest) := moreParts p.left p
  let p := (p.expect .rightCurly .partsClosing).expect .name .bodyLabel
  let start := p.previous.lexeme
  let p := (p.expect .divider .labelDivider).expect .name .exitLabel
  let exit := p.previous.lexeme
  if p.panicking then (p, none)
  else if start = exit then (p.complainBefore .equalLabels, none)
  else
    let number := p.loopCount
    let p := { p.endStatement with loopCount := number + 1 }
    (p.emitLoop number (first :: rest) start exit, some { number, exit })

/-- Reads what follows a brace: the header of a loop or a conditional. -/
def braceStatement (p : Pass) : Pass × Option OpenLoop :=
  let (p, head) := p.apart expression
  if p.sees .leftParen then p.loopHeader head
  else
    let p := p.expect .rightCurly .unclosedCondition
    ((conditional simpleStatement head p).endStatement, none)

def seesLabel (p : Pass) : Bool := p.sees .name && p.seesNext .dots

/-- Reads a statement with the labels in front of it, when at most `bound` tokens are left. -/
def statementWithin : Nat → Pass → Pass × Option OpenLoop
  | 0, p => (p.simpleStatement.endStatement, none)
  | bound + 1, p =>
    if p.seesLabel then
      let named := p.advance
      let p := named.advance.defineLabel named.previous.lexeme
      if p.current.kind.isTerminator then (p.endStatement, none) else statementWithin bound p
    else if p.sees .leftCurly then p.advance.braceStatement
    else (p.simpleStatement.endStatement, none)

def statement (p : Pass) : Pass × Option OpenLoop := statementWithin p.left p

/-- Reads a separator, or a statement with the recovery after it. A loop's header recovers only when
its body has been read. -/
def declaration (p : Pass) : Pass × Option OpenLoop :=
  if p.sees .newline || p.sees .divider then (p.advance, none)
  else
    match p.statement with
    | (p, none) => (p.recover, none)
    | (p, some loop) => (p, some loop)

end Cellscript.Pass
